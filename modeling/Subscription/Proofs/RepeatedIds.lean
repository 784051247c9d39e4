import Subscription.Proofs.Loading
import Subscription.Proofs.Newest

/-! # Which record a replayed state comes from

Ids are meant to grow from record to record, and a history is replayed all the same when the
greatest one is repeated.  The variant is then that of the last of the newest records, and the
dates are those of the first of them (`Record.last?_eq_getLast?_newest`,
`Record.first?_eq_head?_newest`).  So a replay may put the variant of one record beside the dates
of another.  It does not when some newest record has both (`replay_comesFrom_iff`).
-/
namespace Subscription

namespace Record
variable {records : List Record} {r : Record}

/-- The records of the greatest id, in list order. -/
def newest (records : List Record) : List Record :=
  records.filter fun r => records.all (·.id ≤ r.id)

theorem mem_newest_iff : r ∈ newest records ↔ r ∈ records ∧ ∀ s ∈ records, s.id ≤ r.id := by
  simp [newest]

theorem newest_reverse (records : List Record) :
    newest records.reverse = (newest records).reverse := by
  simp only [newest, List.filter_reverse, List.all_reverse]

/-- The newest records end with the one that gives the variant. -/
theorem last?_eq_getLast?_newest (records : List Record) :
    last? records = (newest records).getLast? := by
  cases h : last? records with
  | none =>
    rw [last?_eq_none_iff.mp h]
    rfl
  | some r =>
    obtain ⟨-, hmax⟩ := last?_spec h
    obtain ⟨pre, post, rfl, -, hpost⟩ := last?_split h
    have hnone : post.filter (fun s => (pre ++ r :: post).all (·.id ≤ s.id)) = [] := by
      refine List.filter_eq_nil_iff.mpr fun s hs hall => ?_
      have hle : r.id ≤ s.id := by
        simpa using List.all_eq_true.mp hall r (by simp)
      exact UInt64.not_le.mpr (hpost s hs) hle
    have hself : (pre ++ r :: post).all (·.id ≤ r.id) = true := by
      simpa only [List.all_eq_true, decide_eq_true_eq] using hmax
    rw [newest, List.filter_append, List.filter_cons, if_pos hself, hnone]
    simp

/-- The newest records begin with the one that gives the dates. -/
theorem first?_eq_head?_newest (records : List Record) :
    first? records = (newest records).head? := by
  rw [first?, last?_eq_getLast?_newest, newest_reverse, List.getLast?_reverse]

/-- The records say the same about both dates. -/
structure SameDates (r s : Record) : Prop where
  activeUntil : r.activeUntil = s.activeUntil
  freeActiveUntil : r.freeActiveUntil = s.freeActiveUntil

end Record

open Record

/-- The variant and the dates are those of the record. -/
structure Replayed.ComesFrom (x : Replayed) (r : Record) : Prop where
  variant : x.variant = r.variant
  activeUntil : x.snapshot.activeUntil = r.activeUntil
  freeActiveUntil : x.snapshot.freeActiveUntil = r.freeActiveUntil

/-- **When variant and dates come from one record.**  Of the records of the greatest id, the last
gives the variant and the first gives the dates.  Both come from one record of the greatest id
exactly when one has the variant of the last and the dates of the first.  So it is when all of
them, or the only one, say the same about the variant, or all the same about the dates. -/
theorem replay_comesFrom_iff {m : Family} {records : List Record} {x : Replayed}
    (h : replay m records = .ok x) :
    ∃ first last, (newest records).head? = some first ∧ (newest records).getLast? = some last ∧
      x.variant = last.variant ∧ x.snapshot.activeUntil = first.activeUntil ∧
      x.snapshot.freeActiveUntil = first.freeActiveUntil ∧
      ((∃ r ∈ records, (∀ s ∈ records, s.id ≤ r.id) ∧ x.ComesFrom r) ↔
        ∃ r ∈ newest records, r.variant = last.variant ∧ r.SameDates first) ∧
      ((∀ r ∈ newest records, r.variant = last.variant) ∨
          (∀ r ∈ newest records, r.SameDates first) →
        ∃ r ∈ records, (∀ s ∈ records, s.id ≤ r.id) ∧ x.ComesFrom r) := by
  obtain ⟨last, first, settings, hlast, hfirst, -, rfl⟩ := replay_eq_ok_iff.mp h
  rw [last?_eq_getLast?_newest] at hlast
  rw [first?_eq_head?_newest] at hfirst
  have hiff : (∃ r ∈ records, (∀ s ∈ records, s.id ≤ r.id) ∧
        Replayed.ComesFrom ⟨last.variant, first.activeUntil, first.freeActiveUntil, settings⟩ r) ↔
      ∃ r ∈ newest records, r.variant = last.variant ∧ r.SameDates first := by
    constructor
    · rintro ⟨r, hr, hmax, hcomes⟩
      exact ⟨r, mem_newest_iff.mpr ⟨hr, hmax⟩, hcomes.variant.symm,
        hcomes.activeUntil.symm, hcomes.freeActiveUntil.symm⟩
    · rintro ⟨r, hr, hvariant, hdates⟩
      obtain ⟨hr, hmax⟩ := mem_newest_iff.mp hr
      exact ⟨r, hr, hmax, hvariant.symm, hdates.activeUntil.symm, hdates.freeActiveUntil.symm⟩
  refine ⟨first, last, hfirst, hlast, rfl, rfl, rfl, hiff, ?_⟩
  intro hagree
  rw [hiff]
  rcases hagree with hvariant | hdates
  · have hmem : first ∈ newest records := List.mem_of_head? hfirst
    exact ⟨first, hmem, hvariant first hmem, rfl, rfl⟩
  · have hmem : last ∈ newest records := List.mem_of_getLast? hlast
    exact ⟨last, hmem, rfl, hdates last hmem⟩

namespace Seats

/-- One id for two prolongations of the same variant. -/
def prolongedTwice : List Record := [
  ⟨1, 1001, 1000, 0, {}⟩,
  ⟨2, 1001, 2000, 0, {}⟩,
  ⟨2, 1001, 3000, 0, {}⟩]

/-- The first of the two prolongations gives variant and dates. -/
theorem comesFrom_prolongedTwice :
    ∃ x, replay family prolongedTwice = .ok x ∧ x.snapshot.activeUntil = 2000 ∧
      ∃ r ∈ prolongedTwice, (∀ s ∈ prolongedTwice, s.id ≤ r.id) ∧ x.ComesFrom r := by
  obtain ⟨x, hx, huntil⟩ : ∃ x, replay family prolongedTwice = .ok x ∧
      x.snapshot.activeUntil = 2000 := ⟨_, rfl, rfl⟩
  obtain ⟨first, last, -, hlast, -, -, -, -, hagree⟩ := replay_comesFrom_iff hx
  have hvariant : ∀ r ∈ newest prolongedTwice, r.variant = last.variant := by
    cases hlast
    decide
  exact ⟨x, hx, huntil, hagree (Or.inl hvariant)⟩

/-- One id for two records of different variants, with different dates. -/
def movedAtOnce : List Record := [
  ⟨1, 1001, 1000, 0, {}⟩,
  ⟨1, 1002, 2000, 0, {}⟩]

/-- **The replay puts the variant of one record beside the expiry of the other.** -/
theorem not_comesFrom_movedAtOnce :
    ∃ x, replay family movedAtOnce = .ok x ∧ x.variant = 1002 ∧ x.snapshot.activeUntil = 1000 ∧
      ¬ ∃ r ∈ movedAtOnce, (∀ s ∈ movedAtOnce, s.id ≤ r.id) ∧ x.ComesFrom r := by
  refine ⟨_, rfl, rfl, rfl, ?_⟩
  rintro ⟨r, hr, -, hcomes⟩
  simp only [movedAtOnce, List.mem_cons, List.not_mem_nil, or_false] at hr
  rcases hr with rfl | rfl
  · exact absurd hcomes.variant (by decide)
  · exact absurd hcomes.activeUntil (by decide)

end Seats
end Subscription
