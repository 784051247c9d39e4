import Subscription.Proofs.ClosedForm

/-! # Replaying one history in different orders

A history may be listed in any order, and the newest record is the same one in all of
them.  The facets are too when the history is settled for each (`Settled`): then every
order replays to the same plan (`replay_perm`).  If some order replays at all, this is
also necessary (`replay_perm_iff`): two orders of records that are not settled give
different plans, or one of them gives none.
-/
namespace Subscription

open Record

/-- What a facet is read as does not hang on the order of the records. -/
def Settled (m : Family) (records : List Record) : Facet → Prop
  | .extendPolicy =>
    (∀ r ∈ records, r.NamesRule) → DeadlinesSettled m.defaults.extendRule records
  | f => FacetSettled m f records

section Orders
variable {m : Family} {f : Facet} {records records' : List Record}

theorem settled_iff_of_ne (hf : f ≠ .extendPolicy) :
    Settled m records f ↔ FacetSettled m f records := by
  cases f with
  | extendPolicy => exact absurd rfl hf
  | _ => rfl

/-- Complete records are settled. -/
theorem settled_of_complete (hc : Complete m records) : ∀ f ∈ m.facets, Settled m records f := by
  intro f hm
  by_cases hf : f = .extendPolicy
  · subst hf
    intro _ _ r hr hb
    obtain ⟨rule, hrule⟩ := hc.rule hm r hr hb.mentions
    rw [hb.ownRule_eq_none] at hrule
    cases hrule
  · exact (settled_iff_of_ne hf).mpr (hc.settled hm hf)

theorem rule_foldPolicy_perm (hp : records.Perm records') :
    (foldPolicy m records').rule = (foldPolicy m records).rule := by
  have hrule := ExtendFold.isGreatest_rule { rule := m.defaults.extendRule } records
  have hrule' := ExtendFold.isGreatest_rule { rule := m.defaults.extendRule } records'
  simp only [← hp.mem_iff] at hrule'
  exact hrule'.unique hrule

/-- A settled facet is read as the same in every order. -/
theorem decode_replayedFields_perm (hd : Distinct records) (hm : f ∈ m.facets)
    (hs : Settled m records f) (hp : records.Perm records') {x : Setting} :
    m.decode f (some (replayedFields m records' f)) = .ok x ↔
      m.decode f (some (replayedFields m records f)) = .ok x := by
  by_cases hf : f = .extendPolicy
  · subst hf
    have hnames : (∀ r ∈ records', r.NamesRule) ↔ ∀ r ∈ records, r.NamesRule := by
      simp only [hp.mem_iff]
    refine (decode_foldExtendPolicy hm).trans (Iff.trans ?_ (decode_foldExtendPolicy hm).symm)
    rw [hnames]
    refine and_congr_right fun h => ?_
    rw [rule_foldPolicy_perm hp, trialUntil_foldPolicy h, trialUntil_foldPolicy (hnames.mpr h),
      earliestDeadline_perm (hs h) hp]
  · have hs := (settled_iff_of_ne hf).mp hs
    rw [replayedFields_of_ne hf, replayedFields_of_ne hf,
      decode_foldFacet_of_settled hf (hd.perm hp) (hs.perm hd hp),
      decode_foldFacet_of_settled hf hd hs, newestFields_perm hd hp]

/-- Two orders of records that are not settled for a facet are not read as the same. -/
theorem exists_perm_of_not_settled (hd : Distinct records) (hm : f ∈ m.facets)
    (hs : ¬ Settled m records f) :
    ∃ before after, records.Perm before ∧ records.Perm after ∧
      ∃ x, ¬ (m.decode f (some (replayedFields m before f)) = .ok x ↔
        m.decode f (some (replayedFields m after f)) = .ok x) := by
  by_cases hf : f = .extendPolicy
  · subst hf
    obtain ⟨hnames, hs⟩ := Classical.not_imp.mp hs
    obtain ⟨early, late, hpe, hpl, hlt⟩ := exists_perm_of_not_deadlinesSettled hs
    have hearly : ∀ r ∈ early, r.NamesRule := fun r hr => hnames r (hpe.mem_iff.mpr hr)
    have hlate : ∀ r ∈ late, r.NamesRule := fun r hr => hnames r (hpl.mem_iff.mpr hr)
    have hread : m.decode .extendPolicy (some (replayedFields m early .extendPolicy)) =
        .ok (.extendPolicy ⟨(foldPolicy m early).rule, (foldPolicy m early).trialUntil⟩) :=
      (decode_foldExtendPolicy hm).mpr ⟨hearly, rfl⟩
    refine ⟨early, late, hpe, hpl,
      .extendPolicy ⟨(foldPolicy m early).rule, (foldPolicy m early).trialUntil⟩, ?_⟩
    intro h
    obtain ⟨-, hx⟩ := (decode_foldExtendPolicy hm).mp (h.mp hread)
    injection hx with hpolicy
    injection hpolicy with _ hdeadline
    rw [trialUntil_foldPolicy hearly, trialUntil_foldPolicy hlate] at hdeadline
    exact hlt.ne hdeadline
  · rw [settled_iff_of_ne hf] at hs
    simp only [replayedFields_of_ne hf]
    exact exists_perm_of_not_facetSettled hf hd hs

/-- **A settled history replays to one plan in every order.** -/
theorem replay_perm (hd : Distinct records) (hs : ∀ f ∈ m.facets, Settled m records f)
    (hp : records.Perm records') {q : Replayed} :
    replay m records' = .ok q ↔ replay m records = .ok q := by
  rw [replay_eq_ok_iff_parts hd, replay_eq_ok_iff_parts (hd.perm hp), last?_perm hd hp]
  refine and_congr_right fun _ => forall_congr' fun f => and_congr_left fun _ => ?_
  refine forall_congr' fun hm => exists_congr fun x => and_congr_left fun _ => ?_
  exact decode_replayedFields_perm hd hm (hs f hm) hp

/-- **When the order does not matter**: replaying a history without repeated ids gives
the same in every order exactly when it is settled for every facet of the family, or
cannot be replayed in any order. -/
theorem replay_perm_iff (hd : Distinct records) :
    (∀ records', records.Perm records' →
        ∀ q, replay m records' = .ok q ↔ replay m records = .ok q) ↔
      (∀ f ∈ m.facets, Settled m records f) ∨
        ∀ records', records.Perm records' → ∀ q, replay m records' ≠ .ok q := by
  constructor
  · intro h
    by_contra hcon
    simp only [not_or, not_forall, Decidable.not_not] at hcon
    obtain ⟨⟨f, hm, hs⟩, records', hp, q, hq⟩ := hcon
    have hall {a : List Record} (ha : records.Perm a) : replay m a = .ok q :=
      (h a ha q).mpr ((h records' hp q).mp hq)
    obtain ⟨before, after, hpb, hpa, x, hx⟩ := exists_perm_of_not_settled hd hm hs
    obtain ⟨-, hb⟩ := (replay_eq_ok_iff_parts (hd.perm hpb)).mp (hall hpb)
    obtain ⟨-, ha⟩ := (replay_eq_ok_iff_parts (hd.perm hpa)).mp (hall hpa)
    -- Every order replays to `q`, so both are read as the setting that `q` has.
    obtain ⟨y, hy, hget⟩ := (hb f).1 hm
    obtain ⟨z, hz, hget'⟩ := (ha f).1 hm
    obtain rfl : y = z := Option.some.inj (hget.symm.trans hget')
    rw [hy, hz] at hx
    exact hx Iff.rfl
  · rintro (hs | hnone) records' hp q
    · exact replay_perm hd hs hp
    · exact ⟨fun h => absurd h (hnone records' hp q),
        fun h => absurd h (hnone records (List.Perm.refl _) q)⟩

end Orders

namespace Seats

/-- The complete records of `history` replay to one plan in every order. -/
theorem replay_history_perm :
    Record.Distinct history ∧ ∀ records', history.Perm records' →
      ∀ q, replay family records' = .ok q ↔ replay family history = .ok q := by
  have hsettled := settled_of_complete complete_history
  exact ⟨distinct_history, (replay_perm_iff distinct_history).mpr (Or.inl hsettled)⟩

/-- Twenty seats, and then a mention of the limit without a value. -/
def valueless : List Record := [
  ⟨2, 1001, 2000, 0, ⟨[("limit", ⟨[]⟩)]⟩⟩,
  ⟨1, 1001, 1000, 0, ⟨[("limit", ⟨[("value", .int 20)]⟩)]⟩⟩]

/-- Listed with the newest record first the plan has the least tier; with the newest
last, the twenty seats. -/
theorem replay_valueless :
    Record.Distinct valueless ∧ valueless.Perm valueless.reverse ∧
      ∃ q q', replay family valueless = .ok q ∧ replay family valueless.reverse = .ok q' ∧
        q.snapshot.settings.limit = some ⟨10⟩ ∧ q'.snapshot.settings.limit = some ⟨20⟩ := by
  refine ⟨?_, (List.reverse_perm _).symm, ?_⟩
  · unfold Record.Distinct
    decide
  · exact ⟨_, _, rfl, rfl, rfl, rfl⟩

end Seats
end Subscription
