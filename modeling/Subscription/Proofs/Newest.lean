import Mathlib.Data.List.Induction
import Mathlib.Data.List.Nodup
import Subscription.Proofs.FieldReading
import Subscription.Replay.Fold

/-! # The newest record of a history

The newest record is the one of the greatest id, and the last listed of several that
have it (`Record.last?_split`).  The dates are folded from the first of them
(`foldDates_eq`).  When no id occurs twice there is but one, which does not depend on
the order in which the records are listed (`Record.last?_perm`), and neither does the
newest among those that mention a facet (`newestFields_perm`).

The fold of a facet takes records in list order and skips those that are not newer
than all before.  It therefore ends with the fields of the newest mention, laid
over what it had from the records listed before that one (`foldFacet_split`).
-/
namespace Subscription

namespace Record

/-- No two records have one id. -/
def Distinct (records : List Record) : Prop := (records.map Record.id).Nodup

/-- The record of the greatest id; of equal ones, the first. -/
def first? (records : List Record) : Option Record := last? records.reverse

/-- Whether the record says anything about a facet. -/
def mentions (f : Facet) (r : Record) : Bool := (r.facet? f).isSome

theorem mentions_iff {f : Facet} {r : Record} :
    r.mentions f = true ↔ ∃ fields, r.facet? f = some fields := Option.isSome_iff_exists

section Distinct
variable {records records' : List Record}

theorem Distinct.perm (hd : Distinct records) (hp : records.Perm records') :
    Distinct records' := (hp.map Record.id).nodup_iff.mp hd

theorem Distinct.filter (hd : Distinct records) (p : Record → Bool) :
    Distinct (records.filter p) := hd.sublist (List.filter_sublist.map Record.id)

theorem Distinct.eq_of_id (hd : Distinct records) {r s : Record} (hr : r ∈ records)
    (hs : s ∈ records) (h : r.id = s.id) : r = s :=
  List.inj_on_of_nodup_map hd hr hs h

end Distinct

/-! ## The record of the greatest id -/

theorem last?_append_singleton (records : List Record) (r : Record) :
    last? (records ++ [r]) =
      match last? records with
      | none => some r
      | some b => if b.id ≤ r.id then some r else some b := by
  unfold last?
  rw [List.foldl_append]
  rfl

/-- What leaves the ids alone leaves the order of the records alone. -/
theorem last?_map {g : Record → Record} (hid : ∀ r, (g r).id = r.id) (records : List Record) :
    last? (records.map g) = (last? records).map g := by
  induction records using List.reverseRecOn with
  | nil => rfl
  | append_singleton records r ih =>
    rw [List.map_append, List.map_singleton, last?_append_singleton, last?_append_singleton, ih]
    cases last? records with
    | none => rfl
    | some b =>
      simp only [Option.map_some, hid]
      split <;> rfl

/-- A record in front of others is the newest if none of them is of its id or above. -/
theorem last?_cons (r : Record) (records : List Record) :
    last? (r :: records) =
      match last? records with
      | none => some r
      | some b => if r.id ≤ b.id then some b else some r := by
  induction records using List.reverseRecOn with
  | nil => rfl
  | append_singleton records t ih =>
    rw [← List.cons_append, last?_append_singleton, ih, last?_append_singleton]
    cases last? records with
    | none => rfl
    | some b =>
      dsimp only
      by_cases hrb : r.id ≤ b.id <;> by_cases hbt : b.id ≤ t.id <;> simp only [hrb, hbt, if_true,
        if_false]
      · rw [if_pos (UInt64.le_trans hrb hbt)]
      · have htr : ¬ r.id ≤ t.id := fun hrt =>
          hrb (UInt64.le_trans hrt (UInt64.le_of_lt (UInt64.not_le.mp hbt)))
        rw [if_neg htr]

theorem first?_append_singleton (records : List Record) (r : Record) :
    first? (records ++ [r]) =
      match first? records with
      | none => some r
      | some b => if r.id ≤ b.id then some b else some r := by
  unfold first?
  rw [List.reverse_append]
  exact last?_cons r records.reverse

theorem first?_map {g : Record → Record} (hid : ∀ r, (g r).id = r.id) (records : List Record) :
    first? (records.map g) = (first? records).map g := by
  unfold first?
  rw [← List.map_reverse, last?_map hid]

theorem last?_eq_none_iff {records : List Record} : last? records = none ↔ records = [] := by
  induction records using List.reverseRecOn with
  | nil => exact ⟨fun _ => rfl, fun _ => rfl⟩
  | append_singleton records r ih =>
    rw [last?_append_singleton]
    constructor
    · intro h
      split at h
      · cases h
      · split at h <;> cases h
    · intro h
      simp at h

/-- The newest record is the last one of the greatest id: none listed before it is above it, and
all listed after it are below. -/
theorem last?_split {records : List Record} {r : Record} (h : last? records = some r) :
    ∃ pre post, records = pre ++ r :: post ∧ (∀ s ∈ pre, s.id ≤ r.id) ∧ ∀ s ∈ post, s.id < r.id := by
  induction records using List.reverseRecOn generalizing r with
  | nil => cases h
  | append_singleton records t ih =>
    rw [last?_append_singleton] at h
    cases hb : last? records with
    | none =>
      rw [hb] at h
      cases h
      rw [last?_eq_none_iff.mp hb]
      exact ⟨[], [], rfl, by simp, by simp⟩
    | some b =>
      obtain ⟨pre, post, rfl, hpre, hpost⟩ := ih hb
      rw [hb] at h
      dsimp only at h
      split at h
      -- The new record takes over also from one of its own id, or it is below.
      · rename_i hbt
        cases h
        refine ⟨pre ++ b :: post, [], rfl, fun s hs => ?_, by simp⟩
        rcases List.mem_append.mp hs with hs | hs
        · exact UInt64.le_trans (hpre s hs) hbt
        · rcases List.mem_cons.mp hs with rfl | hs
          · exact hbt
          · exact UInt64.le_trans (UInt64.le_of_lt (hpost s hs)) hbt
      · rename_i hbt
        cases h
        refine ⟨pre, post ++ [t], by simp, hpre, fun s hs => ?_⟩
        rcases List.mem_append.mp hs with hs | hs
        · exact hpost s hs
        · rw [List.mem_singleton.mp hs]
          exact UInt64.not_le.mp hbt

theorem last?_spec {records : List Record} {r : Record} (h : last? records = some r) :
    r ∈ records ∧ ∀ s ∈ records, s.id ≤ r.id := by
  obtain ⟨pre, post, rfl, hpre, hpost⟩ := last?_split h
  refine ⟨by simp, fun s hs => ?_⟩
  rcases List.mem_append.mp hs with hs | hs
  · exact hpre s hs
  · rcases List.mem_cons.mp hs with rfl | hs
    · exact UInt64.le_refl _
    · exact UInt64.le_of_lt (hpost s hs)

/-- A record that is above every other is the newest, whatever ids the others repeat. -/
theorem last?_eq_of_above {records : List Record} {r : Record} (hr : r ∈ records)
    (h : ∀ s ∈ records, s = r ∨ s.id < r.id) : last? records = some r := by
  cases hl : last? records with
  | none => rw [last?_eq_none_iff.mp hl] at hr; cases hr
  | some b =>
    obtain ⟨hb, hmax⟩ := last?_spec hl
    rcases h b hb with rfl | hlt
    · rfl
    · exact absurd hlt (UInt64.not_lt.mpr (hmax r hr))

/-- Without repeated ids, the newest record is the one that no other is above. -/
theorem last?_eq_some_iff {records : List Record} (hd : Distinct records) {r : Record} :
    last? records = some r ↔ r ∈ records ∧ ∀ s ∈ records, s.id ≤ r.id := by
  refine ⟨last?_spec, ?_⟩
  rintro ⟨hr, hmax⟩
  refine last?_eq_of_above hr fun s hs => ?_
  by_cases hid : s.id = r.id
  · exact Or.inl (hd.eq_of_id hs hr hid)
  · exact Or.inr (UInt64.lt_of_le_of_ne (hmax s hs) hid)

theorem last?_perm {records records' : List Record} (hd : Distinct records)
    (hp : records.Perm records') : last? records = last? records' := by
  refine Option.ext fun r => ?_
  rw [last?_eq_some_iff hd, last?_eq_some_iff (hd.perm hp)]
  simp only [hp.mem_iff]

theorem first?_eq_last? {records : List Record} (hd : Distinct records) :
    first? records = last? records :=
  (last?_perm hd (List.reverse_perm records).symm).symm

end Record

open Record

/-- **The fold of the dates ends with those of the first record of the greatest id**: it takes over
only from a record that is above all before. -/
theorem foldDates_eq (records : List Record) :
    foldDates records =
      match first? records with
      | none => {}
      | some r => ⟨some r.id, r.activeUntil, r.freeActiveUntil⟩ := by
  induction records using List.reverseRecOn with
  | nil => rfl
  | append_singleton records r ih =>
    have hfold : foldDates (records ++ [r]) = (foldDates records).step r := List.foldl_append
    rw [hfold, ih, first?_append_singleton]
    cases first? records with
    | none => rfl
    | some b =>
      by_cases hid : r.id ≤ b.id <;> simp [DatesFold.step, hid]

theorem first?_eq_none_iff {records : List Record} : first? records = none ↔ records = [] := by
  unfold first?
  rw [last?_eq_none_iff, List.reverse_eq_nil_iff]

/-- The fields of a facet in the newest record that mentions it. -/
def newestFields (f : Facet) (records : List Record) : Option Fields :=
  (last? (records.filter (mentions f))).bind (·.facet? f)

theorem newestFields_perm {f : Facet} {records records' : List Record} (hd : Distinct records)
    (hp : records.Perm records') : newestFields f records = newestFields f records' := by
  unfold newestFields
  rw [last?_perm (hd.filter _) (hp.filter _)]

/-- A facet is mentioned by no record, or its newest fields are those of the newest
record that mentions it. -/
theorem newestFields_cases (f : Facet) (records : List Record) :
    (newestFields f records = none ∧ ∀ r ∈ records, r.facet? f = none) ∨
      ∃ r ∈ records, ∃ fields, r.facet? f = some fields ∧
        (∀ s ∈ records, s.mentions f = true → s.id ≤ r.id) ∧
        newestFields f records = some fields := by
  unfold newestFields
  cases hl : last? (records.filter (mentions f)) with
  | none =>
    refine Or.inl ⟨rfl, fun r hr => Option.not_isSome_iff_eq_none.mp fun hm => ?_⟩
    have hmem : r ∈ records.filter (mentions f) := List.mem_filter.mpr ⟨hr, hm⟩
    rw [last?_eq_none_iff.mp hl] at hmem
    cases hmem
  | some r =>
    obtain ⟨hr, hmax⟩ := last?_spec hl
    obtain ⟨hr, hm⟩ := List.mem_filter.mp hr
    obtain ⟨fields, hfields⟩ := mentions_iff.mp hm
    refine Or.inr ⟨r, hr, fields, hfields, ?_, hfields⟩
    exact fun s hs hsm => hmax s (List.mem_filter.mpr ⟨hs, hsm⟩)

/-! ## The fold of a facet -/

section Fold
variable {f : Facet}

/-- Records that are not newer than what was seen are skipped. -/
theorem foldl_step_of_le {acc : FacetFold} {i : UInt64} (hseen : acc.seen = some i)
    {post : List Record} (hpost : ∀ s ∈ post, s.mentions f = true → s.id ≤ i) :
    post.foldl (FacetFold.step f) acc = acc := by
  induction post with
  | nil => rfl
  | cons s post ih =>
    have hstep : FacetFold.step f acc s = acc := by
      unfold FacetFold.step
      cases hs : s.facet? f with
      | none => rfl
      | some fields =>
        have hle : s.id ≤ i := hpost s List.mem_cons_self (mentions_iff.mpr ⟨fields, hs⟩)
        simp [hseen, hle]
    rw [List.foldl_cons, hstep]
    exact ih fun t ht => hpost t (List.mem_cons_of_mem _ ht)

/-- What was seen is the id of a record that mentions the facet. -/
theorem seen_foldl_step (pre : List Record) (acc : FacetFold) {i : UInt64}
    (h : (pre.foldl (FacetFold.step f) acc).seen = some i) :
    acc.seen = some i ∨ ∃ s ∈ pre, s.mentions f = true ∧ s.id = i := by
  induction pre generalizing acc with
  | nil => exact Or.inl h
  | cons s pre ih =>
    rcases ih _ h with hseen | ⟨t, ht, htm, hti⟩
    · unfold FacetFold.step at hseen
      cases hs : s.facet? f with
      | none => rw [hs] at hseen; exact Or.inl hseen
      | some fields =>
        rw [hs] at hseen
        dsimp only at hseen
        split at hseen
        · exact Or.inl hseen
        · exact Or.inr ⟨s, List.mem_cons_self, mentions_iff.mpr ⟨fields, hs⟩, Option.some.inj hseen⟩
    · exact Or.inr ⟨t, List.mem_cons_of_mem _ ht, htm, hti⟩

/-- Every folded field comes from a record that mentions the facet. -/
theorem get?_foldl_step (pre : List Record) (acc : FacetFold) {name : String} {v : Value}
    (h : (pre.foldl (FacetFold.step f) acc).fields.get? name = some v) :
    acc.fields.get? name = some v ∨
      ∃ s ∈ pre, ∃ fields, s.facet? f = some fields ∧ fields.get? name = some v := by
  induction pre generalizing acc with
  | nil => exact Or.inl h
  | cons s pre ih =>
    rcases ih _ h with hacc | ⟨t, ht, hfields⟩
    · unfold FacetFold.step at hacc
      cases hs : s.facet? f with
      | none => rw [hs] at hacc; exact Or.inl hacc
      | some fields =>
        rw [hs] at hacc
        dsimp only at hacc
        split at hacc
        · exact Or.inl hacc
        · rw [Table.get?_overlay] at hacc
          rcases Option.or_eq_some_iff.mp hacc with hv | ⟨-, hv⟩
          · exact Or.inr ⟨s, List.mem_cons_self, fields, hs, hv⟩
          · exact Or.inl hv
    · exact Or.inr ⟨t, List.mem_cons_of_mem _ ht, hfields⟩

/-- **The fold ends at the newest mention**: with its fields, laid over those of the
records listed before it. -/
theorem foldFacet_split {pre post : List Record} {r : Record} {fields : Fields}
    (hr : r.facet? f = some fields) (hpre : ∀ s ∈ pre, s.mentions f = true → s.id < r.id)
    (hpost : ∀ s ∈ post, s.mentions f = true → s.id ≤ r.id) :
    foldFacet f (pre ++ r :: post) = (foldFacet f pre).overlay fields := by
  have hstep : FacetFold.step f (pre.foldl (FacetFold.step f) {}) r =
      ⟨some r.id, (foldFacet f pre).overlay fields⟩ := by
    unfold FacetFold.step
    rw [hr]
    dsimp only
    -- The record is newer than any of the prefix, so it is taken.
    rw [if_neg]
    · rfl
    · intro hany
      obtain ⟨i, hi, hle⟩ := (Option.any_eq_true _ _).mp hany
      rcases seen_foldl_step pre {} hi with h | ⟨s, hs, hm, rfl⟩
      · cases h
      · exact UInt64.not_le.mpr (hpre s hs hm) (of_decide_eq_true hle)
  unfold foldFacet
  rw [List.foldl_append, List.foldl_cons, hstep, foldl_step_of_le rfl hpost]
  rfl

theorem foldFacet_of_unmentioned {records : List Record}
    (h : ∀ r ∈ records, r.facet? f = none) : foldFacet f records = {} := by
  have hfold : records.foldl (FacetFold.step f) {} = {} := by
    induction records with
    | nil => rfl
    | cons r records ih =>
      have hstep : FacetFold.step f {} r = {} := by
        unfold FacetFold.step
        rw [h r List.mem_cons_self]
      rw [List.foldl_cons, hstep]
      exact ih fun s hs => h s (List.mem_cons_of_mem _ hs)
  unfold foldFacet
  rw [hfold]

/-- Without repeated ids, the newest mention splits the history as
`foldFacet_split` has it. -/
theorem exists_split_newest {records : List Record} (hd : Distinct records) {r : Record}
    (hr : r ∈ records) (hmax : ∀ s ∈ records, s.mentions f = true → s.id ≤ r.id) :
    ∃ pre post, records = pre ++ r :: post ∧
      (∀ s ∈ pre, s.mentions f = true → s.id < r.id) ∧
      ∀ s ∈ post, s.mentions f = true → s.id ≤ r.id := by
  obtain ⟨pre, post, rfl⟩ := List.mem_iff_append.mp hr
  refine ⟨pre, post, rfl, fun s hs hm => ?_, fun s hs hm => ?_⟩
  · have hne : s.id ≠ r.id :=
      (List.pairwise_append.mp (List.pairwise_map.mp hd)).2.2 s hs r List.mem_cons_self
    exact UInt64.lt_of_le_of_ne (hmax s (List.mem_append_left _ hs) hm) hne
  · exact hmax s (List.mem_append_right _ (List.mem_cons_of_mem _ hs)) hm

end Fold
end Subscription
