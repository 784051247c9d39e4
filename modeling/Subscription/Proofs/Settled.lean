import Subscription.Proofs.Deadlines

/-! # What the order of records can change

A record may mention a facet without the field that the facet is read from.  If the
newest mention is such a record, the field of an older one stands if that record is
listed before it, and not otherwise.  So the order matters unless the older ones
would all be read as the default (`FacetSettled`).

For the deadline of the extend policy the order decides which records lend their
expiry.  It matters when records move the rule to or from `trial`, unless whatever
may be lent is not below a deadline that counts anyway (`DeadlinesSettled`).
-/
namespace Subscription

open Record

section Perm
variable {records : List Record} {r s : Record}

theorem exists_perm_cons (hr : r ∈ records) : ∃ rest, records.Perm (r :: rest) := by
  obtain ⟨before, after, rfl⟩ := List.mem_iff_append.mp hr
  exact ⟨before ++ after, List.perm_middle⟩

theorem exists_perm_cons_cons (hr : r ∈ records) (hs : s ∈ records) (hne : r ≠ s) :
    ∃ rest, records.Perm (r :: s :: rest) := by
  obtain ⟨others, hp⟩ := exists_perm_cons hr
  have hmem : s ∈ others := (List.mem_cons.mp (hp.mem_iff.mp hs)).resolve_left hne.symm
  obtain ⟨rest, hp'⟩ := exists_perm_cons hmem
  exact ⟨rest, hp.trans (hp'.cons r)⟩

end Perm

/-! ## Facets with one field -/

/-- If the newest mention of a facet lacks its field, every mention is read as the
default. -/
def FacetSettled (m : Family) (f : Facet) (records : List Record) : Prop :=
  ∀ fields, newestFields f records = some fields → fields.get? f.field = none →
    ∀ r ∈ records, ∀ x, m.decode f (r.facet? f) = .ok x ↔ m.decode f none = .ok x

section Facets
variable {m : Family} {f : Facet} {records : List Record}

/-- Records that never leave out the field are settled. -/
theorem facetSettled_of_carried
    (h : ∀ r ∈ records, ∀ fields, r.facet? f = some fields → (fields.get? f.field).isSome) :
    FacetSettled m f records := by
  intro fields hnew hnone
  rcases newestFields_cases f records with ⟨hn, -⟩ | ⟨r, hr, fields', hfields, -, hn⟩
  · rw [hn] at hnew
    cases hnew
  · rw [hn] at hnew
    cases hnew
    have hsome := h r hr fields hfields
    rw [hnone] at hsome
    cases hsome

/-- **A settled facet is read from its newest mention alone.** -/
theorem decode_foldFacet_of_settled (hf : f ≠ .extendPolicy) (hd : Distinct records)
    (hs : FacetSettled m f records) {x : Setting} :
    m.decode f (some (foldFacet f records)) = .ok x ↔
      m.decode f (newestFields f records) = .ok x := by
  rcases newestFields_cases f records with ⟨hn, hun⟩ | ⟨r, hr, fields, hfields, hmax, hn⟩
  · rw [hn, foldFacet_of_unmentioned hun]
    exact Family.decode_of_missing hf rfl
  · have hset := hs fields hn
    rw [hn]
    cases hfield : fields.get? f.field with
    | some v =>
      -- The newest mention is the last to be taken, and covers what was there before.
      obtain ⟨pre, post, rfl, hpre, hpost⟩ := exists_split_newest hd hr hmax
      refine Family.decode_congr hf ?_
      rw [foldFacet_split hfields hpre hpost, m.get?_laidOver, m.get?_laidOver, Option.getD_some,
        Option.getD_some, Table.get?_overlay, hfield]
      rfl
    | none =>
      rw [Family.decode_of_missing hf hfield]
      cases hfold : (foldFacet f records).get? f.field with
      | none => exact Family.decode_of_missing hf hfold
      | some v =>
        -- Some older record had the field; by assumption it reads as the default.
        obtain hv | ⟨s, hs', fields', hfields', hv⟩ := get?_foldl_step records {} hfold
        · cases hv
        · rw [← hset hfield s hs' x, hfields']
          refine Family.decode_congr hf ?_
          rw [m.get?_laidOver, m.get?_laidOver, Option.getD_some, Option.getD_some, hfold, hv]

theorem FacetSettled.perm (hd : Distinct records) {records' : List Record}
    (hp : records.Perm records') (h : FacetSettled m f records) : FacetSettled m f records' := by
  intro fields hnew hnone r hr
  rw [← newestFields_perm hd hp] at hnew
  exact h fields hnew hnone r (hp.mem_iff.mpr hr)

theorem foldFacet_of_newest_first {r : Record} {fields : Fields} {post : List Record}
    (hr : r.facet? f = some fields) (hpost : ∀ s ∈ post, s.mentions f = true → s.id ≤ r.id)
    (name : String) : (foldFacet f (r :: post)).get? name = fields.get? name := by
  have h : foldFacet f ([] ++ r :: post) = (foldFacet f []).overlay fields :=
    foldFacet_split hr (fun s hs => absurd hs List.not_mem_nil) hpost
  rw [List.nil_append] at h
  rw [h, Table.get?_overlay]
  exact Option.or_none

/-- A facet that is not settled is read in two ways: as an older mention has it when
that is listed before the newest one, and as the default when it comes after. -/
theorem exists_perm_of_not_facetSettled (hf : f ≠ .extendPolicy) (hd : Distinct records)
    (hs : ¬ FacetSettled m f records) :
    ∃ before after, records.Perm before ∧ records.Perm after ∧
      ∃ x, ¬ (m.decode f (some (foldFacet f before)) = .ok x ↔
        m.decode f (some (foldFacet f after)) = .ok x) := by
  unfold FacetSettled at hs
  simp only [not_forall] at hs
  obtain ⟨fields, hnew, hnone, r, hr, x, hx⟩ := hs
  rcases newestFields_cases f records with ⟨hn, -⟩ | ⟨g, hg, fields', hfields, hmax, hn⟩
  · rw [hn] at hnew
    cases hnew
  rw [hn] at hnew
  cases hnew
  cases hrf : r.facet? f with
  | none =>
    rw [hrf] at hx
    exact absurd Iff.rfl hx
  | some older =>
    rw [hrf] at hx
    have hne : r ≠ g := by
      rintro rfl
      rw [hfields] at hrf
      cases hrf
      exact hx (Family.decode_of_missing hf hnone)
    obtain ⟨rest, hp⟩ := exists_perm_cons_cons hr hg hne
    have hmem {s : Record} (h : s ∈ rest) : s ∈ records :=
      hp.mem_iff.mpr (List.mem_cons_of_mem _ (List.mem_cons_of_mem _ h))
    have hrest : ∀ s ∈ rest, s.mentions f = true → s.id ≤ g.id := fun s h => hmax s (hmem h)
    have hrg : r.id ≤ g.id := hmax r hr (mentions_iff.mpr ⟨older, hrf⟩)
    refine ⟨r :: g :: rest, g :: r :: rest, hp, hp.trans (List.Perm.swap _ _ _), x, ?_⟩
    have hbefore : m.decode f (some (foldFacet f (r :: g :: rest))) = .ok x ↔
        m.decode f (some older) = .ok x := by
      have hlt : r.id < g.id := UInt64.lt_of_le_of_ne hrg fun h => hne (hd.eq_of_id hr hg h)
      have hsplit : foldFacet f ([r] ++ g :: rest) = (foldFacet f [r]).overlay fields :=
        foldFacet_split hfields (fun s hs _ => by rw [List.mem_singleton.mp hs]; exact hlt) hrest
      have holder : (foldFacet f [r]).get? f.field = older.get? f.field :=
        foldFacet_of_newest_first hrf (fun s hs => absurd hs List.not_mem_nil) f.field
      refine Family.decode_congr hf ?_
      rw [m.get?_laidOver, m.get?_laidOver, Option.getD_some, Option.getD_some,
        ← List.singleton_append, hsplit, Table.get?_overlay, hnone, Option.none_or, holder]
    have hafter : m.decode f (some (foldFacet f (g :: r :: rest))) = .ok x ↔
        m.decode f none = .ok x := by
      refine Family.decode_of_missing hf ?_
      rw [foldFacet_of_newest_first hfields ?_ f.field, hnone]
      intro s hs hm
      rcases List.mem_cons.mp hs with rfl | hs
      · exact hrg
      · exact hrest s hs hm
    rw [hbefore, hafter]
    exact hx

end Facets

/-! ## The deadline of the extend policy -/

/-- Records move the rule to `trial`, or on from it. -/
def TrialMoves (rule : ExtendRule) (records : List Record) : Prop :=
  (rule = .free ∧ ∃ r ∈ records, r.ownRule = some .trial) ∨
    (rule = .trial ∧ ∃ r ∈ records, r.ownRule = some .never)

/-- Where the rule moves to or from `trial`, no expiry that may be lent is below
every deadline that records set by themselves. -/
def DeadlinesSettled (rule : ExtendRule) (records : List Record) : Prop :=
  TrialMoves rule records → ∀ r ∈ records, r.Borrows →
    r.activeUntil = .unbounded ∨
      ∃ s ∈ records, ∃ d, s.ownDeadline = some d ∧ d ≤ r.activeUntil

section Deadlines
variable {rule : ExtendRule} {records records' : List Record}

theorem TrialMoves.perm (hp : records.Perm records') (h : TrialMoves rule records) :
    TrialMoves rule records' := by
  unfold TrialMoves
  simp only [← hp.mem_iff]
  exact h

theorem DeadlinesSettled.perm (hp : records.Perm records')
    (h : DeadlinesSettled rule records) : DeadlinesSettled rule records' := by
  intro ht r hr hb
  simp only [← hp.mem_iff] at hr ⊢
  exact h (ht.perm hp.symm) r hr hb

/-- A deadline of one order has one in every other order that is not later. -/
theorem earliestDeadline_le_of_mem (hs : DeadlinesSettled rule records)
    (hp : records.Perm records') {d : Seconds} (hd : d ∈ deadlines rule records) :
    earliestDeadline rule records' ≤ d := by
  have hleast := (isLeast_earliestDeadline rule records').2
  rcases mem_deadlines hd with ⟨r, hr, hown⟩ | ⟨⟨r, hr, hb, rfl⟩, hrule⟩
  · exact hleast (Or.inr (ownDeadline_mem_deadlines (hp.mem_iff.mp hr) hown))
  · by_cases ht : TrialMoves rule records
    · rcases hs ht r hr hb with hun | ⟨s, hs, d, hown, hle⟩
      · exact hleast (Or.inl hun)
      · have hmem : d ∈ deadlines rule records' :=
          ownDeadline_mem_deadlines (hp.mem_iff.mp hs) hown
        exact (hleast (Or.inr hmem)).trans hle
    · -- The rule is `trial` throughout, in either order.
      rcases hrule with rfl | ⟨rfl, htrial⟩
      · have hnever : ∀ s ∈ records', s.ownRule ≠ some .never := fun s hs hn =>
          ht (Or.inr ⟨rfl, s, hp.mem_iff.mpr hs, hn⟩)
        exact hleast (Or.inr (activeUntil_mem_deadlines hnever (hp.mem_iff.mp hr) hb))
      · exact absurd (Or.inl ⟨rfl, htrial⟩) ht

theorem earliestDeadline_perm (hs : DeadlinesSettled rule records)
    (hp : records.Perm records') :
    earliestDeadline rule records = earliestDeadline rule records' := by
  have hle {a b : List Record} (hs : DeadlinesSettled rule a) (hp : a.Perm b) :
      earliestDeadline rule b ≤ earliestDeadline rule a := by
    rcases (isLeast_earliestDeadline rule a).1 with h | h
    · rw [h]
      exact Seconds.le_unbounded _
    · exact earliestDeadline_le_of_mem hs hp h
  exact le_antisymm (hle (hs.perm hp) hp.symm) (hle hs hp)

/-- In an order without lent deadlines, a date before those that records set by
themselves is before all. -/
theorem lt_earliestDeadline {t : Seconds} (ht : t ≠ .unbounded)
    (hown : ∀ s ∈ records, ∀ d, s.ownDeadline = some d → t < d)
    (h : ∀ d ∈ deadlines rule records, ∃ s ∈ records, s.ownDeadline = some d) :
    t < earliestDeadline rule records := by
  rcases (isLeast_earliestDeadline rule records).1 with he | he
  · rw [he]
    exact lt_of_le_of_ne t.le_unbounded ht
  · obtain ⟨s, hs, hd⟩ := h _ he
    exact hown s hs _ hd

/-- Without a rule of their own before those that give one, records lend nothing to a
rule that is `free`. -/
theorem exists_perm_own_of_free (records : List Record) :
    ∃ late, records.Perm late ∧
      ∀ d ∈ deadlines .free late, ∃ s ∈ late, s.ownDeadline = some d := by
  refine ⟨records.filter (·.ownRule.isNone) ++ records.filter (!·.ownRule.isNone),
    (List.filter_append_perm _ records).symm, fun d hd => ?_⟩
  rw [deadlines_append_of_silent fun s hs =>
    Option.isNone_iff_eq_none.mp (List.mem_filter.mp hs).2] at hd
  rcases List.mem_append.mp hd with hd | hd
  · rcases mem_deadlines hd with ⟨s, hs, hown⟩ | ⟨-, hf | ⟨-, s, hs, htrial⟩⟩
    · exact ⟨s, List.mem_append_left _ hs, hown⟩
    · cases hf
    · have hnone := (List.mem_filter.mp hs).2
      rw [htrial] at hnone
      cases hnone
  · rcases mem_deadlines hd with ⟨s, hs, hown⟩ | ⟨⟨s, hs, hb, -⟩, -⟩
    · exact ⟨s, List.mem_append_right _ hs, hown⟩
    · have hsome := (List.mem_filter.mp hs).2
      rw [hb.ownRule_eq_none] at hsome
      cases hsome

/-- After a record that ends the trial, records lend nothing. -/
theorem own_of_never_first {r : Record} (hr : r.ownRule = some .never) (rest : List Record) :
    ∀ d ∈ deadlines .trial (r :: rest), ∃ s ∈ r :: rest, s.ownDeadline = some d := by
  intro d hd
  have hb : ¬ r.Borrows := fun hb => by
    rw [hb.ownRule_eq_none] at hr
    cases hr
  have hafter : r.ruleAfter .trial = .never := by
    unfold ruleAfter
    rw [hr]
    decide
  rw [deadlines, deadlineAfter_of_not_borrows hb, hafter, List.mem_append,
    Option.mem_toList] at hd
  rcases hd with hown | hd
  · exact ⟨r, List.mem_cons_self, hown⟩
  · rcases mem_deadlines hd with ⟨s, hs, hown⟩ | ⟨-, hn | ⟨hn, -⟩⟩
    · exact ⟨s, List.mem_cons_of_mem _ hs, hown⟩
    · cases hn
    · cases hn

/-- An expiry that is lent in one order only, and is before all other deadlines, gives
two deadlines. -/
theorem exists_perm_of_not_deadlinesSettled (hs : ¬ DeadlinesSettled rule records) :
    ∃ early late, records.Perm early ∧ records.Perm late ∧
      earliestDeadline rule early < earliestDeadline rule late := by
  unfold DeadlinesSettled at hs
  simp only [not_forall, not_or, not_exists, not_and, not_le] at hs
  obtain ⟨ht, r, hr, hb, hun, hown⟩ := hs
  have hlent {early : List Record} (h : r.activeUntil ∈ deadlines rule early) :
      earliestDeadline rule early ≤ r.activeUntil :=
    (isLeast_earliestDeadline rule early).2 (Or.inr h)
  have hlate {late : List Record} (hp : records.Perm late)
      (h : ∀ d ∈ deadlines rule late, ∃ s ∈ late, s.ownDeadline = some d) :
      r.activeUntil < earliestDeadline rule late :=
    lt_earliestDeadline hun (fun s hs => hown s (hp.mem_iff.mpr hs)) h
  rcases ht with ⟨rfl, t, htr, htrial⟩ | ⟨rfl, v, hv, hnever⟩
  · -- Lent after the record that starts the trial, not before it.
    have hne : t ≠ r := by
      rintro rfl
      rw [hb.ownRule_eq_none] at htrial
      cases htrial
    obtain ⟨rest, hp⟩ := exists_perm_cons_cons htr hr hne
    obtain ⟨late, hp', hlast⟩ := exists_perm_own_of_free records
    have hafter : t.ruleAfter .free = .trial := by
      unfold ruleAfter
      rw [htrial]
      decide
    have hmem : r.activeUntil ∈ deadlines .free (t :: r :: rest) := by
      rw [deadlines, deadlines, hafter, hb.deadlineAfter_eq, if_pos rfl]
      simp
    exact ⟨_, late, hp, hp', (hlent hmem).trans_lt (hlate hp' hlast)⟩
  · -- Lent before the record that ends the trial, not after it.
    obtain ⟨rest, hp⟩ := exists_perm_cons hr
    obtain ⟨rest', hp'⟩ := exists_perm_cons hv
    have hmem : r.activeUntil ∈ deadlines .trial (r :: rest) := by
      rw [deadlines, hb.deadlineAfter_eq, if_pos rfl]
      simp
    exact ⟨_, _, hp, hp', (hlent hmem).trans_lt (hlate hp' (own_of_never_first hnever rest'))⟩

end Deadlines
end Subscription
