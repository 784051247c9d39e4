import Subscription.Proofs.SameState
import Subscription.Proofs.StoredForms
import Subscription.Proofs.Storing
import Subscription.Proofs.TrialDeadline

/-! # When a plan has changed

Whether a plan has to be stored again is asked of the plan, which compares its state with the one
it was loaded with and passes over the deadline of the trial.  The answer is the one that a
comparison of the stored forms would give without that deadline
(`Plan.hasChanges_eq_false_iff`).  The fields of a setting tell the setting
(`Setting.eq_of_fields`), so plans of one variant that are stored alike are in one state
(`Plan.stored_alike_iff`); and to leave the deadline out of a stored form is to store the plan with
a deadline that never passes (`Plan.withoutDeadline_stored`).
-/
namespace Subscription

/-! ## Stored forms without the deadline -/

/-- The stored facets with no deadline among the fields of the extend policy. -/
def Table.withoutDeadline (facets : Table Fields) : Table Fields :=
  ⟨facets.entries.map fun e =>
    (e.1, if e.1 = Facet.extendPolicy.name then e.2.erase "trial_till" else e.2)⟩

namespace StoredState

/-- Two stored states say the same.  Tables keep an order, which says nothing: only what is found
under a name counts, be it a facet or one of its fields. -/
structure Alike (s t : StoredState) : Prop where
  planType : s.planType = t.planType
  variant : s.variant = t.variant
  validUntil : s.validUntil = t.validUntil
  activeUntil : s.activeUntil = t.activeUntil
  freeActiveUntil : s.freeActiveUntil = t.freeActiveUntil
  facets : ∀ name, (s.facets.get? name).map Table.get? = (t.facets.get? name).map Table.get?

theorem Alike.refl (s : StoredState) : s.Alike s := ⟨rfl, rfl, rfl, rfl, rfl, fun _ => rfl⟩

def withoutDeadline (s : StoredState) : StoredState :=
  { s with facets := s.facets.withoutDeadline }

end StoredState

/-! ## What the fields of a setting tell -/

theorem Stored.encode_injective {α : Type} [Stored α] [LawfulStored α] {a b : α}
    (h : encode a = encode b) : a = b := by
  have hread := congrArg (decode? (α := α)) h
  rwa [decode?_encode, decode?_encode, Option.some.injEq] at hread

/-- A deadline that is not stored is one that never passes. -/
theorem ExtendPolicy.trialUntil_eq_of_fields {p q : ExtendPolicy}
    (h : (Setting.extendPolicy p).fields.get? "trial_till" =
      (Setting.extendPolicy q).fields.get? "trial_till") : p.trialUntil = q.trialUntil := by
  rw [Setting.get?_fields_deadline, Setting.get?_fields_deadline] at h
  split at h <;> split at h
  · simp only [*]
  · cases h
  · cases h
  · exact Stored.encode_injective (Option.some.inj h)

/-- **Settings of one facet with the same fields are equal.** -/
theorem Setting.eq_of_fields {x y : Setting} (hfacet : x.facet = y.facet)
    (h : x.fields.get? = y.fields.get?) : x = y := by
  have hfield (name : String) : x.fields.get? name = y.fields.get? name := congrFun h name
  cases x with
  | limit l =>
    cases y with
    | limit k =>
      obtain ⟨tier⟩ := l
      obtain ⟨tier'⟩ := k
      obtain rfl : tier = tier' := Stored.encode_injective (Option.some.inj (hfield "value"))
      rfl
    | _ => cases hfacet
  | extendPolicy p =>
    cases y with
    | extendPolicy q =>
      have hdeadline := ExtendPolicy.trialUntil_eq_of_fields (hfield "trial_till")
      have hname := hfield "rule"
      rw [get?_fields_rule, get?_fields_rule] at hname
      obtain ⟨rule, deadline⟩ := p
      obtain ⟨rule', deadline'⟩ := q
      obtain rfl : deadline = deadline' := hdeadline
      obtain rfl : rule = rule' := Stored.encode_injective (Option.some.inj hname)
      rfl
    | _ => cases hfacet
  | restrictPolicy p =>
    cases y with
    | restrictPolicy q =>
      obtain ⟨date⟩ := p
      obtain ⟨date'⟩ := q
      obtain rfl : date = date' := Stored.encode_injective (Option.some.inj (hfield "active_from"))
      rfl
    | _ => cases hfacet
  | demo w =>
    cases y with
    | demo v =>
      obtain ⟨date⟩ := w
      obtain ⟨date'⟩ := v
      obtain rfl : date = date' := Stored.encode_injective (Option.some.inj (hfield "active_till"))
      rfl
    | _ => cases hfacet

/-- Settings whose facets are stored alike are equal. -/
theorem Settings.eq_of_fields {s t : Settings}
    (h : ∀ f : Facet,
      (s.fields.get? f.name).map Table.get? = (t.fields.get? f.name).map Table.get?) : s = t := by
  refine ext_get? fun f => ?_
  have hf := h f
  rw [s.get?_fields, t.get?_fields] at hf
  cases hs : s.get? f with
  | none =>
    rw [hs, Option.map_none, Option.map_none, eq_comm, Option.map_eq_none_iff,
      Option.map_eq_none_iff] at hf
    exact hf.symm
  | some x =>
    rw [hs, Option.map_some, Option.map_some, eq_comm, Option.map_eq_some_iff] at hf
    obtain ⟨fields, hfields, hget⟩ := hf
    obtain ⟨y, hy, rfl⟩ := Option.map_eq_some_iff.mp hfields
    have hfacet : y.facet = x.facet := (facet_of_get? hy).trans (facet_of_get? hs).symm
    rw [hy, Setting.eq_of_fields hfacet hget]

/-- To leave out the deadline is to store one that never passes. -/
theorem Setting.fields_withDeadline (x : Setting) :
    (x.withDeadline .unbounded).fields =
      if x.facet.name = Facet.extendPolicy.name then x.fields.erase "trial_till" else x.fields := by
  cases x with
  | extendPolicy p => by_cases hp : p.trialUntil = .unbounded <;>
      simp [withDeadline, facet, fields, hp, Table.erase]
  | _ => rfl

theorem Settings.toList_withDeadline (s : Settings) (deadline : Seconds) :
    (s.withDeadline deadline).toList = s.toList.map (Setting.withDeadline deadline) := by
  simp only [toList, List.map_filterMap, get?_withDeadline]

theorem Settings.withoutDeadline_fields (s : Settings) :
    s.fields.withoutDeadline = (s.withDeadline .unbounded).fields := by
  have hfacet (x : Setting) : (x.withDeadline .unbounded).facet = x.facet := by cases x <;> rfl
  simp only [Table.withoutDeadline, fields, toList_withDeadline, List.map_map, Function.comp_def,
    hfacet, Setting.fields_withDeadline]

namespace Plan
variable {m : Family} {p q : Plan}

/-- The plan in the state that it was loaded with. -/
def original (p : Plan) : Plan := { p with current := p.loaded }

/-- The plan with another deadline of its trial. -/
def withDeadline (p : Plan) (deadline : Seconds) : Plan :=
  { p with current := p.current.withDeadline deadline }

theorem withoutDeadline_stored (p : Plan) :
    p.stored.withoutDeadline = (p.withDeadline .unbounded).stored := by
  show { p.stored with facets := p.current.settings.fields.withoutDeadline } = _
  rw [Settings.withoutDeadline_fields]
  rfl

/-- **Plans of one variant are stored alike exactly in one state.** -/
theorem stored_alike_iff (hfamily : p.family = q.family) (hvariant : p.variant = q.variant) :
    p.stored.Alike q.stored ↔ p.current = q.current := by
  constructor
  · intro h
    have hactive : p.current.activeUntil = q.current.activeUntil := h.activeUntil
    have hfree : p.current.freeActiveUntil = q.current.freeActiveUntil := h.freeActiveUntil
    have hsettings : p.current.settings = q.current.settings :=
      Settings.eq_of_fields fun f => h.facets f.name
    have hparts : p.current =
        ⟨p.current.activeUntil, p.current.freeActiveUntil, p.current.settings⟩ := rfl
    rw [hparts, hactive, hfree, hsettings]
  · intro h
    have hstored : p.stored = q.stored := by
      simp only [stored, activeUntil, freeActiveUntil, hfamily, hvariant, h]
    rw [hstored]
    exact .refl _

/-- A plan has not changed when it is in the state that it was loaded with under one deadline. -/
theorem hasChanges_eq_false_iff_withDeadline (p : Plan) :
    p.hasChanges = false ↔
      p.current.withDeadline .unbounded = p.loaded.withDeadline .unbounded := by
  rw [hasChanges, Bool.not_eq_false', Snapshot.isSame_iff_withDeadline .unbounded]

/-- **A plan has changed when it would be stored otherwise**, but for the deadline. -/
theorem hasChanges_eq_false_iff (p : Plan) :
    p.hasChanges = false ↔ p.stored.withoutDeadline.Alike p.original.stored.withoutDeadline := by
  have hstates : (p.withDeadline .unbounded).stored.Alike
      (p.original.withDeadline .unbounded).stored ↔
        p.current.withDeadline .unbounded = p.loaded.withDeadline .unbounded :=
    stored_alike_iff rfl rfl
  rw [withoutDeadline_stored, withoutDeadline_stored, hstates,
    hasChanges_eq_false_iff_withDeadline]

/-- Stored forms that say the same have their tables in the same order too. -/
theorem hasChanges_eq_false_iff_eq (p : Plan) :
    p.hasChanges = false ↔ p.stored.withoutDeadline = p.original.stored.withoutDeadline := by
  constructor
  · intro h
    have hstate := p.hasChanges_eq_false_iff_withDeadline.mp h
    have hplan : p.withDeadline .unbounded = p.original.withDeadline .unbounded :=
      congrArg (fun s => { p with current := s }) hstate
    rw [withoutDeadline_stored, withoutDeadline_stored, hplan]
  · intro h
    rw [hasChanges_eq_false_iff, h]
    exact .refl _

theorem original_run (p : Plan) (as : List Alteration) : (p.run as).original = p.original := by
  rw [run_frame]
  rfl

/-- **What has changed since a plan was loaded.**  Whatever alterations are made, the plan keeps
the state that it was loaded with.  It has no changes exactly when its stored form is that of the
plan as it was loaded, the deadline of the trial apart; that both say the same is enough.  That
states are the same is an equivalence, and is found by walking the settings of one side. -/
theorem Loaded.hasChanges_run_iff (h : p.Loaded m) (as : List Alteration) :
    (p.run as).original = p ∧
      ((p.run as).hasChanges = false ↔
        (p.run as).stored.withoutDeadline = (p.run as).original.stored.withoutDeadline) ∧
      ((p.run as).hasChanges = false ↔
        (p.run as).stored.withoutDeadline.Alike (p.run as).original.stored.withoutDeadline) ∧
      (Equivalence fun s t : Snapshot => s.isSame t = true) ∧
      ∀ s t : Snapshot, s.isSame t = true ↔ s.activeUntil = t.activeUntil ∧
        s.freeActiveUntil = t.freeActiveUntil ∧ s.settings.FoundIn t.settings := by
  refine ⟨?_, (p.run as).hasChanges_eq_false_iff_eq, (p.run as).hasChanges_eq_false_iff,
    Snapshot.isSame_equivalence, fun s t => ?_⟩
  · obtain ⟨-, -, hloaded, -⟩ := h.spec
    rw [original_run]
    exact congrArg (fun s => { p with current := s }) hloaded
  · rw [← Settings.isSame_iff_foundIn, Snapshot.isSame]
    simp only [Bool.and_eq_true, decide_eq_true_eq, and_assoc]

end Plan

namespace Seats

/-- Twenty seats until 2000, on a trial until 1500. -/
def trialStored : StoredState :=
  { stored with facets := ⟨[
      ("limit", ⟨[("value", .int 20)]⟩),
      ("extend_policy", ⟨[("rule", .string "trial"), ("trial_till", .int 1500)]⟩),
      ("restrict_policy", ⟨[("active_from", .int 2000)]⟩)]⟩ }

/-- The plan of `trialStored`. -/
def trialPlan : Plan := .ofSnapshot family 1001 ⟨2000, 0, {
  limit := some ⟨20⟩
  extendPolicy := some ⟨.trial, 1500⟩
  restrictPolicy := some ⟨2000⟩
  demo := some ⟨0⟩ }⟩

/-- A later deadline of the trial is stored, but does not count as a change; a paid month does,
and is seen in the stored form without the deadline as well. -/
theorem hasChanges_trialPlan :
    trialPlan.Loaded family ∧
      (trialPlan.run [trialUntil 5000]).current.settings.extendPolicy = some ⟨.trial, 5000⟩ ∧
      (trialPlan.run [trialUntil 5000]).hasChanges = false ∧
      (trialPlan.run [trialUntil 5000]).stored.withoutDeadline =
        trialPlan.stored.withoutDeadline ∧
      ¬ (trialPlan.run [trialUntil 5000]).stored.Alike trialPlan.stored ∧
      (trialPlan.run [month]).hasChanges = true ∧
      ¬ (trialPlan.run [month]).stored.withoutDeadline.Alike trialPlan.stored.withoutDeadline := by
  have hload : trialPlan.Loaded family := Or.inl ⟨trialStored, rfl⟩
  have hkept : (trialPlan.run [trialUntil 5000]).hasChanges = false := by decide
  have hchanged : (trialPlan.run [month]).hasChanges = true := by decide
  obtain ⟨horiginal, hiff, -, -, -⟩ := hload.hasChanges_run_iff [trialUntil 5000]
  obtain ⟨horiginal', -, hiff', -, -⟩ := hload.hasChanges_run_iff [month]
  rw [horiginal] at hiff
  rw [horiginal'] at hiff'
  have hmoved : (trialPlan.run [trialUntil 5000]).current ≠ trialPlan.current := by decide
  refine ⟨hload, by decide, hkept, hiff.mp hkept, fun h => ?_, hchanged, fun h => ?_⟩
  · exact hmoved ((Plan.stored_alike_iff (by rw [Plan.run_frame]) (by rw [Plan.run_frame])).mp h)
  · exact absurd (hchanged.symm.trans (hiff'.mpr h)) (by decide)

end Seats
end Subscription
