import Subscription.Proofs.ClosedForm
import Subscription.Proofs.OneWay
import Subscription.Proofs.Reloading
import Subscription.Proofs.SameState

/-! # Recording a plan's state in its history

After some alterations the state of a plan is appended to the history that the plan was
loaded from, as a record of a new greatest id.  That record gives the variant, the dates
and every facet with one field, whatever the older records say of them
(`decode_append_of_ne`).  The rule of the extend policy is folded from the older records
too, but they only ever gave the rule that the plan was loaded with, and the alterations
have not moved it back (`decode_append_extendPolicy`, `Plan.Reachable.ruleLe_run`).  So the
longer history amounts to the state that was recorded, up to the deadline of the trial
(`Plan.ofHistory_append_stored`).
-/
namespace Subscription

open Record

/-! ## The record of a plan's state -/

namespace Record

/-- The record has these settings, in the form in which they are stored. -/
def Stores (r : Record) (s : Settings) : Prop :=
  ∀ f, r.facet? f = (s.get? f).map Setting.fields

theorem stores_ofStored (id : UInt64) (p : Plan) :
    (ofStored id p.stored).Stores p.current.settings :=
  p.current.settings.get?_fields

variable {r : Record} {s : Settings}

theorem Stores.facet?_extendPolicy {p : ExtendPolicy} (h : r.Stores s)
    (hp : s.extendPolicy = some p) :
    r.facet? .extendPolicy = some (Setting.extendPolicy p).fields := by
  rw [h, Settings.get?_extendPolicy_iff.mpr hp]
  rfl

theorem Stores.ownRule {p : ExtendPolicy} (h : r.Stores s) (hp : s.extendPolicy = some p) :
    r.ownRule = some p.rule := by
  have hname : r.ruleName? = some p.rule.name := by
    unfold ruleName?
    rw [h.facet?_extendPolicy hp, Option.bind_some, Setting.get?_fields_rule]
    rfl
  unfold Record.ownRule
  rw [hname]
  exact ExtendRule.ofName?_eq_some_iff.mpr rfl

end Record

/-! ## A history with one record more -/

section Append
variable {m : Family} {records : List Record} {r : Record} {s : Settings}

/-- The rule of the longer history. -/
theorem rule_foldPolicy_append :
    (foldPolicy m (records ++ [r])).rule = r.ruleAfter (foldPolicy m records).rule := by
  unfold foldPolicy
  rw [List.foldl_append]
  exact ExtendFold.rule_step _ r

variable (hr : r.Stores s)
include hr

/-- A facet with one field is read as the newest record has it, whatever was recorded of
it before. -/
theorem decode_append_of_ne (hs : s.Conforms m) (hnew : ∀ t ∈ records, t.id < r.id) {f : Facet}
    (hf : f ≠ .extendPolicy) (hm : f ∈ m.facets) :
    ∃ x, m.decode f (some (replayedFields m (records ++ [r]) f)) = .ok x ∧ s.get? f = some x := by
  obtain ⟨x, hx⟩ := hs.covers.exists_get? hm
  have hfacet : x.facet = f := Settings.facet_of_get? hx
  have hfields : r.facet? f = some x.fields := by rw [hr, hx]; rfl
  have hfold : foldFacet f (records ++ [r]) = (foldFacet f records).overlay x.fields :=
    foldFacet_split hfields (fun t ht _ => hnew t ht) fun t ht => absurd ht List.not_mem_nil
  refine ⟨x, ?_, hx⟩
  rw [replayedFields_of_ne hf, hfold]
  refine Family.decode_of_get?_field hf hm hfacet (hs.tier_of_get? hx) ?_
  obtain ⟨v, hv⟩ := x.exists_get?_field
  rw [hfacet] at hv
  rw [Table.get?_overlay, hv]
  rfl

/-- The extend policy is read under the newest record's rule, if that is not before the
rule of the older ones. -/
theorem decode_append_extendPolicy (hm : .extendPolicy ∈ m.facets)
    (hnames : ∀ t ∈ records, t.NamesRule) {p : ExtendPolicy} (hp : s.extendPolicy = some p)
    (hle : (foldPolicy m records).rule ≤ p.rule) :
    m.decode .extendPolicy (some (replayedFields m (records ++ [r]) .extendPolicy)) =
      .ok (.extendPolicy ⟨p.rule, (foldPolicy m (records ++ [r])).trialUntil⟩) := by
  have hown := hr.ownRule hp
  have hrule : (foldPolicy m (records ++ [r])).rule = p.rule := by
    rw [rule_foldPolicy_append, ruleAfter, hown]
    exact max_eq_right hle
  refine (decode_foldExtendPolicy hm).mpr ⟨?_, by rw [hrule]⟩
  intro t ht
  rcases List.mem_append.mp ht with ht | ht
  · exact hnames t ht
  · rw [List.mem_singleton.mp ht]
    exact namesRule_of_ownRule hown

/-- **One record more**: a history amounts to what its newest record has, if that conforms
to the family and its extend policy is not before that of the older records. -/
theorem replay_append (hs : s.Conforms m) (hnew : ∀ t ∈ records, t.id < r.id)
    (hrule : ∀ p, s.extendPolicy = some p →
      (∀ t ∈ records, t.NamesRule) ∧ (foldPolicy m records).rule ≤ p.rule) :
    replay m (records ++ [r]) = .ok ⟨r.variant, ⟨r.activeUntil, r.freeActiveUntil,
      s.withDeadline (foldPolicy m (records ++ [r])).trialUntil⟩⟩ := by
  have habove (t : Record) (ht : t ∈ records ++ [r]) : t = r ∨ t.id < r.id := by
    rcases List.mem_append.mp ht with ht | ht
    · exact Or.inr (hnew t ht)
    · exact Or.inl (List.mem_singleton.mp ht)
  have hmem : r ∈ records ++ [r] := List.mem_append_right _ List.mem_cons_self
  have hlast : last? (records ++ [r]) = some r := last?_eq_of_above hmem habove
  have hfirst : first? (records ++ [r]) = some r :=
    last?_eq_of_above (List.mem_reverse.mpr hmem) fun t ht => habove t (List.mem_reverse.mp ht)
  refine replay_eq_ok_iff.mpr ⟨r, r, _, hlast, hfirst, ?_, rfl⟩
  refine (m.decodeAll_eq_ok_iff _).mpr fun f => ⟨fun hm => ?_, fun hm => ?_⟩
  · by_cases hf : f = .extendPolicy
    · subst hf
      obtain ⟨p, hp⟩ := hs.covers.exists_extendPolicy hm
      obtain ⟨hnames, hle⟩ := hrule p hp
      refine ⟨_, decode_append_extendPolicy hr hm hnames hp hle, ?_⟩
      rw [Settings.get?_extendPolicy_iff, Settings.withDeadline, hp]
      rfl
    · rw [s.get?_withDeadline_of_ne _ hf]
      exact decode_append_of_ne hr hs hnew hf hm
  · exact s.get?_withDeadline_of_none _ (hs.covers.get?_eq_none hm)

end Append

namespace Plan
variable {m : Family} {records : List Record} {p : Plan}

/-- A plan is loaded from a history with the extend policy that its records fold to. -/
theorem extendPolicy_of_ofHistory (h : ofHistory m records = .ok p)
    (hm : .extendPolicy ∈ m.facets) :
    (∀ r ∈ records, r.NamesRule) ∧ p.current.settings.extendPolicy =
      some ⟨(foldPolicy m records).rule, (foldPolicy m records).trialUntil⟩ := by
  obtain ⟨r, hrep, -, rfl⟩ := ofHistory_eq_ok_iff.mp h
  exact extendPolicy_of_replay hm hrep

theorem extendRule_of_ofHistory (h : ofHistory m records = .ok p) (hm : .extendPolicy ∈ m.facets) :
    (∀ r ∈ records, r.NamesRule) ∧ p.extendRule = some (foldPolicy m records).rule := by
  obtain ⟨hnames, hp⟩ := extendPolicy_of_ofHistory h hm
  exact ⟨hnames, extendRule_eq_some_iff.mpr ⟨_, hp, rfl⟩⟩

/-- **A plan is loaded again from its history and its state after any run**, the state
being appended under an id above all others: if the limits that are desired are tiers of
the family, and no extend policy is forced on the plan.  The variant is the recorded one,
and the state differs from it in the deadline of the trial at most. -/
theorem ofHistory_append_stored (h : ofHistory m records = .ok p) {as : List Alteration}
    (htiers : ∀ a ∈ as, a.DesiresTiers m) (hforced : ∀ a ∈ as, a.ForcesNoPolicy) {id : UInt64}
    (hid : ∀ r ∈ records, r.id < id) :
    ∃ q deadline, ofHistory m (records ++ [.ofStored id (p.run as).stored]) = .ok q ∧
      q.variant = (p.run as).variant ∧ q.current.isSame (p.run as).current = true ∧
      q.current = (p.run as).current.withDeadline deadline := by
  have hload : p.Loaded m := Or.inr ⟨records, h⟩
  obtain ⟨rfl, hv, -, -⟩ := hload.spec
  have hs := conforms_run hload.conforms htiers
  -- Of the rules that the records gave, the plan was loaded with the latest, and it has not
  -- moved back.
  have hrule (t : ExtendPolicy) (ht : (p.run as).current.settings.extendPolicy = some t) :
      (∀ r ∈ records, r.NamesRule) ∧ (foldPolicy p.family records).rule ≤ t.rule := by
    have hm : Facet.extendPolicy ∈ p.family.facets :=
      hs.covers.mem (Settings.get?_extendPolicy_iff.mpr ht)
    obtain ⟨hnames, hloaded⟩ := extendRule_of_ofHistory h hm
    obtain ⟨r, r', hr, hr', hle⟩ := hload.reachable.ruleLe_run hm hforced
    rw [hloaded, Option.some.injEq] at hr
    rw [extendRule_eq_some_iff.mpr ⟨t, ht, rfl⟩, Option.some.injEq] at hr'
    rw [hr, hr']
    exact ⟨hnames, hle⟩
  have hvariant : (p.run as).variant = p.variant := by rw [run_frame]
  have hrep := replay_append (stores_ofStored id (p.run as)) hs hid hrule
  refine ⟨_, _, ofHistory_eq_ok_iff.mpr ⟨_, hrep, ?_, rfl⟩, rfl, ?_, rfl⟩
  · exact (congrArg p.family.admits hvariant).trans hv
  · exact Snapshot.isSame_withDeadline _ _

end Plan

namespace Seats

/-- Twenty seats until 2000, with a deadline that is written down before any trial; what is
listed after that is older, and its limit not one. -/
def recorded : List Record := [
  ⟨7, 1001, 2000, 0, ⟨[("extend_policy", ⟨[("rule", .string "free"), ("trial_till", .int 500)]⟩),
    ("limit", ⟨[("value", .int 20)]⟩)]⟩⟩,
  ⟨4, 1002, 3000, 100, ⟨[("limit", ⟨[("value", .string "many")]⟩)]⟩⟩]

/-- The plan of `recorded`. -/
def recordedPlan : Plan := .ofSnapshot family 1001 ⟨2000, 0, {
  limit := some ⟨20⟩
  extendPolicy := some ⟨.free, 500⟩
  restrictPolicy := some ⟨0⟩
  demo := some ⟨0⟩ }⟩

/-- The trial that twelve seats start lasts until 2000, and an unpaid month is refused; with
this state appended the history is that of the plan again. -/
theorem ofHistory_recorded_append :
    Plan.ofHistory family recorded = .ok recordedPlan ∧
      (∀ a ∈ [crowded, unpaidMonth], a.DesiresTiers family) ∧
      (∀ a ∈ [crowded, unpaidMonth], a.ForcesNoPolicy) ∧ (∀ r ∈ recorded, r.id < 9) ∧
      (recordedPlan.run [crowded, unpaidMonth]).current.settings.extendPolicy =
        some ⟨.trial, 2000⟩ ∧
      ∃ q deadline, Plan.ofHistory family
          (recorded ++ [.ofStored 9 (recordedPlan.run [crowded, unpaidMonth]).stored]) = .ok q ∧
        q.variant = (recordedPlan.run [crowded, unpaidMonth]).variant ∧
        q.current.isSame (recordedPlan.run [crowded, unpaidMonth]).current = true ∧
        q.current = (recordedPlan.run [crowded, unpaidMonth]).current.withDeadline deadline := by
  have hload : Plan.ofHistory family recorded = .ok recordedPlan := rfl
  have htiers : ∀ a ∈ [crowded, unpaidMonth], a.DesiresTiers family := by
    intro a ha l hl
    simp only [List.mem_cons, List.not_mem_nil, or_false] at ha
    rcases ha with rfl | rfl <;> cases hl
  have hforced : ∀ a ∈ [crowded, unpaidMonth], a.ForcesNoPolicy := by
    intro a ha hforce
    simp only [List.mem_cons, List.not_mem_nil, or_false] at ha
    rcases ha with rfl | rfl
    · rfl
    · cases hforce
  have hid : ∀ r ∈ recorded, r.id < 9 := by decide
  exact ⟨hload, htiers, hforced, hid, by decide,
    Plan.ofHistory_append_stored hload htiers hforced hid⟩

/-- The deadline that was written down first is kept, so the trial is over by then. -/
example : (Plan.ofHistory family
      (recorded ++ [.ofStored 9 (recordedPlan.run [crowded, unpaidMonth]).stored])).map
        (·.current.settings.extendPolicy) = .ok (some ⟨.trial, 500⟩) := rfl

end Seats
end Subscription
