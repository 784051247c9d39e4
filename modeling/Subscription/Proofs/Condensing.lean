import Subscription.Proofs.Recording

/-! # Condensing a history

A history is condensed to one record: that of the state it amounts to, under any id
(`Plan.condensed`).  The record has every facet in full, and its rule of the extend policy is
not before the family's default; so it is replayed to the variant, the dates and the settings
of the plan, and only the deadline of the trial may be another one.  A deadline that never
passes is not stored, and a trial that is recorded without one lasts until the plan expires.
So nothing changes unless the plan is on trial without a deadline although it expires
(`Plan.OnOpenTrial`), and then the trial gets the plan's expiry for its deadline
(`Plan.ofHistory_condensed_iff`).
-/
namespace Subscription

open Record

namespace Record
variable {r : Record} {s : Settings} {t : ExtendPolicy} (h : r.Stores s)
  (ht : s.extendPolicy = some t)
include h ht

theorem Stores.statedDeadline :
    r.statedDeadline = if t.trialUntil = .unbounded then none else some t.trialUntil := by
  have hread (d : Seconds) : Stored.decode? (Stored.encode d) = some d :=
    decode?_seconds_eq_some_iff.mpr rfl
  unfold Record.statedDeadline Table.required
  rw [h.facet?_extendPolicy ht, Option.bind_some, Setting.get?_fields_deadline]
  by_cases hu : t.trialUntil = .unbounded <;> simp [hu, hread]

/-- The deadline under which a stored extend policy is replayed: the stored one, and for a
trial without one the expiry that is recorded with it. -/
theorem Stores.earliestDeadline_singleton (hfinite : t.trialUntil ≠ .infinite)
    (rule : ExtendRule) :
    earliestDeadline rule [r] =
      if t = ⟨.trial, .unbounded⟩ ∧ r.activeUntil ≠ .infinite then r.activeUntil
      else t.trialUntil := by
  obtain ⟨own, deadline⟩ := t
  rw [Subscription.earliestDeadline_singleton (h.ownRule ht)]
  unfold ownDeadline
  rw [h.statedDeadline ht, h.ownRule ht]
  -- A stated deadline counts as it is; without one it depends on the rule.
  by_cases hu : deadline = .unbounded
  · subst hu
    by_cases hr : own = .trial <;> by_cases ha : r.activeUntil = .infinite <;>
      simp [hr, ha, Option.filter_some]
  · simp [hu, hfinite, Option.filter_some]

end Record

namespace Settings

theorem withDeadline_of_none {s : Settings} (hs : s.extendPolicy = none) (deadline : Seconds) :
    s.withDeadline deadline = s := by
  unfold withDeadline
  rw [hs, Option.map_none, ← hs]

theorem withDeadline_self {s : Settings} {t : ExtendPolicy} (hs : s.extendPolicy = some t) :
    s.withDeadline t.trialUntil = s := by
  unfold withDeadline
  rw [hs, Option.map_some, ← hs]

end Settings

namespace Plan
variable {m : Family} {records : List Record} {p : Plan}

/-- The history of one record: the plan's stored state. -/
def condensed (p : Plan) (id : UInt64) : List Record := [.ofStored id p.stored]

/-- The plan is on a trial that has no deadline, although the plan itself expires. -/
def OnOpenTrial (p : Plan) : Prop :=
  p.current.settings.extendPolicy = some ⟨.trial, .unbounded⟩ ∧
    p.activeUntil ≠ .infinite ∧ p.activeUntil ≠ .unbounded

instance (p : Plan) : Decidable p.OnOpenTrial := inferInstanceAs (Decidable (_ ∧ _ ∧ _))

/-- The extend policy of the plan is the one folded from its history. -/
theorem eq_foldPolicy_of_ofHistory (h : ofHistory m records = .ok p) {t : ExtendPolicy}
    (ht : p.current.settings.extendPolicy = some t) :
    (∀ r ∈ records, r.NamesRule) ∧
      t = ⟨(foldPolicy m records).rule, (foldPolicy m records).trialUntil⟩ := by
  have hload : p.Loaded m := Or.inr ⟨records, h⟩
  have hm := hload.conforms.covers.mem (Settings.get?_extendPolicy_iff.mpr ht)
  obtain ⟨hnames, hp⟩ := extendPolicy_of_ofHistory h hm
  exact ⟨hnames, Option.some.inj (ht.symm.trans hp)⟩

/-- A condensed history is replayed to the state of the plan, up to the deadline of the
trial. -/
theorem ofHistory_condensed (h : ofHistory m records = .ok p) (id : UInt64) :
    ofHistory m (p.condensed id) = .ok (ofSnapshot m p.variant
      (p.current.withDeadline (foldPolicy m (p.condensed id)).trialUntil)) := by
  have hload : p.Loaded m := Or.inr ⟨records, h⟩
  obtain ⟨-, hv, -, -⟩ := hload.spec
  have hs := hload.conforms
  -- The rule of the plan was folded from the default on, so it is not before the default.
  have hrule (t : ExtendPolicy) (ht : p.current.settings.extendPolicy = some t) :
      (∀ r ∈ ([] : List Record), r.NamesRule) ∧ (foldPolicy m []).rule ≤ t.rule := by
    obtain ⟨-, rfl⟩ := eq_foldPolicy_of_ofHistory h ht
    refine ⟨fun r hr => absurd hr List.not_mem_nil, ?_⟩
    exact (ExtendFold.isGreatest_rule { rule := m.defaults.extendRule } records).2 (Or.inl rfl)
  have hrep := replay_append (stores_ofStored id p) hs
    (fun r hr => absurd hr List.not_mem_nil) hrule
  exact ofHistory_eq_ok_iff.mpr ⟨_, hrep, hv, rfl⟩

/-- The deadline after condensing: only an open trial has another one than before. -/
theorem trialUntil_condensed (h : ofHistory m records = .ok p) {t : ExtendPolicy}
    (ht : p.current.settings.extendPolicy = some t) (id : UInt64) :
    (foldPolicy m (p.condensed id)).trialUntil =
      if p.OnOpenTrial then p.activeUntil else t.trialUntil := by
  have hstores := stores_ofStored id p
  have hfinite : t.trialUntil ≠ .infinite := by
    obtain ⟨hnames, rfl⟩ := eq_foldPolicy_of_ofHistory h ht
    show (foldPolicy m records).trialUntil ≠ _
    rw [trialUntil_foldPolicy hnames]
    exact earliestDeadline_ne_infinite _ _
  have hrecord : ∀ r ∈ p.condensed id, r.NamesRule := by
    intro r hr
    rw [List.mem_singleton.mp hr]
    exact namesRule_of_ownRule (hstores.ownRule ht)
  rw [trialUntil_foldPolicy hrecord, condensed, hstores.earliestDeadline_singleton ht hfinite]
  have hiff : p.OnOpenTrial ↔ t = ⟨.trial, .unbounded⟩ ∧ p.activeUntil ≠ .infinite ∧
      p.activeUntil ≠ .unbounded := by
    unfold OnOpenTrial
    rw [ht, Option.some.injEq]
  show (if t = ⟨.trial, .unbounded⟩ ∧ p.activeUntil ≠ .infinite then p.activeUntil else _) = _
  simp only [hiff]
  -- An expiry that never comes is the deadline that the trial has already.
  by_cases hopen : t = ⟨.trial, .unbounded⟩
  · subst hopen
    by_cases hu : p.activeUntil = .unbounded <;> simp [hu]
  · simp [hopen]

/-- **A history is condensed to its last state, except for an open trial.**  Replaying the
record of the state that a history amounts to, under any id, gives a plan of the same variant
whose state differs in the deadline of the trial at most.  It is the plan itself exactly when
that is not on an open trial; of an open trial the deadline becomes the plan's expiry. -/
theorem ofHistory_condensed_iff (h : ofHistory m records = .ok p) (id : UInt64) :
    (∃ q, ofHistory m (p.condensed id) = .ok q ∧ q.variant = p.variant ∧
        q.current.isSame p.current = true ∧
        (p.OnOpenTrial → q.current = p.current.withDeadline p.activeUntil)) ∧
      (ofHistory m (p.condensed id) = .ok p ↔ ¬ p.OnOpenTrial) := by
  have hcondensed := ofHistory_condensed h id
  have hload : p.Loaded m := Or.inr ⟨records, h⟩
  have hopen (ho : p.OnOpenTrial) : (foldPolicy m (p.condensed id)).trialUntil = p.activeUntil := by
    rw [trialUntil_condensed h ho.1, if_pos ho]
  refine ⟨⟨_, hcondensed, rfl, Snapshot.isSame_withDeadline _ _, fun ho => ?_⟩, ?_⟩
  · rw [hopen ho]
    rfl
  · rw [hcondensed]
    constructor
    · intro he ho
      rw [hopen ho] at he
      have hpolicy := congrArg (fun q : Plan => q.current.settings.extendPolicy) (Except.ok.inj he)
      simp only [ofSnapshot, Snapshot.withDeadline, Settings.withDeadline, ho.1, Option.map_some,
        Option.some.injEq, ExtendPolicy.mk.injEq, true_and] at hpolicy
      exact ho.2.2 hpolicy
    · intro ho
      refine congrArg Except.ok (Eq.trans (congrArg (ofSnapshot m p.variant) ?_)
        hload.eq_ofSnapshot.symm)
      refine congrArg (Snapshot.mk p.activeUntil p.freeActiveUntil) ?_
      cases ht : p.current.settings.extendPolicy with
      | none => exact Settings.withDeadline_of_none ht _
      | some t =>
        rw [trialUntil_condensed h ht, if_neg ho]
        exact Settings.withDeadline_self ht

end Plan

namespace Seats

/-- The history of `recorded` is condensed to the record of its plan, whose deadline is
written down before any trial. -/
theorem ofHistory_recordedPlan_condensed :
    Plan.ofHistory family recorded = .ok recordedPlan ∧
      Plan.ofHistory family (recordedPlan.condensed 3) = .ok recordedPlan := by
  have hload : Plan.ofHistory family recorded = .ok recordedPlan := rfl
  exact ⟨hload, (Plan.ofHistory_condensed_iff hload 3).2.mpr (by decide)⟩

/-- A trial that starts while the plan has no expiry, and then an expiry in 2000. -/
def opened : List Record := [
  ⟨1, 1001, 0, 0, ⟨[("extend_policy", ⟨[("rule", .string "trial")]⟩)]⟩⟩,
  ⟨2, 1001, 2000, 0, {}⟩]

/-- The plan of `opened`: on trial, with no deadline. -/
def openedPlan : Plan := .ofSnapshot family 1001 ⟨2000, 0, {
  limit := some ⟨10⟩
  extendPolicy := some ⟨.trial, .unbounded⟩
  restrictPolicy := some ⟨0⟩
  demo := some ⟨0⟩ }⟩

/-- **Condensing an open trial ends it with the plan**: the record of the state alone is
replayed to another state than the history that it was taken from. -/
theorem condensed_openedPlan :
    Plan.ofHistory family opened = .ok openedPlan ∧
      ∃ q, Plan.ofHistory family (openedPlan.condensed 1) = .ok q ∧
        q.current.settings.extendPolicy = some ⟨.trial, 2000⟩ ∧ q.current ≠ openedPlan.current :=
  ⟨rfl, _, rfl, by decide, by decide⟩

end Seats
end Subscription
