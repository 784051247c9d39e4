import Subscription.Proofs.LimitSafety
import Subscription.Proofs.Order

/-! # The extend policy moves one way

The rule of the extend policy goes from `free` to `trial` to `never` and not back.  A
replacement never moves it back (`ExtendPolicy.rule_le_replacement`), and a policy that
is desired must not either, or the alteration is refused (`Plan.Allows.rule_le`).  Only
force could; where no policy is forced, the rule of a reachable plan grows along every
run, `never` is final, and a trial starts at most once
(`Plan.Reachable.extendPolicy_oneWay`).
-/
namespace Subscription

namespace ExtendRule

theorem free_le (r : ExtendRule) : free ≤ r := Nat.zero_le _

theorem le_never (r : ExtendRule) : r ≤ never := by cases r <;> decide

end ExtendRule

theorem ExtendPolicy.rule_le_replacement (p : ExtendPolicy) (t : Transition) :
    p.rule ≤ (p.replacement t).rule := by
  unfold replacement
  split
  · exact p.rule.le_never
  · split
    · exact p.rule.le_never
    · split
      · rename_i h
        rw [h.1]
        exact ExtendRule.free_le _
      · exact le_refl _

/-- No extend policy is desired of an alteration that is forced. -/
def Alteration.ForcesNoPolicy (a : Alteration) : Prop :=
  a.method = .force → a.request.desired.extendPolicy = none

namespace Plan
variable {m : Family} {p : Plan} {a : Alteration}

/-! ## One alteration -/

section Apply
variable {q q' : ExtendPolicy} (hq : p.current.settings.extendPolicy = some q)
include hq

/-- An allowed alteration does not move the rule back, whatever policy is desired. -/
theorem Allows.rule_le (h : p.Allows a) (hf : .extendPolicy ∈ p.family.facets)
    (hq' : (p.altered a).current.settings.extendPolicy = some q') : q.rule ≤ q'.rule := by
  have hav := h.verdict (judge_mem_verdicts (a := a) hf (Settings.get?_extendPolicy_iff.mpr hq))
  have hjudge : Setting.judge (p.transition a) (.extendPolicy q) =
      (ExtendPolicy.refusal? q.rule q'.rule).getD .detached := ExtendPolicy.judge_eq hq'
  rw [hjudge] at hav
  exact ExtendPolicy.refusal?_eq_none_iff.mp
    (Status.refusal_eq_none (fun _ => ExtendPolicy.refuses_of_refusal) hav)

/-- The policy that is proposed is desired, or a replacement of the one the plan has. -/
theorem extendPolicy_altered_cases
    (hq' : (p.altered a).current.settings.extendPolicy = some q') :
    a.request.desired.extendPolicy = some q' ∨
      a.request.desired.extendPolicy = none ∧ ∃ t, q' = q.replacement t := by
  rcases p.get?_proposal_cases (Settings.get?_extendPolicy_iff.mpr hq') with hd | ⟨hd, x, hx, he⟩
  · rw [normalise_desired, Settings.get?_extendPolicy_iff] at hd
    exact Or.inl hd
  · rw [normalise_desired] at hd
    rw [Settings.get?_extendPolicy_iff.mpr hq, Option.some.injEq] at hx
    subst hx
    exact Or.inr ⟨Option.map_eq_none_iff.mp hd, _, Setting.extendPolicy.inj he⟩

/-- The proposal does not move the rule back where no policy is desired. -/
theorem rule_le_altered (hd : a.request.desired.extendPolicy = none)
    (hq' : (p.altered a).current.settings.extendPolicy = some q') : q.rule ≤ q'.rule := by
  rcases extendPolicy_altered_cases hq hq' with hdes | ⟨-, t, rfl⟩
  · rw [hd] at hdes
    cases hdes
  · exact q.rule_le_replacement t

/-- **No alteration moves the rule back**, unless it forces a policy on the plan. -/
theorem rule_le_apply (ha : a.ForcesNoPolicy) (hf : .extendPolicy ∈ p.family.facets)
    (hq' : (p.apply a).1.current.settings.extendPolicy = some q') : q.rule ≤ q'.rule := by
  rcases p.apply_cases a with ⟨hforce, he⟩ | ⟨-, hallows, he⟩ | ⟨-, -, code, message, he⟩
  · rw [he] at hq'
    exact rule_le_altered hq (ha hforce) hq'
  · rw [he] at hq'
    exact hallows.rule_le hq hf hq'
  · rw [he, hq, Option.some.injEq] at hq'
    exact le_of_eq (congrArg ExtendPolicy.rule hq')

end Apply

/-- Where no extend policy is desired, only the limit has anything to say. -/
theorem judge_eq_detached_of_undesired (hd : a.request.desired.extendPolicy = none) {f : Facet}
    {x : Setting} (hx : p.current.settings.get? f = some x) (hf : f ≠ .limit) :
    x.judge (p.transition a) = .detached := by
  obtain rfl := Settings.facet_of_get? hx
  cases x with
  | limit l => exact absurd rfl hf
  | extendPolicy q =>
    have hq := Settings.get?_extendPolicy_iff.mp hx
    show q.judge (p.transition a) = .detached
    cases hq' : (p.transition a).prospective.settings.extendPolicy with
    | none => exact ExtendPolicy.judge_of_unproposed hq'
    | some q' =>
      have hle : q.rule ≤ q'.rule := rule_le_altered hq hd hq'
      rw [ExtendPolicy.judge_eq hq', ExtendPolicy.refusal?_eq_none_iff.mpr hle]
      rfl
  | restrictPolicy q => rfl
  | demo w => rfl

/-! ## Runs -/

/-- Both plans have an extend policy, and the rule of `q` is not before that of `p`. -/
def RuleLe (p q : Plan) : Prop :=
  ∃ r r', p.extendRule = some r ∧ q.extendRule = some r' ∧ r ≤ r'

theorem extendRule_eq_some_iff {r : ExtendRule} :
    p.extendRule = some r ↔ ∃ q, p.current.settings.extendPolicy = some q ∧ q.rule = r :=
  Option.map_eq_some_iff

theorem isTrialAvailable_iff (time : Seconds) :
    p.isTrialAvailable time = true ↔ p.extendRule = some .free := by
  unfold isTrialAvailable trialState extendRule ExtendPolicy.isTrialAvailable
  cases p.current.settings.extendPolicy with
  | none => simp
  | some q =>
    by_cases hr : q.rule = .free
    · simp [hr]
    · by_cases ht : q.isTrial time = true <;> simp [hr, ht]

theorem RuleLe.trans {q s : Plan} (h : RuleLe p q) (h' : RuleLe q s) : RuleLe p s := by
  obtain ⟨r, r', hp, hq, hle⟩ := h
  obtain ⟨r₁, r₂, hq', hs, hle'⟩ := h'
  obtain rfl : r' = r₁ := Option.some.inj (hq.symm.trans hq')
  exact ⟨r, r₂, hp, hs, hle.trans hle'⟩

theorem ruleLe_refl (hc : p.current.settings.Covers p.family.facets)
    (hf : .extendPolicy ∈ p.family.facets) : RuleLe p p := by
  obtain ⟨q, hq⟩ := hc.exists_extendPolicy hf
  have hr := extendRule_eq_some_iff.mpr ⟨q, hq, rfl⟩
  exact ⟨q.rule, q.rule, hr, hr, le_refl _⟩

theorem ruleLe_apply (hc : p.current.settings.Covers p.family.facets)
    (hf : .extendPolicy ∈ p.family.facets) (ha : a.ForcesNoPolicy) :
    RuleLe p (p.apply a).1 := by
  obtain ⟨q, hq⟩ := hc.exists_extendPolicy hf
  obtain ⟨q', hq'⟩ := (p.covers_apply a hc).exists_extendPolicy hf
  exact ⟨q.rule, q'.rule, extendRule_eq_some_iff.mpr ⟨q, hq, rfl⟩,
    extendRule_eq_some_iff.mpr ⟨q', hq', rfl⟩, rule_le_apply hq ha hf hq'⟩

/-- **The rule of a reachable plan does not move back on a run.** -/
theorem Reachable.ruleLe_run (h : p.Reachable m) (hf : .extendPolicy ∈ m.facets)
    {as : List Alteration} (has : ∀ a ∈ as, a.ForcesNoPolicy) : RuleLe p (p.run as) := by
  obtain ⟨rfl, hc⟩ := h.spec
  have step (q : Plan) (hm : q.family = p.family)
      (hq : q.current.settings.Covers p.family.facets ∧ RuleLe p q) (a : Alteration) (ha : a ∈ as) :
      (q.apply a).1.current.settings.Covers p.family.facets ∧ RuleLe p (q.apply a).1 := by
    obtain ⟨hcovers, hle⟩ := hq
    rw [← hm] at hcovers hf ⊢
    exact ⟨q.covers_apply a hcovers, hle.trans (ruleLe_apply hcovers hf (has a ha))⟩
  exact (run_preserves_in_family step ⟨hc, ruleLe_refl hc hf⟩).2

/-! ## The states of a run -/

/-- The alteration at `i` starts a trial: it puts the plan on trial, which was not. -/
def StartsTrial (p : Plan) (as : List Alteration) (i : Nat) : Prop :=
  (p.after as i).extendRule ≠ some .trial ∧ (p.after as (i + 1)).extendRule = some .trial

theorem Reachable.ruleLe_after (h : p.Reachable m) (hf : .extendPolicy ∈ m.facets)
    {as : List Alteration} (has : ∀ a ∈ as, a.ForcesNoPolicy) {i j : Nat} (hij : i ≤ j) :
    RuleLe (p.after as i) (p.after as j) := by
  rw [p.after_eq_run_after as hij]
  exact (h.run _).ruleLe_run hf fun a ha =>
    has a (List.mem_of_mem_drop (List.mem_of_mem_take ha))

theorem RuleLe.never {q : Plan} (h : RuleLe p q) (hp : p.extendRule = some .never) :
    q.extendRule = some .never := by
  obtain ⟨r, r', hr, hr', hle⟩ := h
  obtain rfl := Option.some.inj (hr.symm.trans hp)
  rw [hr', le_antisymm r'.le_never hle]

theorem RuleLe.isTrialAvailable {q : Plan} (h : RuleLe p q) {time : Seconds}
    (hp : p.isTrialAvailable time = false) (time' : Seconds) :
    q.isTrialAvailable time' = false := by
  obtain ⟨r, r', hr, hr', hle⟩ := h
  -- If the trial were available later, the earlier rule would be no greater than `free`.
  by_contra hq
  rw [Bool.not_eq_false, isTrialAvailable_iff, hr', Option.some.injEq] at hq
  subst hq
  have hfree : r = .free := le_antisymm hle r.free_le
  rw [← Bool.not_eq_true, isTrialAvailable_iff, hr, hfree] at hp
  exact hp rfl

/-- A plan that has been on trial does not start one. -/
theorem Reachable.not_startsTrial (h : p.Reachable m) (hf : .extendPolicy ∈ m.facets)
    {as : List Alteration} (has : ∀ a ∈ as, a.ForcesNoPolicy) {i j : Nat} (hij : i ≤ j)
    (hi : (p.after as i).extendRule = some .trial) : ¬ p.StartsTrial as j := by
  rintro ⟨hj, hj'⟩
  obtain ⟨r, r', hr, hr', hle⟩ := h.ruleLe_after hf has hij
  obtain ⟨s, s', hs, hs', hle'⟩ := h.ruleLe_after hf has (Nat.le_succ j)
  obtain rfl := Option.some.inj (hr.symm.trans hi)
  obtain rfl := Option.some.inj (hs'.symm.trans hj')
  obtain rfl := Option.some.inj (hs.symm.trans hr')
  exact hj (by rw [hr', le_antisymm hle' hle])

/-- **The extend policy moves one way.**  On every run of a reachable plan that has one,
where a forced alteration does not desire one: the rule of a later state is not before
that of an earlier one in `free < trial < never`; the rule `never` stays; a trial that is
not available stays so, whatever the time; and no two alterations start a trial. -/
theorem Reachable.extendPolicy_oneWay (h : p.Reachable m) (hf : .extendPolicy ∈ m.facets)
    {as : List Alteration} (has : ∀ a ∈ as, a.ForcesNoPolicy) :
    (∀ i j, i ≤ j → ∃ r r', (p.after as i).extendRule = some r ∧
        (p.after as j).extendRule = some r' ∧ r ≤ r') ∧
      (∀ i j, i ≤ j → (p.after as i).extendRule = some .never →
        (p.after as j).extendRule = some .never) ∧
      (∀ i j time time', i ≤ j → (p.after as i).isTrialAvailable time = false →
        (p.after as j).isTrialAvailable time' = false) ∧
      ∀ i j, p.StartsTrial as i → p.StartsTrial as j → i = j := by
  refine ⟨?_, ?_, ?_, ?_⟩
  · exact fun i j hij => h.ruleLe_after hf has hij
  · exact fun i j hij => (h.ruleLe_after hf has hij).never
  · exact fun i j time time' hij ha => (h.ruleLe_after hf has hij).isTrialAvailable ha time'
  · intro i j hi hj
    -- After the earlier of the two the plan has been on trial.
    rcases Nat.lt_trichotomy i j with hij | hij | hij
    · exact absurd hj (h.not_startsTrial hf has hij hi.2)
    · exact hij
    · exact absurd hi (h.not_startsTrial hf has hij hj.2)

end Plan

namespace Seats

/-- Twelve seats are in use, which is above the threshold of a trial. -/
def crowded : Alteration where
  method := .force
  request := { availability := .detached }
  circumstance := { occupancy := 12 }
  time := 900

/-- The policy shall be free again, so that a trial can be started. -/
def freeAgain : Alteration where
  method := .promo
  request := {
    availability := .detached
    desired := { extendPolicy := some ⟨.free, .unbounded⟩ } }
  circumstance := { occupancy := 12 }
  time := 1100

/-- Twelve seats start the trial, a paid month ends it for good, and what would free the
policy again is refused. -/
theorem oneWay_crowded :
    plan.Reachable family ∧ Facet.extendPolicy ∈ family.facets ∧
      (∀ a ∈ [crowded, month, freeAgain], a.ForcesNoPolicy) ∧
      plan.StartsTrial [crowded, month, freeAgain] 0 ∧
      (∀ i, plan.StartsTrial [crowded, month, freeAgain] i → i = 0) ∧
      ∀ i, 2 ≤ i → (plan.after [crowded, month, freeAgain] i).extendRule = some .never := by
  have hreach : plan.Reachable family := Plan.Loaded.reachable (Or.inl ⟨stored, ofStored_stored⟩)
  have hfacet : Facet.extendPolicy ∈ family.facets := by decide
  have hforced : ∀ a ∈ [crowded, month, freeAgain], a.ForcesNoPolicy := by
    intro a ha hforce
    simp only [List.mem_cons, List.not_mem_nil, or_false] at ha
    rcases ha with rfl | rfl | rfl
    · rfl
    · cases hforce
    · cases hforce
  have hstart : plan.StartsTrial [crowded, month, freeAgain] 0 := by
    constructor <;> decide
  have hnever : (plan.after [crowded, month, freeAgain] 2).extendRule = some .never := by decide
  obtain ⟨-, hstays, -, honce⟩ := hreach.extendPolicy_oneWay hfacet hforced
  exact ⟨hreach, hfacet, hforced, hstart, fun i hi => honce i 0 hi hstart,
    fun i hi => hstays 2 i hi hnever⟩

end Seats
end Subscription
