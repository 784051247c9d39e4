import Subscription.Proofs.Conditions
import Subscription.Proofs.OneWay

/-! # The deadline of a running trial

Once a trial runs, a replacement keeps its deadline or ends it (`ExtendPolicy.replacement_cases`).
A policy that is desired is judged by its rule alone, so a desired trial takes the place of the
running one, whatever its deadline.  A run therefore keeps a trial within its deadline exactly
when nothing that is carried out on the way desires a trial with a later one: this is proved for
one alteration (`Plan.trialEndsBy_apply_iff`) and from it for a run
(`Plan.Reachable.trialEndsBy_after_iff`).
-/
namespace Subscription

/-- The replacement of a policy that is no longer free keeps it, or moves its rule to the end. -/
theorem ExtendPolicy.replacement_cases (q : ExtendPolicy) (t : Transition) (hq : q.rule ≠ .free) :
    q.replacement t = q ∨ (q.replacement t).rule = .never := by
  unfold replacement
  split
  · exact Or.inr rfl
  · split
    · exact Or.inr rfl
    · rw [if_neg fun h => hq h.1]
      exact Or.inl rfl

namespace Plan
variable {m : Family} {p : Plan} {a : Alteration} {d : Seconds}

/-- The plan is on a trial that ends by `d`, or its trial is over. -/
def TrialEndsBy (p : Plan) (d : Seconds) : Prop :=
  ∃ q, p.current.settings.extendPolicy = some q ∧
    (q.rule = .never ∨ q.rule = .trial ∧ q.trialUntil ≤ d)

/-! ## One alteration -/

/-- The alteration is carried out with a trial until `d` for the policy that is desired. -/
def SetsTrial (p : Plan) (a : Alteration) (d : Seconds) : Prop :=
  (p.apply a).2.isSuccess = true ∧ a.request.desired.extendPolicy = some ⟨.trial, d⟩

/-- A trial that is desired is the plan's when the alteration is carried out. -/
theorem SetsTrial.policy (h : p.SetsTrial a d) (hf : .extendPolicy ∈ p.family.facets) :
    (p.apply a).1.current.settings.extendPolicy = some ⟨.trial, d⟩ := by
  rw [p.apply_fst_of_isSuccess a h.1]
  exact Settings.get?_extendPolicy_iff.mp
    (p.get?_altered_of_desired hf (Settings.get?_extendPolicy_iff.mpr h.2))

/-- Where the policy comes from after a trial has begun: it is as it was, or over, or desired of
an alteration that is carried out. -/
theorem policy_apply_cases {q q' : ExtendPolicy} (hq : p.current.settings.extendPolicy = some q)
    (hfree : q.rule ≠ .free) (hq' : (p.apply a).1.current.settings.extendPolicy = some q') :
    q' = q ∨ q'.rule = .never ∨
      (p.apply a).2.isSuccess = true ∧ a.request.desired.extendPolicy = some q' := by
  by_cases hs : (p.apply a).2.isSuccess = true
  · rw [p.apply_fst_of_isSuccess a hs] at hq'
    rcases extendPolicy_altered_cases hq hq' with hd | ⟨-, t, rfl⟩
    · exact Or.inr (Or.inr ⟨hs, hd⟩)
    · exact (q.replacement_cases t hfree).imp id Or.inl
  · rw [p.apply_fst_of_rejected a (Bool.eq_false_iff.mpr hs), hq, Option.some.injEq] at hq'
    exact Or.inl hq'.symm

/-- **One alteration keeps a trial within `d`** exactly when it does not set one that ends
later. -/
theorem trialEndsBy_apply_iff (hf : .extendPolicy ∈ p.family.facets)
    (hc : p.current.settings.Covers p.family.facets) (ha : a.ForcesNoPolicy)
    (hp : p.TrialEndsBy d) :
    (p.apply a).1.TrialEndsBy d ↔ ∀ d', p.SetsTrial a d' → d' ≤ d := by
  constructor
  · rintro ⟨q', hq', hend⟩ d' hset
    rw [hset.policy hf, Option.some.injEq] at hq'
    subst hq'
    rcases hend with hnever | ⟨-, hle⟩
    · cases hnever
    · exact hle
  · intro hset
    obtain ⟨q, hq, hend⟩ := hp
    obtain ⟨q', hq'⟩ := (p.covers_apply a hc).exists_extendPolicy hf
    refine ⟨q', hq', ?_⟩
    have hstarted : ExtendRule.trial ≤ q.rule := by
      rcases hend with hr | ⟨hr, -⟩
      · exact hr ▸ ExtendRule.trial.le_never
      · exact hr.ge
    have hfree : q.rule ≠ .free := fun hr => absurd (hr ▸ hstarted) (by decide)
    rcases policy_apply_cases hq hfree hq' with rfl | hnever | ⟨hs, hd⟩
    · exact hend
    · exact Or.inl hnever
    · -- A policy that is desired does not go back behind the trial.
      have hle : ExtendRule.trial ≤ q'.rule := hstarted.trans (rule_le_apply hq ha hf hq')
      obtain ⟨rule, deadline⟩ := q'
      cases rule with
      | free => exact absurd (show ExtendRule.trial ≤ .free from hle) (by decide)
      | trial => exact Or.inr ⟨rfl, hset deadline ⟨hs, hd⟩⟩
      | never => exact Or.inl rfl

/-! ## Runs -/

/-- **When a running trial is not prolonged.**  A reachable plan is on a trial until `d`, and
nothing is forced on it.  Then in every later state the trial ends by `d` or is over, exactly
when no alteration of the run that is carried out desires a trial with a later deadline. -/
theorem Reachable.trialEndsBy_after_iff (h : p.Reachable m)
    (hp : p.current.settings.extendPolicy = some ⟨.trial, d⟩) {as : List Alteration}
    (has : ∀ a ∈ as, a.method ≠ .force) :
    (∀ i, (p.after as i).TrialEndsBy d) ↔
      ∀ i a d', as[i]? = some a → (p.after as i).SetsTrial a d' → d' ≤ d := by
  have step (i : Nat) (a : Alteration) (ha : as[i]? = some a)
      (hi : (p.after as i).TrialEndsBy d) :
      (p.after as (i + 1)).TrialEndsBy d ↔ ∀ d', (p.after as i).SetsTrial a d' → d' ≤ d := by
    obtain ⟨hfamily, hc⟩ := (h.run (as.take i)).spec
    obtain ⟨q, hq, -⟩ := id hi
    have hf : Facet.extendPolicy ∈ m.facets := hc.mem (Settings.get?_extendPolicy_iff.mpr hq)
    have hforce : a.ForcesNoPolicy := fun hm => absurd hm (has a (List.mem_of_getElem? ha))
    rw [← hfamily] at hf hc
    rw [after_succ, ha]
    exact trialEndsBy_apply_iff hf hc hforce hi
  constructor
  · intro hall i a d' ha hset
    exact (step i a ha (hall i)).mp (hall (i + 1)) d' hset
  · intro hset i
    induction i with
    | zero => exact ⟨_, hp, Or.inr ⟨rfl, le_refl d⟩⟩
    | succ i ih =>
      cases ha : as[i]? with
      | none =>
        rw [after_succ, ha]
        exact ih
      | some a => exact (step i a ha ih).mpr fun d' => hset i a d' ha

end Plan

namespace Seats

/-- A trial until `d` for twelve seats, and nothing else; it costs nothing. -/
def trialUntil (d : Seconds) : Alteration where
  method := .detached
  request := {
    availability := .detached
    actions := .ofList []
    desired := { extendPolicy := some ⟨.trial, d⟩ } }
  circumstance := { occupancy := 12 }
  time := 1000

/-- The trial that twelve seats have started is cut short, and then stays within its first
deadline, since what would prolong it is not paid. -/
theorem trialEndsBy_crowded :
    (plan.run [crowded]).Reachable family ∧
      (plan.run [crowded]).current.settings.extendPolicy = some ⟨.trial, 2000⟩ ∧
      (∀ a ∈ [trialUntil 1500, unpaidMonth], a.method ≠ .force) ∧
      (plan.run [crowded]).SetsTrial (trialUntil 1500) 1500 ∧
      ∀ i, ((plan.run [crowded]).after [trialUntil 1500, unpaidMonth] i).TrialEndsBy 2000 := by
  have hreach := reachable_run [crowded]
  have hpolicy : (plan.run [crowded]).current.settings.extendPolicy = some ⟨.trial, 2000⟩ := by
    decide
  have hforce : ∀ a ∈ [trialUntil 1500, unpaidMonth], a.method ≠ .force := by decide
  refine ⟨hreach, hpolicy, hforce, ⟨by decide, rfl⟩, ?_⟩
  refine (hreach.trialEndsBy_after_iff hpolicy hforce).mpr ?_
  rintro i a d' ha ⟨-, hd⟩
  match i with
  | 0 =>
    cases ha
    cases hd
    decide
  | 1 =>
    cases ha
    cases hd
  | i + 2 => cases ha

/-- **A running trial is prolonged for nothing**: a trial with a later deadline is desired and
nothing else, and it is carried out without a payment.  The new state counts as the same as the
one before. -/
theorem not_trialEndsBy_later :
    (plan.run [crowded]).Reachable family ∧
      (plan.run [crowded]).current.settings.extendPolicy = some ⟨.trial, 2000⟩ ∧
      ((plan.run [crowded]).apply (trialUntil 5000)).2 = .applied false ∧
      ((plan.run [crowded]).apply (trialUntil 5000)).1.current.settings.extendPolicy =
        some ⟨.trial, 5000⟩ ∧
      ((plan.run [crowded]).apply (trialUntil 5000)).1.current.isSame
        (plan.run [crowded]).current = true :=
  ⟨reachable_run [crowded], by decide, by decide, by decide, by decide⟩

end Seats
end Subscription
