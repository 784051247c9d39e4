import Subscription.Proofs.Activation
import Subscription.Proofs.OneWay
import Subscription.Proofs.PlainProlongation

/-! # Whether a plan on trial is in force

A trial that starts by itself is given the plan's expiry as its deadline, and none if the plan
never expires (`Plan.BeginsTrial.policy`).  But a deadline is the last moment of a trial, while
an expiry is the first moment at which the plan is no longer in force by it.  So the trial runs
as long as the plan is in force by its expiry and one moment longer, and at that moment the plan
is on trial without being in force, unless it is free then
(`Plan.BeginsTrial.isActive_of_isTrial_iff`).
-/
namespace Subscription

namespace Seconds

/-- The deadline that goes with an expiry. -/
def deadline (expiry : Seconds) : Seconds := if expiry = .infinite then .unbounded else expiry

/-- A deadline is kept before the expiry and at the expiry. -/
theorem le_deadline_iff {time expiry : Seconds} :
    time ≤ expiry.deadline ↔ expiry.Outlasts time ∨ time = expiry := by
  unfold deadline Outlasts
  by_cases hinfinite : expiry = .infinite
  · rw [if_pos hinfinite]
    exact iff_of_true time.le_unbounded (Or.inl (Or.inl hinfinite))
  · rw [if_neg hinfinite, or_iff_right hinfinite]
    exact le_iff_lt_or_eq

end Seconds

/-- A free policy that is replaced by a trial gets the deadline that goes with the new expiry. -/
theorem ExtendPolicy.replacement_of_starts {q : ExtendPolicy} {t : Transition}
    (hfree : q.rule = .free) (htrial : (q.replacement t).rule = .trial) :
    q.replacement t = ⟨.trial, t.prospective.activeUntil.deadline⟩ := by
  unfold replacement at htrial ⊢
  split at htrial
  · cases htrial
  · rename_i hreason
    rw [if_neg hreason]
    split at htrial
    · cases htrial
    · rename_i hover
      rw [if_neg hover]
      split at htrial
      · rename_i hcrowded
        rw [if_pos hcrowded]
        simp only [Snapshot.isInfinite, Seconds.deadline, decide_eq_true_eq]
      · rw [hfree] at htrial
        cases htrial

namespace Plan
variable {p : Plan} {a : Alteration}

/-- A trial is running until its deadline, which is part of it. -/
theorem isTrial_iff_of_policy {q : ExtendPolicy} (hq : p.current.settings.extendPolicy = some q)
    (time : Seconds) : p.isTrial time = true ↔ q.rule = .trial ∧ time ≤ q.trialUntil := by
  unfold isTrial trialState
  rw [hq]
  cases hrule : q.rule <;>
    by_cases ht : time ≤ q.trialUntil <;>
      simp [ExtendPolicy.isTrialAvailable, ExtendPolicy.isTrial, hrule, ht]

theorem isFree_of_infinite (hinfinite : p.activeUntil = .infinite) (time : Seconds) :
    p.isFree time = true := by
  unfold isFree Snapshot.isInfinite
  rw [decide_eq_true (show p.current.activeUntil = .infinite from hinfinite)]
  rfl

/-- A plan is in force before it expires, and while it is free. -/
theorem isActive_iff_isFree (time : Seconds) :
    p.isActive time = true ↔ time < p.activeUntil ∨ p.isFree time = true := by
  unfold isActive
  rw [Bool.or_eq_true, Bool.or_eq_true, decide_eq_true_eq]
  constructor
  · rintro ((hinfinite | hlt) | hfree)
    · exact Or.inr (isFree_of_infinite (of_decide_eq_true hinfinite) time)
    · exact Or.inl hlt
    · exact Or.inr hfree
  · exact Or.imp_left Or.inr

/-- No policy is desired, and the alteration moves the plan from free extension to a trial. -/
structure BeginsTrial (p : Plan) (a : Alteration) : Prop where
  undesired : a.request.desired.extendPolicy = none
  before : p.extendRule = some .free
  after : (p.apply a).1.extendRule = some .trial

namespace BeginsTrial
variable (h : p.BeginsTrial a)
include h

/-- What was refused would have left the rule as it was. -/
theorem isSuccess : (p.apply a).2.isSuccess = true := by
  refine Decidable.not_not.mp fun hs => ?_
  have hafter := h.after
  rw [p.apply_fst_of_rejected a (Bool.eq_false_iff.mpr hs), h.before] at hafter
  cases hafter

/-- The deadline of the trial is the one that goes with the plan's new expiry. -/
theorem policy :
    (p.apply a).1.current.settings.extendPolicy =
      some ⟨.trial, (p.apply a).1.activeUntil.deadline⟩ := by
  obtain ⟨q, hq, hfree⟩ := extendRule_eq_some_iff.mp h.before
  obtain ⟨q', hq', htrial⟩ := extendRule_eq_some_iff.mp h.after
  rw [p.apply_fst_of_isSuccess a h.isSuccess] at hq' ⊢
  rcases p.get?_proposal_cases (Settings.get?_extendPolicy_iff.mpr hq') with hd | ⟨-, x, hx, he⟩
  · rw [normalise_desired, Settings.get?_extendPolicy_iff, h.undesired] at hd
    cases hd
  · rw [Settings.get?_extendPolicy_iff.mpr hq, Option.some.injEq] at hx
    subst hx
    obtain rfl : q' = q.replacement (p.replacing a) := Setting.extendPolicy.inj he
    rw [hq', ExtendPolicy.replacement_of_starts hfree htrial]
    rfl

/-- **When a plan on trial is in force.**  A trial that has begun without being desired runs at
every moment at which the plan is in force by its expiry, and at the expiry.  The plan is in force
whenever it runs, but for the expiry: there it is exactly if it is free. -/
theorem isActive_of_isTrial_iff (time : Seconds) :
    ((p.apply a).1.isTrial time = true ↔
        (p.apply a).1.activeUntil.Outlasts time ∨ time = (p.apply a).1.activeUntil) ∧
      (((p.apply a).1.isTrial time = true → (p.apply a).1.isActive time = true) ↔
        (time = (p.apply a).1.activeUntil → (p.apply a).1.isFree time = true)) := by
  have htrial : (p.apply a).1.isTrial time = true ↔
      (p.apply a).1.activeUntil.Outlasts time ∨ time = (p.apply a).1.activeUntil := by
    rw [isTrial_iff_of_policy h.policy, and_iff_right rfl]
    exact Seconds.le_deadline_iff
  refine ⟨htrial, ?_⟩
  rw [htrial, isActive_iff_isFree]
  constructor
  · intro hactive hexpiry
    rcases hactive (Or.inr hexpiry) with hlt | hfree
    · rw [hexpiry] at hlt
      exact absurd hlt (lt_irrefl _)
    · exact hfree
  · rintro hfree ((hinfinite | hlt) | hexpiry)
    · exact Or.inr (isFree_of_infinite hinfinite time)
    · exact Or.inl hlt
    · exact Or.inr (hfree hexpiry)

end BeginsTrial
end Plan

namespace Seats

/-- Fewer seats, of which twelve are in use; this costs nothing. -/
def fewerSeats : Alteration where
  method := .detached
  request := {
    availability := .detached
    actions := .ofList [.change]
    desired := { limit := some ⟨20⟩ } }
  circumstance := { occupancy := 12 }
  time := 1000

/-- Fifty seats until 2000, which are free until 5000. -/
def giftedPlan : Plan :=
  .ofSnapshot family 1001 { (planAt 50).current with freeActiveUntil := 5000 }

/-- A plan that is free for longer is in force at the last moment of its trial. -/
theorem isActive_giftedPlan :
    giftedPlan.Reachable family ∧ giftedPlan.BeginsTrial fewerSeats ∧
      (giftedPlan.apply fewerSeats).1.isTrial 2000 = true ∧
      (giftedPlan.apply fewerSeats).1.isActive 2000 = true := by
  have hreach : giftedPlan.Reachable family :=
    Plan.Loaded.reachable (Or.inl ⟨{ storedAt 50 with freeActiveUntil := 5000 }, rfl⟩)
  have hbegins : giftedPlan.BeginsTrial fewerSeats := ⟨rfl, by decide, by decide⟩
  have hfree : (giftedPlan.apply fewerSeats).1.isFree 2000 = true := by decide
  obtain ⟨htrial, hactive⟩ := hbegins.isActive_of_isTrial_iff 2000
  have hruns := htrial.mpr (Or.inr (by decide))
  exact ⟨hreach, hbegins, hruns, hactive.mpr (fun _ => hfree) hruns⟩

/-- **At the last moment of its trial a plan may have expired**: with the move to fewer seats a
trial until 2000 starts, which still runs then, when the plan is no longer in force. -/
theorem not_isActive_lastMoment :
    (planAt 50).Reachable family ∧ (planAt 50).BeginsTrial fewerSeats ∧
      fewerSeats.method = .detached ∧ ((planAt 50).apply fewerSeats).2 = .applied false ∧
      fewerSeats.time ≤ 2000 ∧ ((planAt 50).apply fewerSeats).1.isTrial 2000 = true ∧
      ((planAt 50).apply fewerSeats).1.isActive 2000 = false :=
  ⟨Plan.Loaded.reachable (Or.inl ⟨storedAt 50, rfl⟩), ⟨rfl, by decide, by decide⟩, rfl,
    by decide, by decide, by decide, by decide⟩

end Seats
end Subscription
