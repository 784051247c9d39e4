import Subscription.Proofs.Intent
import Subscription.Proofs.Judging

/-! # Which answer a preview shows

Answers are merged one after another, and a later one is taken only if its rank is strictly
greater.  What is left of a list is therefore its first member of the greatest rank
(`Status.narrowAll_eq_iff_leads`), with the code and message of that member; its rank is that of
every permutation of the list (`Status.Leads.rank_eq`).  A preview shows this member of one list:
the status the request starts from, what the plan as a whole objects to, the judgments of the
settings, and the answers of the caller's conditions (`Plan.availability_eq_iff_leads`).  All of
them are asked of the plan as it is, so none depends on another, and the order matters only
between answers of one rank.
-/
namespace Subscription

namespace Status
variable {s t x c : Status} {xs ys cs ds : List Status}

/-- The status is the first of the greatest rank in a list: those before it are of a lower rank,
and those after it of no greater one. -/
def Leads (x : Status) (xs : List Status) : Prop :=
  ∃ before after, xs = before ++ x :: after ∧
    (∀ c ∈ before, c.rank < x.rank) ∧ ∀ c ∈ after, c.rank ≤ x.rank

theorem Leads.mem (h : x.Leads xs) : x ∈ xs := by
  obtain ⟨before, after, rfl, -, -⟩ := h
  exact List.mem_append_right before List.mem_cons_self

theorem Leads.rank_le (h : x.Leads xs) (hc : c ∈ xs) : c.rank ≤ x.rank := by
  obtain ⟨before, after, rfl, hbefore, hafter⟩ := h
  rcases List.mem_append.mp hc with hc | hc
  · exact Nat.le_of_lt (hbefore c hc)
  · rcases List.mem_cons.mp hc with rfl | hc
    · exact Nat.le_refl _
    · exact hafter c hc

/-- Lists of the same members are led by the same rank. -/
theorem Leads.rank_eq (hx : x.Leads xs) (ht : t.Leads ys) (hp : xs.Perm ys) : x.rank = t.rank :=
  Nat.le_antisymm (ht.rank_le (hp.mem_iff.mp hx.mem)) (hx.rank_le (hp.mem_iff.mpr ht.mem))

/-- A list is led by its head, if no other member is above it, and else by what leads the rest. -/
theorem leads_cons_iff :
    x.Leads (c :: cs) ↔ (x = c ∧ ∀ d ∈ cs, d.rank ≤ c.rank) ∨ (c.rank < x.rank ∧ x.Leads cs) := by
  constructor
  · rintro ⟨before, after, heq, hbefore, hafter⟩
    rcases List.cons_eq_append_iff.mp heq with ⟨rfl, hhead⟩ | ⟨rest, rfl, rfl⟩
    · obtain ⟨rfl, rfl⟩ := List.cons.inj hhead
      exact Or.inl ⟨rfl, hafter⟩
    · obtain ⟨hc, hrest⟩ := List.forall_mem_cons.mp hbefore
      exact Or.inr ⟨hc, rest, after, rfl, hrest, hafter⟩
  · rintro (⟨rfl, hle⟩ | ⟨hlt, before, after, rfl, hbefore, hafter⟩)
    · exact ⟨[], cs, rfl, nofun, hle⟩
    · exact ⟨c :: before, after, rfl, List.forall_mem_cons.mpr ⟨hlt, hbefore⟩, hafter⟩

/-- To merge the first two members of a list does not change what leads it. -/
theorem leads_narrow_iff : x.Leads (s.narrow c :: cs) ↔ x.Leads (s :: c :: cs) := by
  by_cases hlt : s.rank < c.rank
  · have hnarrow : s.narrow c = c := if_pos hlt
    rw [hnarrow, leads_cons_iff (c := s)]
    constructor
    · intro h
      exact Or.inr ⟨Nat.lt_of_lt_of_le hlt (h.rank_le List.mem_cons_self), h⟩
    · rintro (⟨-, hle⟩ | ⟨-, h⟩)
      · exact absurd hlt (Nat.not_lt.mpr (hle c List.mem_cons_self))
      · exact h
  · have hnarrow : s.narrow c = s := if_neg hlt
    have hle := Nat.not_lt.mp hlt
    rw [hnarrow, leads_cons_iff, leads_cons_iff (c := s), List.forall_mem_cons, leads_cons_iff]
    constructor
    · rintro (⟨rfl, hcs⟩ | ⟨hs, h⟩)
      · exact Or.inl ⟨rfl, hle, hcs⟩
      · exact Or.inr ⟨hs, Or.inr ⟨Nat.lt_of_le_of_lt hle hs, h⟩⟩
    · rintro (⟨rfl, -, hcs⟩ | ⟨hs, ⟨rfl, -⟩ | ⟨-, h⟩⟩)
      · exact Or.inl ⟨rfl, hcs⟩
      · exact absurd hs hlt
      · exact Or.inr ⟨hs, h⟩

/-- **Merging a list leaves the first of its members of the greatest rank.** -/
theorem narrowAll_eq_iff_leads : s.narrowAll cs = x ↔ x.Leads (s :: cs) := by
  induction cs generalizing s with
  | nil =>
    rw [narrowAll_nil, leads_cons_iff]
    constructor
    · rintro rfl
      exact Or.inl ⟨rfl, nofun⟩
    · rintro (⟨rfl, -⟩ | ⟨-, h⟩)
      · rfl
      · exact absurd h.mem List.not_mem_nil
  | cons c cs ih => rw [narrowAll_cons, ih, leads_narrow_iff]

theorem leads_narrowAll (s : Status) (cs : List Status) : (s.narrowAll cs).Leads (s :: cs) :=
  narrowAll_eq_iff_leads.mp rfl

theorem rank_narrowAll_perm (s : Status) (hp : cs.Perm ds) :
    (s.narrowAll cs).rank = (s.narrowAll ds).rank :=
  (s.leads_narrowAll cs).rank_eq (s.leads_narrowAll ds) (hp.cons s)

end Status

/-! ## What is asked of the plan as a whole -/

/-- What is checked of the plan as a whole. -/
inductive Check where
  /-- The settings that are expected are there. -/
  | prior
  /-- The expiry of a plan in force is as expected. -/
  | expiry
  /-- What is extended without being activated is in force. -/
  | extension
  /-- What is activated is not in force, or is so for nothing. -/
  | activation
  /-- A trial that is required can still be started. -/
  | trial
deriving DecidableEq

namespace Check

/-- The checks in the order in which they are made. -/
def all : List Check := [prior, expiry, extension, activation, trial]

/-- Whether a plan passes the check for an alteration. -/
def passes (p : Plan) (a : Alteration) : Check → Bool
  | prior => a.request.expectedPrior.toList.all fun expected =>
      (p.current.settings.get? expected.facet).any (·.isSame expected)
  | expiry => a.request.expectedExpiry.holds p.activeUntil || !p.isActive a.time
  | extension => a.request.isActivation || !(p.normalise a.request).isExtension || p.isActive a.time
  | activation => !a.request.isActivation || !p.isActive a.time || p.isFree a.time
  | trial => !a.request.trialBehaviour .requireAvailable || p.isTrialAvailable a.time

open Status in
/-- The answer of a check that fails. -/
def refusal : Check → Status
  | prior => unappropriated Code.planWasChanged "plan was changed"
  | expiry =>
      unappropriated Code.unexpectedExpirationDate "expiration date not equal to expected"
  | extension => unappropriated Code.activationRequired "plan must be activated first"
  | activation => unappropriated Code.planIsActive "plan is already active"
  | trial => unappropriated Code.trialUnavailable "trial is not available"

theorem mem_all (k : Check) : k ∈ all := by cases k <;> decide

/-- Each check has an answer of its own. -/
theorem refusal_injective {k k' : Check} (h : k.refusal = k'.refusal) : k = k' := by
  revert h
  cases k <;> cases k' <;> decide

/-- The answers of the checks that a plan fails for an alteration, in order. -/
def failures (p : Plan) (a : Alteration) : List Status :=
  (all.filter fun k => !k.passes p a).map refusal

/-- An expiry that is not declared is as expected, so only a declared one can fail. -/
theorem passes_expiry_iff (p : Plan) (a : Alteration) :
    (a.request.expectedExpiry.isDeclared = true ∧ p.isActive a.time = true ∧
      ¬ a.request.expectedExpiry.holds p.activeUntil = true) ↔ expiry.passes p a = false := by
  have hdeclared : a.request.expectedExpiry.holds p.activeUntil = false →
      a.request.expectedExpiry.isDeclared = true := by
    cases a.request.expectedExpiry <;> simp [ExpectedExpiry.holds, ExpectedExpiry.isDeclared]
  simp only [passes, Bool.or_eq_false_iff, Bool.not_eq_false', Bool.not_eq_true]
  constructor
  · rintro ⟨-, hactive, hfails⟩
    exact ⟨hfails, hactive⟩
  · rintro ⟨hfails, hactive⟩
    exact ⟨hdeclared hfails, hactive, hfails⟩

theorem map_filter_cons (p : Plan) (a : Alteration) (k : Check) (ks : List Check) :
    ((k :: ks).filter fun k => !k.passes p a).map refusal =
      (if k.passes p a = false then [k.refusal] else []) ++
        (ks.filter fun k => !k.passes p a).map refusal := by
  rw [List.filter_cons]
  cases k.passes p a <;> rfl

end Check

namespace Plan
variable (p : Plan) (a : Alteration)

/-- The plan objects to an alteration by the checks that it fails. -/
theorem objections_eq_failures :
    p.objections (p.normalise a.request) (p.occasion a.method a.time) = Check.failures p a := by
  have htime : (p.occasion a.method a.time).time = a.time := rfl
  have hstate : (p.occasion a.method a.time).isTrialAvailable = p.isTrialAvailable a.time := rfl
  have hprior : (a.request.expectedPrior.toList.any fun expected =>
      !(p.current.settings.get? expected.facet).any (·.isSame expected)) = true ↔
        Check.passes p a .prior = false := by
    simp [Check.passes]
  have hexpiry := Check.passes_expiry_iff p a
  have hextension : (¬ a.request.isActivation = true ∧ (p.normalise a.request).isExtension = true ∧
      ¬ p.isActive a.time = true) ↔ Check.passes p a .extension = false := by
    simp [Check.passes, and_assoc]
  have hactivation : (a.request.isActivation = true ∧ p.isActive a.time = true ∧
      ¬ p.isFree a.time = true) ↔ Check.passes p a .activation = false := by
    simp [Check.passes, and_assoc]
  have htrial : (a.request.trialBehaviour .requireAvailable = true ∧
      ¬ p.isTrialAvailable a.time = true) ↔ Check.passes p a .trial = false := by
    simp [Check.passes]
  unfold objections
  simp only [htime, hstate, normalise_expectedPrior, normalise_expectedExpiry,
    normalise_trialBehaviour, isActivation_normalise, hprior, hexpiry, hextension, hactivation,
    htrial]
  unfold Check.failures Check.all
  simp only [Check.map_filter_cons]
  simp [Check.refusal]

/-- **The plan as a whole gives the answer of a check exactly when it fails the check.** -/
theorem refusal_mem_objections_iff (k : Check) :
    k.refusal ∈ p.objections (p.normalise a.request) (p.occasion a.method a.time) ↔
      k.passes p a = false := by
  rw [objections_eq_failures, Check.failures, List.mem_map]
  constructor
  · rintro ⟨k', hk', hrefusal⟩
    obtain rfl := Check.refusal_injective hrefusal
    simpa using (List.mem_filter.mp hk').2
  · intro h
    exact ⟨k, List.mem_filter.mpr ⟨k.mem_all, by simpa using h⟩, rfl⟩

/-- Everything that is answered to an alteration, in order: the checks of the plan as a whole that
it fails, the judgments of the plan's settings in the order of its family, and the conditions of
the caller. -/
def answers : List Status :=
  Check.failures p a ++ p.judgments (p.transition a) ++ a.request.extraConditions.map fun e => e p

theorem verdicts_eq_answers :
    p.verdicts (p.normalise a.request) a.circumstance (p.occasion a.method a.time) =
      p.answers a := by
  unfold verdicts answers
  rw [objections_eq_failures, normalise_extraConditions]
  rfl

/-- A preview shows the first of the highest answers, the status of the request being the first. -/
theorem availability_eq_iff_leads {x : Status} :
    (p.arrange a).availability = x ↔ x.Leads (a.request.availability :: p.answers a) := by
  rw [availability_arrange, verdicts_eq_answers, Status.narrowAll_eq_iff_leads]

theorem availability_leads :
    (p.arrange a).availability.Leads (a.request.availability :: p.answers a) :=
  (p.availability_eq_iff_leads a).mp rfl

variable {p a} in
/-- What is answered alike, from one status and by one method, is allowed alike. -/
theorem allows_iff_of_answers {b : Alteration} (hanswers : p.answers b = p.answers a)
    (hmethod : b.method = a.method)
    (hstatus : b.request.availability = a.request.availability) : p.Allows b ↔ p.Allows a := by
  have havailability : (p.arrange b).availability = (p.arrange a).availability := by
    rw [availability_eq_iff_leads, hstatus, hanswers]
    exact p.availability_leads a
  unfold Allows
  rw [havailability, hmethod]

end Plan

/-! ## The order of the conditions -/

/-- The alteration under other conditions of the caller. -/
def Alteration.withConditions (a : Alteration) (es : List (Plan → Status)) : Alteration :=
  { a with request := { a.request with extraConditions := es } }

namespace Plan
variable (p : Plan) (a : Alteration) (es : List (Plan → Status))

theorem normalise_withConditions :
    p.normalise (a.withConditions es).request =
      { p.normalise a.request with extraConditions := es } :=
  p.normalise_withExtraConditions a.request es

/-- The settings are judged as they are under any other conditions. -/
theorem judgments_withConditions :
    p.judgments (p.transition (a.withConditions es)) = p.judgments (p.transition a) := by
  have haltered : p.altered (a.withConditions es) = p.altered a :=
    p.altered_congr ⟨⟨rfl, rfl, rfl⟩, rfl, rfl, Or.inl rfl⟩
  have htransition : p.transition (a.withConditions es) =
      { p.transition a with request := { p.normalise a.request with extraConditions := es } } := by
    unfold transition
    rw [haltered, normalise_withConditions]
    rfl
  rw [htransition]
  exact p.judgments_congr rfl rfl rfl

theorem failures_withConditions : Check.failures p (a.withConditions es) = Check.failures p a := by
  have hpasses : Check.passes p (a.withConditions es) = Check.passes p a := by
    funext k
    cases k with
    | extension =>
      unfold Check.passes
      rw [normalise_withConditions]
      rfl
    | _ => rfl
  unfold Check.failures
  rw [hpasses]

/-- Conditions in another order give the same answers in another order. -/
theorem answers_perm (h : es.Perm a.request.extraConditions) :
    (p.answers (a.withConditions es)).Perm (p.answers a) := by
  have hconditions : (es.map fun e => e p).Perm (a.request.extraConditions.map fun e => e p) :=
    h.map fun e => e p
  unfold answers
  rw [failures_withConditions, judgments_withConditions]
  exact hconditions.append_left _

/-- **Merging is a leftmost maximum, and a preview is one.**  Merging candidates into a seed leaves
the first status of the greatest rank among the seed and the candidates, with its own code and
message, and any permutation of the candidates leaves one of the same rank.  A preview, by whatever
method, shows the first of the greatest rank among the status of the request, the checks that the
plan fails, the judgments of its settings and the answers of the conditions, each in their order.
So it never shows a rank below that of the request, and which rank it shows does not depend on the
order of the conditions. -/
theorem merging_leads :
    (∀ (s x : Status) (cs : List Status), s.narrowAll cs = x ↔ x.Leads (s :: cs)) ∧
      (∀ (s : Status) (cs ds : List Status), cs.Perm ds →
        (s.narrowAll cs).rank = (s.narrowAll ds).rank) ∧
      ∀ (p : Plan) (a : Alteration),
        (∀ x, (p.arrange a).availability = x ↔
          x.Leads (a.request.availability ::
            (Check.failures p a ++
              (p.family.facets.filterMap fun f =>
                (p.current.settings.get? f).map (Setting.judge (p.transition a))) ++
              a.request.extraConditions.map fun e => e p))) ∧
        a.request.availability.rank ≤ (p.arrange a).availability.rank ∧
        ∀ es : List (Plan → Status), es.Perm a.request.extraConditions →
          (p.arrange (a.withConditions es)).availability.rank =
            (p.arrange a).availability.rank := by
  refine ⟨fun s x cs => Status.narrowAll_eq_iff_leads, fun s cs ds => s.rank_narrowAll_perm,
    fun p a => ⟨fun x => p.availability_eq_iff_leads a, ?_, fun es hes => ?_⟩⟩
  · exact (p.availability_leads a).rank_le List.mem_cons_self
  · exact (p.availability_leads (a.withConditions es)).rank_eq (p.availability_leads a)
      ((p.answers_perm a es hes).cons _)

end Plan

namespace Seats

def tooMany : Plan → Status := fun _ => .unappropriated 77 "too many seats"

def tooLate : Plan → Status := fun _ => .unappropriated 78 "too late"

/-- A month that nobody pays, which one condition grants and two refuse. -/
def contestedMonth (occupancy : UInt32) : Alteration where
  method := .detached
  request := {
    availability := .detached
    prolongation := .extend 500
    extraConditions := [fun _ => .free, tooMany, tooLate] }
  circumstance := { occupancy }
  time := 1000

/-- The same with the conditions turned around. -/
def contestedMonthTurned (occupancy : UInt32) : Alteration :=
  (contestedMonth occupancy).withConditions
    (contestedMonth occupancy).request.extraConditions.reverse

/-- The judgment of a limit that a month would have to raise. -/
def tooSmall : Status :=
  .unappropriated Status.Code.limitChangeWithoutChangeAction "change action required"

/-- Of two conditions that refuse alike the first has its code shown; with their order turned
around it is the other's, at the same rank.  With sixty seats taken the limit refuses as well, and
as settings are judged before conditions are asked, its code is shown in either order. -/
theorem leads_contestedMonth :
    (plan.arrange (contestedMonth 12)).availability = tooMany plan ∧
      (plan.arrange (contestedMonthTurned 12)).availability = tooLate plan ∧
      (contestedMonth 12).request.extraConditions.reverse.Perm
        (contestedMonth 12).request.extraConditions ∧
      (plan.arrange (contestedMonthTurned 12)).availability.rank =
        (plan.arrange (contestedMonth 12)).availability.rank ∧
      (plan.arrange (contestedMonth 60)).availability = tooSmall ∧
      (plan.arrange (contestedMonthTurned 60)).availability = tooSmall := by
  have hperm := List.reverse_perm (contestedMonth 12).request.extraConditions
  have hsmall : tooSmall.Leads (.detached :: (Check.failures plan (contestedMonth 60) ++
      (plan.family.facets.filterMap fun f =>
        (plan.current.settings.get? f).map (Setting.judge (plan.transition (contestedMonth 60)))) ++
      [.free, tooMany plan, tooLate plan])) :=
    ⟨[.detached, .detached], [.detached, .detached, .free, tooMany plan, tooLate plan], by decide,
      by decide, by decide⟩
  have hturned : tooSmall.Leads (.detached :: (Check.failures plan (contestedMonthTurned 60) ++
      (plan.family.facets.filterMap fun f => (plan.current.settings.get? f).map
        (Setting.judge (plan.transition (contestedMonthTurned 60)))) ++
      [tooLate plan, tooMany plan, .free])) :=
    ⟨[.detached, .detached], [.detached, .detached, tooLate plan, tooMany plan, .free], by decide,
      by decide, by decide⟩
  exact ⟨by decide, by decide, hperm, (Plan.merging_leads.2.2 plan (contestedMonth 12)).2.2 _ hperm,
    ((Plan.merging_leads.2.2 plan (contestedMonth 60)).1 _).mpr hsmall,
    ((Plan.merging_leads.2.2 plan (contestedMonthTurned 60)).1 _).mpr hturned⟩

end Seats
end Subscription
