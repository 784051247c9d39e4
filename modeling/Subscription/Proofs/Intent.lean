import Subscription.Proofs.Run

/-! # What is carried out is what was asked for

A request says what is wanted, by its actions, its prolongation and the settings it desires, and
besides under which guards, from which status and on what conditions it may be had.  The second
part decides whether the alteration is carried out and has no say in what it does.  The dates and
the replacements are found from the first part, the circumstances, the time, and from the method
only as far as it pays (`Plan.proposal_congr`), so two alterations of one intent that are both
carried out leave one plan (`Plan.apply_of_sameIntent`).  In this `detached` and `force` are one:
force carries out what would be carried out without it, and skips the rules.
-/
namespace Subscription

/-- The requests want the same. -/
structure Request.SameIntent (r r' : Request) : Prop where
  actions : r.actions = r'.actions
  prolongation : r.prolongation = r'.prolongation
  desired : r.desired = r'.desired

/-- The methods pay alike: they are one, or neither pays. -/
def Method.Alike (m m' : Method) : Prop :=
  m = m' ∨ (m = .detached ∧ m' = .force) ∨ (m = .force ∧ m' = .detached)

/-- The alterations want the same of a plan, at one time and under the same circumstances. -/
structure Alteration.SameIntent (a b : Alteration) : Prop where
  request : a.request.SameIntent b.request
  circumstance : a.circumstance = b.circumstance
  time : a.time = b.time
  method : a.method.Alike b.method

/-- The occasions are of one time and of methods that pay alike. -/
structure Occasion.Alike (o o' : Occasion) : Prop where
  time : o.time = o'.time
  isPromo : o.isPromo = o'.isPromo
  hasReason : o.hasReason = o'.hasReason

/-- What a replacement looks at is the same in both transitions. -/
structure Transition.SameBasis (t t' : Transition) : Prop where
  catalog : t.family.catalog = t'.family.catalog
  trialThreshold : t.family.trialThreshold = t'.family.trialThreshold
  circumstance : t.circumstance = t'.circumstance
  occasion : t.occasion.Alike t'.occasion
  prospective : t.prospective = t'.prospective

theorem Occasion.Alike.refl (o : Occasion) : o.Alike o := ⟨rfl, rfl, rfl⟩

/-- A replacement looks neither at the request nor at the rest of the family. -/
theorem Settings.replacement_congr {t t' : Transition} (h : t.SameBasis t') (s : Settings) :
    s.replacement t = s.replacement t' := by
  have hlimit (l : Limit) : l.replacement t = l.replacement t' := by
    unfold Limit.replacement
    rw [h.catalog, h.circumstance]
  have hpolicy (p : ExtendPolicy) : p.replacement t = p.replacement t' := by
    unfold ExtendPolicy.replacement
    rw [h.trialThreshold, h.circumstance, h.prospective, h.occasion.hasReason, h.occasion.time]
  have hrestriction (p : RestrictPolicy) : p.replacement t = p.replacement t' := by
    unfold RestrictPolicy.replacement
    rw [h.prospective]
  unfold replacement
  simp only [hlimit, hpolicy, hrestriction]

namespace Plan
variable (p : Plan) {r r' : Request} {o o' : Occasion}

theorem occasion_alike {m m' : Method} (h : m.Alike m') (time : Seconds) :
    (p.occasion m time).Alike (p.occasion m' time) := by
  rcases h with rfl | ⟨rfl, rfl⟩ | ⟨rfl, rfl⟩
  · exact .refl _
  · exact ⟨rfl, rfl, rfl⟩
  · exact ⟨rfl, rfl, rfl⟩

theorem normalise_sameIntent (h : r.SameIntent r') :
    (p.normalise r).SameIntent (p.normalise r') := by
  unfold normalise
  rw [h.desired]
  split
  · exact ⟨congrArg (·.insert .prolong) h.actions, rfl, rfl⟩
  · exact h

theorem dates_congr (hr : r.SameIntent r') (ho : o.Alike o') : p.dates r o = p.dates r' o' := by
  unfold dates Request.isProlongation
  rw [hr.actions, hr.prolongation, ho.isPromo, ho.time]

/-- The state that is proposed depends on what is wanted, the circumstances and the time, and on
the method only as far as it pays. -/
theorem proposal_congr (hr : r.SameIntent r') (c : Circumstance) (ho : o.Alike o') :
    p.proposal r c o = p.proposal r' c o' := by
  have houtline : p.outline r o = p.outline r' o' := by
    rw [outline_eq, outline_eq, p.dates_congr hr ho, hr.desired]
  have hbasis : Transition.SameBasis ⟨p.family, c, o, r, p.outline r o⟩
      ⟨p.family, c, o', r', p.outline r' o'⟩ := ⟨rfl, rfl, rfl, ho, houtline⟩
  have hreplaced := p.current.settings.replacement_congr hbasis
  rw [proposal_eq, proposal_eq, hreplaced, houtline]

theorem altered_congr {a b : Alteration} (h : a.SameIntent b) : p.altered a = p.altered b := by
  have hproposal := p.proposal_congr (p.normalise_sameIntent h.request) a.circumstance
    (p.occasion_alike h.method a.time)
  unfold altered
  rw [hproposal, h.circumstance, h.time]

/-- **What is carried out does not depend on how it was allowed.**  Two alterations that want the
same of a plan, whatever their guards, seeds, trial behaviours and conditions, leave one and the
same plan if both are carried out.  A forced one always is, so it leaves what the detached one
leaves where the rules allow that. -/
theorem apply_of_sameIntent {a b : Alteration} (h : a.SameIntent b) :
    ((p.apply a).2.isSuccess = true → (p.apply b).2.isSuccess = true →
        (p.apply a).1 = (p.apply b).1) ∧
      (b.method = .force → p.apply b = (p.altered a, .applied true)) := by
  refine ⟨fun ha hb => ?_, fun hforce => ?_⟩
  · calc (p.apply a).1
      _ = p.altered a := p.apply_fst_of_isSuccess a ha
      _ = p.altered b := p.altered_congr h
      _ = (p.apply b).1 := (p.apply_fst_of_isSuccess b hb).symm
  · rw [p.apply_of_force b hforce, p.altered_congr h]

end Plan

namespace Seats

/-- Fifty seats, free as long as the trial can be started, for a caller who has seen twenty. -/
def fiftyOnTrial : Alteration where
  method := .detached
  request := {
    availability := .detached
    actions := .ofList [.change]
    trialBehaviour := .ofList [.freeWhileAvailable]
    expectedExpiry := .strict 2000
    expectedPrior := { limit := some ⟨20⟩ }
    desired := { limit := some ⟨50⟩ } }
  circumstance := { occupancy := 12 }
  time := 1000

/-- Fifty seats by force, from a seed that refuses them and against a condition. -/
def fiftyForced : Alteration where
  method := .force
  request := {
    availability := .notArranged
    actions := .ofList [.change]
    desired := { limit := some ⟨50⟩ }
    extraConditions := [fun _ => .notArranged] }
  circumstance := { occupancy := 12 }
  time := 1000

/-- The fifty seats are granted and forced alike, and either way the trial begins. -/
theorem sameIntent_fifty :
    fiftyOnTrial.SameIntent fiftyForced ∧ (plan.apply fiftyOnTrial).2 = .applied false ∧
      (plan.apply fiftyForced).2 = .applied true ∧
      (plan.apply fiftyOnTrial).1 = (plan.apply fiftyForced).1 ∧
      (plan.apply fiftyForced).1.current =
        ⟨2000, 0, ⟨some ⟨50⟩, some ⟨.trial, 2000⟩, some ⟨2000⟩, some ⟨0⟩⟩⟩ := by
  have hsame : fiftyOnTrial.SameIntent fiftyForced :=
    ⟨⟨rfl, rfl, rfl⟩, rfl, rfl, Or.inr (Or.inl ⟨rfl, rfl⟩)⟩
  have hgranted : (plan.apply fiftyOnTrial).2 = .applied false := by decide
  have hforced : (plan.apply fiftyForced).2 = .applied true := rfl
  exact ⟨hsame, hgranted, hforced,
    (plan.apply_of_sameIntent hsame).1 (by rw [hgranted]; rfl) (by rw [hforced]; rfl), by decide⟩

end Seats
end Subscription
