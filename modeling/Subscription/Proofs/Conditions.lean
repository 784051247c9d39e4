import Subscription.Proofs.Judging

/-! # Conditions of the caller

A caller may ask further conditions of the plan, whose answers narrow the status
after all others.  Narrowing raises the rank and so never turns a refusal into a
permission, with one exception: the rank of an alteration that needs a reason
lies below those of one that a trial covers and of one that is free.  A condition
that answers with either of these lifts the demand for a reason
(`Status.permits_narrow_iff`), and then an alteration is carried out that was
refused without the condition.  `Plan.rejected_withCondition_iff` says that this
is the only way.
-/
namespace Subscription

namespace Status

/-- The one answer by which narrowing can turn a refusal into a permission: the
status needs a reason that is not there, and the candidate needs none. -/
def Waives (candidate s : Status) (funded : Bool) : Prop :=
  s.availability = .reasonRequired ∧ funded = false ∧
    (candidate.availability = .whileTrial ∨ candidate.availability = .free)

/-- The ranks between needing a reason and being refused are the two that need
none. -/
theorem waived_iff {c : Status} :
    Status.reasonRequired.rank < c.rank ∧ c.isAvailable = true ↔
      c.availability = .whileTrial ∨ c.availability = .free := by
  unfold isAvailable rank
  cases c.availability <;> decide

/-- **Narrowing by one candidate refuses what was refused before, unless the
candidate waives the reason.** -/
theorem permits_narrow_iff {s c : Status} {funded : Bool} (hs : ¬ s.Permits funded) :
    (s.narrow c).Permits funded ↔ c.Waives s funded := by
  unfold narrow
  split
  · rename_i hlt
    rcases not_permits_iff.mp hs with hun | ⟨hreason, hfund⟩
    · -- A refused status is only replaced by one that refuses as well.
      have hrank : ¬ s.rank < 4 := fun h => by rw [isAvailable_iff.mpr h] at hun; cases hun
      have hc : c.isAvailable = false :=
        Bool.eq_false_iff.mpr fun h => by rw [isAvailable_iff] at h; omega
      have hs' : s.availability ≠ .reasonRequired := fun h => hrank (by rw [rank, h]; decide)
      constructor
      · intro h
        rw [h.1] at hc
        cases hc
      · intro h
        exact absurd h.1 hs'
    · have hrank : s.rank = Status.reasonRequired.rank := by rw [rank, hreason]; rfl
      rw [hrank] at hlt
      constructor
      · intro h
        exact ⟨hreason, hfund, waived_iff.mp ⟨hlt, h.1⟩⟩
      · rintro ⟨-, -, hc⟩
        refine ⟨(waived_iff.mpr hc).2, fun hr => ?_⟩
        rw [requiresReason_iff] at hr
        rcases hc with hc | hc <;> rw [hc] at hr <;> cases hr
  · rename_i hlt
    refine ⟨fun h => absurd h hs, ?_⟩
    rintro ⟨hreason, -, hc⟩
    have hrank : s.rank = Status.reasonRequired.rank := by rw [rank, hreason]; rfl
    exact absurd (hrank ▸ (waived_iff.mpr hc).1) hlt

end Status

/-- The alteration with one more condition, asked after all others. -/
def Alteration.withCondition (a : Alteration) (e : Plan → Status) : Alteration :=
  { a with request :=
    { a.request with extraConditions := a.request.extraConditions ++ [e] } }

namespace Plan
variable (p : Plan) (a : Alteration) (e : Plan → Status)

theorem normalise_withCondition :
    p.normalise (a.withCondition e).request =
      { p.normalise a.request with
        extraConditions := (p.normalise a.request).extraConditions ++ [e] } := by
  rw [normalise_extraConditions]
  exact p.normalise_withExtraConditions a.request _

/-- A further condition narrows the status once more, after all others. -/
theorem availability_withCondition :
    (p.arrange (a.withCondition e)).availability =
      (p.arrange a).availability.narrow (e p) := by
  have hverdicts (r : Request) (c : Circumstance) (o : Occasion) :
      p.verdicts { r with extraConditions := r.extraConditions ++ [e] } c o =
        p.verdicts r c o ++ [e p] := by
    -- No setting looks at the conditions of the caller.
    have hjudged := p.judgments_congr (t := ⟨p.family, c, o, r, p.proposal r c o⟩)
      (r := { r with extraConditions := r.extraConditions ++ [e] }) rfl rfl rfl
    unfold verdicts
    rw [List.map_append, ← List.append_assoc, ← hjudged]
    rfl
  rw [availability_arrange, availability_arrange, normalise_withCondition]
  show a.request.availability.narrowAll (p.verdicts _ a.circumstance _) = _
  rw [hverdicts, Status.narrowAll_append]
  rfl

/-- **A further condition keeps a rejected alteration rejected, except by waiving
the reason**: it does so exactly when it is not the case that the alteration is
detached, is arranged as needing a reason, and the condition answers that a trial
covers it or that it is free. -/
theorem rejected_withCondition_iff :
    ((p.apply a).2.isSuccess = false → (p.apply (a.withCondition e)).2.isSuccess = false) ↔
      ¬ (a.method = .detached ∧
        (p.arrange a).availability.availability = .reasonRequired ∧
        ((e p).availability = .whileTrial ∨ (e p).availability = .free)) := by
  by_cases hf : a.method = .force
  · have hs : (p.apply a).2.isSuccess = true := by rw [p.apply_of_force a hf]; rfl
    simp [hs, hf]
  · have hplain := p.isSuccess_iff_allows a hf
    have hfurther : (p.apply (a.withCondition e)).2.isSuccess = true ↔
        ((p.arrange a).availability.narrow (e p)).Permits a.method.hasReason := by
      rw [p.isSuccess_iff_allows (a.withCondition e) hf, Allows, availability_withCondition]
      rfl
    have hdetached : a.method.hasReason = false ↔ a.method = .detached := by
      cases hm : a.method <;> simp_all [Method.hasReason]
    rw [← Bool.not_eq_true, ← Bool.not_eq_true, hplain, hfurther]
    -- What is refused either way is refused; else the condition waives the reason.
    constructor
    · rintro h ⟨hm, hreason, hc⟩
      have hrej : ¬ p.Allows a :=
        Status.not_permits_iff.mpr (Or.inr ⟨hreason, hdetached.mpr hm⟩)
      exact h hrej ((Status.permits_narrow_iff hrej).mpr ⟨hreason, hdetached.mpr hm, hc⟩)
    · intro h hrej hper
      obtain ⟨hreason, hfund, hc⟩ := (Status.permits_narrow_iff hrej).mp hper
      exact h ⟨hdetached.mp hfund, hreason, hc⟩

end Plan

namespace Seats

/-- A month for twelve seats that nobody pays. -/
def unpaidMonth : Alteration where
  method := .detached
  request := { availability := .detached, prolongation := .extend 500 }
  circumstance := { occupancy := 12 }
  time := 1000

/-- **A condition can grant what is refused without it**: the unpaid month is
refused for want of a payment, and carried out once a condition answers `free`. -/
theorem condition_grants_unpaidMonth :
    (plan.apply unpaidMonth).2 =
        .rejected Status.Code.reasonRequired "payment required" ∧
      (plan.apply (unpaidMonth.withCondition fun _ => .free)).2 = .applied false ∧
      (plan.apply (unpaidMonth.withCondition fun _ => .free)).1.activeUntil = 2500 := by
  decide

end Seats
end Subscription
