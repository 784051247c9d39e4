import Subscription.Proofs.PlainProlongation

/-! # What is refused as the same

No rank is above `same`, so a preview shows it exactly when it starts from it or is answered it
(`Status.narrowAll_same_iff`).  Among the settings only the limit answers so, and it does before
any other rule: where a change is declared, nothing is activated, and the limit that is proposed
is the one the plan has (`Limit.judge_same_iff`).  A declared change is a change of the limit, so
neither the other settings that are desired nor the dates have a part in this
(`Plan.Reachable.arrange_same_iff`).
-/
namespace Subscription

namespace Status
variable {s : Status} {cs : List Status}

/-- There is no rank above `same`. -/
theorem same_iff_le_rank : s.availability = .same ↔ Availability.same.rank ≤ s.rank := by
  obtain ⟨availability, code, message⟩ := s
  cases availability <;> simp [rank, Availability.rank]

/-- Merging comes to `same` when one of the statuses is. -/
theorem narrowAll_same_iff :
    (s.narrowAll cs).availability = .same ↔
      s.availability = .same ∨ ∃ c ∈ cs, c.availability = .same := by
  constructor
  · intro h
    rcases s.narrowAll_eq_or_mem cs with heq | hmem
    · rw [heq] at h
      exact Or.inl h
    · exact Or.inr ⟨_, hmem, h⟩
  · simp only [same_iff_le_rank]
    rintro (h | ⟨c, hc, h⟩)
    · exact Nat.le_trans h (s.rank_le_narrowAll cs)
    · exact Nat.le_trans h (s.rank_le_narrowAll_of_mem hc)

end Status

namespace Limit
variable {l target : Limit} {t : Transition}

/-- The refusal of a change that leaves the limit as it is. -/
def same : Status := ⟨.same, Status.Code.limitUnsupportedReplacement, "limit is the same"⟩

/-- The first rule comes before all others. -/
theorem refusal?_of_same
    (h : l = target ∧ t.request.isChange = true ∧ ¬ t.request.isActivation = true) :
    l.refusal? target t = some same :=
  if_pos h

/-- All other rules refuse for another cause. -/
theorem unappropriated_of_refusal {s : Status}
    (h : ¬ (l = target ∧ t.request.isChange = true ∧ ¬ t.request.isActivation = true))
    (hs : l.refusal? target t = some s) : s.availability = .unappropriated := by
  unfold refusal? at hs
  dsimp only at hs
  rw [if_neg h] at hs
  repeat' split at hs
  all_goals first
    | (cases hs; rfl)
    | cases hs

theorem charge_ne_same : (l.charge target t).availability ≠ .same := by
  unfold charge
  dsimp only
  repeat' split
  all_goals decide

/-- A limit answers that it is the same when a change is declared that would leave it. -/
theorem judge_same_iff (ht : t.prospective.settings.limit = some target) :
    (l.judge t).availability = .same ↔
      l = target ∧ t.request.isChange = true ∧ ¬ t.request.isActivation = true := by
  rw [l.judge_eq target t ht]
  by_cases h : l = target ∧ t.request.isChange = true ∧ ¬ t.request.isActivation = true
  · rw [refusal?_of_same h]
    exact iff_of_true rfl h
  · -- Past the first rule there are only other refusals and the charge.
    refine iff_of_false ?_ h
    cases hs : l.refusal? target t with
    | none => exact charge_ne_same
    | some s =>
      rw [Option.getD_some, unappropriated_of_refusal h hs]
      decide

theorem judge_eq_same (h : (l.judge t).availability = .same) : l.judge t = same := by
  cases ht : t.prospective.settings.limit with
  | none =>
    unfold judge at h
    rw [ht] at h
    cases h
  | some target =>
    rw [l.judge_eq target t ht, refusal?_of_same ((judge_same_iff ht).mp h)]
    rfl

end Limit

theorem ExtendPolicy.judge_ne_same (q : ExtendPolicy) (t : Transition) :
    (q.judge t).availability ≠ .same := by
  cases ht : t.prospective.settings.extendPolicy with
  | none =>
    rw [judge_of_unproposed ht]
    decide
  | some target =>
    rw [judge_eq ht]
    cases q.rule <;> cases target.rule <;> decide

namespace Plan
variable {p : Plan} {a : Alteration} {l : Limit}

/-- The limit that an alteration would leave as it is: it is desired, or none is and the replacement
keeps it. -/
theorem limit_altered_eq_self_iff (hf : .limit ∈ p.family.facets)
    (hl : p.current.settings.limit = some l) :
    (p.altered a).current.settings.limit = some l ↔
      a.request.desired.limit = some l ∨
        a.request.desired.limit = none ∧
          (a.circumstance.occupancy ≤ l.tier ∨
            ∃ c, p.family.catalog = some c ∧ c.max = l.tier) := by
  cases hd : a.request.desired.limit with
  | none =>
    obtain ⟨catalog, hc⟩ := Option.isSome_iff_exists.mp (p.family.catalog_of_limit hf)
    rw [limit_altered_of_undesired_iff hf hc hl hd, hc]
    simp
  | some target =>
    rw [limit_altered_of_desired hf hd]
    simp

/-- The limit's answer to an alteration is `same` when it would stay, although a change of it is
declared. -/
theorem limit_judge_same_iff (hc : p.current.settings.Covers p.family.facets)
    (hl : p.current.settings.limit = some l) :
    (l.judge (p.transition a)).availability = .same ↔
      a.request.isChange = true ∧ a.request.isActivation = false ∧
        (p.altered a).current.settings.limit = some l := by
  have hf := hc.mem (Settings.get?_limit_iff.mpr hl)
  obtain ⟨target, ht⟩ := (p.covers_proposal _ _ _ hc).exists_limit hf
  have hrequest : (p.transition a).request = p.normalise a.request := rfl
  have haltered : (p.altered a).current.settings.limit = some target := ht
  rw [Limit.judge_same_iff (t := p.transition a) ht, hrequest, isChange_normalise,
    isActivation_normalise, haltered, Option.some.injEq, Bool.not_eq_true, eq_comm, and_comm,
    and_assoc]

/-- Only the limit answers that something is the same, if the conditions do not. -/
theorem eq_judge_of_same (hconds : ∀ e ∈ a.request.extraConditions, (e p).availability ≠ .same)
    {s : Status} (hs : s ∈ p.answers a) (h : s.availability = .same) :
    ∃ l, p.current.settings.limit = some l ∧ s = l.judge (p.transition a) := by
  rw [← verdicts_eq_answers] at hs
  rcases verdict_cases hs with hs | ⟨x, hx, rfl⟩ | ⟨e, he, rfl⟩
  · rw [objections_eq_failures] at hs
    obtain ⟨k, -, rfl⟩ := List.mem_map.mp hs
    cases k <;> cases h
  · cases x with
    | limit l => exact ⟨l, Settings.get?_limit_iff.mp hx, rfl⟩
    | extendPolicy q => exact absurd h (q.judge_ne_same _)
    | restrictPolicy q => cases h
    | demo w => cases h
  · rw [normalise_extraConditions] at he
    exact absurd h (hconds e he)

/-- **What is refused as the same.**  Let neither the seed of a request nor a condition of its
caller be `same`.  Then a reachable plan's preview shows `same`, by whatever method, exactly when
a change is declared without an activation and the limit that is proposed is the one that the plan
has: it is desired, or no limit is and it has room or is the greatest tier.  The refusal is then
the limit's, and what is desired for the other facets has no part in it. -/
theorem Reachable.arrange_same_iff {m : Family} (h : p.Reachable m)
    (hseed : a.request.availability.availability ≠ .same)
    (hconds : ∀ e ∈ a.request.extraConditions, (e p).availability ≠ .same) :
    ((p.arrange a).availability.availability = .same ↔
      a.request.isChange = true ∧ a.request.isActivation = false ∧
        ∃ l, p.current.settings.limit = some l ∧
          (a.request.desired.limit = some l ∨
            a.request.desired.limit = none ∧
              (a.circumstance.occupancy ≤ l.tier ∨ ∃ c, m.catalog = some c ∧ c.max = l.tier))) ∧
      ((p.arrange a).availability.availability = .same →
        (p.arrange a).availability = Limit.same) := by
  obtain ⟨rfl, hc⟩ := h.spec
  rw [availability_arrange, verdicts_eq_answers]
  have hkept {l : Limit} (hl : p.current.settings.limit = some l) :=
    limit_altered_eq_self_iff (a := a) (hc.mem (Settings.get?_limit_iff.mpr hl)) hl
  refine ⟨⟨fun hsame => ?_, ?_⟩, fun hsame => ?_⟩
  · obtain hs | ⟨s, hs, hsame⟩ := Status.narrowAll_same_iff.mp hsame
    · exact absurd hs hseed
    · obtain ⟨l, hl, rfl⟩ := eq_judge_of_same hconds hs hsame
      obtain ⟨hchange, hactivation, hlimit⟩ := (limit_judge_same_iff hc hl).mp hsame
      exact ⟨hchange, hactivation, l, hl, (hkept hl).mp hlimit⟩
  · rintro ⟨hchange, hactivation, l, hl, hlimit⟩
    have hget := Settings.get?_limit_iff.mpr hl
    have hmem := judge_mem_verdicts (a := a) (hc.mem hget) hget
    rw [verdicts_eq_answers] at hmem
    exact Status.narrowAll_same_iff.mpr (Or.inr ⟨_, hmem,
      (limit_judge_same_iff hc hl).mpr ⟨hchange, hactivation, (hkept hl).mpr hlimit⟩⟩)
  · rcases a.request.availability.narrowAll_eq_or_mem (p.answers a) with heq | hmem
    · rw [heq] at hsame
      exact absurd hsame hseed
    · obtain ⟨l, -, heq⟩ := eq_judge_of_same hconds hmem hsame
      rw [heq] at hsame ⊢
      exact Limit.judge_eq_same hsame

end Plan

namespace Seats

/-- A declared change that desires a demo until 5000, and the given limit. -/
def laterDemo (limit : Option Limit) : Alteration where
  method := .detached
  request := {
    availability := .detached
    actions := .ofList [.change]
    desired := { limit, demo := some ⟨5000⟩ } }
  circumstance := { occupancy := 5 }
  time := 1000

/-- With the twenty seats that the plan has desired again, the limit refuses. -/
theorem same_laterDemo :
    plan.Reachable family ∧
      (laterDemo (some ⟨20⟩)).request.availability.availability ≠ .same ∧
      (∀ e ∈ (laterDemo (some ⟨20⟩)).request.extraConditions, (e plan).availability ≠ .same) ∧
      (plan.arrange (laterDemo (some ⟨20⟩))).availability = Limit.same := by
  have hreach : plan.Reachable family := reachable_run []
  have hseed : (laterDemo (some ⟨20⟩)).request.availability.availability ≠ .same := by decide
  have hconds : ∀ e ∈ (laterDemo (some ⟨20⟩)).request.extraConditions,
      (e plan).availability ≠ .same := nofun
  obtain ⟨hiff, hstatus⟩ := hreach.arrange_same_iff hseed hconds
  exact ⟨hreach, hseed, hconds, hstatus (hiff.mpr ⟨rfl, rfl, ⟨20⟩, rfl, Or.inl rfl⟩)⟩

/-- **The same is refused although another demo is desired**, be it with the limit that the plan
has or with none. -/
theorem same_otherDemo :
    plan.Reachable family ∧
      (∀ limit, (laterDemo limit).request.availability = .detached ∧
        (laterDemo limit).request.extraConditions = []) ∧
      (plan.arrange (laterDemo (some ⟨20⟩))).availability.availability = .same ∧
      (plan.arrange (laterDemo none)).availability.availability = .same ∧
      (laterDemo (some ⟨20⟩)).request.desired.get? .demo = some (.demo ⟨5000⟩) ∧
      (laterDemo none).request.desired.get? .demo = some (.demo ⟨5000⟩) ∧
      plan.current.settings.get? .demo = some (.demo ⟨0⟩) ∧
      Setting.isSame (.demo ⟨0⟩) (.demo ⟨5000⟩) = false :=
  ⟨reachable_run [], fun _ => ⟨rfl, rfl⟩, by decide, by decide, rfl, rfl, rfl, by decide⟩

end Seats
end Subscription
