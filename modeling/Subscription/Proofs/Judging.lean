import Subscription.Proofs.Run

/-! # What an allowed alteration has passed

Narrowing never lowers a rank (`Status.rank_le_narrowAll`), so an alteration is
allowed only if each of its verdicts, taken alone, would let it proceed
(`Plan.Allows.verdict`).  So it meets with no objection
(`Plan.Allows.objections_eq_nil`).  For the limit this means that none of its
refusals applies (`Plan.Allows.limit_refusal`), and `Limit.refusal?_eq_none_iff`
says what that is, rule by rule.
-/
namespace Subscription

namespace Status

theorem rank_le_narrowAll (s : Status) (cs : List Status) : s.rank ≤ (s.narrowAll cs).rank := by
  induction cs generalizing s with
  | nil => exact Nat.le_refl _
  | cons c cs ih =>
    have hstep : s.rank ≤ (s.narrow c).rank := by rw [rank_narrow]; omega
    exact Nat.le_trans hstep (ih (s.narrow c))

theorem rank_le_narrowAll_of_mem (s : Status) {c : Status} {cs : List Status} (h : c ∈ cs) :
    c.rank ≤ (s.narrowAll cs).rank := by
  induction cs generalizing s with
  | nil => cases h
  | cons d ds ih =>
    rw [narrowAll_cons]
    rcases List.mem_cons.mp h with rfl | h
    · have hstep : c.rank ≤ (s.narrow c).rank := by rw [rank_narrow]; omega
      exact Nat.le_trans hstep (rank_le_narrowAll _ ds)
    · exact ih (s.narrow d) h

theorem isAvailable_iff {s : Status} : s.isAvailable = true ↔ s.rank < 4 := decide_eq_true_iff

/-- Whatever lets an alteration proceed after narrowing did so before. -/
theorem isAvailable_of_mem {s c : Status} {cs : List Status} (h : c ∈ cs)
    (hs : (s.narrowAll cs).isAvailable = true) : c.isAvailable = true := by
  have hle := s.rank_le_narrowAll_of_mem h
  rw [isAvailable_iff] at hs ⊢
  omega

/-- Narrowing ends with the status it starts from or with one of the candidates. -/
theorem narrowAll_eq_or_mem (s : Status) (cs : List Status) :
    s.narrowAll cs = s ∨ s.narrowAll cs ∈ cs := by
  induction cs generalizing s with
  | nil => exact Or.inl rfl
  | cons c cs ih =>
    have hstep : s.narrow c = s ∨ s.narrow c = c := by
      unfold narrow
      split
      · exact Or.inr rfl
      · exact Or.inl rfl
    rw [narrowAll_cons]
    rcases ih (s.narrow c) with he | hm
    · rcases hstep with h | h
      · exact Or.inl (he.trans h)
      · exact Or.inr (List.mem_cons.mpr (Or.inl (he.trans h)))
    · exact Or.inr (List.mem_cons_of_mem c hm)

/-- A candidate that is above the start and above all other candidates is what narrowing ends
with. -/
theorem narrowAll_eq_of_above {s x : Status} {cs : List Status} (hx : x ∈ cs)
    (hs : s.rank < x.rank) (h : ∀ c ∈ cs, c = x ∨ c.rank < x.rank) : s.narrowAll cs = x := by
  have hle := s.rank_le_narrowAll_of_mem hx
  rcases s.narrowAll_eq_or_mem cs with he | hm
  · rw [he] at hle
    omega
  · rcases h _ hm with he | hlt
    · exact he
    · omega

/-- The status refuses, and says so with a code and a message. -/
structure Refuses (s : Status) : Prop where
  unavailable : s.isAvailable = false
  code : s.code ≠ 0
  message : s.message ≠ ""

/-- A judgment that begins with its refusals has not refused what it lets proceed. -/
theorem refusal_eq_none {refusal : Option Status} {s : Status}
    (hrefusal : ∀ r, refusal = some r → r.Refuses)
    (h : (refusal.getD s).isAvailable = true) : refusal = none := by
  cases refusal with
  | none => rfl
  | some r =>
    rw [Option.getD_some, (hrefusal r rfl).unavailable] at h
    cases h

end Status

namespace Limit
variable (l target : Limit) (t : Transition)

private theorem ite_some_eq_none_iff {α : Type} {P : Prop} [Decidable P] {a : α} {x : Option α} :
    (if P then some a else x) = none ↔ ¬ P ∧ x = none := by
  by_cases h : P <;> simp [h]

/-- Every refusal of the limit is one. -/
theorem refuses_of_refusal {s : Status} (h : l.refusal? target t = some s) : s.Refuses := by
  unfold refusal? at h
  dsimp only at h
  repeat' split at h
  all_goals first
    | (cases h; exact ⟨rfl, by decide, by decide⟩)
    | cases h

/-- The judgment of a limit, when a limit is proposed. -/
theorem judge_eq (h : t.prospective.settings.limit = some target) :
    l.judge t = (l.refusal? target t).getD (l.charge target t) := by
  unfold judge
  rw [h]

/-- **The move to `target` is not refused** when none of these applies: asking
for the same, changing without saying so, not having room, being infinite while
leaving a free tier, having an unused trial, not being active, and being paid for
less. -/
theorem refusal?_eq_none_iff :
    l.refusal? target t = none ↔
      ¬ (l = target ∧ t.request.isChange ∧ ¬ t.request.isActivation) ∧
      ¬ (l ≠ target ∧ ¬ t.request.isChange) ∧
      ¬ (¬ t.circumstance.occupancy ≤ target.tier ∧
        ¬ (t.family.limitRules.exceedAllowsPlainProlongation ∧ t.request.isProlongation ∧
          ¬ t.request.isActivation)) ∧
      ¬ (t.prospective.isInfinite ∧ t.family.isFreeLimit l) ∧
      ¬ (t.family.limitRules.blockUntilTrialStarted ∧ t.occasion.isTrialAvailable ∧
        ¬ t.request.isActivation) ∧
      ¬ (¬ t.occasion.isActiveOn .infinite ∧ ¬ t.occasion.isActiveOn .notExpired ∧
        ¬ t.request.isActivation ∧ ¬ t.family.isFreeLimit target) ∧
      ¬ (target.tier < l.tier ∧ t.occasion.hasReason ∧ ¬ t.request.isActivation) ∧
      ¬ (t.family.limitRules.exceedAllowsPlainProlongation ∧ t.request.isChange ∧
        ¬ t.circumstance.occupancy ≤ target.tier) := by
  unfold refusal?
  simp only [ite_some_eq_none_iff, decide_eq_true_eq, and_true]

end Limit

namespace ExtendPolicy

/-- The extend policy refuses to move back, and nothing else. -/
theorem refusal?_eq_none_iff {rule target : ExtendRule} :
    refusal? rule target = none ↔ rule ≤ target := by
  cases rule <;> cases target <;> decide

theorem refuses_of_refusal {rule target : ExtendRule} {s : Status}
    (h : refusal? rule target = some s) : s.Refuses := by
  unfold refusal? at h
  repeat' split at h
  all_goals first
    | (cases h; exact ⟨rfl, by decide, by decide⟩)
    | cases h

/-- The judgment of an extend policy, when one is proposed. -/
theorem judge_eq {p target : ExtendPolicy} {t : Transition}
    (h : t.prospective.settings.extendPolicy = some target) :
    p.judge t = (refusal? p.rule target.rule).getD .detached := by
  unfold judge
  rw [h]

/-- Where none is proposed, the extend policy has nothing to say. -/
theorem judge_of_unproposed {p : ExtendPolicy} {t : Transition}
    (h : t.prospective.settings.extendPolicy = none) : p.judge t = .detached := by
  unfold judge
  rw [h]

theorem judge_cases (p : ExtendPolicy) (t : Transition) :
    p.judge t = .detached ∨ (p.judge t).Refuses := by
  cases ht : t.prospective.settings.extendPolicy with
  | none => exact Or.inl (judge_of_unproposed ht)
  | some target =>
    rw [judge_eq ht]
    cases hr : refusal? p.rule target.rule with
    | none => exact Or.inl rfl
    | some s => exact Or.inr (refuses_of_refusal hr)

end ExtendPolicy

/-- Only the limit has more to say than that nothing is in the way, or a refusal. -/
theorem Setting.judge_cases (t : Transition) (x : Setting) :
    (∃ l, x = .limit l) ∨ x.judge t = .detached ∨ (x.judge t).Refuses := by
  cases x with
  | limit l => exact Or.inl ⟨l, rfl⟩
  | extendPolicy p => exact Or.inr (p.judge_cases t)
  | restrictPolicy p => exact Or.inr (Or.inl rfl)
  | demo w => exact Or.inr (Or.inl rfl)

/-- Of a request, a judgment looks at the actions, the prolongation and the trial behaviour. -/
theorem Setting.judge_congr {t : Transition} {r : Request}
    (hactions : r.actions = t.request.actions)
    (hprolongation : r.prolongation = t.request.prolongation)
    (htrial : r.trialBehaviour = t.request.trialBehaviour) (x : Setting) :
    x.judge { t with request := r } = x.judge t := by
  obtain ⟨m, c, o, ⟨_, _, _, _, _, _, _, _⟩, s⟩ := t
  dsimp only at hactions hprolongation htrial
  subst hactions hprolongation htrial
  cases x <;> rfl

namespace Plan
variable {p : Plan} {a : Alteration}

/-- What an alteration that is not forced is judged by: the plan's family, the
normalised request, and the state it would lead to. -/
def transition (p : Plan) (a : Alteration) : Transition where
  family := p.family
  circumstance := a.circumstance
  occasion := p.occasion a.method a.time
  request := p.normalise a.request
  prospective := (p.altered a).current

theorem availability_arrange (p : Plan) (a : Alteration) :
    (p.arrange a).availability =
      a.request.availability.narrowAll
        (p.verdicts (p.normalise a.request) a.circumstance (p.occasion a.method a.time)) := by
  show (p.normalise a.request).availability.narrowAll _ = _
  rw [normalise_availability]

/-- Each verdict on an allowed alteration would let it proceed. -/
theorem Allows.verdict (h : p.Allows a) {s : Status}
    (hs : s ∈ p.verdicts (p.normalise a.request) a.circumstance (p.occasion a.method a.time)) :
    s.isAvailable = true := by
  have hall := h.1
  rw [availability_arrange] at hall
  exact Status.isAvailable_of_mem hs hall

theorem judgments_congr (p : Plan) {t : Transition} {r : Request}
    (hactions : r.actions = t.request.actions)
    (hprolongation : r.prolongation = t.request.prolongation)
    (htrial : r.trialBehaviour = t.request.trialBehaviour) :
    p.judgments { t with request := r } = p.judgments t := by
  have hjudge : Setting.judge { t with request := r } = Setting.judge t :=
    funext (Setting.judge_congr hactions hprolongation htrial)
  unfold judgments
  rw [hjudge]

/-- Every objection is a refusal. -/
theorem refuses_of_mem_objections {r : Request} {o : Occasion} {s : Status}
    (h : s ∈ p.objections r o) : s.Refuses := by
  unfold objections at h
  simp only [List.mem_append] at h
  -- Each objection is in a list of its own, which holds one refusal or nothing.
  rcases h with (((h | h) | h) | h) | h <;>
    (split at h
     · rw [List.mem_singleton.mp h]
       exact ⟨rfl, by decide, by decide⟩
     · cases h)

/-- An allowed alteration meets with no objection. -/
theorem Allows.objections_eq_nil (h : p.Allows a) :
    p.objections (p.normalise a.request) (p.occasion a.method a.time) = [] := by
  refine List.eq_nil_iff_forall_not_mem.mpr fun s hs => ?_
  have hav := h.verdict (List.mem_append_left _ (List.mem_append_left _ hs))
  rw [(refuses_of_mem_objections hs).unavailable] at hav
  cases hav

/-- The status that a request starts from has no part in the verdicts on it. -/
theorem verdicts_withAvailability (p : Plan) (r : Request) (s : Status) (c : Circumstance)
    (o : Occasion) : p.verdicts { r with availability := s } c o = p.verdicts r c o := by
  have hjudged := p.judgments_congr (t := ⟨p.family, c, o, r, p.proposal r c o⟩)
    (r := { r with availability := s }) rfl rfl rfl
  unfold verdicts
  rw [← hjudged]
  rfl

/-- Each verdict is an objection, the judgment of one of the plan's settings, or the answer of a
condition. -/
theorem verdict_cases {r : Request} {c : Circumstance} {o : Occasion} {s : Status}
    (h : s ∈ p.verdicts r c o) :
    s ∈ p.objections r o ∨
      (∃ x, p.current.settings.get? x.facet = some x ∧
        s = x.judge ⟨p.family, c, o, r, p.proposal r c o⟩) ∨
      ∃ e ∈ r.extraConditions, s = e p := by
  rcases List.mem_append.mp h with h | h
  · rcases List.mem_append.mp h with h | h
    · exact Or.inl h
    · obtain ⟨f, -, hj⟩ := List.mem_filterMap.mp h
      obtain ⟨x, hx, rfl⟩ := Option.map_eq_some_iff.mp hj
      obtain rfl := Settings.facet_of_get? hx
      exact Or.inr (Or.inl ⟨x, hx, rfl⟩)
  · obtain ⟨e, he, rfl⟩ := List.mem_map.mp h
    exact Or.inr (Or.inr ⟨e, he, rfl⟩)

/-- The judgment of each of the plan's settings is among the verdicts. -/
theorem judge_mem_verdicts {f : Facet} {x : Setting} (hf : f ∈ p.family.facets)
    (hx : p.current.settings.get? f = some x) :
    x.judge (p.transition a) ∈
      p.verdicts (p.normalise a.request) a.circumstance (p.occasion a.method a.time) := by
  refine List.mem_append_left _ (List.mem_append_right _ ?_)
  exact List.mem_filterMap.mpr ⟨f, hf, by rw [hx]; rfl⟩

/-- **No refusal of the limit applies to an allowed alteration.** -/
theorem Allows.limit_refusal (h : p.Allows a) {l target : Limit} (hf : .limit ∈ p.family.facets)
    (hl : p.current.settings.limit = some l)
    (ht : (p.altered a).current.settings.limit = some target) :
    l.refusal? target (p.transition a) = none := by
  have hget := Settings.get?_limit_iff.mpr hl
  have hav := h.verdict (judge_mem_verdicts (a := a) hf hget)
  have hjudge : Setting.judge (p.transition a) (.limit l) =
      (l.refusal? target (p.transition a)).getD (l.charge target (p.transition a)) :=
    l.judge_eq target (p.transition a) ht
  rw [hjudge] at hav
  exact Status.refusal_eq_none (fun _ => l.refuses_of_refusal target _) hav

end Plan
end Subscription
