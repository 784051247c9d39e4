import Subscription.Alteration.Outcome
import Subscription.Proofs.Loading

/-! # Runs of alterations

A plan is loaded from a stored state or from a history (`Plan.Loaded`) and then
altered any number of times, each alteration being carried out or refused
(`Plan.run`).  What every such plan has in common is proved here from what one
alteration does to it (`apply_cases`): the family is the one it was loaded in,
and its settings are those of exactly the family's facets
(`Reachable.spec`).
-/
namespace Subscription

namespace Status

/-- Whether an alteration of this status is carried out, with or without a reason. -/
def Permits (s : Status) (funded : Bool) : Prop :=
  s.isAvailable = true ∧ (s.requiresReason = true → funded = true)

theorem requiresReason_iff {s : Status} :
    s.requiresReason = true ↔ s.availability = .reasonRequired := decide_eq_true_iff

theorem isAvailable_of_reasonRequired {s : Status} (h : s.availability = .reasonRequired) :
    s.isAvailable = true := by
  rw [isAvailable, h]
  rfl

theorem permits_iff {s : Status} {funded : Bool} :
    s.Permits funded ↔
      s.isAvailable = true ∧ ¬ (s.availability = .reasonRequired ∧ funded = false) := by
  unfold Permits
  rw [requiresReason_iff]
  cases funded <;> simp

/-- An available status that does not permit an alteration lacks a reason. -/
theorem not_permits_iff {s : Status} {funded : Bool} :
    ¬ s.Permits funded ↔
      s.isAvailable = false ∨ (s.availability = .reasonRequired ∧ funded = false) := by
  rw [permits_iff, Decidable.not_and_iff_not_or_not, Decidable.not_not, Bool.not_eq_true]

end Status

namespace Plan
variable {m : Family} (p : Plan)

/-! ## The request after normalisation -/

section Normalise
variable (r : Request)

@[simp] theorem normalise_desired : (p.normalise r).desired = r.desired := by
  unfold normalise; split <;> rfl

@[simp] theorem normalise_availability : (p.normalise r).availability = r.availability := by
  unfold normalise; split <;> rfl

@[simp] theorem normalise_extraConditions :
    (p.normalise r).extraConditions = r.extraConditions := by
  unfold normalise; split <;> rfl

@[simp] theorem normalise_expectedPrior :
    (p.normalise r).expectedPrior = r.expectedPrior := by
  unfold normalise; split <;> rfl

@[simp] theorem normalise_expectedExpiry :
    (p.normalise r).expectedExpiry = r.expectedExpiry := by
  unfold normalise; split <;> rfl

@[simp] theorem normalise_trialBehaviour :
    (p.normalise r).trialBehaviour = r.trialBehaviour := by
  unfold normalise; split <;> rfl

@[simp] theorem isChange_normalise : (p.normalise r).isChange = r.isChange := by
  unfold normalise; split <;> rfl

@[simp] theorem isActivation_normalise : (p.normalise r).isActivation = r.isActivation := by
  unfold normalise; split <;> rfl

variable {r} in
/-- A request that desires a free limit becomes one to prolong without end. -/
theorem normalise_of_free (h : r.desired.limit.any p.family.isFreeLimit = true) :
    p.normalise r = { r with prolongation := .infinite, actions := r.actions.insert .prolong } :=
  if_pos h

variable {r} in
/-- A request that desires no free limit is normal. -/
theorem normalise_of_not_free (h : ¬ r.desired.limit.any p.family.isFreeLimit = true) :
    p.normalise r = r := if_neg h

/-- A request that desires no limit is normal. -/
theorem normalise_of_undesired {r : Request} (h : r.desired.limit = none) :
    p.normalise r = r := by
  apply normalise_of_not_free
  simp [h]

/-- To normalise a request once more changes nothing. -/
@[simp] theorem normalise_normalise : p.normalise (p.normalise r) = p.normalise r := by
  by_cases hfree : r.desired.limit.any p.family.isFreeLimit = true
  · have hagain : (p.normalise r).desired.limit.any p.family.isFreeLimit = true := by
      rw [normalise_desired]
      exact hfree
    rw [p.normalise_of_free hagain, p.normalise_of_free hfree, Choice.insert_insert]
  · have hnormal := p.normalise_of_not_free hfree
    rw [hnormal, hnormal]

/-- The status so far has no part in it. -/
theorem normalise_withAvailability (s : Status) :
    p.normalise { r with availability := s } = { p.normalise r with availability := s } := by
  unfold normalise
  show (if r.desired.limit.any p.family.isFreeLimit = true then _ else _) = _
  split <;> rfl

theorem normalise_withExtraConditions (es : List (Plan → Status)) :
    p.normalise { r with extraConditions := es } = { p.normalise r with extraConditions := es } := by
  unfold normalise
  show (if r.desired.limit.any p.family.isFreeLimit = true then _ else _) = _
  split <;> rfl

/-- A request that is changed by normalisation asks for a free tier, and then it
prolongs without end. -/
theorem normalise_cases :
    p.normalise r = r ∨
      (∃ l, r.desired.limit = some l ∧ p.family.isFreeLimit l = true) ∧
        (p.normalise r).isProlongationInfinite = true := by
  unfold normalise
  split
  · rename_i h
    refine Or.inr ⟨?_, ?_⟩
    · obtain ⟨l, hl, hfree⟩ := (Option.any_eq_true _ _).mp h
      exact ⟨l, hl, hfree⟩
    · simp [Request.isProlongationInfinite, Request.isProlongation, Choice.insert_apply]
  · exact Or.inl rfl

end Normalise

/-! ## The proposed state -/

/-- The setting proposed for a facet of the family: the desired one, or else a
replacement of the one the plan has. -/
theorem get?_proposal (r : Request) (c : Circumstance) (o : Occasion) (f : Facet) :
    (p.proposal r c o).settings.get? f =
      if f ∈ p.family.facets then
        (r.desired.get? f).or
          ((p.current.settings.get? f).map
            (Setting.replacement ⟨p.family, c, o, r, p.outline r o⟩))
      else none := by
  have houtline : (p.outline r o).settings = r.desired.within p.family.facets := by
    rw [outline_eq]
  rw [proposal_eq]
  dsimp only
  rw [Settings.get?_orElse, Settings.get?_within, Settings.get?_replacement, houtline,
    Settings.get?_within]
  split <;> rfl

/-- What the replacements for an alteration are found from. -/
def replacing (p : Plan) (a : Alteration) : Transition where
  family := p.family
  circumstance := a.circumstance
  occasion := p.occasion a.method a.time
  request := p.normalise a.request
  prospective := p.outline (p.normalise a.request) (p.occasion a.method a.time)

/-- The setting that an alteration would give a facet of the family. -/
theorem get?_altered (a : Alteration) {f : Facet} (hf : f ∈ p.family.facets) :
    (p.altered a).current.settings.get? f =
      (a.request.desired.get? f).or
        ((p.current.settings.get? f).map (Setting.replacement (p.replacing a))) := by
  refine (p.get?_proposal _ _ _ f).trans ?_
  rw [if_pos hf, normalise_desired]
  rfl

/-- A setting that is desired for a facet of the family is the one proposed. -/
theorem get?_altered_of_desired {a : Alteration} {f : Facet} (hf : f ∈ p.family.facets)
    {x : Setting} (hx : a.request.desired.get? f = some x) :
    (p.altered a).current.settings.get? f = some x := by
  rw [get?_altered p a hf, hx]
  rfl

/-- A setting for which none is desired is replaced. -/
theorem get?_altered_of_undesired {a : Alteration} {f : Facet} (hf : f ∈ p.family.facets)
    (hd : a.request.desired.get? f = none) {x : Setting} (hx : p.current.settings.get? f = some x) :
    (p.altered a).current.settings.get? f = some (x.replacement (p.replacing a)) := by
  rw [get?_altered p a hf, hd, hx]
  rfl

/-- Where a proposed setting comes from. -/
theorem get?_proposal_cases {r : Request} {c : Circumstance} {o : Occasion} {f : Facet}
    {x : Setting} (h : (p.proposal r c o).settings.get? f = some x) :
    r.desired.get? f = some x ∨
      r.desired.get? f = none ∧ ∃ y, p.current.settings.get? f = some y ∧
        x = y.replacement ⟨p.family, c, o, r, p.outline r o⟩ := by
  rw [get?_proposal] at h
  split at h
  · rcases Option.or_eq_some_iff.mp h with hd | ⟨hd, hr⟩
    · exact Or.inl hd
    · obtain ⟨y, hy, rfl⟩ := Option.map_eq_some_iff.mp hr
      exact Or.inr ⟨hd, y, hy, rfl⟩
  · cases h

theorem covers_proposal (r : Request) (c : Circumstance) (o : Occasion)
    (h : p.current.settings.Covers p.family.facets) :
    (p.proposal r c o).settings.Covers p.family.facets := by
  intro f
  rw [get?_proposal]
  by_cases hf : f ∈ p.family.facets
  · obtain ⟨a, ha⟩ := h.exists_get? hf
    simp [hf, ha]
  · simp [hf]

/-! ## One alteration -/

section Apply
variable (a : Alteration)

/-- The arranged request is available, and funded if it has to be. -/
def Allows : Prop := (p.arrange a).availability.Permits a.method.hasReason

theorem apply_of_force (hf : a.method = .force) : p.apply a = (p.altered a, .applied true) :=
  if_pos hf

variable {p a}

theorem apply_of_allows (hf : a.method ≠ .force) (h : p.Allows a) :
    p.apply a = (p.altered a, .applied false) := by
  have hfunded : ¬ ((p.arrange a).availability.requiresReason = true ∧
      ¬ a.method.hasReason = true) := fun hlacking => hlacking.2 (h.2 hlacking.1)
  unfold apply
  rw [if_neg hf]
  dsimp only
  rw [if_neg (not_not_intro h.1), if_neg hfunded]

theorem apply_of_unavailable (hf : a.method ≠ .force)
    (h : (p.arrange a).availability.isAvailable = false) :
    p.apply a =
      (p, .rejected (p.arrange a).availability.code (p.arrange a).availability.message) := by
  unfold apply
  rw [if_neg hf]
  exact if_pos (Bool.eq_false_iff.mp h)

theorem apply_of_unfunded (hf : a.method ≠ .force)
    (hreason : (p.arrange a).availability.availability = .reasonRequired)
    (hfund : a.method.hasReason = false) :
    p.apply a = (p, .rejected Status.Code.reasonRequired "payment required") := by
  have hav := Status.isAvailable_of_reasonRequired hreason
  have hreq := Status.requiresReason_iff.mpr hreason
  unfold apply
  rw [if_neg hf]
  dsimp only
  rw [if_neg (not_not_intro hav), if_pos ⟨hreq, Bool.eq_false_iff.mp hfund⟩]

variable (p a)

/-- Everything that an alteration may come to. -/
theorem apply_cases :
    (a.method = .force ∧ p.apply a = (p.altered a, .applied true)) ∨
      (a.method ≠ .force ∧ p.Allows a ∧ p.apply a = (p.altered a, .applied false)) ∨
      (a.method ≠ .force ∧ ¬ p.Allows a ∧
        ∃ code message, p.apply a = (p, .rejected code message)) := by
  by_cases hf : a.method = .force
  · exact Or.inl ⟨hf, p.apply_of_force a hf⟩
  · by_cases h : p.Allows a
    · exact Or.inr (Or.inl ⟨hf, h, apply_of_allows hf h⟩)
    · refine Or.inr (Or.inr ⟨hf, h, ?_⟩)
      rcases Status.not_permits_iff.mp h with hun | ⟨hreason, hfund⟩
      · exact ⟨_, _, apply_of_unavailable hf hun⟩
      · exact ⟨_, _, apply_of_unfunded hf hreason hfund⟩

/-- An alteration that is not forced is carried out exactly when it is allowed. -/
theorem isSuccess_iff_allows (hf : a.method ≠ .force) :
    (p.apply a).2.isSuccess = true ↔ p.Allows a := by
  rcases p.apply_cases a with ⟨h, -⟩ | ⟨-, hal, h⟩ | ⟨-, hal, code, message, h⟩
  · exact absurd h hf
  · exact ⟨fun _ => hal, fun _ => by rw [h]; rfl⟩
  · rw [h]
    exact ⟨nofun, fun hal' => absurd hal' hal⟩

/-- A successful alteration leaves the plan as the proposal has it. -/
theorem apply_fst_of_isSuccess (h : (p.apply a).2.isSuccess = true) :
    (p.apply a).1 = p.altered a := by
  rcases p.apply_cases a with ⟨-, he⟩ | ⟨-, -, he⟩ | ⟨-, -, code, message, he⟩
  · rw [he]
  · rw [he]
  · rw [he] at h
    cases h

/-- A rejected alteration leaves the plan as it is. -/
theorem apply_fst_of_rejected (h : (p.apply a).2.isSuccess = false) : (p.apply a).1 = p := by
  rcases p.apply_cases a with ⟨-, he⟩ | ⟨-, -, he⟩ | ⟨-, -, code, message, he⟩
  · rw [he] at h
    cases h
  · rw [he] at h
    cases h
  · rw [he]

/-- Whatever comes of an alteration, the plan is as it was or as proposed. -/
theorem apply_fst_cases : (p.apply a).1 = p ∨ (p.apply a).1 = p.altered a := by
  cases h : (p.apply a).2.isSuccess with
  | false => exact Or.inl (p.apply_fst_of_rejected a h)
  | true => exact Or.inr (p.apply_fst_of_isSuccess a h)

/-- An alteration leaves everything but the current state alone. -/
theorem apply_frame : (p.apply a).1 = { p with current := (p.apply a).1.current } := by
  rcases p.apply_fst_cases a with h | h
  · rw [h]
  · rw [h]
    rfl

@[simp] theorem apply_family : (p.apply a).1.family = p.family := by
  rw [apply_frame]

theorem covers_apply (h : p.current.settings.Covers p.family.facets) :
    (p.apply a).1.current.settings.Covers p.family.facets := by
  rcases p.apply_fst_cases a with he | he <;> rw [he]
  · exact h
  · exact p.covers_proposal _ _ _ h

end Apply

/-! ## Sequences of alterations -/

/-- The plan after some alterations, each carried out or refused. -/
def run (as : List Alteration) : Plan := as.foldl (fun q a => (q.apply a).1) p

@[simp] theorem run_nil : p.run [] = p := rfl

@[simp] theorem run_cons (a : Alteration) (as : List Alteration) :
    p.run (a :: as) = (p.apply a).1.run as := rfl

theorem run_append (as bs : List Alteration) : p.run (as ++ bs) = (p.run as).run bs :=
  List.foldl_append

/-- What every alteration of a run preserves, the run preserves. -/
theorem run_preserves {Inv : Plan → Prop} {as : List Alteration}
    (step : ∀ q, Inv q → ∀ a ∈ as, Inv (q.apply a).1) {p : Plan} (h : Inv p) :
    Inv (p.run as) := by
  induction as generalizing p with
  | nil => exact h
  | cons a as ih =>
    rw [run_cons]
    exact ih (fun q hq b hb => step q hq b (List.mem_cons_of_mem _ hb))
      (step p h a List.mem_cons_self)

/-- The family stays, so each alteration may be taken to be one in the family of `p`. -/
theorem run_preserves_in_family {P : Plan → Prop} {p : Plan} {as : List Alteration}
    (step : ∀ q, q.family = p.family → P q → ∀ a ∈ as, P (q.apply a).1) (h : P p) :
    P (p.run as) := by
  have both (q : Plan) (hq : q.family = p.family ∧ P q) (a : Alteration) (ha : a ∈ as) :
      (q.apply a).1.family = p.family ∧ P (q.apply a).1 :=
    ⟨(q.apply_family a).trans hq.1, step q hq.1 hq.2 a ha⟩
  exact (run_preserves both ⟨rfl, h⟩).2

/-- A run leaves everything but the current state alone. -/
theorem run_frame (as : List Alteration) :
    p.run as = { p with current := (p.run as).current } := by
  induction as generalizing p with
  | nil => rfl
  | cons a as ih =>
    rw [run_cons, ih, apply_frame]

/-- The plan after the first `i` alterations. -/
def after (as : List Alteration) (i : Nat) : Plan := p.run (as.take i)

theorem after_eq_run_after (as : List Alteration) {i j : Nat} (h : i ≤ j) :
    p.after as j = (p.after as i).run ((as.drop i).take (j - i)) := by
  obtain ⟨k, rfl⟩ := Nat.exists_eq_add_of_le h
  rw [after, after, ← run_append, List.take_add, Nat.add_sub_cancel_left]

/-- Each state of a run comes from the one before by the alteration there, if there is one. -/
theorem after_succ (as : List Alteration) (i : Nat) :
    p.after as (i + 1) =
      match as[i]? with
      | some a => ((p.after as i).apply a).1
      | none => p.after as i := by
  rw [after, List.take_add_one, run_append]
  cases as[i]? <;> rfl

/-! ## Plans that are reached -/

/-- The plan is as loaded in the family, from a stored state or from a history. -/
def Loaded (m : Family) : Prop :=
  (∃ s, ofStored m s = .ok p) ∨ ∃ records, ofHistory m records = .ok p

/-- The plan comes from a loaded one by some alterations. -/
def Reachable (m : Family) : Prop :=
  ∃ q as, Loaded q m ∧ p = q.run as

variable {p}

theorem Loaded.reachable (h : p.Loaded m) : p.Reachable m := ⟨p, [], h, rfl⟩

theorem Reachable.run (h : p.Reachable m) (as : List Alteration) : (p.run as).Reachable m := by
  obtain ⟨q, bs, hq, rfl⟩ := h
  exact ⟨q, bs ++ as, hq, (q.run_append bs as).symm⟩

/-- A plan is loaded with the settings of its family's facets, as a variant that
the family admits. -/
theorem Loaded.spec (h : p.Loaded m) :
    p.family = m ∧ m.admits p.variant = true ∧ p.loaded = p.current ∧
      p.current.settings.Covers m.facets := by
  rcases h with ⟨s, hs⟩ | ⟨records, hr⟩
  -- Either way the settings come from `decodeAll`, which reads every facet or fails.
  · obtain ⟨-, hv, settings, hd, rfl⟩ := ofStored_eq_ok_iff.mp hs
    exact ⟨rfl, hv, rfl, m.covers_of_decodeAll _ hd⟩
  · obtain ⟨r, hrep, hv, rfl⟩ := ofHistory_eq_ok_iff.mp hr
    obtain ⟨last, first, settings, -, -, hd, rfl⟩ := replay_eq_ok_iff.mp hrep
    exact ⟨rfl, hv, rfl, m.covers_of_decodeAll _ hd⟩

/-- A loaded plan is nothing more than its family, variant and state. -/
theorem Loaded.eq_ofSnapshot (h : p.Loaded m) : p = ofSnapshot m p.variant p.current := by
  obtain ⟨hm, -, hloaded, -⟩ := h.spec
  obtain ⟨variant, family, loaded, current⟩ := p
  dsimp only at hm hloaded
  subst hm hloaded
  rfl

/-- What loading establishes and every alteration preserves holds of every
reachable plan. -/
theorem Reachable.induction {motive : Plan → Prop} (loaded : ∀ q, Loaded q m → motive q)
    (step : ∀ q a, motive q → motive (q.apply a).1) (h : p.Reachable m) : motive p := by
  obtain ⟨q, as, hq, rfl⟩ := h
  exact run_preserves (fun q hq a _ => step q a hq) (loaded q hq)

/-- The variant of a reachable plan is one that the family admits. -/
theorem Reachable.admits (h : p.Reachable m) : m.admits p.variant = true := by
  refine h.induction (motive := fun q => m.admits q.variant = true) ?_ ?_
  · exact fun q hq => hq.spec.2.1
  · intro q a hq
    rw [apply_frame]
    exact hq

/-- **A reachable plan has one setting for each facet of its family**, and none
for any other. -/
theorem Reachable.spec (h : p.Reachable m) :
    p.family = m ∧ p.current.settings.Covers m.facets := by
  refine h.induction (motive := fun q => q.family = m ∧ q.current.settings.Covers m.facets) ?_ ?_
  · intro q hq
    exact ⟨hq.spec.1, hq.spec.2.2.2⟩
  · rintro q a ⟨rfl, hc⟩
    exact ⟨q.apply_family a, q.covers_apply a hc⟩

end Plan

namespace Seats

theorem loaded_plan : plan.Loaded family := Or.inl ⟨stored, ofStored_stored⟩

theorem reachable_run (as : List Alteration) : (plan.run as).Reachable family :=
  ⟨plan, as, loaded_plan, rfl⟩

end Seats
end Subscription
