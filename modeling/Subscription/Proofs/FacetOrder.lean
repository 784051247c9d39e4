import Subscription.Proofs.Merging

/-! # The order of a family's facets

A family lists its facets in the order in which they are judged.  Two families that differ in this
order alone load the same plans: each facet is read by itself, and only the error of a loading that
fails depends on which facet comes first.  Two such plans that are in one state answer every
alteration alike.  The replacements are found from the dates alone and not from one another, so
what is proposed is the same (`Plan.Twins.altered_current`); the answers are the same in another
order (`Plan.Twins.answers_perm`), so the rank that a preview shows is the same too.  What may
differ is which of several answers of one rank has its code and message shown.
-/
namespace Subscription

/-! ## Loading -/

namespace Family
variable {m m' : Family}

/-- The families differ in the order of their facets at most. -/
structure Reorders (m m' : Family) : Prop where
  facets : m.facets.Perm m'.facets
  name : m.name = m'.name
  id : m.id = m'.id
  catalog : m.catalog = m'.catalog
  limitRules : m.limitRules = m'.limitRules
  trialThreshold : m.trialThreshold = m'.trialThreshold
  defaults : m.defaults = m'.defaults
  variants : m.variants = m'.variants

namespace Reorders

theorem symm (h : m.Reorders m') : m'.Reorders m :=
  ⟨h.facets.symm, h.name.symm, h.id.symm, h.catalog.symm, h.limitRules.symm,
    h.trialThreshold.symm, h.defaults.symm, h.variants.symm⟩

variable (h : m.Reorders m')
include h

theorem decode (f : Facet) (stored : Option Fields) : m.decode f stored = m'.decode f stored := by
  have hhas : m.hasFacet f = m'.hasFacet f := decide_eq_decide.mpr h.facets.mem_iff
  have hdefault : m.defaultFields f = m'.defaultFields f := by
    unfold defaultFields
    rw [h.catalog, h.defaults]
  unfold Family.decode
  rw [hhas, hdefault, h.catalog]

theorem decodeAll_eq_ok_iff (stored : Facet → Option Fields) {s : Settings} :
    m.decodeAll stored = .ok s ↔ m'.decodeAll stored = .ok s := by
  rw [m.decodeAll_eq_ok_iff, m'.decodeAll_eq_ok_iff]
  simp only [h.facets.mem_iff, h.decode]

theorem replay_eq_ok_iff (records : List Record) {r : Replayed} :
    replay m records = .ok r ↔ replay m' records = .ok r := by
  have hfields : replayedFields m records = replayedFields m' records := by
    funext f
    cases f with
    | extendPolicy =>
      unfold replayedFields foldExtendPolicy
      rw [h.defaults]
    | _ => rfl
  rw [Subscription.replay_eq_ok_iff, Subscription.replay_eq_ok_iff, hfields]
  simp only [h.decodeAll_eq_ok_iff]

theorem admits (variant : UInt32) : m.admits variant = m'.admits variant := by
  unfold Family.admits
  rw [h.variants]

/-- A judgment looks at the rules and the tiers of the family, and not at its facets. -/
theorem judge (c : Circumstance) (o : Occasion) (r : Request) (s : Snapshot) :
    Setting.judge ⟨m, c, o, r, s⟩ = Setting.judge ⟨m', c, o, r, s⟩ := by
  obtain ⟨-, -, -, hcatalog, hrules, -, -, -⟩ := h
  cases m
  cases m'
  dsimp only at hcatalog hrules
  subst hcatalog hrules
  funext x
  cases x <;> rfl

end Reorders
end Family

namespace Plan

/-- Both loadings succeed or neither does, and the plans differ in their family at most. -/
structure LoadsAlike (m' : Family) (x y : Except LoadError Plan) : Prop where
  success : (∃ p, x = .ok p) ↔ ∃ q, y = .ok q
  plan : ∀ p q, x = .ok p → y = .ok q → q = { p with family := m' }

/-- It is enough that each plan of either side is found on the other. -/
theorem LoadsAlike.of_ofSnapshot {m m' : Family} {x y : Except LoadError Plan}
    (hx : ∀ p, x = .ok p → ∃ v s, p = ofSnapshot m v s ∧ y = .ok (ofSnapshot m' v s))
    (hy : ∀ q, y = .ok q → ∃ p, x = .ok p) : LoadsAlike m' x y := by
  refine ⟨⟨?_, fun ⟨q, hq⟩ => hy q hq⟩, ?_⟩
  · rintro ⟨p, hp⟩
    obtain ⟨v, s, -, h⟩ := hx p hp
    exact ⟨_, h⟩
  · intro p q hp hq
    obtain ⟨v, s, rfl, h⟩ := hx p hp
    exact Except.ok.inj (hq.symm.trans h)

variable {m m' : Family}

theorem ofStored_reordered (h : m.Reorders m') {s : StoredState} {p : Plan}
    (hp : ofStored m s = .ok p) :
    ∃ v x, p = ofSnapshot m v x ∧ ofStored m' s = .ok (ofSnapshot m' v x) := by
  obtain ⟨hid, hv, settings, hs, rfl⟩ := ofStored_eq_ok_iff.mp hp
  refine ⟨_, _, rfl, ofStored_eq_ok_iff.mpr ⟨hid.trans h.id, ?_, settings, ?_, rfl⟩⟩
  · rw [← h.admits, hv]
  · exact (h.decodeAll_eq_ok_iff _).mp hs

theorem ofHistory_reordered (h : m.Reorders m') {records : List Record} {p : Plan}
    (hp : ofHistory m records = .ok p) :
    ∃ v x, p = ofSnapshot m v x ∧ ofHistory m' records = .ok (ofSnapshot m' v x) := by
  obtain ⟨r, hr, hv, rfl⟩ := ofHistory_eq_ok_iff.mp hp
  refine ⟨_, _, rfl, ofHistory_eq_ok_iff.mpr ⟨r, (h.replay_eq_ok_iff records).mp hr, ?_, rfl⟩⟩
  rw [← h.admits, hv]

theorem ofStored_loadsAlike (h : m.Reorders m') (s : StoredState) :
    LoadsAlike m' (ofStored m s) (ofStored m' s) :=
  .of_ofSnapshot (fun _ hp => ofStored_reordered h hp) fun _ hq =>
    have ⟨_, _, _, hp⟩ := ofStored_reordered h.symm hq
    ⟨_, hp⟩

theorem ofHistory_loadsAlike (h : m.Reorders m') (records : List Record) :
    LoadsAlike m' (ofHistory m records) (ofHistory m' records) :=
  .of_ofSnapshot (fun _ hp => ofHistory_reordered h hp) fun _ hq =>
    have ⟨_, _, _, hp⟩ := ofHistory_reordered h.symm hq
    ⟨_, hp⟩

/-! ## Altering -/

/-- The plans are in one state, in families that differ in the order of their facets at most. -/
structure Twins (p q : Plan) : Prop where
  family : p.family.Reorders q.family
  current : p.current = q.current

namespace Twins
variable {p q : Plan} (h : p.Twins q)
include h

theorem isFreeLimit : p.family.isFreeLimit = q.family.isFreeLimit := by
  funext l
  unfold Family.isFreeLimit
  rw [h.family.catalog]

theorem isFree (time : Seconds) : p.isFree time = q.isFree time := by
  unfold Plan.isFree isLimitFree freeActiveUntil
  rw [h.current, h.isFreeLimit]

theorem isActive (time : Seconds) : p.isActive time = q.isActive time := by
  unfold Plan.isActive activeUntil
  rw [h.current, h.isFree]

theorem trialState (time : Seconds) : p.trialState time = q.trialState time := by
  unfold Plan.trialState
  rw [h.current]

theorem occasion (method : Method) (time : Seconds) :
    p.occasion method time = q.occasion method time := by
  unfold Plan.occasion activeReasons isLimitFree activeUntil
  rw [h.trialState, h.current, h.isFreeLimit]

theorem normalise (r : Request) : p.normalise r = q.normalise r := by
  unfold Plan.normalise
  rw [h.isFreeLimit]

/-- Neither the dates nor the replacements look at the facets, and which settings are kept does not
depend on their order. -/
theorem proposal (r : Request) (c : Circumstance) (o : Occasion) :
    p.proposal r c o = q.proposal r c o := by
  have hwithin (s : Settings) : s.within p.family.facets = s.within q.family.facets := by
    refine Settings.ext_get? fun f => ?_
    rw [Settings.get?_within, Settings.get?_within]
    simp only [h.family.facets.mem_iff]
  have houtline : p.outline r o = q.outline r o := by
    rw [outline_eq, outline_eq]
    unfold dates activeUntil freeActiveUntil
    rw [hwithin, h.current]
  have hbasis : Transition.SameBasis ⟨p.family, c, o, r, p.outline r o⟩
      ⟨q.family, c, o, r, q.outline r o⟩ :=
    ⟨h.family.catalog, h.family.trialThreshold, rfl, .refl o, houtline⟩
  rw [proposal_eq, proposal_eq, p.current.settings.replacement_congr hbasis, houtline, hwithin,
    h.current]

theorem altered_current (a : Alteration) : (p.altered a).current = (q.altered a).current := by
  unfold altered
  rw [h.normalise, h.occasion]
  exact h.proposal _ _ _

theorem judge (a : Alteration) :
    Setting.judge (p.transition a) = Setting.judge (q.transition a) := by
  unfold transition
  rw [h.family.judge, h.occasion, h.normalise, h.altered_current]

theorem failures (a : Alteration) : Check.failures p a = Check.failures q a := by
  have hpasses : Check.passes p a = Check.passes q a := by
    funext k
    unfold Check.passes isTrialAvailable activeUntil
    rw [h.current, h.normalise, h.isActive, h.isFree, h.trialState]
  unfold Check.failures
  rw [hpasses]

/-- The settings are judged alike, in the order of either family. -/
theorem judgments_perm (a : Alteration) :
    (p.judgments (p.transition a)).Perm (q.judgments (q.transition a)) := by
  unfold judgments
  rw [h.judge, h.current]
  exact h.family.facets.filterMap _

/-- Conditions that do not tell the plans apart answer alike, and so does everything else. -/
theorem answers_perm {a : Alteration} (hconds : ∀ e ∈ a.request.extraConditions, e p = e q) :
    (p.answers a).Perm (q.answers a) := by
  unfold answers
  rw [h.failures, List.map_congr_left hconds]
  exact ((h.judgments_perm a).append_left _).append_right _

theorem rank_eq {a : Alteration} (hconds : ∀ e ∈ a.request.extraConditions, e p = e q) :
    (p.arrange a).availability.rank = (q.arrange a).availability.rank :=
  (p.availability_leads a).rank_eq (q.availability_leads a) ((h.answers_perm hconds).cons _)

/-- Whether an alteration is carried out depends on the rank of its preview alone. -/
theorem isSuccess_eq {a : Alteration} (hconds : ∀ e ∈ a.request.extraConditions, e p = e q) :
    (p.apply a).2.isSuccess = (q.apply a).2.isSuccess := by
  by_cases hf : a.method = .force
  · rw [p.apply_of_force a hf, q.apply_of_force a hf]
  · have havailability := Availability.rank_injective (h.rank_eq hconds)
    rw [Bool.eq_iff_iff, p.isSuccess_iff_allows a hf, q.isSuccess_iff_allows a hf]
    unfold Allows
    rw [Status.permits_iff, Status.permits_iff]
    unfold Status.isAvailable
    rw [havailability]

theorem current_apply {a : Alteration} (hconds : ∀ e ∈ a.request.extraConditions, e p = e q) :
    (p.apply a).1.current = (q.apply a).1.current := by
  cases hs : (p.apply a).2.isSuccess with
  | true =>
    rw [p.apply_fst_of_isSuccess a hs, q.apply_fst_of_isSuccess a (h.isSuccess_eq hconds ▸ hs),
      h.altered_current]
  | false =>
    rw [p.apply_fst_of_rejected a hs, q.apply_fst_of_rejected a (h.isSuccess_eq hconds ▸ hs),
      h.current]

theorem apply {a : Alteration} (hconds : ∀ e ∈ a.request.extraConditions, e p = e q) :
    (p.apply a).1.Twins (q.apply a).1 where
  family := by
    rw [p.apply_family, q.apply_family]
    exact h.family
  current := h.current_apply hconds

end Twins
end Plan

/-- The caller's conditions do not tell plans apart that differ in the order of their facets. -/
def Alteration.OrderBlind (a : Alteration) : Prop :=
  ∀ e ∈ a.request.extraConditions, ∀ p q : Plan, p.Twins q → e p = e q

namespace Plan
variable {m m' : Family}

/-- Twins stay twins, however often they are altered. -/
theorem Twins.run {as : List Alteration} (has : ∀ a ∈ as, a.OrderBlind) {p q : Plan}
    (h : p.Twins q) : (p.run as).Twins (q.run as) := by
  induction as generalizing p q with
  | nil => exact h
  | cons a as ih =>
    have hconds : ∀ e ∈ a.request.extraConditions, e p = e q :=
      fun e he => has a List.mem_cons_self e he p q h
    rw [run_cons, run_cons]
    exact ih (fun b hb => has b (List.mem_cons_of_mem _ hb)) (h.apply hconds)

/-- **The order in which a family lists its facets does not matter.**  Two families that differ in
nothing else load the same plans from stored states and from histories, or fail to load both.  Of
two plans in one state, whatever else they were, and with conditions that do not tell them apart,
every alteration by every method is previewed at one rank, is carried out or refused on both, and
leaves both in one state; and so does every run of alterations. -/
theorem reordered_alike (h : m.Reorders m') :
    (∀ s, LoadsAlike m' (ofStored m s) (ofStored m' s)) ∧
      (∀ records, LoadsAlike m' (ofHistory m records) (ofHistory m' records)) ∧
      ∀ p q : Plan, p.family = m → q.family = m' → p.current = q.current →
        (∀ a : Alteration, (∀ e ∈ a.request.extraConditions, e p = e q) →
          (p.arrange a).availability.rank = (q.arrange a).availability.rank ∧
            (p.apply a).2.isSuccess = (q.apply a).2.isSuccess ∧
            (p.apply a).1.current = (q.apply a).1.current) ∧
        ∀ as : List Alteration, (∀ a ∈ as, a.OrderBlind) →
          (p.run as).current = (q.run as).current := by
  refine ⟨ofStored_loadsAlike h, ofHistory_loadsAlike h, ?_⟩
  rintro p q rfl rfl hcurrent
  have htwins : p.Twins q := ⟨h, hcurrent⟩
  refine ⟨fun a hconds => ?_, fun as has => (htwins.run has).current⟩
  exact ⟨htwins.rank_eq hconds, htwins.isSuccess_eq hconds, htwins.current_apply hconds⟩

end Plan

namespace Seats

/-- The facets of `family` the other way round. -/
def familyTurned : Family :=
  { family with
    facets := family.facets.reverse
    facets_ne_nil := by decide
    facets_nodup := by decide
    catalog_of_limit := fun _ => rfl }

theorem reorders_familyTurned : family.Reorders familyTurned where
  facets := (List.reverse_perm family.facets).symm
  name := rfl
  id := rfl
  catalog := rfl
  limitRules := rfl
  trialThreshold := rfl
  defaults := rfl
  variants := rfl

/-- Twenty seats until 2000 without a trial. -/
def usedUp (m : Family) : Plan := .ofSnapshot m 1001 ⟨2000, 0, {
  limit := some ⟨20⟩
  extendPolicy := some ⟨.never, .unbounded⟩
  restrictPolicy := some ⟨0⟩
  demo := some ⟨0⟩ }⟩

/-- The state that it is kept in. -/
def storedUsedUp : StoredState :=
  { stored with facets := ⟨[
      ("limit", ⟨[("value", .int 20)]⟩),
      ("extend_policy", ⟨[("rule", .string "never")]⟩)]⟩ }

/-- A month that is paid for.  The caller's condition is that the plan is in force. -/
def paidMonth : Alteration where
  method := .payment
  request := {
    availability := .detached
    prolongation := .extend 500
    extraConditions := [fun p => if p.isActive 1000 then .free else .notArranged] }
  circumstance := { occupancy := 12 }
  time := 1000

/-- The same with more seats, which is not said to be a change, and with a trial, which is used
up. -/
def undeclaredSeats : Alteration :=
  { paidMonth with request := { paidMonth.request with
      desired := { limit := some ⟨30⟩, extendPolicy := some ⟨.free, .unbounded⟩ } } }

/-- Both families load the plan, from its state and from a history.  Both refuse the seats at one
rank, each with the code of the facet that it judges first, and both grant the month, which leaves
the two plans in one state. -/
theorem reordered_undeclaredSeats :
    family.Reorders familyTurned ∧
      Plan.ofStored family storedUsedUp = .ok (usedUp family) ∧
      Plan.ofStored familyTurned storedUsedUp = .ok (usedUp familyTurned) ∧
      Plan.ofHistory family [.ofStored 1 storedUsedUp] = .ok (usedUp family) ∧
      Plan.ofHistory familyTurned [.ofStored 1 storedUsedUp] = .ok (usedUp familyTurned) ∧
      (∀ e ∈ undeclaredSeats.request.extraConditions,
        e (usedUp family) = e (usedUp familyTurned)) ∧
      ((usedUp family).arrange undeclaredSeats).availability.rank =
        ((usedUp familyTurned).arrange undeclaredSeats).availability.rank ∧
      ((usedUp family).arrange undeclaredSeats).availability.code =
        Status.Code.extendPolicyNotAllowed ∧
      ((usedUp familyTurned).arrange undeclaredSeats).availability.code =
        Status.Code.limitChangeWithoutChangeAction ∧
      ((usedUp familyTurned).apply paidMonth).2 = .applied false ∧
      ((usedUp familyTurned).apply paidMonth).1.current.activeUntil = 2500 ∧
      ((usedUp family).apply paidMonth).1.current =
        ((usedUp familyTurned).apply paidMonth).1.current := by
  obtain ⟨hstored, hhistory, hplans⟩ := Plan.reordered_alike reorders_familyTurned
  have hconds : ∀ e ∈ paidMonth.request.extraConditions,
      e (usedUp family) = e (usedUp familyTurned) := by
    intro e he
    obtain rfl := List.mem_singleton.mp he
    decide
  obtain ⟨halike, -⟩ := hplans (usedUp family) (usedUp familyTurned) rfl rfl rfl
  have hload : Plan.ofStored family storedUsedUp = .ok (usedUp family) := rfl
  have hreplay : Plan.ofHistory family [.ofStored 1 storedUsedUp] = .ok (usedUp family) := rfl
  obtain ⟨p, hp⟩ := (hstored storedUsedUp).success.mp ⟨_, hload⟩
  obtain ⟨q, hq⟩ := (hhistory [.ofStored 1 storedUsedUp]).success.mp ⟨_, hreplay⟩
  obtain rfl := (hstored storedUsedUp).plan _ _ hload hp
  obtain rfl := (hhistory _).plan _ _ hreplay hq
  exact ⟨reorders_familyTurned, hload, hp, hreplay, hq, hconds, (halike undeclaredSeats hconds).1,
    by decide, by decide, by decide, by decide, (halike paidMonth hconds).2.2⟩

end Seats
end Subscription
