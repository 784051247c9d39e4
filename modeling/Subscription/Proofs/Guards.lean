import Subscription.Proofs.LimitSafety

/-! # What an alteration expects to find

A request can guard itself against a plan that is not what its caller took it for: by the settings
and the expiry that it expects, and by a trial that it requires.  To extend a plan without
activating it and to activate it are guarded as well, by the plan being in force or not.  The plan
objects to a request exactly when one of these guards fails (`Plan.objections_eq_nil_iff`), so an
alteration that is carried out without force has found them all to hold.

Of several callers who have seen the same limit and each want to change it, only one can succeed.
The first change that is carried out moves the limit (`Plan.limit_ne_of_isSuccess`), and from then
on each of the others expects a limit that the plan no longer has, is refused, and leaves the plan
to the one that came first (`Plan.run_eq_self`).
-/
namespace Subscription

/-- The guards of an alteration hold for a plan. -/
structure Guarded (p : Plan) (a : Alteration) : Prop where
  /-- Each setting that the request expects to find is there. -/
  prior : ∀ f x, a.request.expectedPrior.get? f = some x →
    ∃ y, p.current.settings.get? f = some y ∧ y.isSame x = true
  /-- The expiry of a plan in force is as expected. -/
  expiry : a.request.expectedExpiry.isDeclared = true → p.isActive a.time = true →
    a.request.expectedExpiry.holds p.activeUntil = true
  /-- What is extended without being activated is in force. -/
  active_of_extension : a.request.isActivation = false →
    (p.normalise a.request).isExtension = true → p.isActive a.time = true
  /-- What is activated is not in force, or is so for nothing. -/
  free_of_activation : a.request.isActivation = true → p.isActive a.time = true →
    p.isFree a.time = true
  /-- A trial that is required can still be started. -/
  trial : a.request.trialBehaviour .requireAvailable = true → p.isTrialAvailable a.time = true

/-- The alteration is not forced, and changes the limit that it expects to be `l`, without
activating the plan. -/
structure Alteration.ChangesFrom (a : Alteration) (l : Limit) : Prop where
  unforced : a.method ≠ .force
  prior : a.request.expectedPrior.limit = some l
  change : a.request.isChange = true
  plain : a.request.isActivation = false

namespace Plan
variable {m : Family} {p : Plan} {a : Alteration}

/-! ## The guards of one alteration -/

/-- None of the settings that are expected is found to be missing or different. -/
theorem prior_iff {expected : Settings} :
    (expected.toList.any fun x => !(p.current.settings.get? x.facet).any (·.isSame x)) = false ↔
      ∀ f x, expected.get? f = some x →
        ∃ y, p.current.settings.get? f = some y ∧ y.isSame x = true := by
  rw [List.any_eq_false]
  constructor
  · intro h f x hx
    obtain rfl := Settings.facet_of_get? hx
    have hfound := h x (Settings.mem_toList_iff.mpr hx)
    rw [Bool.not_eq_true, Bool.not_eq_false', Option.any_eq_true] at hfound
    exact hfound
  · intro h x hx
    rw [Bool.not_eq_true, Bool.not_eq_false', Option.any_eq_true]
    exact h x.facet x (Settings.mem_toList_iff.mp hx)

/-- **A plan objects exactly to what fails a guard.** -/
theorem objections_eq_nil_iff (p : Plan) (a : Alteration) :
    p.objections (p.normalise a.request) (p.occasion a.method a.time) = [] ↔ Guarded p a := by
  have htime : (p.occasion a.method a.time).time = a.time := rfl
  have hstate : (p.occasion a.method a.time).isTrialAvailable = p.isTrialAvailable a.time := rfl
  unfold objections
  simp only [List.append_eq_nil_iff, ite_eq_right_iff, List.cons_ne_nil, imp_false, not_and, htime,
    hstate, normalise_expectedPrior, normalise_expectedExpiry, normalise_trialBehaviour,
    isActivation_normalise, Bool.not_eq_true, Bool.not_eq_false, prior_iff]
  constructor
  · rintro ⟨⟨⟨⟨hprior, hexpiry⟩, hextension⟩, hactivation⟩, htrial⟩
    exact ⟨hprior, hexpiry, hextension, hactivation, htrial⟩
  · rintro ⟨hprior, hexpiry, hextension, hactivation, htrial⟩
    exact ⟨⟨⟨⟨hprior, hexpiry⟩, hextension⟩, hactivation⟩, htrial⟩

theorem Allows.guarded (h : p.Allows a) : Guarded p a :=
  (p.objections_eq_nil_iff a).mp h.objections_eq_nil

/-! ## Changes from one limit -/

section Changes
variable {l : Limit} {as : List Alteration}

/-- A change that is carried out has found the limit that it expects. -/
theorem limit_of_isSuccess (ha : a.ChangesFrom l) (hs : (p.apply a).2.isSuccess = true) :
    p.current.settings.limit = some l := by
  have hguard := ((p.isSuccess_iff_allows a ha.unforced).mp hs).guarded
  obtain ⟨y, hy, hsame⟩ := hguard.prior .limit (.limit l) (Settings.get?_limit_iff.mpr ha.prior)
  obtain ⟨l', hl', rfl⟩ := Option.map_eq_some_iff.mp hy
  rw [hl', of_decide_eq_true hsame]

/-- A change that is carried out moves the limit from where it was. -/
theorem limit_ne_of_isSuccess (hc : p.current.settings.Covers p.family.facets)
    (ha : a.ChangesFrom l) (hs : (p.apply a).2.isSuccess = true) :
    (p.apply a).1.current.settings.limit ≠ some l := by
  have hl := limit_of_isSuccess ha hs
  have hf : Facet.limit ∈ p.family.facets := hc.mem (Settings.get?_limit_iff.mpr hl)
  rw [p.apply_fst_of_isSuccess a hs]
  intro hl'
  have hallows := (p.isSuccess_iff_allows a ha.unforced).mp hs
  exact (limitMove_of_allows hallows hf hl hl').ne_of_change ha.change ha.plain rfl

/-- Where the limit is another, changes from `l` come to nothing, however many there are. -/
theorem run_eq_self (has : ∀ a ∈ as, a.ChangesFrom l)
    (hl : p.current.settings.limit ≠ some l) : p.run as = p := by
  induction as with
  | nil => rfl
  | cons a as ih =>
    have hrefused : (p.apply a).1 = p := by
      refine p.apply_fst_of_rejected a (Bool.eq_false_iff.mpr fun hs => ?_)
      exact hl (limit_of_isSuccess (has a List.mem_cons_self) hs)
    rw [run_cons, hrefused]
    exact ih fun b hb => has b (List.mem_cons_of_mem _ hb)

/-- The alteration at `i` of a run is carried out. -/
def CarriedOut (p : Plan) (as : List Alteration) (i : Nat) : Prop :=
  ∃ a, as[i]? = some a ∧ ((p.after as i).apply a).2.isSuccess = true

/-- After the change at `i` is carried out the plan stays as it left it. -/
theorem CarriedOut.after_eq {i j : Nat} (hi : p.CarriedOut as i)
    (hc : (p.after as i).current.settings.Covers (p.after as i).family.facets)
    (has : ∀ a ∈ as, a.ChangesFrom l) (hij : i < j) :
    p.after as j = p.after as (i + 1) ∧ (p.after as j).current.settings.limit ≠ some l := by
  obtain ⟨a, ha, hs⟩ := hi
  have hmoved : (p.after as (i + 1)).current.settings.limit ≠ some l := by
    rw [after_succ, ha]
    exact limit_ne_of_isSuccess hc (has a (List.mem_of_getElem? ha)) hs
  have hstays : p.after as j = p.after as (i + 1) := by
    rw [p.after_eq_run_after as hij]
    exact run_eq_self (fun b hb => has b (List.mem_of_mem_drop (List.mem_of_mem_take hb))) hmoved
  exact ⟨hstays, hstays ▸ hmoved⟩

/-- No two changes from one limit are carried out. -/
theorem Reachable.not_carriedOut (h : p.Reachable m) (has : ∀ a ∈ as, a.ChangesFrom l) {i j : Nat}
    (hi : p.CarriedOut as i) (hij : i < j) : ¬ p.CarriedOut as j := by
  rintro ⟨b, hb, hs⟩
  obtain ⟨hfamily, hc⟩ := (h.run (as.take i)).spec
  rw [← hfamily] at hc
  exact (hi.after_eq hc has hij).2 (limit_of_isSuccess (has b (List.mem_of_getElem? hb)) hs)

end Changes

/-- **Guards prevent lost updates.**  An alteration of a reachable plan that is carried out without
force has found its guards to hold.  Of any number of unforced changes that expect the same limit
and do not activate the plan, made one after another in any order, at most one is carried out. -/
theorem Reachable.guards_hold (h : p.Reachable m) :
    (∀ a, a.method ≠ .force → (p.apply a).2.isSuccess = true → Guarded p a) ∧
      ∀ l as, (∀ a ∈ as, a.ChangesFrom l) →
        ∀ i j, p.CarriedOut as i → p.CarriedOut as j → i = j := by
  refine ⟨fun a hforce hs => ((p.isSuccess_iff_allows a hforce).mp hs).guarded, ?_⟩
  intro l as has i j hi hj
  rcases Nat.lt_trichotomy i j with hij | hij | hij
  · exact absurd hj (h.not_carriedOut has hi hij)
  · exact hij
  · exact absurd hi (h.not_carriedOut has hj hij)

end Plan

namespace Seats

/-- The limit is moved from twenty to `l` by a payment. -/
def changeFromTwenty (l : Limit) : Alteration where
  method := .payment
  request := {
    availability := .detached
    actions := .ofList [.change]
    expectedExpiry := .range 2100 200
    desired := { limit := some l }
    expectedPrior := { limit := some ⟨20⟩ } }
  circumstance := { occupancy := 12 }
  time := 1000

theorem changesFrom_changeFromTwenty (l : Limit) : (changeFromTwenty l).ChangesFrom ⟨20⟩ :=
  ⟨nofun, rfl, rfl, rfl⟩

/-- Two callers have seen twenty seats.  Whichever comes first is carried out, and the other is
refused. -/
theorem guards_changeFromTwenty :
    plan.Reachable family ∧ Guarded plan (changeFromTwenty ⟨30⟩) ∧
      plan.CarriedOut [changeFromTwenty ⟨30⟩, changeFromTwenty ⟨50⟩] 0 ∧
      ¬ plan.CarriedOut [changeFromTwenty ⟨30⟩, changeFromTwenty ⟨50⟩] 1 ∧
      plan.CarriedOut [changeFromTwenty ⟨50⟩, changeFromTwenty ⟨30⟩] 0 ∧
      ¬ plan.CarriedOut [changeFromTwenty ⟨50⟩, changeFromTwenty ⟨30⟩] 1 := by
  have hreach : plan.Reachable family := reachable_run []
  have hchanges (l l' : Limit) :
      ∀ a ∈ [changeFromTwenty l, changeFromTwenty l'], a.ChangesFrom ⟨20⟩ := by
    intro a ha
    simp only [List.mem_cons, List.not_mem_nil, or_false] at ha
    rcases ha with rfl | rfl <;> exact changesFrom_changeFromTwenty _
  have hthirty : plan.CarriedOut [changeFromTwenty ⟨30⟩, changeFromTwenty ⟨50⟩] 0 :=
    ⟨_, rfl, by decide⟩
  have hfifty : plan.CarriedOut [changeFromTwenty ⟨50⟩, changeFromTwenty ⟨30⟩] 0 :=
    ⟨_, rfl, by decide⟩
  obtain ⟨hguards, honce⟩ := hreach.guards_hold
  refine ⟨hreach, hguards _ (by decide) (by decide), hthirty, fun h => ?_, hfifty, fun h => ?_⟩
  · exact absurd (honce _ _ (hchanges _ _) 0 1 hthirty h) (by decide)
  · exact absurd (honce _ _ (hchanges _ _) 0 1 hfifty h) (by decide)

end Seats
end Subscription
