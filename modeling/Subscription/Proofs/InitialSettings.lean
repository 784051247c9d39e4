import Subscription.Proofs.ClosedForm
import Subscription.Proofs.Storing

/-! # Plans for which nothing is stored

A family fills in every facet for which nothing is stored (`Family.initial`).  Its own
defaults can be read as long as the default limit is one of its tiers
(`Family.DefaultsToTier`).  A stored state without facets and a history without any are
then loaded with the same settings, though one reads the defaults and the other a fold
laid over them (`Plan.ofStored_initial`, `Plan.ofHistory_initial`).
-/
namespace Subscription

open Record

namespace Family
variable {m : Family}

/-- The tier of a limit for which nothing is stored. -/
def initialTier (m : Family) : UInt32 :=
  m.defaults.limit.getD ((m.catalog.map Catalog.min).getD 0)

/-- The settings of a plan for which nothing is stored. -/
def initial (m : Family) : Settings :=
  Settings.within {
    limit := some ⟨m.initialTier⟩
    extendPolicy := some { rule := m.defaults.extendRule }
    restrictPolicy := some ⟨m.defaults.restrictActiveFrom⟩
    demo := some ⟨m.defaults.demoActiveUntil⟩ } m.facets

/-- The default of a limit, if any is given, is one of the tiers. -/
def DefaultsToTier (m : Family) : Prop :=
  .limit ∈ m.facets → ∀ t, m.defaults.limit = some t → m.HasTier t

theorem DefaultsToTier.hasTier (h : m.DefaultsToTier) (hm : .limit ∈ m.facets) :
    m.HasTier m.initialTier := by
  unfold initialTier
  cases hl : m.defaults.limit with
  | some t => exact h hm t hl
  | none =>
    obtain ⟨c, hc⟩ := Option.isSome_iff_exists.mp (m.catalog_of_limit hm)
    exact ⟨c, hc, by rw [hc]; exact c.min_spec.1⟩

theorem covers_initial (m : Family) : m.initial.Covers m.facets := by
  intro f
  unfold initial
  rw [Settings.get?_within]
  by_cases hf : f ∈ m.facets
  · rw [if_pos hf, iff_true_right hf]
    cases f <;> rfl
  · simp [hf]

/-- A facet for which nothing is stored is read as its initial setting. -/
theorem decode_none (h : m.DefaultsToTier) {f : Facet} (hf : f ∈ m.facets) {x : Setting}
    (hx : m.initial.get? f = some x) : m.decode f none = .ok x := by
  unfold initial at hx
  rw [Settings.get?_within, if_pos hf] at hx
  cases f with
  | limit =>
    cases hx
    refine (decode_eq_ok_iff (by decide) hf).mpr ⟨rfl, rfl, fun l hl => ?_⟩
    cases hl
    exact hasTier_iff_contains.mp (h.hasTier hf)
  | extendPolicy =>
    cases hx
    exact (decode_extendPolicy_eq_ok_iff hf).mpr ⟨_, none, rfl, rfl, rfl⟩
  | restrictPolicy =>
    cases hx
    exact (decode_eq_ok_iff (by decide) hf).mpr ⟨rfl, rfl, nofun⟩
  | demo =>
    cases hx
    exact (decode_eq_ok_iff (by decide) hf).mpr ⟨rfl, rfl, nofun⟩

/-- Fields from which every facet is read as if nothing were stored give the initial
settings. -/
theorem decodeAll_initial (h : m.DefaultsToTier) {stored : Facet → Option Fields}
    (hs : ∀ f ∈ m.facets, ∀ x, m.decode f none = .ok x → m.decode f (stored f) = .ok x) :
    m.decodeAll stored = .ok m.initial := by
  refine (m.decodeAll_eq_ok_iff stored).mpr fun f => ⟨fun hf => ?_, fun hf => ?_⟩
  · obtain ⟨x, hx⟩ := m.covers_initial.exists_get? hf
    exact ⟨x, hs f hf x (decode_none h hf hx), hx⟩
  · exact m.covers_initial.get?_eq_none hf

/-- Records that do not mention the extend policy leave its fold as it starts. -/
theorem foldPolicy_of_unmentioned {records : List Record}
    (hr : ∀ r ∈ records, r.facet? .extendPolicy = none) :
    foldPolicy m records = { rule := m.defaults.extendRule } := by
  unfold foldPolicy
  induction records with
  | nil => rfl
  | cons r records ih =>
    have hstep (acc : ExtendFold) : acc.step r = acc := by
      unfold ExtendFold.step
      rw [hr r List.mem_cons_self]
    rw [List.foldl_cons, hstep]
    exact ih fun s hs => hr s (List.mem_cons_of_mem _ hs)

/-- The fold of records that do not mention a facet is read as if nothing were stored. -/
theorem decode_replayedFields_of_unmentioned (h : m.DefaultsToTier) {f : Facet}
    (hf : f ∈ m.facets) {records : List Record} (hr : ∀ r ∈ records, r.facet? f = none)
    {x : Setting} (hx : m.decode f none = .ok x) :
    m.decode f (some (replayedFields m records f)) = .ok x := by
  by_cases hne : f = .extendPolicy
  · subst hne
    obtain ⟨y, hy⟩ := m.covers_initial.exists_get? hf
    obtain rfl : y = x := Except.ok.inj ((decode_none h hf hy).symm.trans hx)
    refine (decode_foldExtendPolicy hf).mpr ⟨fun r hmem => ?_, ?_⟩
    · exact namesRule_of_unnamed (ruleName?_of_unmentioned (hr r hmem))
    · unfold initial at hy
      rw [Settings.get?_within, if_pos hf] at hy
      rw [foldPolicy_of_unmentioned hr]
      exact (Option.some.inj hy).symm
  · rw [replayedFields_of_ne hne, foldFacet_of_unmentioned hr]
    exact (decode_of_missing hne rfl).mpr hx

end Family

namespace Plan
variable {m : Family}

/-- **A state without facets is loaded with the initial settings.** -/
theorem ofStored_initial (h : m.DefaultsToTier) {s : StoredState} (ht : s.planType = m.id)
    (hv : m.admits s.variant = true) (hs : ∀ f ∈ m.facets, s.facet? f = none) :
    ofStored m s =
      .ok (ofSnapshot m s.variant ⟨s.activeUntil, s.freeActiveUntil, m.initial⟩) := by
  refine ofStored_eq_ok_iff.mpr ⟨ht, hv, m.initial, ?_, rfl⟩
  exact Family.decodeAll_initial h fun f hf x hx => by rwa [hs f hf]

/-- **A history without facets is loaded with the initial settings.** -/
theorem ofHistory_initial (h : m.DefaultsToTier) {records : List Record} {last first : Record}
    (hlast : last? records = some last) (hfirst : first? records = some first)
    (hv : m.admits last.variant = true)
    (hr : ∀ r ∈ records, ∀ f ∈ m.facets, r.facet? f = none) :
    ofHistory m records =
      .ok (ofSnapshot m last.variant ⟨first.activeUntil, first.freeActiveUntil, m.initial⟩) := by
  refine ofHistory_eq_ok_iff.mpr ⟨⟨last.variant, _⟩, ?_, hv, rfl⟩
  refine replay_eq_ok_iff.mpr ⟨last, first, m.initial, hlast, hfirst, ?_, rfl⟩
  exact Family.decodeAll_initial h fun f hf x hx =>
    Family.decode_replayedFields_of_unmentioned h hf (fun r hmem => hr r hmem f hf) hx

end Plan
end Subscription
