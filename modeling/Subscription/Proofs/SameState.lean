import Mathlib.Data.List.Basic
import Subscription.Proofs.Decoding
import Subscription.Snapshot

/-! # States that are the same up to the deadline

Two states are the same when they have the same dates and the same facets, with settings that say
the same; but the deadline of a trial counts for nothing.  So they are the same exactly when giving
both one deadline makes them equal (`Snapshot.isSame_iff_withDeadline`), and for that reason
sameness is an equivalence although it passes over a part (`Snapshot.isSame_equivalence`).  It is
enough to walk the settings of one side, once there are as many on the other
(`Settings.isSame_iff_foundIn`).
-/
namespace Subscription

namespace Setting

/-- The setting with another deadline, if it has one. -/
def withDeadline (deadline : Seconds) : Setting → Setting
  | extendPolicy p => extendPolicy { p with trialUntil := deadline }
  | x => x

/-- Settings say the same when they are equal under one deadline. -/
theorem isSame_iff_withDeadline (x y : Setting) (deadline : Seconds) :
    x.isSame y = true ↔ x.withDeadline deadline = y.withDeadline deadline := by
  cases x <;> cases y <;> simp [isSame, ExtendPolicy.isSame, withDeadline]

end Setting

namespace Settings
variable (s t : Settings) (deadline : Seconds)

/-- The settings with another deadline of the trial. -/
def withDeadline : Settings :=
  { s with extendPolicy := s.extendPolicy.map fun p => { p with trialUntil := deadline } }

theorem get?_withDeadline (f : Facet) :
    (s.withDeadline deadline).get? f = (s.get? f).map (Setting.withDeadline deadline) := by
  cases f <;> simp [get?, withDeadline, Function.comp_def, Setting.withDeadline]

theorem get?_withDeadline_of_ne {f : Facet} (hf : f ≠ .extendPolicy) :
    (s.withDeadline deadline).get? f = s.get? f := by
  cases f with
  | extendPolicy => exact absurd rfl hf
  | _ => rfl

theorem get?_withDeadline_of_none {f : Facet} (h : s.get? f = none) :
    (s.withDeadline deadline).get? f = none := by
  rw [get?_withDeadline, h]
  rfl

variable {s t}

/-- Settings are the same facet by facet. -/
theorem isSame_iff_get? :
    s.isSame t = true ↔ ∀ f, (s.get? f).map (Setting.withDeadline deadline) =
      (t.get? f).map (Setting.withDeadline deadline) := by
  simp only [isSame, List.all_eq_true, Facet.mem_all, true_imp_iff]
  refine forall_congr' fun f => ?_
  cases s.get? f <;> cases t.get? f <;> simp [Setting.isSame_iff_withDeadline _ _ deadline]

/-- **Settings are the same** when they are equal under one deadline. -/
theorem isSame_iff_withDeadline :
    s.isSame t = true ↔ s.withDeadline deadline = t.withDeadline deadline := by
  simp only [isSame_iff_get? deadline, ← get?_withDeadline]
  exact ⟨ext_get?, fun h f => by rw [h]⟩

variable (s) in
theorem isSame_withDeadline : (s.withDeadline deadline).isSame s = true := by
  rw [isSame_iff_withDeadline deadline]
  simp [withDeadline, Function.comp_def]

/-! ## Walking one side -/

/-- There are as many settings in `t`, and each of `s` is found there as the same. -/
def FoundIn (s t : Settings) : Prop :=
  s.toList.length = t.toList.length ∧
    ∀ x ∈ s.toList, ∃ y, t.get? x.facet = some y ∧ x.isSame y = true

/-- The facets that are set. -/
def presentFacets (s : Settings) : List Facet := Facet.all.filter fun f => (s.get? f).isSome

theorem mem_presentFacets_iff {f : Facet} : f ∈ s.presentFacets ↔ (s.get? f).isSome = true := by
  simp [presentFacets, Facet.mem_all]

theorem length_toList (s : Settings) : s.toList.length = s.presentFacets.length := by
  rw [toList, List.length_filterMap_eq_countP, presentFacets, List.countP_eq_length_filter]

/-- Of as many facets, none is missing if all of them are there on the other side. -/
theorem mem_presentFacets_of_length (hlength : s.presentFacets.length = t.presentFacets.length)
    (hsub : ∀ f, f ∈ s.presentFacets → f ∈ t.presentFacets) {f : Facet}
    (hf : f ∈ t.presentFacets) : f ∈ s.presentFacets := by
  have hsublist : s.presentFacets.Sublist t.presentFacets := by
    refine List.monotone_filter_right _ fun f hs => ?_
    exact mem_presentFacets_iff.mp (hsub f (mem_presentFacets_iff.mpr hs))
  rwa [hsublist.eq_of_length hlength]

theorem FoundIn.of_isSame (h : s.isSame t = true) : s.FoundIn t := by
  rw [isSame_iff_get? .unbounded] at h
  have hfacets : s.presentFacets = t.presentFacets := by
    refine List.filter_congr fun f _ => ?_
    simpa using congrArg Option.isSome (h f)
  refine ⟨by rw [length_toList, length_toList, hfacets], fun x hx => ?_⟩
  have hx' := h x.facet
  rw [mem_toList_iff.mp hx, Option.map_some] at hx'
  obtain ⟨y, hy, hsame⟩ := Option.map_eq_some_iff.mp hx'.symm
  exact ⟨y, hy, (x.isSame_iff_withDeadline y _).mpr hsame.symm⟩

theorem FoundIn.isSame (h : s.FoundIn t) : s.isSame t = true := by
  obtain ⟨hlength, hfound⟩ := h
  rw [length_toList, length_toList] at hlength
  have hset (f : Facet) (x : Setting) (hx : s.get? f = some x) :
      ∃ y, t.get? f = some y ∧ x.isSame y = true := by
    obtain rfl := facet_of_get? hx
    exact hfound x (mem_toList_iff.mpr hx)
  have hsub (f : Facet) (hf : f ∈ s.presentFacets) : f ∈ t.presentFacets := by
    obtain ⟨x, hx⟩ := Option.isSome_iff_exists.mp (mem_presentFacets_iff.mp hf)
    obtain ⟨y, hy, -⟩ := hset f x hx
    exact mem_presentFacets_iff.mpr (Option.isSome_iff_exists.mpr ⟨y, hy⟩)
  rw [isSame_iff_get? .unbounded]
  intro f
  cases hs : s.get? f with
  | some x =>
    obtain ⟨y, hy, hsame⟩ := hset f x hs
    rw [hy, Option.map_some, Option.map_some, (x.isSame_iff_withDeadline y _).mp hsame]
  | none =>
    -- A facet that only `t` has would be one too many.
    have hnone : f ∉ t.presentFacets := fun hf => by
      have hmem := mem_presentFacets_iff.mp (mem_presentFacets_of_length hlength hsub hf)
      rw [hs] at hmem
      cases hmem
    rw [mem_presentFacets_iff, Option.not_isSome_iff_eq_none] at hnone
    rw [hnone]

/-- **It is enough to walk one side.** -/
theorem isSame_iff_foundIn : s.isSame t = true ↔ s.FoundIn t :=
  ⟨FoundIn.of_isSame, FoundIn.isSame⟩

end Settings

namespace Snapshot
variable (s t : Snapshot) (deadline : Seconds)

/-- The state with another deadline of the trial. -/
def withDeadline : Snapshot := { s with settings := s.settings.withDeadline deadline }

theorem isSame_withDeadline : (s.withDeadline deadline).isSame s = true := by
  simp [isSame, withDeadline, s.settings.isSame_withDeadline deadline]

variable {s t}

/-- **States are the same** when they are equal under one deadline. -/
theorem isSame_iff_withDeadline :
    s.isSame t = true ↔ s.withDeadline deadline = t.withDeadline deadline := by
  simp [isSame, withDeadline, Settings.isSame_iff_withDeadline deadline, and_assoc]

/-- Sameness is an equivalence, as equality under one deadline is. -/
theorem isSame_equivalence : Equivalence fun s t : Snapshot => s.isSame t = true where
  refl _ := (isSame_iff_withDeadline .unbounded).mpr rfl
  symm h := (isSame_iff_withDeadline .unbounded).mpr ((isSame_iff_withDeadline _).mp h).symm
  trans h h' := (isSame_iff_withDeadline .unbounded).mpr
    (((isSame_iff_withDeadline _).mp h).trans ((isSame_iff_withDeadline _).mp h'))

end Snapshot
end Subscription
