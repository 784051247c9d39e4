import Subscription.Family.Basic

/-! # What reading a family's facets gives

A family reads its facets one after another into one value (`Family.decodeAll`).
The reading succeeds exactly when each facet of the family is read by itself, and
the result then has, for each of them, the setting that was read, and nothing for
any other facet (`decodeAll_eq_ok_iff`, `decodeAll_isOk_iff`).  Only an error
depends on the order: it is that of the first facet that cannot be read
(`decodeAll_eq_error_iff`).
-/
namespace Subscription

/-! ## Stages that may fail -/

section Stages
variable {ε ε' α β : Type}

/-- A sequence of two stages succeeds exactly when both do. -/
theorem bind_eq_ok_iff {x : Except ε α} {g : α → Except ε β} {b : β} :
    (x >>= g) = .ok b ↔ ∃ a, x = .ok a ∧ g a = .ok b := by
  cases x with
  | error e =>
    exact ⟨nofun, nofun⟩
  | ok a =>
    constructor
    · intro h
      exact ⟨a, rfl, h⟩
    · rintro ⟨a', ha, h⟩
      cases ha
      exact h

/-- Renaming the error of a stage does not change when it succeeds. -/
theorem mapError_eq_ok_iff {x : Except ε α} {g : ε → ε'} {a : α} :
    x.mapError g = .ok a ↔ x = .ok a := by
  cases x with
  | error e => exact ⟨nofun, nofun⟩
  | ok a' =>
    constructor
    · intro h
      cases h
      rfl
    · intro h
      cases h
      rfl

/-- A sequence of two stages fails where the first or the second does. -/
theorem bind_eq_error_iff {x : Except ε α} {g : α → Except ε β} {e : ε} :
    (x >>= g) = .error e ↔ x = .error e ∨ ∃ a, x = .ok a ∧ g a = .error e := by
  cases x with
  | error e' =>
    constructor
    · intro h
      cases h
      exact Or.inl rfl
    · rintro (h | ⟨a, ha, -⟩)
      · cases h
        rfl
      · cases ha
  | ok a =>
    constructor
    · intro h
      exact Or.inr ⟨a, rfl, h⟩
    · rintro (h | ⟨a', ha, h⟩)
      · cases h
      · cases ha
        exact h

/-- A renamed error is the name of an error. -/
theorem mapError_eq_error_iff {x : Except ε α} {g : ε → ε'} {e : ε'} :
    x.mapError g = .error e ↔ ∃ e', x = .error e' ∧ e = g e' := by
  cases x with
  | error e' =>
    constructor
    · intro h
      exact ⟨e', rfl, (Except.error.inj h).symm⟩
    · rintro ⟨_, ⟨⟩, rfl⟩
      rfl
  | ok a => exact ⟨nofun, nofun⟩

/-- What follows a stage without failing does not change when it succeeds. -/
theorem map_eq_ok_iff {x : Except ε α} {g : α → β} {b : β} :
    x.map g = .ok b ↔ ∃ a, x = .ok a ∧ g a = b := by
  cases x <;> simp [Except.map]

/-- A stage behind a guard succeeds exactly when the guard lets through and it does. -/
theorem guarded_eq_ok_iff {p : Prop} [Decidable p] {e : ε} {g : PUnit → Except ε α} {a : α} :
    (if p then (throw e : Except ε PUnit) >>= g else g ()) = .ok a ↔ ¬ p ∧ g () = .ok a := by
  by_cases hp : p
  · rw [if_pos hp]
    exact ⟨nofun, fun h => absurd hp h.1⟩
  · rw [if_neg hp, and_iff_right hp]

/-- A check of every member succeeds exactly when each check does. -/
theorem forM_eq_ok_iff {xs : List α} {g : α → Except ε PUnit} :
    xs.forM g = .ok () ↔ ∀ x ∈ xs, g x = .ok () := by
  induction xs with
  | nil => exact ⟨fun _ x hx => absurd hx List.not_mem_nil, fun _ => rfl⟩
  | cons x xs ih =>
    show (g x >>= fun _ => xs.forM g) = _ ↔ _
    rw [bind_eq_ok_iff, List.forall_mem_cons, ← ih]
    exact ⟨fun ⟨_, hx, h⟩ => ⟨hx, h⟩, fun ⟨hx, h⟩ => ⟨(), hx, h⟩⟩

end Stages

/-! ## The facets of a family -/

namespace Settings

/-- The settings are those of exactly the given facets. -/
def Covers (s : Settings) (facets : List Facet) : Prop :=
  ∀ f, (s.get? f).isSome ↔ f ∈ facets

@[simp] theorem get?_none (f : Facet) : ({} : Settings).get? f = none := by
  cases f <;> rfl

theorem get?_limit_iff {s : Settings} {l : Limit} :
    s.get? .limit = some (.limit l) ↔ s.limit = some l := by
  simp [get?]

theorem get?_extendPolicy_iff {s : Settings} {p : ExtendPolicy} :
    s.get? .extendPolicy = some (.extendPolicy p) ↔ s.extendPolicy = some p := by
  simp [get?]

theorem get?_restrictPolicy_iff {s : Settings} {p : RestrictPolicy} :
    s.get? .restrictPolicy = some (.restrictPolicy p) ↔ s.restrictPolicy = some p := by
  simp [get?]

theorem mem_toList_iff {s : Settings} {x : Setting} :
    x ∈ s.toList ↔ s.get? x.facet = some x := by
  unfold toList
  rw [List.mem_filterMap]
  constructor
  · rintro ⟨f, -, hf⟩
    rwa [facet_of_get? hf]
  · exact fun hx => ⟨x.facet, Facet.mem_all _, hx⟩

namespace Covers
variable {s : Settings} {facets : List Facet} (h : s.Covers facets)
include h

theorem exists_get? {f : Facet} (hf : f ∈ facets) : ∃ x, s.get? f = some x :=
  Option.isSome_iff_exists.mp ((h f).mpr hf)

theorem exists_limit (hf : .limit ∈ facets) : ∃ l, s.limit = some l := by
  obtain ⟨x, hx⟩ := h.exists_get? hf
  obtain ⟨l, hl, -⟩ := Option.map_eq_some_iff.mp hx
  exact ⟨l, hl⟩

theorem exists_extendPolicy (hf : .extendPolicy ∈ facets) : ∃ p, s.extendPolicy = some p := by
  obtain ⟨x, hx⟩ := h.exists_get? hf
  obtain ⟨p, hp, -⟩ := Option.map_eq_some_iff.mp hx
  exact ⟨p, hp⟩

theorem mem {f : Facet} {x : Setting} (hx : s.get? f = some x) : f ∈ facets :=
  (h f).mp (Option.isSome_iff_exists.mpr ⟨x, hx⟩)

theorem get?_eq_none {f : Facet} (hf : f ∉ facets) : s.get? f = none :=
  Option.not_isSome_iff_eq_none.mp fun hs => hf ((h f).mp hs)

end Covers
end Settings

namespace Family
variable (m : Family)

theorem hasFacet_iff {f : Facet} : m.hasFacet f = true ↔ f ∈ m.facets := decide_eq_true_iff

/-- A facet that the family lacks is refused before anything is read. -/
theorem decode_of_not_mem {f : Facet} (hf : f ∉ m.facets) (stored : Option Fields) :
    m.decode f stored = .error (.notInFamily f) := by
  unfold decode
  rw [if_neg (fun h => hf (m.hasFacet_iff.mp h))]

/-- What is read for a facet is a setting of that facet. -/
theorem facet_of_decode {f : Facet} {stored : Option Fields} {a : Setting}
    (h : m.decode f stored = .ok a) : a.facet = f := by
  unfold decode at h
  split at h
  · cases f with
    | limit =>
      dsimp only at h
      split at h
      · obtain ⟨l, -, rfl⟩ := map_eq_ok_iff.mp h
        rfl
      · cases h
    | extendPolicy => obtain ⟨p, -, rfl⟩ := map_eq_ok_iff.mp h; rfl
    | restrictPolicy => obtain ⟨p, -, rfl⟩ := map_eq_ok_iff.mp h; rfl
    | demo => obtain ⟨w, -, rfl⟩ := map_eq_ok_iff.mp h; rfl
  · cases h

variable (stored : Facet → Option Fields)

/-- One step of the reading, with everything after it. -/
theorem foldlM_decode_cons (f : Facet) (rest : List Facet) (s : Settings) :
    ((f :: rest).foldlM (fun s f => (m.decode f (stored f)).map s.set) s) =
      match m.decode f (stored f) with
      | .ok a => rest.foldlM (fun s f => (m.decode f (stored f)).map s.set) (s.set a)
      | .error e => .error e := by
  rw [List.foldlM_cons]
  cases m.decode f (stored f) <;> rfl

/-- Reading `facets` into `s` replaces the settings of these facets by what is
read for them, and keeps the others. -/
theorem foldlM_decode_eq_ok_iff (facets : List Facet) (s t : Settings) :
    facets.foldlM (fun s f => (m.decode f (stored f)).map s.set) s = .ok t ↔
      ∀ f, (f ∈ facets → ∃ a, m.decode f (stored f) = .ok a ∧ t.get? f = some a) ∧
        (f ∉ facets → t.get? f = s.get? f) := by
  induction facets generalizing s with
  | nil =>
    constructor
    · intro h f
      cases h
      exact ⟨fun hf => absurd hf List.not_mem_nil, fun _ => rfl⟩
    · intro h
      exact congrArg Except.ok (Settings.ext_get? fun f => ((h f).2 List.not_mem_nil).symm)
  | cons f rest ih =>
    rw [foldlM_decode_cons]
    cases hd : m.decode f (stored f) with
    | error e =>
      constructor
      · intro h
        cases h
      · intro h
        obtain ⟨a, ha, -⟩ := (h f).1 List.mem_cons_self
        rw [hd] at ha
        cases ha
    | ok a =>
      have hfa : a.facet = f := m.facet_of_decode hd
      refine (ih (s.set a)).trans (forall_congr' fun g => ?_)
      by_cases hg : g = f
      · subst g
        have hset : (s.set a).get? f = some a := by rw [Settings.get?_set, if_pos hfa.symm]
        -- Read again later or not, the facet has what is read for it.
        by_cases hr : f ∈ rest
        · simp [hr, hd]
        · simp [hr, hd, hset]
      · have hset : (s.set a).get? g = s.get? g := by
          rw [Settings.get?_set, if_neg (fun h => hg (h.trans hfa))]
        simp [hg, hset]

theorem exists_foldlM_decode {facets : List Facet} (s : Settings)
    (h : ∀ f ∈ facets, ∃ a, m.decode f (stored f) = .ok a) :
    ∃ t, facets.foldlM (fun s f => (m.decode f (stored f)).map s.set) s = .ok t := by
  induction facets generalizing s with
  | nil => exact ⟨s, rfl⟩
  | cons f rest ih =>
    obtain ⟨a, ha⟩ := h f List.mem_cons_self
    obtain ⟨t, ht⟩ := ih (s.set a) fun g hg => h g (List.mem_cons_of_mem _ hg)
    exact ⟨t, by rw [foldlM_decode_cons, ha]; exact ht⟩

/-- **The settings that a family reads**: for each of its facets the one read for
it, and none for any other. -/
theorem decodeAll_eq_ok_iff {s : Settings} :
    m.decodeAll stored = .ok s ↔
      ∀ f, (f ∈ m.facets → ∃ a, m.decode f (stored f) = .ok a ∧ s.get? f = some a) ∧
        (f ∉ m.facets → s.get? f = none) := by
  refine (m.foldlM_decode_eq_ok_iff stored m.facets {} s).trans ?_
  simp only [Settings.get?_none]

/-- Fields that are read alike, facet by facet, are read alike. -/
theorem decodeAll_congr {stored stored' : Facet → Option Fields}
    (h : ∀ f ∈ m.facets, m.decode f (stored f) = m.decode f (stored' f)) :
    m.decodeAll stored = m.decodeAll stored' := by
  have hfold (facets : List Facet) (hf : ∀ f ∈ facets, m.decode f (stored f) = m.decode f (stored' f))
      (s : Settings) :
      facets.foldlM (fun s f => (m.decode f (stored f)).map s.set) s =
        facets.foldlM (fun s f => (m.decode f (stored' f)).map s.set) s := by
    induction facets generalizing s with
    | nil => rfl
    | cons f rest ih =>
      obtain ⟨hhead, hrest⟩ := List.forall_mem_cons.mp hf
      rw [foldlM_decode_cons, foldlM_decode_cons, hhead]
      cases m.decode f (stored' f) with
      | error e => rfl
      | ok a => exact ih hrest (s.set a)
  exact hfold m.facets h {}

/-- The reading succeeds exactly when that of every facet does. -/
theorem decodeAll_isOk_iff :
    (∃ s, m.decodeAll stored = .ok s) ↔
      ∀ f ∈ m.facets, ∃ a, m.decode f (stored f) = .ok a := by
  constructor
  · rintro ⟨s, hs⟩ f hf
    obtain ⟨a, ha, -⟩ := ((m.decodeAll_eq_ok_iff stored).mp hs f).1 hf
    exact ⟨a, ha⟩
  · exact m.exists_foldlM_decode stored {}

theorem foldlM_decode_eq_error_iff (facets : List Facet) (s : Settings) {e : FacetError} :
    facets.foldlM (fun s f => (m.decode f (stored f)).map s.set) s = .error e ↔
      ∃ before f after, facets = before ++ f :: after ∧
        (∀ g ∈ before, ∃ a, m.decode g (stored g) = .ok a) ∧ m.decode f (stored f) = .error e := by
  induction facets generalizing s with
  | nil =>
    refine ⟨nofun, ?_⟩
    rintro ⟨before, f, after, h, -⟩
    exact absurd h.symm (by simp)
  | cons g rest ih =>
    rw [foldlM_decode_cons]
    simp only [List.cons_eq_append_iff]
    cases hd : m.decode g (stored g) with
    | error e' =>
      constructor
      · intro h
        cases h
        exact ⟨[], g, rest, Or.inl ⟨rfl, rfl⟩, fun _ h => absurd h List.not_mem_nil, hd⟩
      · rintro ⟨before, f, after, ⟨rfl, h⟩ | ⟨tail, rfl, -⟩, hbefore, hf⟩
        · obtain rfl := (List.cons.inj h).1
          obtain rfl := Except.error.inj (hd.symm.trans hf)
          rfl
        · obtain ⟨a, ha⟩ := hbefore g List.mem_cons_self
          exact absurd (hd.symm.trans ha) nofun
    | ok a =>
      refine (ih (s.set a)).trans ?_
      constructor
      · rintro ⟨before, f, after, rfl, hbefore, hf⟩
        exact ⟨g :: before, f, after, Or.inr ⟨before, rfl, rfl⟩,
          List.forall_mem_cons.mpr ⟨⟨a, hd⟩, hbefore⟩, hf⟩
      · rintro ⟨before, f, after, ⟨rfl, h⟩ | ⟨tail, rfl, rfl⟩, hbefore, hf⟩
        · obtain rfl := (List.cons.inj h).1
          exact absurd (hd.symm.trans hf) nofun
        · exact ⟨tail, f, after, rfl, (List.forall_mem_cons.mp hbefore).2, hf⟩

/-- The reading fails with the error of the first facet that cannot be read. -/
theorem decodeAll_eq_error_iff {e : FacetError} :
    m.decodeAll stored = .error e ↔
      ∃ before f after, m.facets = before ++ f :: after ∧
        (∀ g ∈ before, ∃ a, m.decode g (stored g) = .ok a) ∧ m.decode f (stored f) = .error e :=
  m.foldlM_decode_eq_error_iff stored m.facets {}

theorem covers_of_decodeAll {s : Settings} (h : m.decodeAll stored = .ok s) :
    s.Covers m.facets := by
  intro f
  have hf := (m.decodeAll_eq_ok_iff stored).mp h f
  by_cases hm : f ∈ m.facets
  · obtain ⟨a, -, ha⟩ := hf.1 hm
    simp [hm, ha]
  · simp [hm, hf.2 hm]

end Family
end Subscription
