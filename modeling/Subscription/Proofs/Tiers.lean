import Subscription.Family.Basic

/-! # The tiers of a family

Tiers make a catalog when they ascend and the free ones are among them
(`Catalog.exists_ofTiers_iff`).  A catalog is searched by halving, and because it is
ascending the search misses no tier (`Catalog.contains_iff_mem`).  A replacement limit is
always one of the tiers (`Catalog.smallestFitting_mem`), and of more than fits a tier it is
that tier only at the top of the catalog (`Catalog.smallestFitting_eq_iff`).
-/
namespace Subscription

namespace Catalog

/-- In an ascending array, the smaller entry stands first. -/
theorem index_lt_of_lt {tiers : Array UInt32} (hasc : tiers.toList.Pairwise (· < ·))
    {i j : Nat} {a b : UInt32} (hi : tiers[i]? = some a) (hj : tiers[j]? = some b)
    (hab : a < b) : i < j := by
  obtain ⟨hil, rfl⟩ := Array.getElem?_eq_some_iff.mp hi
  obtain ⟨hjl, rfl⟩ := Array.getElem?_eq_some_iff.mp hj
  rcases Nat.lt_trichotomy i j with h | rfl | h
  · exact h
  · exact absurd hab (UInt32.lt_irrefl _)
  · have hba : tiers[j] < tiers[i] := List.pairwise_iff_getElem.mp hasc j i hjl hil h
    exact absurd hab (UInt32.lt_asymm hba)

/-- Halving an interval that holds `t` finds it, if there are as many steps as
positions. -/
theorem halving_of_getElem? {tiers : Array UInt32} (hasc : tiers.toList.Pairwise (· < ·))
    {t : UInt32} {i : Nat} (ht : tiers[i]? = some t) {steps lo hi : Nat} (hlo : lo ≤ i)
    (hhi : i < hi) (hsize : hi ≤ tiers.size) (hsteps : hi - lo ≤ steps) :
    halving tiers t steps lo hi = true := by
  induction steps generalizing lo hi with
  | zero => omega
  | succ steps ih =>
    have hmid : (lo + hi) / 2 < tiers.size := by omega
    have hget : tiers[(lo + hi) / 2]? = some tiers[(lo + hi) / 2] :=
      Array.getElem?_eq_getElem hmid
    rw [halving, if_pos (by omega)]
    simp only [hget]
    split
    · rfl
    · rename_i hne
      split
      · rename_i hlt
        have hright : (lo + hi) / 2 < i := index_lt_of_lt hasc hget ht hlt
        exact ih (by omega) hhi hsize (by omega)
      · rename_i hge
        have hlt : t < tiers[(lo + hi) / 2] :=
          UInt32.lt_of_le_of_ne (UInt32.not_lt.mp hge) (Ne.symm hne)
        have hleft : i < (lo + hi) / 2 := index_lt_of_lt hasc ht hget hlt
        exact ih hlo hleft (by omega) (by omega)

/-- Halving the whole of an ascending array finds exactly its members. -/
theorem halving_size_iff_mem {tiers : Array UInt32} (hasc : tiers.toList.Pairwise (· < ·))
    {t : UInt32} : halving tiers t tiers.size 0 tiers.size = true ↔ t ∈ tiers := by
  refine ⟨mem_of_halving, fun h => ?_⟩
  obtain ⟨i, hi⟩ := Array.mem_iff_getElem?.mp h
  obtain ⟨hlt, -⟩ := Array.getElem?_eq_some_iff.mp hi
  exact halving_of_getElem? hasc hi (Nat.zero_le i) hlt (Nat.le_refl _) (by omega)

/-- There is no descent exactly in an ascending list. -/
theorem firstDescent_eq_none_iff {tiers : List UInt32} :
    firstDescent tiers = none ↔ tiers.Pairwise (· < ·) := by
  refine ⟨pairwise_of_firstDescent_eq_none, fun h => ?_⟩
  induction h with
  | nil => rfl
  | @cons a rest hrel h ih =>
    cases rest with
    | nil => rfl
    | cons b rest =>
      rw [firstDescent, if_pos (hrel b List.mem_cons_self)]
      exact ih

/-- What is made from tiers is the catalog of just these. -/
theorem ofTiers_eq_ok_iff {tiers free : List UInt32} {c : Catalog} :
    ofTiers tiers free = .ok c ↔ c.tiers.toList = tiers ∧ c.free = free := by
  constructor
  · intro h
    unfold ofTiers at h
    split at h
    · cases h
    · split at h
      · cases h
      · split at h
        · cases h
        · cases h
          exact ⟨rfl, rfl⟩
  · rintro ⟨rfl, rfl⟩
    unfold ofTiers
    split
    · rename_i h
      exact absurd (by simpa using h) c.nonempty
    · split
      · rename_i t ht
        rw [firstDescent_eq_none_iff.mpr c.ascending] at ht
        cases ht
      · split
        · rename_i t ht
          have hmem : t ∈ c.tiers := c.free_mem t (List.mem_of_find?_eq_some ht)
          have hmiss := List.find?_some ht
          rw [Array.length_toList, Array.toArray_toList,
            (halving_size_iff_mem c.ascending).mpr hmem] at hmiss
          cases hmiss
        · rfl

/-- **Tiers make a catalog** exactly when there are any, they ascend and the free ones
are among them. -/
theorem exists_ofTiers_iff {tiers free : List UInt32} :
    (∃ c, ofTiers tiers free = .ok c) ↔
      tiers ≠ [] ∧ tiers.Pairwise (· < ·) ∧ ∀ t ∈ free, t ∈ tiers := by
  simp only [ofTiers_eq_ok_iff]
  constructor
  · rintro ⟨c, rfl, rfl⟩
    exact ⟨fun h => c.nonempty (by simpa using h), c.ascending,
      fun t ht => Array.mem_toList_iff.mpr (c.free_mem t ht)⟩
  · rintro ⟨hne, hasc, hfree⟩
    exact ⟨⟨tiers.toArray, free, by simpa using hne, hasc, by simpa using hfree⟩, rfl, rfl⟩

variable (c : Catalog)

/-- **Halving finds exactly the tiers.** -/
theorem contains_iff_mem (value : UInt32) : c.contains value = true ↔ value ∈ c.tiers :=
  halving_size_iff_mem c.ascending

/-- A tier is answered as it is, and nothing else is answered. -/
theorem require_eq_ok_iff {value tier : UInt32} :
    c.require value = .ok tier ↔ tier = value ∧ value ∈ c.tiers := by
  rw [← c.contains_iff_mem]
  unfold require
  split
  · rename_i h
    rw [Except.ok.injEq, and_iff_left h]
    exact eq_comm
  · rename_i h
    exact ⟨nofun, fun hc => absurd hc.2 h⟩

/-- The least tier is a tier, and no tier is below it. -/
theorem min_spec : c.min ∈ c.tiers ∧ ∀ t ∈ c.tiers, c.min ≤ t := by
  have hsize : 0 < c.tiers.size := Array.size_pos_iff.mpr c.nonempty
  refine ⟨Array.getElem_mem hsize, fun t ht => ?_⟩
  obtain ⟨i, hi⟩ := Array.mem_iff_getElem?.mp ht
  refine UInt32.not_lt.mp fun hlt => ?_
  -- Were a tier smaller, it would stand before the first.
  exact Nat.not_lt_zero i (index_lt_of_lt c.ascending hi (Array.getElem?_eq_getElem hsize) hlt)

/-- The greatest tier is a tier, and no tier is above it. -/
theorem max_spec : c.max ∈ c.tiers ∧ ∀ t ∈ c.tiers, t ≤ c.max := by
  have hsize : 0 < c.tiers.size := Array.size_pos_iff.mpr c.nonempty
  refine ⟨Array.back_mem hsize, fun t ht => ?_⟩
  obtain ⟨i, hi⟩ := Array.mem_iff_getElem?.mp ht
  obtain ⟨hlt, -⟩ := Array.getElem?_eq_some_iff.mp hi
  have hlast : c.tiers[c.tiers.size - 1]? = some c.max := Array.getElem?_eq_getElem (by omega)
  refine UInt32.not_lt.mp fun hgreater => ?_
  -- Were a tier greater, it would stand after the last.
  have hafter := index_lt_of_lt c.ascending hlast hi hgreater
  omega

theorem smallestFitting_mem (required : UInt32) : c.smallestFitting required ∈ c.tiers := by
  unfold smallestFitting
  cases h : c.tiers.toList.find? (required ≤ ·) with
  | none => exact c.max_spec.1
  | some t => exact Array.mem_toList_iff.mp (List.mem_of_find?_eq_some h)

/-- For more than a tier has room for, the least fitting one is that tier again only if it is the
greatest. -/
theorem smallestFitting_eq_iff {required tier : UInt32} (h : tier < required) :
    c.smallestFitting required = tier ↔ c.max = tier := by
  have hbelow : ∀ t, t = tier → ¬ required ≤ t := fun t ht hle =>
    UInt32.lt_irrefl tier (UInt32.lt_of_lt_of_le h (ht ▸ hle))
  unfold smallestFitting
  cases hfind : c.tiers.toList.find? (required ≤ ·) with
  | none => rfl
  | some t =>
    have hfits : required ≤ t := by simpa using List.find?_some hfind
    have htier : t ∈ c.tiers := Array.mem_toList_iff.mp (List.mem_of_find?_eq_some hfind)
    have hle : t ≤ c.max := c.max_spec.2 t htier
    constructor
    · exact fun ht => absurd hfits (hbelow t ht)
    · exact fun hmax => absurd (UInt32.le_trans hfits hle) (hbelow c.max hmax)

end Catalog

namespace Family
variable {m : Family}

/-- The family's catalog has the tier. -/
def HasTier (m : Family) (tier : UInt32) : Prop := ∃ c, m.catalog = some c ∧ tier ∈ c.tiers

theorem hasTier_iff_contains {tier : UInt32} :
    m.HasTier tier ↔ ∃ c, m.catalog = some c ∧ c.contains tier = true := by
  unfold HasTier
  simp only [Catalog.contains_iff_mem]

instance (m : Family) (tier : UInt32) : Decidable (m.HasTier tier) :=
  decidable_of_iff (m.catalog.any (·.contains tier) = true)
    ((Option.any_eq_true _ _).trans hasTier_iff_contains.symm)

end Family
end Subscription
