import Subscription.Stored

/-! # Tier catalogs

A catalog is the ascending list of limits that a family of plans offers,
together with those of them that cost nothing.  `ofTiers` accepts a list of
tiers exactly when it is such a list and says what is wrong otherwise.  Because
a catalog is ascending, membership is found by halving (`contains`).
-/

namespace Subscription

/-- What is wrong with a tier or a list of tiers. -/
inductive CatalogError where
  | empty
  /-- The tier is not greater than the one before it. -/
  | notAscending (tier : UInt32)
  | unknownFreeTier (tier : UInt32)
  | unknownTier (tier : UInt32)
deriving DecidableEq

def CatalogError.message : CatalogError → String
  | empty => "tier catalog is empty"
  | notAscending t => "tier catalog is not strictly ascending at " ++ toString t.toNat
  | unknownFreeTier t => "free tier " ++ toString t.toNat ++ " is not in the catalog"
  | unknownTier t => "tier " ++ toString t.toNat ++ " is not in the catalog"

namespace Catalog

/-- A tier that is not greater than the one before it, if there is one. -/
def firstDescent : List UInt32 → Option UInt32
  | a :: b :: rest => if a < b then firstDescent (b :: rest) else some b
  | _ => none

/-- Looks for `t` among the positions from `lo` up to but not including `hi`,
halving them `steps` times at most. -/
def halving (tiers : Array UInt32) (t : UInt32) : (steps lo hi : Nat) → Bool
  | 0, _, _ => false
  | steps + 1, lo, hi =>
    if lo < hi then
      let mid := (lo + hi) / 2
      match tiers[mid]? with
      | none => false
      | some x =>
        if x = t then true
        else if x < t then halving tiers t steps (mid + 1) hi
        else halving tiers t steps lo mid
    else false

theorem pairwise_of_firstDescent_eq_none {tiers : List UInt32} (h : firstDescent tiers = none) :
    tiers.Pairwise (· < ·) := by
  induction tiers with
  | nil => exact .nil
  | cons a rest ih =>
    cases rest with
    | nil => exact List.pairwise_singleton _ _
    | cons b rest =>
      rw [firstDescent] at h
      split at h
      · rename_i hab
        have hb := ih h
        refine List.pairwise_cons.mpr ⟨fun x hx => ?_, hb⟩
        rcases List.mem_cons.mp hx with rfl | hx
        · exact hab
        · exact UInt32.lt_trans hab (List.rel_of_pairwise_cons hb hx)
      · exact absurd h (by simp)

theorem mem_of_halving {tiers : Array UInt32} {t : UInt32} {steps lo hi : Nat}
    (h : halving tiers t steps lo hi = true) : t ∈ tiers := by
  induction steps generalizing lo hi with
  | zero => exact absurd h (by simp [halving])
  | succ steps ih =>
    rw [halving] at h
    split at h
    · dsimp only at h
      split at h
      · exact absurd h (by simp)
      · rename_i x hx
        split at h
        · rename_i hxt
          exact hxt ▸ Array.mem_of_getElem? hx
        · split at h <;> exact ih h
    · exact absurd h (by simp)

end Catalog

/-- The tiers of a family, ascending, and those of them that are free. -/
structure Catalog where
  tiers : Array UInt32
  free : List UInt32
  nonempty : tiers ≠ #[]
  ascending : tiers.toList.Pairwise (· < ·)
  free_mem : ∀ t ∈ free, t ∈ tiers
deriving DecidableEq

namespace Catalog

/-- A catalog of the given tiers.  The checks come in order: no tiers at all, a
tier out of order, a free tier that is not a tier. -/
def ofTiers (tiers free : List UInt32) : Except CatalogError Catalog :=
  if hne : tiers.toArray = #[] then .error .empty
  else match hasc : firstDescent tiers with
    | some t => .error (.notAscending t)
    | none =>
      match hfree : free.find? fun t => !halving tiers.toArray t tiers.length 0 tiers.length with
      | some t => .error (.unknownFreeTier t)
      | none => .ok {
          tiers := tiers.toArray
          free := free
          nonempty := hne
          ascending := pairwise_of_firstDescent_eq_none hasc
          free_mem := fun t ht => by
            have h := List.find?_eq_none.mp hfree t ht
            exact mem_of_halving (by simpa using h) }

/-- Whether a value is one of the tiers. -/
def contains (c : Catalog) (value : UInt32) : Bool :=
  halving c.tiers value c.tiers.size 0 c.tiers.size

/-- The value itself, if it is a tier. -/
def require (c : Catalog) (value : UInt32) : Except CatalogError UInt32 :=
  if c.contains value then .ok value else .error (.unknownTier value)

/-- Whether a tier costs nothing. -/
def isFree (c : Catalog) (tier : UInt32) : Bool := c.free.contains tier

/-- The greatest tier. -/
def max (c : Catalog) : UInt32 :=
  c.tiers.back (Array.size_pos_iff.mpr c.nonempty)

/-- The least tier. -/
def min (c : Catalog) : UInt32 :=
  have := Array.size_pos_iff.mpr c.nonempty
  c.tiers[0]

/-- The least tier that holds `required`, or the greatest tier if none does. -/
def smallestFitting (c : Catalog) (required : UInt32) : UInt32 :=
  (c.tiers.toList.find? (required ≤ ·)).getD c.max

instance : Stored Catalog where
  encode c := .object ⟨[
    ("tiers", Stored.encode c.tiers.toList),
    ("free", Stored.encode c.free)]⟩
  decode? v := do
    let t ← v.struct? ["tiers", "free"] 1
    let tiers ← t.required "tiers"
    let free ← t.defaulted "free" []
    (ofTiers tiers free).toOption

end Catalog
end Subscription
