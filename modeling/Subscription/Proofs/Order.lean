import Mathlib.Order.Bounds.Basic
import Mathlib.Order.MinMax
import Subscription.Setting.Basic

/-! # Tiers, seconds and rules in order

Tiers and seconds are ordered by their number and the rules of the extend policy by
how far they have moved; all three orders are linear.  The running minimum of a list is
its least element together with the start (`isLeast_foldl_min`), and the running
maximum its greatest (`isGreatest_foldl_max`).  A date and an amount that is not negative
compare with any date as their exact sum and difference do (`Seconds.le_add_iff`,
`Seconds.sub_le_iff`).
-/
namespace Subscription

namespace TierOrder

/-- The order of tiers is scoped, as it is one of plain numbers. -/
scoped instance instLinearOrderTier : LinearOrder UInt32 where
  le_refl := UInt32.le_refl
  le_trans _ _ _ := UInt32.le_trans
  lt_iff_le_not_ge := Std.LawfulOrderLT.lt_iff
  le_antisymm _ _ := UInt32.le_antisymm
  le_total := UInt32.le_total
  toDecidableLE := inferInstance
  toDecidableLT := inferInstance
  toDecidableEq := inferInstance

end TierOrder

instance : LinearOrder Seconds where
  le_refl a := Int.le_refl a.val
  le_trans _ _ _ h h' := Int.le_trans h h'
  lt_iff_le_not_ge _ _ := Int.lt_iff_le_and_not_ge
  le_antisymm _ _ h h' := Seconds.ext (Int.le_antisymm h h')
  le_total a b := Int.le_total a.val b.val
  toDecidableLE := inferInstance
  toDecidableLT := inferInstance
  toDecidableEq := inferInstance

instance : LinearOrder ExtendRule where
  le_refl a := Nat.le_refl a.rank
  le_trans _ _ _ h h' := Nat.le_trans h h'
  lt_iff_le_not_ge _ _ := Nat.lt_iff_le_and_not_ge
  le_antisymm a b h h' := by
    have hrank : a.rank = b.rank := Nat.le_antisymm h h'
    cases a <;> cases b <;> first | rfl | cases hrank
  le_total a b := Nat.le_total a.rank b.rank
  toDecidableLE := inferInstance
  toDecidableLT := inferInstance
  toDecidableEq := inferInstance

namespace Seconds
variable {a b c t : Seconds}

theorem le_unbounded (s : Seconds) : s ≤ unbounded := s.upper

/-! ## Where saturation does not show -/

/-- No date is after the last one, so a sum that stops there is passed by none. -/
theorem add_lt_iff (hb : 0 ≤ b) : a + b < t ↔ a.val + b.val < t.val := by
  have hzero : (0 : Seconds).val = 0 := rfl
  have hlower := a.lower
  have hupper := t.upper
  rw [le_def, hzero] at hb
  rw [lt_def, val_add]
  omega

theorem le_add_iff (hb : 0 ≤ b) : t ≤ a + b ↔ t.val ≤ a.val + b.val := by
  rw [← not_lt, add_lt_iff hb, Int.not_lt]

/-- No date is before the first one, so none is missed by a difference that stops there. -/
theorem sub_le_iff (hb : 0 ≤ b) : a - b ≤ t ↔ a.val - b.val ≤ t.val := by
  have hzero : (0 : Seconds).val = 0 := rfl
  have hupper := a.upper
  have hlower := t.lower
  rw [le_def, hzero] at hb
  rw [le_def, val_sub]
  omega

theorem add_le_add_of_le (h : b ≤ c) : a + b ≤ a + c := by
  rw [le_def] at h ⊢
  simp only [val_add]
  omega

end Seconds

/-! ## Running minima and maxima -/

section Folds
variable {α : Type} [LinearOrder α]

theorem isLeast_foldl_min (xs : List α) (a : α) :
    IsLeast {x | x = a ∨ x ∈ xs} (xs.foldl min a) := by
  induction xs generalizing a with
  | nil => exact ⟨Or.inl rfl, fun x hx => (hx.resolve_right List.not_mem_nil).ge⟩
  | cons y xs ih =>
    obtain ⟨hmem, hle⟩ := ih (min a y)
    refine ⟨?_, fun x hx => ?_⟩
    · rcases hmem with h | h
      · rcases min_choice a y with hm | hm
        · exact Or.inl (h.trans hm)
        · exact Or.inr (List.mem_cons.mpr (Or.inl (h.trans hm)))
      · exact Or.inr (List.mem_cons_of_mem _ h)
    · have hstart : (y :: xs).foldl min a ≤ min a y := hle (Or.inl rfl)
      rcases hx with rfl | hx
      · exact hstart.trans (min_le_left _ _)
      · rcases List.mem_cons.mp hx with rfl | hx
        · exact hstart.trans (min_le_right _ _)
        · exact hle (Or.inr hx)

theorem isGreatest_foldl_max (xs : List α) (a : α) :
    IsGreatest {x | x = a ∨ x ∈ xs} (xs.foldl max a) :=
  isLeast_foldl_min (α := αᵒᵈ) xs a

end Folds
end Subscription
