/-! # The first repetition in a list -/

namespace Subscription

/-- The first member of a list that is also in `seen` or earlier in the list. -/
def firstRepeated {α : Type} [DecidableEq α] : (seen xs : List α) → Option α
  | _, [] => none
  | seen, x :: rest => if x ∈ seen then some x else firstRepeated (x :: seen) rest

theorem firstRepeated_eq_none_iff {α : Type} [DecidableEq α] {seen xs : List α} :
    firstRepeated seen xs = none ↔ xs.Nodup ∧ ∀ x ∈ xs, x ∉ seen := by
  induction xs generalizing seen with
  | nil => simp [firstRepeated]
  | cons x rest ih =>
    rw [firstRepeated]
    split
    · rename_i hx
      simp [hx]
    · rename_i hx
      rw [ih, List.nodup_cons]
      constructor
      · rintro ⟨hnd, hrest⟩
        refine ⟨⟨fun hm => hrest x hm (List.mem_cons_self ..), hnd⟩, ?_⟩
        intro y hy
        rcases List.mem_cons.mp hy with rfl | hy
        · exact hx
        · exact fun hs => hrest y hy (List.mem_cons_of_mem _ hs)
      · rintro ⟨⟨hxr, hnd⟩, hall⟩
        refine ⟨hnd, fun y hy hs => ?_⟩
        rcases List.mem_cons.mp hs with rfl | hs
        · exact hxr hy
        · exact hall y (List.mem_cons_of_mem _ hy) hs

end Subscription
