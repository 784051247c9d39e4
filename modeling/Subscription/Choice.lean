import Subscription.Named

/-! # Choices of members of a closed set -/

namespace Subscription

/-- Which members are chosen. -/
abbrev Choice (α : Type) := α → Bool

namespace Choice

variable {α : Type} [DecidableEq α]

def ofList (members : List α) : Choice α := fun a => members.contains a

def insert (s : Choice α) (a : α) : Choice α := fun b => b = a || s b

/-- The chosen members in the order of the set. -/
def toList {α : Type} [Named α] (s : Choice α) : List α := Named.all.filter s

theorem insert_apply (s : Choice α) (a b : α) : s.insert a b = (decide (b = a) || s b) := rfl

theorem insert_insert (s : Choice α) (a : α) : (s.insert a).insert a = s.insert a := by
  funext b
  simp only [insert_apply]
  cases decide (b = a) <;> rfl

end Choice
end Subscription
