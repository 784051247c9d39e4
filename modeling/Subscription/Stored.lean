import Subscription.Named
import Subscription.Seconds
import Subscription.Value

/-! # Reading and writing stored values

`Stored` gives a type its stored form.  Reading is exact: a number is read only
if it is an integer within the range of its type, and nothing is converted.
A structure is read from an object, in which none of its fields is written
twice, or from an array that lists them in order (`Value.struct?`).  A field
without a default must be there, and one of an optional type may be missing or
null.  Values of which only the shape matters are reread (`Value.reread`).
-/

namespace Subscription

/-- A type with a stored form. -/
class Stored (α : Type) where
  encode : α → Value
  decode? : Value → Option α

open Stored

instance : Stored Bool where
  encode := .bool
  decode?
    | .bool b => some b
    | _ => none

instance : Stored String where
  encode := .string
  decode? := Value.string?

instance : Stored UInt32 where
  encode n := .int n.toNat
  decode?
    | .int n => if 0 ≤ n ∧ n.toNat < UInt32.size then some (UInt32.ofNat n.toNat) else none
    | _ => none

instance : Stored UInt64 where
  encode n := .int n.toNat
  decode?
    | .int n => if 0 ≤ n ∧ n.toNat < UInt64.size then some (UInt64.ofNat n.toNat) else none
    | _ => none

instance : Stored Seconds where
  encode s := .int s.val
  decode?
    | .int n => Seconds.ofInt? n
    | _ => none

/-- Any object, its fields unread. -/
instance [Medium] : Stored Fields where
  encode := .object
  decode? v := v.fields?.bind Value.readFields?

instance {α : Type} [Stored α] : Stored (List α) where
  encode xs := .array (xs.map encode)
  decode?
    | .array items => items.mapM decode?
    | _ => none

/-- Null stands for no value. -/
instance {α : Type} [Stored α] : Stored (Option α) where
  encode
    | some a => encode a
    | none => .null
  decode?
    | .null => some none
    | v => (decode? v).map some

/-- An object whose fields are all of one type; of those of one name the last counts. -/
instance (priority := low) {α : Type} [Stored α] : Stored (Table α) where
  encode t := .object (t.map encode)
  decode?
    | .object fields => fields.readEach decode?
    | _ => none

namespace Named

variable {α : Type} [Named α]

def encode (a : α) : Value := .string (name a)

/-- A member is read from its name, or from an object whose one field has that
name and holds null. -/
def decode? : Value → Option α
  | .string s => ofName? s
  | .object ⟨[(s, .null)]⟩ => ofName? s
  | _ => none

end Named

namespace Value

/-- The fields of a structure, which are named `names` in this order.  An object
may have others besides, but none of these twice.  An array holds them in
order; it may stop before a field that has a default, but not among the first
`least`. -/
def struct? (names : List String) (least : Nat) : Value → Option Fields
  | object fields => if (fields.names.filter names.contains).Nodup then some fields else none
  | array items =>
    if least ≤ items.length ∧ items.length ≤ names.length then some ⟨names.zip items⟩ else none
  | _ => none

/-- The fields of one case of several, which not every medium reads from an array. -/
def case? [Medium] (names : List String) (least : Nat) : Value → Option Fields
  | array items => if Medium.listsCases then (array items).struct? names least else none
  | v => v.struct? names least

/-- The fields of a structure that lets no others in. -/
def closedStruct? (names : List String) (least : Nat) (v : Value) : Option Fields :=
  (v.struct? names least).filter fun fields => fields.names.all names.contains

end Value

namespace Table

/-- A field that has to be there. -/
def required {α : Type} [Stored α] (t : Fields) (name : String) : Option α :=
  (t.get? name).bind decode?

/-- A field that takes `default` when it is missing. -/
def defaulted {α : Type} [Stored α] (t : Fields) (name : String) (default : α) : Option α :=
  match t.get? name with
  | none => some default
  | some v => decode? v

/-- A field that may be missing or null. -/
def optional {α : Type} [Stored α] (t : Fields) (name : String) : Option (Option α) :=
  t.defaulted name none

end Table
end Subscription
