import Subscription.Table

/-! # Untyped values

The common shape of stored fields and of catalog documents.  Integers are
exact.  Any other number is known by the numeral that is written for it and is
never taken for an integer.  A value that is read has two things settled
(`Value.reread`): its numerals are those that are written for what was read,
and no name occurs twice in an object.  What becomes of a numeral, and how deep
values may nest, is up to the medium (`Medium`).
-/

namespace Subscription

/-- What values are written to and read from. -/
class Medium where
  /-- The numbers that are no integers. -/
  Number : Type
  /-- The number that a numeral stands for, unless it is out of range. -/
  read? : String → Option Number
  write : Number → String
  /-- How deep an object that is read may nest, if there is a limit. -/
  depth? : Option Nat
  /-- Whether the fields of one case of several may stand in an array, as those of a structure
  may. -/
  listsCases : Bool

namespace Medium

/-- Values that are handed on as they are and never written out. -/
instance (priority := low) verbatim : Medium where
  Number := String
  read? := some
  write := id
  depth? := none
  listsCases := false

variable [Medium]

/-- The numeral that is written for what a numeral is read as. -/
def rewrite? (numeral : String) : Option String := (read? numeral).map write

/-- Whether objects that nest so deep are read. -/
def admits (nesting : Nat) : Bool := depth?.all fun depth => nesting ≤ depth

end Medium

/-- A value as stored, before any type is read into it. -/
inductive Value where
  | null
  | bool (b : Bool)
  /-- An integer of at most 64 bits, signed or unsigned. -/
  | int (n : Int)
  /-- A number with a fraction or an exponent, or with more bits than that. -/
  | real (numeral : String)
  | string (s : String)
  | array (items : List Value)
  | object (fields : Table Value)
deriving Inhabited

namespace Value

def isNull : Value → Bool
  | null => true
  | _ => false

/-- The fields of an object. -/
def fields? : Value → Option (Table Value)
  | object fields => some fields
  | _ => none

def string? : Value → Option String
  | string s => some s
  | _ => none

mutual

/-- How many arrays and objects stand around the innermost value, the outermost included. -/
def nesting : Value → Nat
  | array items => itemsNesting items + 1
  | object fields => fieldsNesting fields + 1
  | _ => 0

def itemsNesting : List Value → Nat
  | [] => 0
  | v :: vs => max v.nesting (itemsNesting vs)

def fieldsNesting : Table Value → Nat
  | ⟨entries⟩ => entriesNesting entries

def entriesNesting : List (String × Value) → Nat
  | [] => 0
  | (_, v) :: entries => max v.nesting (entriesNesting entries)

end

variable [Medium]

mutual

/-- The value as it is when it has been read: every numeral is rewritten, and of
the fields of one name in an object the last counts. -/
def reread : Value → Option Value
  | null => some null
  | bool b => some (bool b)
  | int n => some (int n)
  | real numeral => (Medium.rewrite? numeral).map real
  | string s => some (string s)
  | array items => (rereadItems items).map array
  | object fields => (rereadFields fields).map object

def rereadItems : List Value → Option (List Value)
  | [] => some []
  | v :: vs => do return (← v.reread) :: (← rereadItems vs)

def rereadFields : Table Value → Option (Table Value)
  | ⟨entries⟩ => (rereadEntries entries).map fun read => Table.lastEntries ⟨read⟩

def rereadEntries : List (String × Value) → Option (List (String × Value))
  | [] => some []
  | (name, v) :: entries => do return (name, ← v.reread) :: (← rereadEntries entries)

end

/-- The fields of an object as they are read. -/
def readFields? (fields : Table Value) : Option (Table Value) :=
  if Medium.admits (object fields).nesting then rereadFields fields else none

end Value

/-- Stored fields by name. -/
abbrev Fields := Table Value

end Subscription
