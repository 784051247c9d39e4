import Subscription.Value

/-! # Trees of TOML tables

Headers and entries are applied one after the other to a tree of tables.  A
table remembers how it came about, because that decides what may still be added:

* a table opened by a header is not opened again, and no dotted key enters it
  from outside;
* a table that a longer header passed through may still be opened, once;
* a table that dotted keys made is extended by dotted keys only.

A value, and with it an inline table, is closed once written.
-/

namespace Subscription
namespace Toml

/-- A dotted key: the tables it passes through, and the name it ends in. -/
structure Key where
  path : List String
  last : String
deriving DecidableEq, Inhabited

/-- How a table came about. -/
inductive Origin where
  | header
  | implied
  | dotted
deriving DecidableEq

/-- What a name in a table stands for. -/
inductive Node where
  | leaf (v : Value)
  | table (origin : Origin) (children : Table Node)
  /-- An array of tables; the newest is the one that statements extend. -/
  | tables (newest : Node) (older : List Node)

namespace Node

/-- The value of a node. -/
def toValue : Node → Value
  | leaf v => v
  | table _ ⟨entries⟩ => .object ⟨entriesToValues entries⟩
  | tables newest older => .array (listToValues older ++ [toValue newest])
where
  /-- The values of a table's entries. -/
  entriesToValues : List (String × Node) → List (String × Value)
    | [] => []
    | (name, node) :: rest => (name, node.toValue) :: entriesToValues rest
  /-- The values of a list of nodes, which stands newest first. -/
  listToValues : List Node → List Value
    | [] => []
    | node :: rest => listToValues rest ++ [node.toValue]

/-- Changes the table at the end of a path, making the tables that are missing
on the way.  A path of dotted names does not enter a table with a header. -/
def alterAt (make : Origin) (f : Node → Option Node) : List String → Node → Option Node
  | [], node => f node
  | name :: path, table origin children => do
    let child ← match children.get? name with
      | none => alterAt make f path (table make {})
      | some (leaf _) => none
      | some (tables newest older) =>
        (alterAt make f path newest).map fun n => tables n older
      | some (table .header grandchildren) =>
        if make = .dotted then none else alterAt make f path (table .header grandchildren)
      | some node => alterAt make f path node
    return table origin (children.insert name child)
  | _ :: _, _ => none

/-- Writes a value in a table; `inner` says whether dotted names led here. -/
def put (inner : Bool) (name : String) (v : Value) : Node → Option Node
  | table origin children =>
    if (origin = .dotted) = inner ∧ !children.contains name then
      some (table origin (children.insert name (leaf v)))
    else none
  | _ => none

/-- Writes a value under a dotted key. -/
def enter (key : Key) (v : Value) (node : Node) : Option Node :=
  node.alterAt .dotted (put (!key.path.isEmpty) key.last v) key.path

/-- Opens a table under a name, unless something else than a table that headers
passed through is there. -/
def openTable (name : String) : Node → Option Node
  | table origin children =>
    match children.get? name with
    | none => some (table origin (children.insert name (table .header {})))
    | some (table .implied grandchildren) =>
      some (table origin (children.insert name (table .header grandchildren)))
    | _ => none
  | _ => none

/-- Adds a table to the array under a name. -/
def addElement (name : String) : Node → Option Node
  | table origin children =>
    match children.get? name with
    | none => some (table origin (children.insert name (tables (table .header {}) [])))
    | some (tables newest older) =>
      some (table origin (children.insert name (tables (table .header {}) (newest :: older))))
    | _ => none
  | _ => none

end Node

/-- The value of an inline table with the given entries. -/
def inlineTable (entries : List (Key × Value)) : Option Value :=
  (entries.foldlM (fun (node : Node) e => node.enter e.1 e.2) (.table .header {})).map Node.toValue

end Toml
end Subscription
