import Subscription.Toml.Scan
import Subscription.Toml.Tree

/-! # The statements of a TOML text

A TOML text is a sequence of statements: a header that opens a table, a header
that adds a table to an array, or a key with a value.  The values here are
strings, integers, booleans, arrays and inline tables.  Numbers with fractions
and dates have no use in a catalog document and are refused as they stand.
`parse` reads the statements and applies them to a tree.
-/

namespace Subscription
namespace Toml

inductive Statement where
  /-- A header, as in `[key]`. -/
  | table (key : Key)
  /-- A header of an array's table, as in `[[key]]`. -/
  | element (key : Key)
  /-- A key and its value, as in `key = value`. -/
  | entry (key : Key) (value : Value)
deriving Inhabited

/-- One part of a key: bare, or a one-line string. -/
def keyPart : Scan String := do
  match ← peek with
  | some '"' => lineString
  | some '\'' => lineString
  | _ =>
    let name ← run fun c => c.isAlphanum || c = '_' || c = '-'
    guard !name.isEmpty
    return String.ofList name

/-- A key of at most the given number of parts, with blanks around each part. -/
def keyWithin : (parts : Nat) → Scan Key
  | 0 => failure
  | parts + 1 => do
    blanks
    let name ← keyPart
    blanks
    if ← eat ['.'] then
      let key ← keyWithin parts
      return { key with path := name :: key.path }
    else return ⟨[], name⟩

def key : Scan Key := do keyWithin ((← get).length + 1)

mutual

/-- A value nested at most as deep as `depth` allows. -/
def valueWithin : (depth : Nat) → Scan Value
  | 0 => failure
  | depth + 1 => do
    match ← peek with
    | some '"' => return .string (← anyString)
    | some '\'' => return .string (← anyString)
    | some '[' =>
      discard next
      gap
      return .array (← itemsWithin depth)
    | some '\x7b' =>
      discard next
      blanks
      if ← eat ['\x7d'] then inlineTable []
      else inlineTable (← entriesWithin depth)
    | some 't' =>
      expect ['t', 'r', 'u', 'e']
      return .bool true
    | some 'f' =>
      expect ['f', 'a', 'l', 's', 'e']
      return .bool false
    | _ =>
      let n ← integer
      guard (Int64.minValue.toInt ≤ n ∧ n ≤ Int64.maxValue.toInt)
      return .int n

/-- The items of an array up to its closing bracket; a comma may follow the last. -/
def itemsWithin : (depth : Nat) → Scan (List Value)
  | 0 => failure
  | depth + 1 => do
    if ← eat [']'] then return []
    let v ← valueWithin depth
    gap
    if ← eat [','] then
      gap
      return v :: (← itemsWithin depth)
    expect [']']
    return [v]

/-- The entries of an inline table up to its closing brace; no comma follows
the last. -/
def entriesWithin : (depth : Nat) → Scan (List (Key × Value))
  | 0 => failure
  | depth + 1 => do
    let k ← key
    expect ['=']
    blanks
    let v ← valueWithin depth
    blanks
    if ← eat [','] then return (k, v) :: (← entriesWithin depth)
    expect ['\x7d']
    return [(k, v)]

end

/-- A value.  Each level of nesting takes a character, so the text bounds the
depth. -/
def value : Scan Value := do
  valueWithin (2 * (← get).length + 2)

def statement : Scan Statement := do
  if ← eat ['[', '['] then
    let k ← key
    expect [']', ']']
    return .element k
  else if ← eat ['['] then
    let k ← key
    expect [']']
    return .table k
  else
    let k ← key
    expect ['=']
    blanks
    return .entry k (← value)

/-- Statements up to the end of the text, each on a line of its own. -/
def statementsWithin : (lines : Nat) → Scan (List Statement)
  | 0 => failure
  | lines + 1 => do
    gap
    if (← get).isEmpty then return []
    let s ← statement
    lineEnd
    return s :: (← statementsWithin lines)

/-- The statements of a text, which may start with a byte order mark. -/
def statements (text : String) : Option (List Statement) :=
  let chars := match text.toList with
    | '\uFEFF' :: rest => rest
    | chars => chars
  (statementsWithin (chars.length + 1)).run' chars

/-! ## The value of a text -/

/-- A tree, and the path of the table that the last header opened. -/
structure Position where
  root : Node
  path : List String

/-- Applies one statement. -/
def Position.step (p : Position) : Statement → Option Position
  | .table key =>
    (p.root.alterAt .implied (Node.openTable key.last) key.path).map
      (⟨·, key.path ++ [key.last]⟩)
  | .element key =>
    (p.root.alterAt .implied (Node.addElement key.last) key.path).map
      (⟨·, key.path ++ [key.last]⟩)
  | .entry key v =>
    (p.root.alterAt .implied (fun node => node.enter key v) p.path).map (⟨·, p.path⟩)

/-- The value that a text stands for. -/
def parse (text : String) : Option Value := do
  let statements ← statements text
  let p ← statements.foldlM Position.step ⟨.table .header {}, []⟩
  return p.root.toValue

end Toml
end Subscription
