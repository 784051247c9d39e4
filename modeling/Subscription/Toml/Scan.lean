/-! # Reading text from the front

A `Scan` reads a value from the front of a text and leaves the rest, or fails.
This module has the characters and blanks of TOML and its strings and integers.
-/

namespace Subscription
namespace Toml

/-- A reader of a value from the front of a text. -/
abbrev Scan := StateT (List Char) Option

/-- The next character, left in place. -/
def peek : Scan (Option Char) := return (← get).head?

def next : Scan Char := do
  match ← get with
  | c :: rest =>
    set rest
    return c
  | [] => failure

/-- Takes the given characters if they come next. -/
def eat (expected : List Char) : Scan Bool := do
  let text ← get
  if expected.isPrefixOf text then
    set (text.drop expected.length)
    return true
  else return false

def expect (expected : List Char) : Scan Unit := do
  guard (← eat expected)

/-- The longest run of characters of a class. -/
def run (p : Char → Bool) : Scan (List Char) :=
  modifyGet fun text => (text.takeWhile p, text.dropWhile p)

/-! ## Blanks, line ends and comments -/

def isBlank (c : Char) : Bool := c = ' ' || c = '\t'

/-- A control character other than the tab stands in no comment and no string. -/
def isControl (c : Char) : Bool := (c.toNat < 0x20 && c ≠ '\t') || c.toNat = 0x7f

def blanks : Scan Unit := discard (run isBlank)

/-- A line ends with a line feed, before which a carriage return may stand. -/
def newline : Scan Bool := do
  if ← eat ['\n'] then return true else eat ['\r', '\n']

def comment : Scan Unit := do
  if ← eat ['#'] then discard (run fun c => !isControl c)

/-- The end of a line that holds nothing more than a comment. -/
def lineEnd : Scan Unit := do
  blanks
  comment
  unless ← newline do guard (← get).isEmpty

/-- Blanks, comments and line ends, of at most `lines` lines. -/
def gapWithin : (lines : Nat) → Scan Unit
  | 0 => pure ()
  | lines + 1 => do
    blanks
    comment
    if ← newline then gapWithin lines

def gap : Scan Unit := do gapWithin ((← get).length + 1)

/-! ## Strings -/

/-- Puts pieces together until one of them closes the string. -/
def pieces (piece : Scan (List Char × Bool)) : (bound : Nat) → Scan (List Char)
  | 0 => failure
  | bound + 1 => do
    let (text, closes) ← piece
    if closes then return text else return text ++ (← pieces piece bound)

def string (piece : Scan (List Char × Bool)) : Scan String := do
  return String.ofList (← pieces piece ((← get).length + 1))

/-- The value of a digit in a base up to sixteen. -/
def digit? (base : Nat) (c : Char) : Option Nat := do
  let d ←
    if '0' ≤ c ∧ c ≤ '9' then some (c.toNat - '0'.toNat)
    else if 'a' ≤ c ∧ c ≤ 'f' then some (c.toNat - 'a'.toNat + 10)
    else if 'A' ≤ c ∧ c ≤ 'F' then some (c.toNat - 'A'.toNat + 10)
    else none
  if d < base then some d else none

/-- The character whose code is written in the given number of hexadecimal digits. -/
def codePoint (width : Nat) : Scan Char := do
  let text ← get
  let digits ← ((text.take width).mapM (digit? 16) : Option (List Nat))
  guard (digits.length = width)
  let code := digits.foldl (fun n d => 16 * n + d) 0
  guard code.isValidChar
  set (text.drop width)
  return Char.ofNat code

/-- What stands after a backslash for one character. -/
def escape : Scan Char := do
  match ← next with
  | 'b' => return '\x08'
  | 't' => return '\t'
  | 'n' => return '\n'
  | 'f' => return '\x0c'
  | 'r' => return '\r'
  | '"' => return '"'
  | '\\' => return '\\'
  | 'u' => codePoint 4
  | 'U' => codePoint 8
  | _ => failure

/-- A piece of a one-line string with escapes. -/
def basicPiece : Scan (List Char × Bool) := do
  match ← next with
  | '"' => return ([], true)
  | '\\' => return ([← escape], false)
  | c =>
    guard !isControl c
    return ([c], false)

/-- A piece of a one-line string without escapes. -/
def literalPiece : Scan (List Char × Bool) := do
  match ← next with
  | '\'' => return ([], true)
  | c =>
    guard !isControl c
    return ([c], false)

/-- Quotes inside a string of several lines: three of them close it, and up to
two more stand before those. -/
def quotes (quote : Char) : Scan (Option (List Char × Bool)) := do
  let text ← get
  let n := min 5 (text.takeWhile (· = quote)).length
  set (text.drop n)
  if n = 0 then return none
  else if n < 3 then return some (List.replicate n quote, false)
  else return some (List.replicate (n - 3) quote, true)

/-- Blanks and line ends, of at most `lines` lines. -/
def blankLinesWithin : (lines : Nat) → Scan Unit
  | 0 => pure ()
  | lines + 1 => do
    blanks
    if ← newline then blankLinesWithin lines

/-- A backslash at the end of a line takes away all blanks and line ends up to
the next text. -/
def lineContinuation : Scan Unit := do
  blanks
  guard (← newline)
  blankLinesWithin ((← get).length + 1)

/-- A piece of a string of several lines with escapes. -/
def multilineBasicPiece : Scan (List Char × Bool) := do
  if let some piece ← quotes '"' then return piece
  if ← newline then return (['\n'], false)
  match ← next with
  | '\\' =>
    match ← peek with
    | some c =>
      if isBlank c || c = '\n' || c = '\r' then
        lineContinuation
        return ([], false)
      else return ([← escape], false)
    | none => failure
  | c =>
    guard !isControl c
    return ([c], false)

/-- A piece of a string of several lines without escapes. -/
def multilineLiteralPiece : Scan (List Char × Bool) := do
  if let some piece ← quotes '\'' then return piece
  if ← newline then return (['\n'], false)
  let c ← next
  guard !isControl c
  return ([c], false)

/-- A one-line string in either kind of quotes. -/
def lineString : Scan String := do
  if ← eat ['"'] then string basicPiece
  else
    expect ['\'']
    string literalPiece

/-- A string of any kind.  A line end right after three opening quotes is dropped. -/
def anyString : Scan String := do
  if ← eat ['"', '"', '"'] then
    discard newline
    string multilineBasicPiece
  else if ← eat ['\'', '\'', '\''] then
    discard newline
    string multilineLiteralPiece
  else lineString

/-! ## Integers -/

/-- Digits of a base, with single underscores between digits. -/
def digits (base : Nat) : Scan (List Nat) := do
  let text ← run fun c => c = '_' || (digit? base c).isSome
  let groups := text.splitOn '_'
  guard (groups.all (!·.isEmpty))
  (groups.flatten.mapM (digit? base) : Option (List Nat))

def natural (base : Nat) : Scan Nat := do
  return (← digits base).foldl (fun n d => base * n + d) 0

/-- A decimal number does not start with a zero unless it is zero. -/
def decimal : Scan Nat := do
  let ds ← digits 10
  guard (ds.head? ≠ some 0 || ds.length = 1)
  return ds.foldl (fun n d => 10 * n + d) 0

/-- A signed decimal number, or an unsigned one in base sixteen, eight or two. -/
def integer : Scan Int := do
  if ← eat ['0', 'x'] then return (← natural 16)
  if ← eat ['0', 'o'] then return (← natural 8)
  if ← eat ['0', 'b'] then return (← natural 2)
  if ← eat ['-'] then return -(← decimal)
  discard (eat ['+'])
  return (← decimal)

end Toml
end Subscription
