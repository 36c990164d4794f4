import CTree.Decimal.Layout

/-!
# JSON documents

Values whose objects keep the order of their fields, and their two texts: compact, and indented by
two spaces. A double that is not finite is written as `null`.
-/

namespace CTree

/-- A JSON value. -/
inductive Json
  | null
  | bool (value : Bool)
  | int (value : Int)
  | real (value : Binary64)
  | str (value : String)
  | arr (elements : List Json)
  | obj (fields : List (String × Json))

namespace Json

/-- A natural number as a value. -/
def nat (n : Nat) : Json :=
  .int n

/-- The last two hexadecimal digits of a number. -/
def hexPair (n : Nat) : List Char :=
  [Nat.digitChar (n / 16 % 16), Nat.digitChar (n % 16)]

/-- A character as it stands between quotes. -/
def escape (c : Char) : List Char :=
  if c = '"' then ['\\', '"']
  else if c = '\\' then ['\\', '\\']
  else if c = '\x08' then ['\\', 'b']
  else if c = '\x0c' then ['\\', 'f']
  else if c = '\n' then ['\\', 'n']
  else if c = '\r' then ['\\', 'r']
  else if c = '\t' then ['\\', 't']
  else if c.toNat < 0x20 then ['\\', 'u', '0', '0'] ++ hexPair c.toNat
  else [c]

/-- A text in quotes. -/
def quote (s : String) : String :=
  "\"" ++ String.ofList (s.toList.flatMap escape) ++ "\""

/-- The text of a double. -/
def writeReal (x : Binary64) : String :=
  if x.isFinite then Layout.json.write x else "null"

/-- The marks between the parts of a list or an object. -/
structure Style where
  /-- What stands before each part at the given nesting. -/
  lead : Nat → String
  /-- What stands between the name of a field and its value. -/
  colon : String

/-- No blanks at all. -/
def Style.compact : Style :=
  ⟨fun _ => "", ":"⟩

/-- Each part on a line of its own, indented by two spaces for each nesting. -/
def Style.pretty : Style :=
  ⟨fun depth => "\n" ++ String.ofList (List.replicate (2 * depth) ' '), ": "⟩

/-- The parts of a list or an object between its brackets, at the nesting of the brackets. -/
def Style.enclose (style : Style) (depth : Nat) (opening closing : String) :
    List String → String
  | [] => opening ++ closing
  | parts =>
    opening ++ String.intercalate "," (parts.map (style.lead (depth + 1) ++ ·)) ++
      style.lead depth ++ closing

/-- The text of a value inside the given number of brackets. -/
def write (style : Style) (depth : Nat) : Json → String
  | .null => "null"
  | .bool b => if b then "true" else "false"
  | .int n => toString n
  | .real x => writeReal x
  | .str s => quote s
  | .arr elements =>
    style.enclose depth "[" "]" (elements.map fun e => write style (depth + 1) e)
  | .obj fields =>
    style.enclose depth "\x7b" "\x7d"
      (fields.map fun f => quote f.1 ++ style.colon ++ write style (depth + 1) f.2)
termination_by document => document
decreasing_by
  · have := List.sizeOf_lt_of_mem ‹e ∈ elements›
    simp
    omega
  · have := List.sizeOf_lt_of_mem ‹f ∈ fields›
    cases f
    simp at *
    omega

/-- The text of a document: indented, or in one line. -/
def text (pretty : Bool) (document : Json) : String :=
  write (if pretty then .pretty else .compact) 0 document

end Json

end CTree
