import CTree.Failure
import CTree.KnownTypes
import CTree.Token.Stream

/-!
# Cursors

The moving part of a parse: the index of the current token, the number of constructs that are
open, and the type names known so far. The stream stays where it is.
-/

namespace CTree

/-- A place in a token stream, and what is known there. -/
structure Cursor where
  position : Nat := 0
  depth : Nat := 0
  known : KnownTypes := {}
  deriving DecidableEq, Repr

namespace Cursor

/-- The token `n` places ahead. -/
def ahead (c : Cursor) (ts : TokenStream) (n : Nat) : Token :=
  ts.get (c.position + n)

/-- The current token. -/
def current (c : Cursor) (ts : TokenStream) : Token :=
  c.ahead ts 0

/-- The token before the current one. -/
def previous? (c : Cursor) (ts : TokenStream) : Option Token :=
  if c.position = 0 then none else some (ts.get (c.position - 1))

/-- Whether the current token is an `eof`. -/
def atEnd (c : Cursor) (ts : TokenStream) : Bool :=
  (c.current ts).kind == .eof

/-- Moves past the current token, but never past an `eof`. -/
def advance (c : Cursor) (ts : TokenStream) : Cursor :=
  if c.atEnd ts then c else { c with position := c.position + 1 }

/-- Moves to an index that was marked before. -/
def reset (c : Cursor) (mark : Nat) : Cursor :=
  { c with position := mark }

/-- Moves back to an index; an index ahead changes nothing. -/
def rewind (c : Cursor) (position : Nat) : Cursor :=
  c.reset (min position c.position)

/-- Opens a construct, unless the given number of them is open already. -/
def enter (c : Cursor) (ts : TokenStream) (limit : Nat) : Except Failure Cursor :=
  if limit ≤ c.depth then .error ⟨.tooDeep limit, (c.current ts).offset⟩
  else .ok { c with depth := c.depth + 1 }

/-- Closes a construct. -/
def exit (c : Cursor) : Cursor :=
  { c with depth := c.depth - 1 }

/-- Makes a type name known. -/
def register (c : Cursor) (name : String) : Cursor :=
  { c with known := c.known.insert name }

end Cursor

end CTree
