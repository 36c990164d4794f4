import CTree.Cursor.Basic

/-!
# Scripts for a cursor

Single steps of a cursor as data, so that any sequence of them can be run and talked about.
-/

namespace CTree

/-- A step of a cursor. Marks are remembered under names. -/
inductive CursorStep
  | peek (n : Nat)
  | previous
  | advance
  | mark (name : String)
  | reset (name : String)
  | rewind (position : Nat)
  | enter
  | exit
  | register (name : String)
  | isKnown (name : String)
  | types
  | isKind (kind : TokenKind)
  | size
  deriving DecidableEq, Repr

/-- What a step tells. -/
inductive CursorAnswer
  | nothing
  | token (t : Token)
  | number (n : Nat)
  | entered
  | refused (f : Failure)
  | truth (b : Bool)
  | names (names : List String)
  deriving DecidableEq, Repr

/-- A cursor and the indices marked so far, the latest first. -/
structure CursorRun where
  cursor : Cursor := {}
  marks : List (String × Nat) := []
  deriving DecidableEq, Repr

namespace CursorRun

/-- Runs one step, with at most `limit` open constructs. -/
def step (ts : TokenStream) (limit : Nat) (r : CursorRun) : CursorStep → CursorAnswer × CursorRun
  | .peek n => (.token (r.cursor.ahead ts n), r)
  | .previous => (((r.cursor.previous? ts).map .token).getD .nothing, r)
  | .advance => (.token (r.cursor.current ts), { r with cursor := r.cursor.advance ts })
  | .mark name =>
    (.number r.cursor.position, { r with marks := (name, r.cursor.position) :: r.marks })
  | .reset name =>
    match r.marks.lookup name with
    | some mark => (.nothing, { r with cursor := r.cursor.reset mark })
    | none => (.nothing, r)
  | .rewind position => (.nothing, { r with cursor := r.cursor.rewind position })
  | .enter =>
    match r.cursor.enter ts limit with
    | .ok c => (.entered, { r with cursor := c })
    | .error f => (.refused f, r)
  | .exit => (.nothing, { r with cursor := r.cursor.exit })
  | .register name => (.nothing, { r with cursor := r.cursor.register name })
  | .isKnown name => (.truth (r.cursor.known.contains name), r)
  | .types => (.names r.cursor.known.sorted, r)
  | .isKind kind => (.truth ((r.cursor.current ts).kind == kind), r)
  | .size => (.number ts.size, r)

/-- Runs steps in order; the answers, each with the cursor after its step. -/
def steps (ts : TokenStream) (limit : Nat) : CursorRun → List CursorStep →
    List (CursorAnswer × Cursor)
  | _, [] => []
  | r, s :: ss =>
    let (answer, r) := r.step ts limit s
    (answer, r.cursor) :: steps ts limit r ss

end CursorRun

end CTree
