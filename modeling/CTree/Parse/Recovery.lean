import CTree.Parse.Basic

/-!
# Recovery

A failure inside one item, member or statement becomes a diagnostic, and the cursor moves to the
next boundary, so that one bad construct never hides the rest. The boundary is found by
`synchronize`: a `;` outside all braces and parentheses is taken, the `}` that closes the last
brace opened on the way is taken too, and a `}` that closes none is left to the enclosing body.
-/

namespace CTree

/-- The braces and parentheses opened since a skip began. -/
structure Nesting where
  braces : Nat := 0
  parens : Nat := 0
  deriving DecidableEq, Repr

/-- What a skip does at a token. -/
inductive SkipStep
  /-- Stop before the token. -/
  | stop
  /-- Take the token and stop. -/
  | takeAndStop
  /-- Take the token and go on. -/
  | take (inside : Nesting)
  deriving DecidableEq, Repr

/-- What a skip does at a token of the given kind. -/
def Nesting.step (n : Nesting) : TokenKind → SkipStep
  | .eof => .stop
  | .semicolon => if n.braces = 0 && n.parens = 0 then .takeAndStop else .take n
  | .lbrace => .take { n with braces := n.braces + 1 }
  | .rbrace =>
    match n.braces with
    | 0 => .stop
    | 1 => .takeAndStop
    | b + 1 => .take { n with braces := b }
  | .lparen => .take { n with parens := n.parens + 1 }
  | .rparen => .take { n with parens := n.parens - 1 }
  | _ => .take n

namespace Parse

variable {α : Type}

/-- Skips to a boundary within the given number of tokens; whether one was found. -/
def skipToBoundary : Nat → Nesting → Parse Bool
  | 0, _ => pure false
  | n + 1, inside => do
    match inside.step (← kind) with
    | .stop => return true
    | .takeAndStop =>
      skip
      return true
    | .take inside =>
      skip
      skipToBoundary n inside

/-- Skips to the next boundary of a statement or declaration. -/
def synchronize : Parse Unit := do
  let limit := (← settings).maxIterations
  unless ← skipToBoundary limit {} do
    report (← exhaustion limit .recovery)

/-- Reports a failure, goes back to the index at which the failed construct began, and skips to the
next boundary. -/
def recover (start : Nat) (f : Failure) : Parse Unit := do
  report f
  modify fun s => { s with cursor := s.cursor.rewind start }
  synchronize

/-- Runs a parser; if it fails, recovers from where the parser began. -/
def recovering (p : Parse α) : Parse (Option α) := fun source before =>
  match p source before with
  | (.ok a, after) => (.ok (some a), after)
  | (.error f, after) => (do recover before.cursor.position f; return none) source after

/-- Takes a token if none was taken since the given index. -/
def ensureProgress (start : Nat) : Parse Unit := do
  if (← position) == start && !(← atEnd) then skip

/-- Runs a parser, recovers if it fails, and sees to it that a token is taken. -/
def attempt (p : Parse α) : Parse (Option α) := do
  let start ← position
  let result ← recovering p
  ensureProgress start
  return result

/-- Takes the current token with a diagnostic. -/
def skipToken (place : String) : Parse Unit := do
  let t ← peek
  report ⟨.unexpected ("Unexpected " ++ t.describe ++ " " ++ place), t.offset⟩
  skip

/-- Takes tokens up to the one that closes the group that was opened the given number of times, at
most the given number of tokens. -/
def skipGroup (opening closing : TokenKind) : Nat → Nat → Parse Unit
  | 0, _ => do throw (← exhaustion (← settings).maxIterations .balancedGroup)
  | n + 1, depth => do
    let k ← kind
    if k == .eof then expected closing.describe
    else
      skip
      if k == opening then skipGroup opening closing n (depth + 1)
      else if k == closing then
        if depth ≤ 1 then pure () else skipGroup opening closing n (depth - 1)
      else skipGroup opening closing n depth

/-- Takes a group that begins here, up to the token that closes it. -/
def skipBalanced (opening closing : TokenKind) : Parse Unit := do
  skipOver opening
  skipGroup opening closing (← settings).maxIterations 1

/-- Takes the current token, and the group in parentheses after it, if one comes next. -/
def skipWithGroup : Parse Unit := do
  skip
  if ← check .lparen then skipBalanced .lparen .rparen

/-- Takes the `}` of a body. If the source ends instead, that is reported, and what was read of
the body is kept. -/
def closeBrace (place : String) : Parse Unit := do
  unless ← accept .rbrace do
    let f ← expectation ("'\x7d' " ++ place)
    if ← atEnd then report f else throw f

end Parse

end CTree
