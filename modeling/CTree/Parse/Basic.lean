import CTree.Cursor.Basic
import CTree.Diagnostic
import CTree.Settings

/-!
# Parsers

A parser reads a source, which never changes, and moves a state: a cursor, a flag, and the
diagnostics so far. The state survives a failure, so whoever catches the failure decides what is
undone. `speculate` undoes everything but the type names learnt on the way, `nested` counts the
open constructs, and `leniently` and `strictly` set the flag for the duration of a parser.
-/

namespace CTree

/-- A text, cut into tokens, and how it is to be read. -/
structure Source where
  settings : Settings
  text : List Char
  stream : TokenStream

/-- What moves during a parse. -/
structure ParseState where
  cursor : Cursor := {}
  /-- Whether any name counts as the name of a type. -/
  lenient : Bool := false
  diagnostics : Array Diagnostic := #[]

/-- A computation on the state of a parse that may fail. -/
abbrev Parse (α : Type) : Type := ReaderT Source (ExceptT Failure (StateM ParseState)) α

/-- All that a decision can look at. The ceilings and the diagnostics are not part of it. -/
structure View where
  dialect : Dialect
  stream : TokenStream
  cursor : Cursor
  lenient : Bool

/-- What there is to see of a source in a state. -/
def Source.view (source : Source) (state : ParseState) : View :=
  ⟨source.settings.dialect, source.stream, state.cursor, state.lenient⟩

namespace View

/-- The token `n` places ahead. -/
def token (v : View) (n : Nat) : Token :=
  v.cursor.ahead v.stream n

/-- The kind of the token `n` places ahead. -/
def kind (v : View) (n : Nat) : TokenKind :=
  (v.token n).kind

/-- The number of tokens from the current one on. -/
def remaining (v : View) : Nat :=
  v.stream.size - v.cursor.position

/-- Whether the source is C++. -/
def isCpp (v : View) : Bool :=
  v.dialect == .cpp

/-- Whether a name is that of a type. -/
def isKnown (v : View) (name : String) : Bool :=
  v.cursor.known.contains name

end View

namespace ParseState

/-- The state with the cursor at the given index. -/
def atPosition (s : ParseState) (position : Nat) : ParseState :=
  { s with cursor := s.cursor.reset position }

/-- The state with one more diagnostic. -/
def record (s : ParseState) (d : Diagnostic) : ParseState :=
  { s with diagnostics := s.diagnostics.push d }

/-- The state after an attempt, back where it was before: only the type names are kept. -/
def backTo (s before : ParseState) : ParseState :=
  { s.atPosition before.cursor.position with
    diagnostics := s.diagnostics.take before.diagnostics.size }

end ParseState

namespace Parse

variable {α σ : Type}

/-- What comes of a parser: its value or its failure, and the state that it leaves. -/
def run (p : Parse α) (source : Source) (s : ParseState) : Except Failure α × ParseState :=
  p source s

/-! ### Looking -/

/-- What there is to see. -/
def view : Parse View :=
  return (← read).view (← get)

/-- The token `n` places ahead. -/
def peekAhead (n : Nat) : Parse Token :=
  return (← view).token n

/-- The current token. -/
def peek : Parse Token :=
  peekAhead 0

/-- The kind of the current token. -/
def kind : Parse TokenKind :=
  return (← peek).kind

/-- The kind of the token `n` places ahead. -/
def kindAhead (n : Nat) : Parse TokenKind :=
  return (← peekAhead n).kind

/-- Whether the current token has the given kind. -/
def check (k : TokenKind) : Parse Bool :=
  return (← kind) == k

/-- Whether the token `n` places ahead has the given kind. -/
def checkAhead (n : Nat) (k : TokenKind) : Parse Bool :=
  return (← kindAhead n) == k

/-- Whether no token is left. -/
def atEnd : Parse Bool :=
  check .eof

/-- The index of the current token. -/
def position : Parse Nat :=
  return (← get).cursor.position

/-- Whether the source is C++. -/
def isCpp : Parse Bool :=
  return (← view).isCpp

/-- Whether a name is that of a type. -/
def isKnown (name : String) : Parse Bool :=
  return (← view).isKnown name

/-- The settings of the parse. -/
def settings : Parse Settings :=
  return (← read).settings

/-- The answer to a question that looks no further ahead than the settings allow. -/
def lookAhead (question : Nat → View → α) : Parse α :=
  return question (← settings).maxLookahead (← view)

/-- The text of the tokens from the given index up to the current one. -/
def textSince (start : Nat) : Parse String :=
  return Token.join ((← read).stream.between start (← position))

/-! ### Failing and reporting -/

/-- The failure that something else had to stand at the current token. -/
def expectation (what : String) : Parse Failure := do
  let t ← peek
  return ⟨.expected what t.describe, t.offset⟩

/-- Fails because something else had to stand at the current token. -/
def expected (what : String) : Parse α := do
  throw (← expectation what)

/-- Fails because of what stands at the current token. -/
def unexpected (message : String) : Parse α := do
  throw ⟨.unexpected message, (← peek).offset⟩

/-- The failure that a loop reached its ceiling at the current token. -/
def exhaustion (limit : Nat) (loop : Loop) : Parse Failure :=
  return ⟨.tooMany limit loop, (← peek).offset⟩

/-- Turns a failure into a diagnostic, without moving. -/
def report (f : Failure) : Parse Unit := do
  let source ← read
  modify (·.record (Diagnostic.ofFailure source.text f))

/-! ### Moving -/

/-- Takes the current token. -/
def advance : Parse Token := do
  let t ← peek
  let source ← read
  modify fun s => { s with cursor := s.cursor.advance source.stream }
  return t

/-- Takes the current token and drops it. -/
def skip : Parse Unit := do
  let _ ← advance

/-- Takes the current token if it has the given kind. -/
def accept (k : TokenKind) : Parse Bool := do
  if ← check k then
    skip
    return true
  else return false

/-- A thing and the place that it has to stand in, as a failure names them. -/
def placed (what place : String) : String :=
  if place.isEmpty then what else what ++ " " ++ place

/-- Takes the current token, which has to have the given kind. -/
def require (k : TokenKind) (place : String := "") : Parse Token := do
  if ← check k then advance else expected (placed k.describe place)

/-- Takes the current token, which has to have the given kind, and drops it. -/
def skipOver (k : TokenKind) (place : String := "") : Parse Unit := do
  let _ ← require k place

/-- Takes a name. -/
def name (place : String := "") : Parse String :=
  return (← require .identifier place).text

/-- Takes a name if one stands here; the empty text otherwise. -/
def nameOrNone : Parse String := do
  if ← check .identifier then return (← advance).text else return ""

/-- Takes the token of the given kind and what follows it, if that token comes next. -/
def optionalAfter (k : TokenKind) (p : Parse α) : Parse (Option α) := do
  if ← accept k then some <$> p else return none

/-- Makes a type name known. -/
def register (name : String) : Parse Unit :=
  modify fun s => { s with cursor := s.cursor.register name }

/-! ### Combining -/

/-- Changes the state after a parser, whether or not it fails. -/
def andThen (f : ParseState → ParseState) (p : Parse α) : Parse α := fun source state =>
  let (result, state) := p source state
  (result, f state)

/-- Tries a parser. If it fails, the state goes back to where it was, type names apart. A ceiling
that was reached is a failure of the attempt as well. -/
def speculate (p : Parse α) : Parse (Option α) := fun source state =>
  match p source state with
  | (.ok a, after) => (.ok (some a), after)
  | (.error f, after) => (if f.isFatal then .error f else .ok none, after.backTo state)

/-- Runs a parser, then another one from where the first began, and goes on where the first
ended. -/
def rereading {β : Type} (first : Parse β) (second : Parse α) : Parse (β × α) := do
  let start ← position
  let b ← first
  let stop ← position
  modify (·.atPosition start)
  let a ← second
  modify (·.atPosition stop)
  return (b, a)

/-- Runs a parser inside one more open construct. -/
def nested (p : Parse α) : Parse α := do
  let source ← read
  let state ← get
  match state.cursor.enter source.stream source.settings.maxDepth with
  | .error f => throw f
  | .ok cursor =>
    set { state with cursor }
    andThen (fun s => { s with cursor := s.cursor.exit }) p

/-- Runs a parser with the flag set, and sets the flag back after it. -/
def withLeniency (lenient : Bool) (p : Parse α) : Parse α := do
  let before ← get
  set { before with lenient }
  andThen (fun s => { s with lenient := before.lenient }) p

/-- Runs a parser for which any name is the name of a type. -/
def leniently (p : Parse α) : Parse α :=
  withLeniency true p

/-- Runs a parser for which only known names are names of types. -/
def strictly (p : Parse α) : Parse α :=
  withLeniency false p

/-! ### Repeating -/

/-- Runs a step over and over, as long as it gives a new value, at most the given number of
times. -/
def iterateFor (step : σ → Parse (Option σ)) : Nat → σ → Parse σ
  | 0, a => pure a
  | n + 1, a => do
    match ← step a with
    | none => pure a
    | some b => iterateFor step n b

/-- Runs a step over and over, as long as it gives a new value. The step has to take a token
whenever it does so; more rounds than tokens are left can then not be needed. -/
def iterate (step : σ → Parse (Option σ)) (a : σ) : Parse σ := do
  iterateFor step ((← view).remaining + 1) a

/-- Collects what a parser gives as long as it gives something, at most the given number of
times. -/
def collectFor (next : Parse (Option α)) : Nat → Parse (List α)
  | 0 => pure []
  | n + 1 => do
    match ← next with
    | none => pure []
    | some a => return a :: (← collectFor next n)

/-- Collects what a parser gives as long as it gives something. The parser has to take a token
whenever it does so. -/
def collect (next : Parse (Option α)) : Parse (List α) := do
  collectFor next ((← view).remaining + 1)

/-- Collects what the rounds of a loop find. Each round starts from what the one before it left; the
round that gives nothing ends the loop. There are at most the given number of them. -/
def roundsFor (round : σ → Parse (Option (List α × σ))) : Nat → σ → Parse (List α)
  | 0, _ => pure []
  | n + 1, a => do
    match ← round a with
    | none => pure []
    | some (found, b) => return found ++ (← roundsFor round n b)

/-- Collects what the rounds of a loop find. A round has to take a token, unless it ends the loop. -/
def rounds (round : σ → Parse (Option (List α × σ))) (a : σ) : Parse (List α) := do
  roundsFor round ((← view).remaining + 1) a

/-- Things with commas between them, at most the given number of them. The first is read from a
given value, each other one from what is read right after its comma. -/
def chainFor (item : σ → Parse α) (next : Parse σ) : Nat → σ → Parse (List α)
  | 0, _ => pure []
  | n + 1, a => do
    let first ← item a
    if ← accept .comma then return first :: (← chainFor item next n (← next)) else return [first]

/-- Things with commas between them, each read from what stands before it. -/
def chain (item : σ → Parse α) (next : Parse σ) (a : σ) : Parse (List α) := do
  chainFor item next ((← view).remaining + 1) a

/-- One thing or several, with commas between them. -/
def separated (item : Parse α) : Parse (List α) :=
  chain (fun () => item) (pure ()) ()

/-- Things with commas between them, up to a token whose kind is in a class, at most the given
number of them. A comma may stand before that token. -/
def commaListFor (stop : TokenKind → Bool) (item : Parse α) : Nat → Parse (List α)
  | 0 => pure []
  | n + 1 => do
    if stop (← kind) then return []
    let first ← item
    if ← accept .comma then return first :: (← commaListFor stop item n) else return [first]

/-- Things with commas between them, up to a token whose kind is in a class. -/
def commaList (stop : TokenKind → Bool) (item : Parse α) : Parse (List α) := do
  commaListFor stop item ((← view).remaining + 1)

/-- Takes tokens as long as their kind is in a class. -/
def skipWhile (p : TokenKind → Bool) : Parse Unit :=
  iterate (fun _ => do
    if p (← kind) then
      skip
      return some ()
    else return none) ()

/-- Takes tokens as long as their kind is in a class, and adds their texts to a text. -/
def takeTexts (p : TokenKind → Bool) (text : String) : Parse String :=
  iterate (fun text => do
    if p (← kind) then return some (text ++ (← advance).text) else return none) text

end Parse

end CTree
