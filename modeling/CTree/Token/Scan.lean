import CTree.Token.Basic
import CTree.Token.Rule

/-!
# Cutting a text into tokens

`pieces` cuts a text into blanks, comments, lexemes, quoted literals and characters that fit
nothing, so that nothing is lost and every piece is at least one character. `tokenize` keeps the
tokens among them, with their positions, and reports what is wrong with the rest.
-/

namespace CTree

/-- What a piece of a source text is. -/
inductive PieceKind
  /-- One blank character. -/
  | blank
  /-- A comment, and whether its end was found. -/
  | comment (closed : Bool)
  /-- A lexeme of some rule. -/
  | lexeme (kind : TokenKind)
  /-- A string or character literal, and whether its closing quote was found. -/
  | quoted (kind : TokenKind) (closed : Bool)
  /-- A character that starts nothing. -/
  | unknown
  deriving DecidableEq, Repr

/-- A piece of a source text. -/
structure Piece where
  kind : PieceKind
  text : List Char
  deriving DecidableEq, Repr

/-- The characters of a quoted literal after its opening quote: how many there are, and whether
the closing quote is among them. A backslash takes the next character with it, and a line feed
that it does not take ends the literal. -/
def quotedTail (quote : Char) : List Char → Nat × Bool
  | [] => (0, false)
  | ['\\'] => (1, false)
  | '\\' :: _ :: cs =>
    let (n, closed) := quotedTail quote cs
    (n + 2, closed)
  | c :: cs =>
    if c = '\n' then (0, false)
    else if c = quote then (1, true)
    else
      let (n, closed) := quotedTail quote cs
      (n + 1, closed)

/-- The characters of a block comment after its opening: how many there are, and whether the end
of the comment is among them. -/
def commentTail : List Char → Nat × Bool
  | [] => (0, false)
  | '*' :: '/' :: _ => (2, true)
  | _ :: cs =>
    let (n, closed) := commentTail cs
    (n + 1, closed)

/-- What the text `c :: cs` starts with, and how many characters of `cs` belong to it. -/
def firstPiece (dialect : Dialect) (c : Char) (cs : List Char) : PieceKind × Nat :=
  if Text.isBlank c then (.blank, 0)
  else if c = '/' && cs.head? == some '/' then
    (.comment true, (cs.takeWhile (· != '\n')).length)
  else if c = '/' && cs.head? == some '*' then
    let (n, closed) := commentTail (cs.drop 1)
    (.comment closed, n + 1)
  else if c = '"' then
    let (n, closed) := quotedTail '"' cs
    (.quoted .stringLiteral closed, n)
  else if c = '\'' then
    let (n, closed) := quotedTail '\'' cs
    (.quoted .charLiteral closed, n)
  else
    match firstLexeme (c :: cs) (Rule.table dialect) with
    | some (kind, n) => (.lexeme kind, n)
    | none => (.unknown, 0)

/-- The pieces of a text, in order. -/
def pieces (dialect : Dialect) : List Char → List Piece
  | [] => []
  | c :: cs =>
    let (kind, n) := firstPiece dialect c cs
    ⟨kind, c :: cs.take n⟩ :: pieces dialect (cs.drop n)
termination_by cs => cs.length

/-- What can be wrong with a piece of a text. -/
inductive LexFault
  | unknownCharacter (c : Char)
  | unterminatedString
  | unterminatedCharacter
  | unterminatedComment
  deriving DecidableEq, Repr

/-- The wording of a fault. -/
def LexFault.message : LexFault → String
  | .unknownCharacter c => "Unknown character: '" ++ c.toString ++ "'"
  | .unterminatedString => "Unterminated string literal"
  | .unterminatedCharacter => "Unterminated character literal"
  | .unterminatedComment => "Unterminated block comment"

/-- A fault and the position at which its piece starts. -/
structure LexError where
  fault : LexFault
  offset : Nat
  deriving DecidableEq, Repr

/-- A message with the position that it is about. -/
def LexError.line (message : String) (offset : Nat) : String :=
  message ++ " at offset " ++ toString offset

namespace Piece

/-- The kind of the token that a piece is, if it is one. -/
def tokenKind? (p : Piece) : Option TokenKind :=
  match p.kind with
  | .lexeme kind | .quoted kind _ => some kind
  | _ => none

/-- What is wrong with a piece, if anything is. -/
def fault? (p : Piece) : Option LexFault :=
  match p.kind, p.text with
  | .comment false, _ => some .unterminatedComment
  | .quoted .charLiteral false, _ => some .unterminatedCharacter
  | .quoted _ false, _ => some .unterminatedString
  | .unknown, c :: _ => some (.unknownCharacter c)
  | _, _ => none

/-- The token that a piece at a position is, if it is one. -/
def token? (offset : Nat) (p : Piece) : Option Token :=
  p.tokenKind?.map fun kind => ⟨kind, String.ofList p.text, offset⟩

/-- The error of a piece at a position, if it has one. -/
def error? (offset : Nat) (p : Piece) : Option LexError :=
  p.fault?.map fun fault => ⟨fault, offset⟩

/-- Pieces with their positions, the first piece at the given one. -/
def locate : Nat → List Piece → List (Nat × Piece)
  | _, [] => []
  | offset, p :: ps => (offset, p) :: locate (offset + Text.byteLength p.text) ps

end Piece

/-- The tokens of a text, `eof` at the end of them, and what is wrong with the text. -/
structure Tokenized where
  tokens : List Token
  errors : List LexError
  deriving DecidableEq, Repr

/-- Cuts a text into tokens. This never fails: faults are reported and passed over. -/
def tokenize (dialect : Dialect) (text : List Char) : Tokenized :=
  let located := Piece.locate 0 (pieces dialect text)
  { tokens := located.filterMap (fun (offset, p) => p.token? offset) ++
      [⟨.eof, "", Text.byteLength text⟩]
    errors := located.filterMap fun (offset, p) => p.error? offset }

end CTree
