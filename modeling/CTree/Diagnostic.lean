import CTree.Failure
import CTree.Json.Basic
import CTree.Token.Scan

/-!
# Diagnostics

What is wrong with a source, with the line and column of each fault. Diagnostics are kept in the
order in which they arise; a `Report` parts them by the stage that found them.
-/

namespace CTree

/-- What found a fault: the cutting into tokens, or the reading of them. -/
inductive Stage
  | lexical
  | grammatical
  deriving DecidableEq, Repr

/-- The stage in a document. -/
def Stage.kind : Stage → String
  | .lexical => "Lexical"
  | .grammatical => "Syntax"

/-- The stage in a line of text. -/
def Stage.word : Stage → String
  | .lexical => "lexical"
  | .grammatical => "syntax"

/-- A fault in a source. -/
structure Diagnostic where
  position : Nat
  place : Text.Place
  stage : Stage
  message : String
  expected? : Option String
  found? : Option String
  deriving DecidableEq, Repr

namespace Diagnostic

/-- A diagnostic as one line of text. -/
def line (d : Diagnostic) : String :=
  toString d.place.line ++ ":" ++ toString d.place.column ++ ": " ++ d.stage.word ++
    " error: " ++ d.message

/-- A diagnostic as a document. -/
def toJson (d : Diagnostic) : Json :=
  .obj <| [("position", .nat d.position), ("line", .nat d.place.line),
      ("column", .nat d.place.column), ("kind", .str d.stage.kind), ("message", .str d.message)] ++
    (d.expected?.map fun e => ("expected", .str e)).toList ++
    (d.found?.map fun f => ("found", .str f)).toList

/-- The diagnostic of a lexical fault. -/
def ofLexical (source : List Char) (message : String) (offset : Nat) : Diagnostic :=
  ⟨offset, Text.place source offset, .lexical, message, none, none⟩

/-- The diagnostic of a failure. -/
def ofFailure (source : List Char) (f : Failure) : Diagnostic :=
  ⟨f.offset, Text.place source f.offset, .grammatical, f.cause.message, f.cause.expected?,
    f.cause.found?⟩

/-- The diagnostics of the lexical errors of a source. -/
def ofLexErrors (source : List Char) (errors : List LexError) : List Diagnostic :=
  errors.map fun e => ofLexical source e.fault.message e.offset

end Diagnostic

/-- Diagnostics by the stage that found them, each part in order. -/
structure Report where
  lexical : List Diagnostic
  grammatical : List Diagnostic
  deriving DecidableEq, Repr

namespace Report

/-- The report of diagnostics. -/
def ofList (ds : List Diagnostic) : Report :=
  ⟨ds.filter (·.stage == .lexical), ds.filter (·.stage != .lexical)⟩

/-- The number of diagnostics. -/
def total (r : Report) : Nat :=
  r.lexical.length + r.grammatical.length

/-- A report as a document. -/
def toJson (r : Report) : Json :=
  .obj [("lexerErrors", .arr (r.lexical.map Diagnostic.toJson)),
    ("parserErrors", .arr (r.grammatical.map Diagnostic.toJson))]

end Report

end CTree
