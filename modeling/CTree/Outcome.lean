import CTree.Ast.Document
import CTree.Outline
import CTree.Parse.Session

/-!
# Outcomes

Reading a source never fails: its outcome is a program and what is wrong with the source. An
outcome can be written in three formats.
-/

namespace CTree

/-- A program and what is wrong with its source. -/
structure Outcome where
  program : Program
  diagnostics : List Diagnostic

/-- Reads a text as a program of the given name. -/
def parse (settings : Settings) (name : String) (text : List Char) : Outcome :=
  let (program, s) := (Session.start settings text).parse name
  ⟨program, s.state.diagnostics.toList⟩

namespace Outcome

/-- Whether anything is wrong. -/
def hasErrors (o : Outcome) : Bool :=
  !o.diagnostics.isEmpty

/-- The diagnostics by the stage that found them. -/
def report (o : Outcome) : Report :=
  .ofList o.diagnostics

/-- The program and the diagnostics as a document. -/
def toJson (o : Outcome) : Json :=
  .obj [("program", o.program.toJson), ("errors", .arr (o.diagnostics.map Diagnostic.toJson))]

end Outcome

/-- The formats of an outcome. -/
inductive Format
  /-- The program and the diagnostics as a document. -/
  | json
  /-- The outline of the program. -/
  | tree
  /-- The report of the diagnostics as a document. -/
  | errors
  deriving DecidableEq, Repr

/-- An outcome in the given format; documents take several lines if `pretty` is set. -/
def Outcome.render (o : Outcome) (pretty : Bool) : Format → String
  | .json => o.toJson.text pretty
  | .tree => o.program.outline
  | .errors => o.report.toJson.text pretty

end CTree
