import CTree.Ast.Basic
import CTree.Literal
import CTree.Parse.Basic
import CTree.Text.Line

/-!
# Preprocessor directives

A directive is kept with its name and the rest of its logical line, as it stands in the source.
-/

namespace CTree

/-- The path of an `#include`, without the marks around it. -/
def includedPath (directive : String) : String :=
  let path := Text.trim (directive.toList.drop "#include".length)
  String.ofList <|
    match path, path.getLast? with
    | '<' :: cs, some '>' => cs.dropLast
    | _, _ => Literal.body path

/-- The exact text of the source from the token at index `start` up to the one before `stop`. -/
def Source.exactText (s : Source) (start stop : Nat) : String :=
  match (s.stream.between start stop).getLast? with
  | some last => String.ofList (Text.slice (s.stream.get start).offset last.stop s.text)
  | none => ""

namespace Parse

/-- Takes the tokens that begin before a position of the source. -/
def skipUntil (stop : Nat) : Parse Unit :=
  iterate (fun () => do
    if !(← atEnd) && (← peek).offset < stop then
      skip
      return some ()
    else return none) ()

/-- The position at which the logical line of a token ends. -/
def logicalEnd (t : Token) : Parse Nat :=
  return Text.logicalEnd (← read).text t.offset

/-- The exact text of the source from the token at index `start` up to the current one. -/
def exactTextSince (start : Nat) : Parse String :=
  return (← read).exactText start (← position)

/-- A directive. -/
def directive : Parse Decl := do
  let t ← advance
  if t.kind == .includeDirective then return .directive "include" (includedPath t.text)
  let start ← position
  skipUntil (← logicalEnd t)
  return .directive (String.ofList (t.text.toList.dropWhile (· == '#'))) (← exactTextSince start)

end Parse

end CTree
