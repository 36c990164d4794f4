import CTree.Parse.Grammar

/-!
# Blocks

Runs of statements. A statement that fails is reported and skipped, and the run goes on after it;
only the ceiling on statements ends the run.
-/

namespace CTree

namespace Grammar

open Parse

variable (g : Grammar)

/-- A round of a run of statements, `count` of them being read already. A token whose kind is in a
class ends the run. -/
def statementRound (stop : TokenKind → Bool) (count : Nat) : Parse (Option (List Stmt × Nat)) := do
  let k ← kind
  if k == .eof || stop k then return none
  let limit := (← settings).maxStatements
  if limit ≤ count then throw (← exhaustion limit .block)
  match ← attempt (g.parse .statement) with
  | some (some s) => return some ([s], count + 1)
  | _ => return some ([], count)

/-- Statements up to a token whose kind is in a class, or up to the end of the source. -/
def statements (stop : TokenKind → Bool) : Parse (List Stmt) :=
  rounds (g.statementRound stop) 0

/-- Statements in braces. -/
def block : Parse (List Stmt) := do
  skipOver .lbrace "to start block"
  let body ← strictly (g.statements (· == .rbrace))
  closeBrace "to close block"
  return body

/-- The body of a function, or the `;` of a bare declaration. -/
def functionBody : Parse (Option (List Stmt)) := do
  if ← check .lbrace then return some (← g.block)
  skipOver .semicolon "after function declaration"
  return none

end Grammar

end CTree
