import CTree.Ast.Traversal

/-!
# Visits

A visit of a program notes every expression, statement and declaration with its nesting, parents
first, and what some leaves hold. The other records are passed through.
-/

namespace CTree

/-- The family of a node, if it has one. -/
def Node.family? : Node → Option String
  | .program _ => some "program"
  | .expr _ => some "expression"
  | .stmt _ => some "statement"
  | .decl _ => some "declaration"
  | _ => none

/-- What a visit notes about a leaf. -/
def Node.leaf? : Node → Option String
  | .expr (.identifier name) => some ("identifier " ++ name)
  | .expr (.string value) => some ("string " ++ value)
  | .expr (.char value) => some ("char " ++ value)
  | .expr (.int value) => some ("int " ++ toString value.toInt)
  | .expr (.bool value) => some (if value then "bool true" else "bool false")
  | .expr .null => some "null "
  | .expr .this => some "this "
  | .expr (.templateId name _) => some ("template " ++ name)
  | .stmt .breaking => some "break "
  | .stmt (.goto target) => some ("goto " ++ target)
  | .stmt (.label name) => some ("label " ++ name)
  | .decl (.friend declaration) => some ("friend " ++ declaration)
  | .decl (.usingName name) => some ("using " ++ name)
  | .decl (.directive name _) => some ("directive " ++ name)
  | _ => none

/-- A note with its nesting. -/
def note (depth : Nat) (text : String) : String :=
  toString depth ++ " " ++ text

/-- The notes of a visit to the tree under a node. -/
def Node.events (n : Node) : List String :=
  (n.walk (·.family?.isSome) 0).flatMap fun (depth, m) =>
    (m.family?.map (note depth)).toList ++ (m.leaf?.map (note (depth + 1))).toList

/-- The names used as expressions under a node, in order. -/
def Node.identifiers (n : Node) : List String :=
  (n.walk (fun _ => true) 0).filterMap fun
    | (_, .expr (.identifier name)) => some name
    | _ => none

/-- The node that stands for an item of a program when it is visited by itself: a declaration and
an expression stand for themselves, not for the statement around them. -/
def Stmt.standalone : Stmt → Node
  | .decl d => .decl d
  | .expr value => .expr value
  | s => .stmt s

/-- The notes of a visit to a program, or to each of its items by itself. -/
def Program.events (p : Program) (items : Bool) : List String :=
  if items then p.body.flatMap fun s => s.standalone.events else (Node.program p).events

/-- The names used as expressions in a program, in order. -/
def Program.identifiers (p : Program) : List String :=
  (Node.program p).identifiers

end CTree
