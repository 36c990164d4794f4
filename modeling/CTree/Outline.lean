import CTree.Ast.Label

/-!
# Outlines

A program as indented text: a line for each node, two spaces deeper than the line of the node
around it. Declarations among statements and the small records inside nodes have no line of their
own.
-/

namespace CTree

/-- The nodes that have a line in an outline. -/
def Node.isOutlined : Node → Bool
  | .stmt (.decl _) | .capture _ | .memberInit _ | .enumerator _ => false
  | _ => true

/-- The line of a node inside the given number of others. -/
def outlineLine (depth : Nat) (n : Node) : String :=
  String.ofList (List.replicate (2 * depth) ' ') ++ n.label.line ++ "\n"

/-- The outline of a program. -/
def Program.outline (p : Program) : String :=
  String.join (((Node.program p).walk Node.isOutlined 0).map fun (depth, n) => outlineLine depth n)

end CTree
