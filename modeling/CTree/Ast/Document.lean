import CTree.Ast.Traversal

/-!
# Documents of trees

`Node.toJson` writes a node as an object: the discriminator, if it has one, and the fields. A
declaration among statements is written as itself.
-/

namespace CTree

/-- The value of a field, from the values of the nodes in it. -/
def Content.toJson (f : Content) (toJson : (m : Node) → m ∈ f.toNodes → Json) : Json :=
  match f with
  | .atom document => document
  | .node m | .size m => toJson m (by simp [toNodes])
  | .nodes ms => .arr (ms.attach.map fun ⟨m, h⟩ => toJson m h)
  | .sizes ms =>
    .arr (ms.attach.map fun
      | ⟨none, _⟩ => .null
      | ⟨some m, h⟩ => toJson m (List.mem_filterMap.2 ⟨some m, h, rfl⟩))

/-- The discriminator of a node as a field. -/
def Node.tagField (n : Node) : List (String × Json) :=
  (n.tag?.map fun t => ("type", .str t)).toList

/-- The document of a node. -/
def Node.toJson (n : Node) : Json :=
  match n with
  | .stmt (.decl d) => toJson (.decl d)
  | n => .obj (n.tagField ++ n.fields.attach.map fun ⟨f, _⟩ => (f.1, f.2.toJson fun m _ => toJson m))
termination_by n
decreasing_by
  · simp
  · exact sizeOf_lt_of_mem_fields ‹_› ‹_›

/-- The document of a program. -/
def Program.toJson (p : Program) : Json :=
  (Node.program p).toJson

end CTree
