import CTree.Ast.Node

/-!
# Traversals

`Node.walk` lists the nodes under a node, parents before their children, with the number of shown
nodes that enclose each. It is a recursion on nodes, which ends because every node in a field of a
node is smaller than the node itself (`sizeOf_lt_of_mem_fields`).
-/

namespace CTree

namespace Content

/-- Every node in the fields has a property. -/
def Every (P : Node → Prop) (fs : List (String × Content)) : Prop :=
  ∀ f ∈ fs, ∀ m ∈ f.2.toNodes, P m

@[simp] theorem every_nil (P : Node → Prop) : Every P [] := by
  simp [Every]

@[simp] theorem every_cons (P : Node → Prop) (f : String × Content) (fs : List (String × Content)) :
    Every P (f :: fs) ↔ (∀ m ∈ f.2.toNodes, P m) ∧ Every P fs := by
  simp only [Every, List.forall_mem_cons]

@[simp] theorem every_append (P : Node → Prop) (fs gs : List (String × Content)) :
    Every P (fs ++ gs) ↔ Every P fs ∧ Every P gs := by
  simp only [Every, List.forall_mem_append]

@[simp] theorem every_ifPresent (P : Node → Prop) {α : Type} (field : String → α → String × Content)
    (name : String) (a? : Option α) :
    Every P (ifPresent field name a?) ↔ ∀ a, a? = some a → ∀ m ∈ (field name a).2.toNodes, P m := by
  cases a? <;> simp [ifPresent]

@[simp] theorem every_ofDimensions (P : Node → Prop) (ds : List (Option Expr)) :
    Every P (ofDimensions ds) ↔ ∀ e, some e ∈ ds → P (.expr e) := by
  cases ds with
  | nil => simp [ofDimensions]
  | cons d ds =>
    simp only [ofDimensions, every_cons, every_nil, and_true, toNodes, List.mem_filterMap,
      List.mem_map, id_eq]
    constructor
    · exact fun h e he => h _ ⟨_, ⟨_, he, rfl⟩, rfl⟩
    · rintro h m ⟨_, ⟨d, hd, rfl⟩, hm⟩
      cases d with
      | none => cases hm
      | some e => cases hm; exact h e hd

/-! What stands in a field of each kind. -/

@[simp] theorem toNodes_atom (document : Json) : (atom document).toNodes = [] := rfl

@[simp] theorem toNodes_node (n : Node) : (node n).toNodes = [n] := rfl

@[simp] theorem toNodes_size (n : Node) : (size n).toNodes = [n] := rfl

@[simp] theorem toNodes_nodes (ns : List Node) : (nodes ns).toNodes = ns := rfl

@[simp] theorem toNodes_ofText (name value : String) : (ofText name value).2.toNodes = [] := rfl

@[simp] theorem toNodes_ofFlag (name : String) (value : Bool) :
    (ofFlag name value).2.toNodes = [] := rfl

@[simp] theorem toNodes_ofExpr (name : String) (e : Expr) :
    (ofExpr name e).2.toNodes = [.expr e] := rfl

@[simp] theorem toNodes_ofStmt (name : String) (s : Stmt) :
    (ofStmt name s).2.toNodes = [.stmt s] := rfl

@[simp] theorem toNodes_ofDecl (name : String) (d : Decl) :
    (ofDecl name d).2.toNodes = [.decl d] := rfl

@[simp] theorem toNodes_ofExprs (name : String) (es : List Expr) :
    (ofExprs name es).2.toNodes = es.map .expr := rfl

@[simp] theorem toNodes_ofBody (name : String) (ss : List Stmt) :
    (ofBody name ss).2.toNodes = ss.map .stmt := rfl

@[simp] theorem toNodes_ofParameters (ps : List Parameter) :
    (ofParameters ps).2.toNodes = ps.map .parameter := rfl

@[simp] theorem toNodes_ofSize (name : String) (e : Expr) :
    (ofSize name e).2.toNodes = [.expr e] := rfl

/-- Every node in the fields is smaller than `n`. -/
abbrev Smaller (n : Nat) (fs : List (String × Content)) : Prop :=
  Every (fun m => sizeOf m < n) fs

theorem Smaller.mono {m n : Nat} {fs : List (String × Content)} (h : Smaller m fs) (hmn : m ≤ n) :
    Smaller n fs :=
  fun f hf x hx => Nat.lt_of_lt_of_le (h f hf x hx) hmn

end Content

open Content

theorem Query.smaller_fields (q : Query) : Smaller (1 + sizeOf q) q.fields := by
  cases q
  simp [Query.fields]
  rintro e rfl
  simp
  omega

theorem VarDecl.smaller_fields (v : VarDecl) : Smaller (1 + sizeOf v) v.fields := by
  cases v
  simp [VarDecl.fields]
  refine ⟨?_, fun e he => ?_⟩
  · rintro e rfl
    simp
    omega
  · have := List.sizeOf_lt_of_mem he
    simp at this
    omega

theorem Expr.smaller_fields (e : Expr) : Smaller (1 + sizeOf e) e.fields := by
  cases e <;> simp [Expr.fields]
  all_goals repeat' apply And.intro
  all_goals first
    | omega
    | exact (Query.smaller_fields _).mono (by omega)
    | intro a ha; have := List.sizeOf_lt_of_mem ha; omega
    | rintro a rfl; simp; omega

theorem Stmt.smaller_fields (s : Stmt) : Smaller (1 + sizeOf s) s.fields := by
  cases s <;> simp [Stmt.fields]
  all_goals repeat' apply And.intro
  all_goals first
    | omega
    | exact (VarDecl.smaller_fields _).mono (by omega)
    | intro a ha; have := List.sizeOf_lt_of_mem ha; omega
    | rintro a rfl; simp; omega

theorem Decl.smaller_fields (d : Decl) : Smaller (1 + sizeOf d) d.fields := by
  cases d
  case function f | method f | constructor f | destructor f | operator f | field f | classType f
      | enumType f =>
    cases f
    simp [Decl.fields]
    repeat' apply And.intro
    all_goals first
      | omega
      | intro a ha; have := List.sizeOf_lt_of_mem ha; omega
      | intro a ha; have := List.sizeOf_lt_of_mem ha; simp at this; omega
      | rintro a rfl b hb; have := List.sizeOf_lt_of_mem hb; simp; omega
      | rintro a rfl; simp; omega
  all_goals simp [Decl.fields]
  all_goals first
    | omega
    | intro a ha; have := List.sizeOf_lt_of_mem ha; omega
    | rintro a rfl; simp; omega

theorem Node.smaller_fields (n : Node) : Smaller (sizeOf n) n.fields := by
  cases n
  case expr e => exact (Expr.smaller_fields e).mono (by simp)
  case stmt s => exact (Stmt.smaller_fields s).mono (by simp)
  case decl d => exact (Decl.smaller_fields d).mono (by simp)
  all_goals rename_i r; cases r
  all_goals simp [Node.fields]
  all_goals repeat' apply And.intro
  all_goals first
    | omega
    | intro a ha; have := List.sizeOf_lt_of_mem ha; omega
    | rintro a rfl; simp; omega

namespace Node

theorem sizeOf_lt_of_mem_fields {n m : Node} {f : String × Content} (hf : f ∈ n.fields)
    (hm : m ∈ f.2.toNodes) : sizeOf m < sizeOf n :=
  smaller_fields n f hf m hm

theorem mem_children {n m : Node} : m ∈ n.children ↔ ∃ f ∈ n.fields, m ∈ f.2.toNodes := by
  simp only [children, List.mem_flatMap, List.mem_append, List.mem_filter, List.mem_map]
  constructor
  · rintro ⟨_, ⟨⟨f, hf, rfl⟩, _⟩ | ⟨⟨f, hf, rfl⟩, _⟩, hm⟩ <;> exact ⟨f, hf, hm⟩
  · rintro ⟨f, hf, hm⟩
    refine ⟨f.2, ?_, hm⟩
    by_cases h : f.2.isSize
    · exact .inl ⟨⟨f, hf, rfl⟩, h⟩
    · exact .inr ⟨⟨f, hf, rfl⟩, by simp [h]⟩

theorem sizeOf_lt_of_mem_children {n m : Node} (h : m ∈ n.children) : sizeOf m < sizeOf n := by
  obtain ⟨f, hf, hm⟩ := mem_children.1 h
  exact sizeOf_lt_of_mem_fields hf hm

/-- The shown nodes in the tree under a node, each with the number of shown nodes around it,
where `depth` of them are around the first node. A node comes before its children. -/
def walk (shown : Node → Bool) (depth : Nat) (n : Node) : List (Nat × Node) :=
  let inner := if shown n then depth + 1 else depth
  let inside := n.children.attach.flatMap fun ⟨m, _⟩ => walk shown inner m
  if shown n then (depth, n) :: inside else inside
termination_by n
decreasing_by exact sizeOf_lt_of_mem_children ‹_›

theorem walk_eq (shown : Node → Bool) (depth : Nat) (n : Node) :
    walk shown depth n =
      if shown n then (depth, n) :: n.children.flatMap (walk shown (depth + 1))
      else n.children.flatMap (walk shown depth) := by
  rw [walk]
  split <;> simp [List.flatMap_subtype]

end Node

end CTree
