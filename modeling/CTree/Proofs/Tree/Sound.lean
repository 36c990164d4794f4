import CTree.Ast.Traversal
import CTree.KnownTypes
import CTree.TypeText
import Mathlib.Data.List.Chain
import Mathlib.Logic.Relation

/-!
# Sound trees

What holds of the trees that are read, node by node. A node is well-formed, the type that it
introduces is known, and on no way down from it are more constructs opened than there is room for.
`Node.Sound` says so of a node and of all nodes under it.
-/

namespace CTree

open Content

/-! ### Well-formed nodes -/

/-- Whether an expression stores a value. -/
def Expr.isAssignment : Expr → Bool
  | .binary op _ _ => op.isAssignment
  | _ => false

/-- Whether a declaration may stand among the members of a class only. -/
def Decl.isMember : Decl → Bool
  | .method _ | .field _ | .friend _ => true
  | _ => false

/-- Whether a declaration may not stand among the members of a class. -/
def Decl.isOutside : Decl → Bool
  | .function _ | .namespaceBlock .. => true
  | _ => false

/-- A variable of which only the type, the storage and the name are given. -/
def Stmt.IsBareVariable : Stmt → Prop
  | .var v => v.init? = none ∧ v.dimensions = []
  | _ => False

/-- The declarations that the head of a template shows: nothing in braces belongs to them. -/
def Decl.IsHead : Decl → Prop
  | .classType c => c.members = []
  | .function f => f.body? = none
  | .usingAlias .. => True
  | _ => False

/-- Fields that ask for a type, with its name and no expression, or for an expression, with no
    name of a type. -/
def Content.IsQuery (fs : List (String × Content)) : Prop :=
  ofFlag "isType" true ∈ fs ∧ "typeName" ∈ fs.map Prod.fst ∧ "expression" ∉ fs.map Prod.fst ∨
    ofFlag "isType" false ∈ fs ∧ "expression" ∈ fs.map Prod.fst ∧ "typeName" ∉ fs.map Prod.fst

/-- Only `++` and `--` stand after their operand, and a new array is what has a size. -/
@[simp]
def Expr.WellFormed (e : Expr) : Prop :=
  match e with
  | .unary op .after _ => op = .inc ∨ op = .dec
  | .sizeof _ | .typeid _ => IsQuery e.fields
  | .new .. => ofFlag "isArray" true ∈ e.fields ↔ "arraySize" ∈ e.fields.map Prod.fst
  | _ => True

/-- An assignment is a statement of its own, a `try` has a handler, the head of a loop over a range
    is a bare variable, and no member of a class stands among statements. -/
@[simp]
def Stmt.WellFormed : Stmt → Prop
  | .expr value => value.isAssignment = false
  | .assign _ op _ => op.isAssignment = true
  | .trying _ handlers => handlers ≠ []
  | .rangeLoop head _ _ => head.IsBareVariable
  | .decl d => d.isMember = false
  | _ => True

/-- A class has one keyword, and if it is only declared it has neither bases nor members. What stands
    inside another declaration is a member only in a class, and only the head of a declaration in a
    template. -/
@[simp]
def Decl.WellFormed (d : Decl) : Prop :=
  match d with
  | .classType c =>
    (c.isForward = true → c.bases = [] ∧ c.members = []) ∧
      (∀ m ∈ c.members, m.isOutside = false) ∧
      ¬ (ofFlag "isStruct" true ∈ d.fields ∧ ofFlag "isUnion" true ∈ d.fields)
  | .typedef _ _ (some definition) => definition.isMember = false
  | .template _ _ (some declaration) => declaration.IsHead
  | _ => True

/-- The shape that everybody who walks a tree may rely on. -/
def Node.WellFormed : Node → Prop
  | .expr e => e.WellFormed
  | .stmt s => s.WellFormed
  | .decl d => d.WellFormed
  | _ => True

/-! ### Known names -/

/-- A name without its template arguments. -/
def TypeText.untilArguments (name : String) : String :=
  String.ofList (name.toList.takeWhile (· != '<'))

/-- The name of the type that a declaration introduces, if it introduces one. -/
@[simp]
def Decl.introduced? : Decl → Option String
  | .classType c => if c.name = "" then none else some (TypeText.untilArguments c.name)
  | .enumType e => if e.name = "" then none else some e.name
  | .typedef _ synonym _ => some synonym
  | _ => none

/-- What a node introduces is known. -/
@[simp]
def Node.Introduces (known : KnownTypes) : Node → Prop
  | .decl d => ∀ name, d.introduced? = some name → name ∈ known.names
  | _ => True

/-! ### Open constructs -/

/-- Whether a node stands for a construct that is open while what is inside of it is read. Of a class
    in a template only the head is read. -/
@[simp]
def Node.opens (inTemplate : Bool) : Node → Bool
  | .stmt (.ifElse ..) | .stmt (.whileLoop ..) | .stmt (.doLoop ..) | .stmt (.forLoop ..)
  | .stmt (.rangeLoop ..) | .stmt (.switch ..) | .stmt (.trying ..) => true
  | .expr (.lambda ..) | .expr (.initializers _) => true
  | .decl (.namespaceBlock ..) => true
  | .decl (.classType c) => !c.isForward && !inTemplate
  | _ => false

/-- Whether a node is a template. -/
def Node.isTemplate : Node → Bool
  | .decl (.template ..) => true
  | _ => false

/-- The number of constructs on a way down a tree. -/
def Node.opened : Bool → List Node → Nat
  | _, [] => 0
  | inTemplate, n :: ns => (n.opens inTemplate).toNat + opened n.isTemplate ns

/-! ### Soundness -/

namespace Node

/-- Everything from a node on downwards is in order. There is room for `room` constructs, of which
    the node may open one. -/
inductive Sound (known : KnownTypes) : Bool → Nat → Node → Prop
  | intro {inTemplate : Bool} {room : Nat} {n : Node} (inner : Nat) (wellFormed : n.WellFormed)
    (introduces : n.Introduces known) (fits : (n.opens inTemplate).toNat + inner ≤ room)
    (inside : ∀ f ∈ n.fields, ∀ m ∈ f.2.toNodes, Sound known n.isTemplate inner m) :
    Sound known inTemplate room n

/-- The nodes of a tree: the one at its top, its children, and so on. -/
def Within : Node → Node → Prop :=
  Relation.ReflTransGen fun n m => m ∈ n.children

/-- Every node of a tree has a property. -/
def Everywhere (P : Node → Prop) (n : Node) : Prop :=
  ∀ m, Within n m → P m

/-- No way down a tree opens more constructs than the given number. -/
def OpensAtMost (limit : Nat) (n : Node) : Prop :=
  ∀ way, List.IsChain (fun n m => m ∈ n.children) (n :: way) → opened false (n :: way) ≤ limit

variable {known : KnownTypes} {inTemplate : Bool} {room room' : Nat} {n m : Node} {P : Node → Prop}

/-- What holds of a node and everywhere in its children holds everywhere in it. -/
theorem Everywhere.ofChildren (h : P n) (hchildren : ∀ m ∈ n.children, m.Everywhere P) :
    n.Everywhere P := by
  intro m hm
  rcases Relation.ReflTransGen.cases_head hm with rfl | ⟨child, hchild, hbelow⟩
  · exact h
  · exact hchildren child hchild m hbelow

theorem Everywhere.children (h : n.Everywhere P) : ∀ m ∈ n.children, m.Everywhere P :=
  fun _ hm k hk => h k (.head hm hk)

theorem Sound.mono (h : Sound known inTemplate room n) (hle : room ≤ room') :
    Sound known inTemplate room' n := by
  obtain ⟨inner, hshape, hnames, hfits, hinside⟩ := h
  exact ⟨inner, hshape, hnames, Nat.le_trans hfits hle, hinside⟩

/-- A node may stand wherever it opens nothing. -/
theorem Sound.elsewhere {inTemplate' : Bool} (h : Sound known inTemplate room n)
    (hopens : n.opens inTemplate' = false) : Sound known inTemplate' room n := by
  obtain ⟨inner, hshape, hnames, hfits, hinside⟩ := h
  refine ⟨inner, hshape, hnames, ?_, hinside⟩
  rw [hopens, Bool.toNat_false, Nat.zero_add]
  exact Nat.le_trans (Nat.le_add_left _ _) hfits

/-- Where a node opens nothing, there is as much room inside of it. -/
theorem sound_iff_of_plain (h : n.opens inTemplate = false) :
    Sound known inTemplate room n ↔
      n.WellFormed ∧ n.Introduces known ∧ Every (Sound known n.isTemplate room) n.fields := by
  constructor
  · rintro ⟨inner, hshape, hnames, hfits, hinside⟩
    have hle : inner ≤ room := Nat.le_trans (Nat.le_add_left _ _) hfits
    exact ⟨hshape, hnames, fun f hf m hm => (hinside f hf m hm).mono hle⟩
  · rintro ⟨hshape, hnames, hinside⟩
    refine ⟨room, hshape, hnames, ?_, hinside⟩
    rw [h]
    exact Nat.le_of_eq (Nat.zero_add room)

/-- A construct is sound if there is less room inside of it. -/
theorem Sound.construct (hshape : n.WellFormed) (hnames : n.Introduces known) {inner : Nat}
    (hlt : inner < room) (h : Every (Sound known n.isTemplate inner) n.fields) :
    Sound known inTemplate room n := by
  refine ⟨inner, hshape, hnames, ?_, h⟩
  have hone := Bool.toNat_le (n.opens inTemplate)
  omega

theorem Sound.wellFormed (h : Sound known inTemplate room n) : n.WellFormed := by
  obtain ⟨_, hshape, -, -, -⟩ := h
  exact hshape

theorem Sound.introduces (h : Sound known inTemplate room n) : n.Introduces known := by
  obtain ⟨_, -, hnames, -, -⟩ := h
  exact hnames

/-- What is sound is sound all the way down, wherever it stands. -/
theorem Sound.everywhere (h : Sound known inTemplate room n) :
    n.Everywhere fun m => ∃ inTemplate room, Sound known inTemplate room m := by
  intro m hm
  induction hm with
  | refl => exact ⟨inTemplate, room, h⟩
  | tail _ hchild ih =>
    obtain ⟨_, _, inner, -, -, -, hinside⟩ := ih
    obtain ⟨f, hf, hm⟩ := mem_children.1 hchild
    exact ⟨_, inner, hinside f hf _ hm⟩

/-- No way down from a sound node opens more constructs than there is room for. -/
theorem Sound.opened_le {ns : List Node} (h : Sound known inTemplate room n)
    (hway : List.IsChain (fun n m => m ∈ n.children) (n :: ns)) :
    opened inTemplate (n :: ns) ≤ room := by
  induction ns generalizing inTemplate room n with
  | nil =>
    obtain ⟨inner, -, -, hfits, -⟩ := h
    show (n.opens inTemplate).toNat + 0 ≤ room
    omega
  | cons m ns ih =>
    obtain ⟨inner, -, -, hfits, hinside⟩ := h
    obtain ⟨hchild, hrest⟩ := List.isChain_cons_cons.1 hway
    obtain ⟨f, hf, hm⟩ := mem_children.1 hchild
    have hbelow := ih (hinside f hf m hm) hrest
    show (n.opens inTemplate).toNat + opened n.isTemplate (m :: ns) ≤ room
    omega

end Node

end CTree
