import CTree.Visit
import Mathlib.Data.List.Basic

/-!
# The parts of a node

What stands right inside each form of a node, constructor by constructor and without the names of
fields. `Node.children_eq_parts` says that a traversal goes to exactly these nodes, in this order.
With the parts numbered, a list of numbers is an address below a node, and `Node.at?` looks it up.
-/

namespace CTree

open Content

/-- What stands in a place that may be empty. -/
def Node.optional {α : Type} (form : α → Node) (a? : Option α) : List Node :=
  (a?.map form).toList

/-- The statements of a body, if there is one. -/
def Node.ofBody? (body? : Option (List Stmt)) : List Node :=
  (body?.getD []).map .stmt

/-- The sizes among the dimensions of an array. -/
def Node.ofSizes (dimensions : List (Option Expr)) : List Node :=
  dimensions.flatMap (Node.optional .expr)

/-- What stands right inside an expression. -/
def Expr.parts : Expr → List Node
  | .identifier _ | .string _ | .char _ | .int _ | .real _ | .bool _ | .null | .this
  | .templateId .. => []
  | .unary _ _ operand => [.expr operand]
  | .binary _ left right => [.expr left, .expr right]
  | .conditional condition yes no => [.expr condition, .expr yes, .expr no]
  | .call callee arguments => .expr callee :: arguments.map .expr
  | .index array position => [.expr array, .expr position]
  | .member object _ _ => [.expr object]
  | .memberPointer object _ pointer => [.expr object, .expr pointer]
  | .new _ arguments size? _ => Node.optional .expr size? ++ arguments.map .expr
  | .delete operand _ => [.expr operand]
  | .sizeof query | .typeid query => Node.optional .expr query.operand?
  | .lambda captures parameters _ body _ =>
    captures.map .capture ++ parameters.map .parameter ++ body.map .stmt
  | .cast _ _ operand => [.expr operand]
  | .initializers elements => elements.map .expr

/-- What stands right inside a statement. -/
def Stmt.parts : Stmt → List Node
  | .expr value => [.expr value]
  | .block body => body.map .stmt
  | .returning value? | .throwing value? => Node.optional .expr value?
  | .breaking | .continuing | .goto _ | .label _ => []
  | .ifElse condition yes no? => [.expr condition, .stmt yes] ++ Node.optional .stmt no?
  | .whileLoop condition body => [.expr condition, .stmt body]
  | .doLoop body condition => [.stmt body, .expr condition]
  | .forLoop init? condition? step? body =>
    Node.optional .stmt init? ++ Node.optional .expr condition? ++ Node.optional .expr step? ++ [.stmt body]
  | .rangeLoop head range body => [.stmt head, .expr range, .stmt body]
  | .switch condition arms => .expr condition :: arms.map .arm
  | .trying body handlers => body.map .stmt ++ handlers.map .handler
  | .var v => Node.ofSizes v.dimensions ++ Node.optional .expr v.init?
  | .assign target _ value => [.expr target, .expr value]
  | .decl d => [.decl d]

/-- What stands right inside a declaration. -/
def Decl.parts : Decl → List Node
  | .function f => f.parameters.map .parameter ++ Node.ofBody? f.body?
  | .method m => m.parameters.map .parameter ++ Node.ofBody? m.body?
  | .constructor c =>
    c.parameters.map .parameter ++ c.initializers.map .memberInit ++ Node.ofBody? c.body?
  | .destructor d => Node.ofBody? d.body?
  | .operator o => o.parameters.map .parameter ++ Node.ofBody? o.body?
  | .field f => Node.ofSizes f.dimensions ++ Node.optional .expr f.bitWidth? ++ Node.optional .expr f.init?
  | .classType c => c.members.map .decl
  | .namespaceBlock _ body => body.map .stmt
  | .enumType e => e.enumerators.map .enumerator
  | .typedef _ _ definition? => Node.optional .decl definition?
  | .template _ _ declaration? => Node.optional .decl declaration?
  | .staticAssert condition _ => [.expr condition]
  | .friend _ | .usingAlias .. | .usingName _ | .usingNamespace _ | .directive .. => []

namespace Node

/-- What stands right inside a node. -/
def parts : Node → List Node
  | .program p => p.body.map .stmt
  | .expr e => e.parts
  | .stmt s => s.parts
  | .decl d => d.parts
  | .parameter p => optional .expr p.default?
  | .arm a => optional .expr a.value? ++ a.body.map .stmt
  | .handler h => h.body.map .stmt
  | .capture c => optional .expr c.init?
  | .memberInit m => m.arguments.map .expr
  | .enumerator e => optional .expr e.value?

/-! ### Traversals go through the parts -/

/-- The nodes in the fields that hold sizes, or in the others. -/
def under (sizes : Bool) (fs : List (String × Content)) : List Node :=
  ((fs.map Prod.snd).filter (·.isSize == sizes)).flatMap (·.toNodes)

theorem children_eq_under (n : Node) :
    n.children = under true n.fields ++ under false n.fields := by
  have hnot : ∀ c : Content, (c.isSize == false) = !c.isSize := fun c => by cases c.isSize <;> rfl
  simp [children, under, hnot]

variable {sizes : Bool} {name : String}

@[simp] theorem under_nil : under sizes [] = [] := rfl

@[simp] theorem under_append (fs gs : List (String × Content)) :
    under sizes (fs ++ gs) = under sizes fs ++ under sizes gs := by
  simp [under]

@[simp] theorem under_cons (f : String × Content) (fs : List (String × Content)) :
    under sizes (f :: fs) = (if f.2.isSize = sizes then f.2.toNodes else []) ++ under sizes fs := by
  by_cases h : f.2.isSize = sizes <;> simp [under, h]

/-- A field that may be missing holds what it holds when it is there. -/
@[simp] theorem under_ifPresent {α : Type} (field : String → α → String × Content) (a? : Option α) :
    under sizes (ifPresent field name a?) = a?.elim [] fun a => under sizes [field name a] := by
  cases a? <;> rfl

@[simp] theorem under_ofDimensions (ds : List (Option Expr)) :
    under sizes (ofDimensions ds) = if sizes then ofSizes ds else [] := by
  have hsizes : (ds.map (Option.map Node.expr)).filterMap id = ofSizes ds := by
    rw [List.filterMap_eq_flatMap_toList, List.flatMap_map]
    rfl
  cases ds with
  | nil => cases sizes <;> rfl
  | cons d ds =>
    cases sizes with
    | true => exact (List.append_nil _).trans hsizes
    | false => rfl

@[simp] theorem elim_nothing {α : Type} (a? : Option α) :
    (a?.elim [] fun _ => ([] : List Node)) = [] := by
  cases a? <;> rfl

@[simp] theorem elim_optional {α : Type} (form : α → Node) (a? : Option α) :
    (a?.elim [] fun a => [form a]) = optional form a? := by
  cases a? <;> rfl

@[simp] theorem elim_body (body? : Option (List Stmt)) :
    (body?.elim [] fun ss => ss.map Node.stmt) = ofBody? body? := by
  cases body? <;> rfl

end Node

namespace Content

@[simp] theorem isSize_atom (document : Json) : (atom document).isSize = false := rfl

@[simp] theorem isSize_node (n : Node) : (node n).isSize = false := rfl

@[simp] theorem isSize_nodes (ns : List Node) : (nodes ns).isSize = false := rfl

@[simp] theorem isSize_ofText (name value : String) : (ofText name value).2.isSize = false := rfl

@[simp] theorem isSize_ofFlag (name : String) (value : Bool) :
    (ofFlag name value).2.isSize = false := rfl

@[simp] theorem isSize_ofExpr (name : String) (e : Expr) : (ofExpr name e).2.isSize = false := rfl

@[simp] theorem isSize_ofStmt (name : String) (s : Stmt) : (ofStmt name s).2.isSize = false := rfl

@[simp] theorem isSize_ofDecl (name : String) (d : Decl) : (ofDecl name d).2.isSize = false := rfl

@[simp] theorem isSize_ofExprs (name : String) (es : List Expr) :
    (ofExprs name es).2.isSize = false := rfl

@[simp] theorem isSize_ofBody (name : String) (ss : List Stmt) :
    (ofBody name ss).2.isSize = false := rfl

@[simp] theorem isSize_ofParameters (ps : List Parameter) :
    (ofParameters ps).2.isSize = false := rfl

@[simp] theorem isSize_ofSize (name : String) (e : Expr) : (ofSize name e).2.isSize = true := rfl

end Content

namespace Node

theorem children_expr (e : Expr) : (expr e).children = e.parts := by
  rw [children_eq_under]
  cases e <;> simp [fields, Expr.fields, Expr.parts, Query.fields]

theorem children_stmt (s : Stmt) : (stmt s).children = s.parts := by
  rw [children_eq_under]
  cases s <;> simp [fields, Stmt.fields, Stmt.parts, VarDecl.fields]

theorem children_decl (d : Decl) : (decl d).children = d.parts := by
  rw [children_eq_under]
  cases d <;> simp [fields, Decl.fields, Decl.parts]

/-- A traversal goes from a node to its parts, all of them and nothing else. -/
theorem children_eq_parts (n : Node) : n.children = n.parts := by
  cases n
  case expr e => exact children_expr e
  case stmt s => exact children_stmt s
  case decl d => exact children_decl d
  all_goals
    rw [children_eq_under]
    simp [fields, parts]

theorem sizeOf_lt_of_mem_parts {n m : Node} (h : m ∈ n.parts) : sizeOf m < sizeOf n :=
  sizeOf_lt_of_mem_children (n.children_eq_parts ▸ h)

/-- What holds of a node if it holds of its parts holds of every node. -/
theorem induction_parts {P : Node → Prop} (step : ∀ n, (∀ m ∈ n.parts, P m) → P n) (n : Node) :
    P n := by
  induction hsize : sizeOf n using Nat.strongRecOn generalizing n with
  | ind size ih =>
    subst hsize
    exact step n fun m hm => ih _ (sizeOf_lt_of_mem_parts hm) m rfl

theorem walk_eq_parts (shown : Node → Bool) (depth : Nat) (n : Node) :
    walk shown depth n =
      if shown n then (depth, n) :: n.parts.flatMap (walk shown (depth + 1))
      else n.parts.flatMap (walk shown depth) := by
  rw [walk_eq, children_eq_parts]

end Node

end CTree
