import CTree.Proofs.Extent.Texts
import CTree.Proofs.Tree.Sound
import CTree.Proofs.Visits.Parts

/-!
# How much room nodes take

A body has no more statements than the settings allow, and the label of a node takes one line if the tokens
do. `Node.Fits` says so of a node, and for each form of a node it is said what this comes to.
-/

namespace CTree

open Node

/-! ### Bodies -/

/-- The statements in the braces of an expression. -/
def Expr.bodies : Expr → List (List Stmt)
  | .lambda _ _ _ body _ => [body]
  | _ => []

/-- The statements that a statement has in braces of its own; a block by itself is not among them. -/
def Stmt.bodies : Stmt → List (List Stmt)
  | .trying body _ => [body]
  | _ => []

/-- The statements in the braces of a declaration. -/
def Decl.bodies : Decl → List (List Stmt)
  | .function f => f.body?.toList
  | .method m => m.body?.toList
  | .constructor c => c.body?.toList
  | .destructor d => d.body?.toList
  | .operator o => o.body?.toList
  | _ => []

namespace Node

/-- The statements that stand right inside the body of a function, a lambda, a `try`, a handler or an arm. -/
def bodies : Node → List (List Stmt)
  | .expr e => e.bodies
  | .stmt s => s.bodies
  | .decl d => d.bodies
  | .arm a => [a.body]
  | .handler h => [h.body]
  | _ => []

/-! ### Nodes that fit -/

/-- The bodies are short enough, and the label takes one line if the tokens do. -/
structure Fits (source : Source) (n : Node) : Prop where
  bodies : ∀ body ∈ n.bodies, body.length ≤ source.settings.maxStatements
  label : source.InLine n.label.detail

/-- All nodes of a tree fit. -/
abbrev AllFit (source : Source) (n : Node) : Prop :=
  n.Everywhere (Fits source)

variable {source : Source} {n : Node} {P : Node → Prop}

/-- What holds of a node and everywhere in its parts holds everywhere in it. -/
theorem Everywhere.intro (h : P n) (hparts : ∀ m ∈ n.parts, m.Everywhere P) : n.Everywhere P :=
  .ofChildren h (n.children_eq_parts ▸ hparts)

theorem Everywhere.parts (h : n.Everywhere P) : ∀ m ∈ n.parts, m.Everywhere P :=
  n.children_eq_parts ▸ h.children

@[simp] theorem forall_mem_optional {α : Type} {form : α → Node} {a? : Option α} :
    (∀ m ∈ optional form a?, P m) ↔ Maybe (fun a => P (form a)) a? := by
  cases a? <;> simp [optional, Maybe]

@[simp] theorem forall_mem_ofBody? {body? : Option (List Stmt)} :
    (∀ m ∈ ofBody? body?, P m) ↔ Maybe (Each fun s => P (.stmt s)) body? := by
  cases body? <;> simp [ofBody?, Maybe, Each]

@[simp] theorem forall_mem_ofSizes {dimensions : List (Option Expr)} :
    (∀ m ∈ ofSizes dimensions, P m) ↔ ∀ e, some e ∈ dimensions → P (.expr e) := by
  simp only [ofSizes, List.mem_flatMap, forall_exists_index, and_imp]
  constructor
  · exact fun h e he => h _ (some e) he List.mem_cons_self
  · intro h m d hd hm
    cases d with
    | none => cases hm
    | some e =>
      obtain rfl := List.mem_singleton.1 hm
      exact h e hd

end Node

/-- All nodes of an expression fit. -/
abbrev Expr.AllFit (source : Source) (e : Expr) : Prop :=
  Node.AllFit source (.expr e)

/-- All nodes of a statement fit. -/
abbrev Stmt.AllFit (source : Source) (s : Stmt) : Prop :=
  Node.AllFit source (.stmt s)

/-- All nodes of a declaration fit. -/
abbrev Decl.AllFit (source : Source) (d : Decl) : Prop :=
  Node.AllFit source (.decl d)

/-- All nodes of a parameter fit. -/
abbrev Parameter.AllFit (source : Source) (p : Parameter) : Prop :=
  Node.AllFit source (.parameter p)

/-- A variable fits as a statement. -/
abbrev VarDecl.AllFit (source : Source) (v : VarDecl) : Prop :=
  Stmt.AllFit source (.var v)

/-- A body that is short enough, with all that is in it. -/
def BodyFits (source : Source) (body : List Stmt) : Prop :=
  body.length ≤ source.settings.maxStatements ∧ Each (Stmt.AllFit source) body

variable {source : Source} {body? : Option (List Stmt)}

/-- The body of a function is short enough if there is one. -/
theorem forall_length_le (h : Maybe (BodyFits source) body?) :
    ∀ body ∈ body?.toList, body.length ≤ source.settings.maxStatements :=
  fun body hbody => (h body (Option.mem_toList.1 hbody)).1

/-! ### Expressions -/

namespace Expr

variable {e l r c : Expr} {es : List Expr} {name type : String}

/-- An expression without a body. -/
theorem fits (hbodies : e.bodies = []) (hlabel : source.InLine e.detail)
    (hparts : ∀ m ∈ e.parts, m.AllFit source) : e.AllFit source := by
  refine .intro ⟨?_, hlabel⟩ hparts
  rw [Node.bodies, hbodies]
  exact List.forall_mem_nil _

/-- An expression with nothing in it. -/
theorem fits_atom (hbodies : e.bodies = []) (hlabel : source.InLine e.detail) (hparts : e.parts = []) :
    e.AllFit source :=
  fits hbodies hlabel (hparts ▸ List.forall_mem_nil _)

theorem fits_identifier (h : source.InLine name) : (identifier name).AllFit source :=
  fits_atom rfl h rfl

theorem fits_unary {op : UnaryOp} {fixity : Fixity} (h : e.AllFit source) :
    (unary op fixity e).AllFit source := by
  refine fits rfl (.words ?_) (List.forall_mem_singleton.2 h)
  exact Each.cons (.ofFixity _) (Each.single (.ofUnary _))

theorem fits_binary {op : BinaryOp} (hl : l.AllFit source) (hr : r.AllFit source) :
    (binary op l r).AllFit source :=
  fits rfl (.ofBinary op) (by simp [parts, hl, hr])

theorem fits_conditional (hc : c.AllFit source) (hl : l.AllFit source) (hr : r.AllFit source) :
    (conditional c l r).AllFit source :=
  fits rfl .empty (by simp [parts, hc, hl, hr])

theorem fits_call (hc : c.AllFit source) (hes : Each (Expr.AllFit source) es) :
    (call c es).AllFit source := by
  refine fits rfl (.words ?_) (by simpa [parts] using ⟨hc, hes⟩)
  exact Each.cons (.nat _) (Each.single (.const (by decide)))

theorem fits_index (hl : l.AllFit source) (hr : r.AllFit source) : (index l r).AllFit source :=
  fits rfl .empty (by simp [parts, hl, hr])

theorem fits_member {arrow : Bool} (h : e.AllFit source) (hname : source.InLine name) :
    (member e arrow name).AllFit source := by
  refine fits rfl (.append (a := if arrow = true then "->" else ".") ?_ hname)
    (List.forall_mem_singleton.2 h)
  split <;> exact .const (by decide)

theorem fits_memberPointer {arrow : Bool} (hl : l.AllFit source) (hr : r.AllFit source) :
    (memberPointer l arrow r).AllFit source := by
  refine fits rfl (?_ : source.InLine (if arrow = true then "->*" else ".*")) (by simp [parts, hl, hr])
  split <;> exact .const (by decide)

theorem fits_new {size? : Option Expr} {isArray : Bool} (htype : source.InLine type)
    (hes : Each (Expr.AllFit source) es) (hsize : Maybe (Expr.AllFit source) size?) :
    (new type es size? isArray).AllFit source := by
  refine fits rfl ?_ ?_
  · show source.InLine (if isArray = true then type ++ "[]" else type)
    split
    · exact htype.append (.const (by decide))
    · exact htype
  · simp only [parts, List.forall_mem_append, forall_mem_optional, List.forall_mem_map]
    exact ⟨hsize, hes⟩

theorem fits_delete {isArray : Bool} (h : e.AllFit source) : (delete e isArray).AllFit source := by
  refine fits rfl (?_ : source.InLine (if isArray = true then "[]" else "")) (List.forall_mem_singleton.2 h)
  split <;> exact .const (by decide)

theorem fits_cast {kind : CastKind} (htype : source.InLine type) (h : e.AllFit source) :
    (cast kind type e).AllFit source := by
  refine fits rfl (.words ?_) (List.forall_mem_singleton.2 h)
  exact Each.cons (.ofCast kind) (Each.single htype)

theorem fits_initializers (hes : Each (Expr.AllFit source) es) : (initializers es).AllFit source := by
  refine fits rfl (.words ?_) (by simpa [parts] using hes)
  exact Each.cons (.nat _) (Each.single (.const (by decide)))

theorem fits_sizeof_type (h : source.InLine type) : (sizeof (.type type)).AllFit source :=
  fits_atom rfl h rfl

theorem fits_sizeof_value (h : e.AllFit source) : (sizeof (.value e)).AllFit source :=
  fits rfl .empty (List.forall_mem_singleton.2 h)

theorem fits_typeid_type (h : source.InLine type) : (typeid (.type type)).AllFit source :=
  fits_atom rfl h rfl

theorem fits_typeid_value (h : e.AllFit source) : (typeid (.value e)).AllFit source :=
  fits rfl .empty (List.forall_mem_singleton.2 h)

theorem fits_lambda {captures : List Capture} {ps : List Parameter} {returnType? : Option String}
    {body : List Stmt} {isMutable : Bool}
    (hcaptures : Each (fun c => Node.AllFit source (.capture c)) captures)
    (hps : Each (Parameter.AllFit source) ps) (htype : Maybe source.InLine returnType?)
    (hbody : BodyFits source body) : (lambda captures ps returnType? body isMutable).AllFit source := by
  refine .intro ⟨List.forall_mem_singleton.2 hbody.1, ?_⟩ ?_
  · show source.InLine (returnType?.getD "")
    cases returnType? with
    | none => exact .empty
    | some type => exact htype type rfl
  · simp only [Node.parts, parts, List.forall_mem_append, List.forall_mem_map]
    exact ⟨⟨hcaptures, hps⟩, hbody.2⟩

end Expr

/-! ### Statements -/

namespace Stmt

variable {s : Stmt}

/-- A statement without a body of its own. -/
theorem fits (hbodies : s.bodies = []) (hlabel : source.InLine s.detail)
    (hparts : ∀ m ∈ s.parts, m.AllFit source) : s.AllFit source := by
  refine .intro ⟨?_, hlabel⟩ hparts
  rw [Node.bodies, hbodies]
  exact List.forall_mem_nil _

theorem fits_block {ss : List Stmt} (h : Each (Stmt.AllFit source) ss) : (block ss).AllFit source :=
  fits rfl .empty (List.forall_mem_map.2 h)

theorem fits_decl {d : Decl} (h : d.AllFit source) : (decl d).AllFit source :=
  fits rfl .empty (List.forall_mem_singleton.2 h)

/-- A variable fits if its texts and what it starts with do. -/
theorem fits_var {v : VarDecl} (htype : source.InLine v.type) (hname : source.InLine v.name)
    (hstorage : Maybe source.InLine v.storage?) (hinit : Maybe (Expr.AllFit source) v.init?)
    (hdimensions : ∀ e, some e ∈ v.dimensions → e.AllFit source) : (var v).AllFit source := by
  refine fits rfl (.words ?_) ?_
  · refine List.forall_mem_append.2 ⟨?_, Each.cons htype (Each.single hname)⟩
    exact fun text h => hstorage text (Option.mem_toList.1 h)
  · simp only [parts, List.forall_mem_append, forall_mem_optional, forall_mem_ofSizes]
    exact ⟨hdimensions, hinit⟩

theorem fits_ofVariables {vs : List VarDecl} (h : Each (VarDecl.AllFit source) vs) :
    (ofVariables vs).AllFit source := by
  unfold ofVariables
  split
  · exact h _ List.mem_cons_self
  · exact fits_block (List.forall_mem_map.2 h)

theorem fits_ofDecls {ds : List Decl} (h : Each (Decl.AllFit source) ds) : (ofDecls ds).AllFit source := by
  unfold ofDecls
  split
  · exact fits_decl (h _ List.mem_cons_self)
  · refine fits_block (List.forall_mem_map.2 fun d hd => fits_decl (h d hd))

theorem fits_ofExpr {e : Expr} (h : e.AllFit source) : (ofExpr e).AllFit source := by
  unfold ofExpr
  split
  · rename_i op l r
    split
    · exact fits rfl (.ofBinary op) h.parts
    · exact fits rfl .empty (List.forall_mem_singleton.2 h)
  · exact fits rfl .empty (List.forall_mem_singleton.2 h)

end Stmt

/-! ### Declarations and parameters -/

theorem Parameter.fits {p : Parameter} (htype : source.InLine p.type) (hname : source.InLine p.name)
    (hdefault : Maybe (Expr.AllFit source) p.default?) : p.AllFit source := by
  refine .intro ⟨List.forall_mem_nil _, .trimEnd (.words ?_)⟩ (forall_mem_optional.2 hdefault)
  exact Each.cons htype (Each.single hname)

namespace Decl

/-- A declaration whose bodies are short enough. -/
theorem fits {d : Decl} (hbodies : ∀ body ∈ d.bodies, body.length ≤ source.settings.maxStatements)
    (hlabel : source.InLine d.detail) (hparts : ∀ m ∈ d.parts, m.AllFit source) : d.AllFit source :=
  .intro ⟨hbodies, hlabel⟩ hparts

end Decl

end CTree
