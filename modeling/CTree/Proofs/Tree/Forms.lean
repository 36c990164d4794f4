import CTree.Proofs.Tree.Sound

/-!
# Sound trees, form by form

A node is sound if its fields are. For each form of a node, one lemma says what this comes to: for
those that open no construct an equivalence, and for the others how they are put together.
-/

namespace CTree

open Content

variable {known : KnownTypes} {room room' inner : Nat}

/-- Everything from an expression on downwards is in order. -/
abbrev Expr.Sound (known : KnownTypes) (room : Nat) (e : Expr) : Prop :=
  Node.Sound known false room (.expr e)

/-- Everything from a statement on downwards is in order. -/
abbrev Stmt.Sound (known : KnownTypes) (room : Nat) (s : Stmt) : Prop :=
  Node.Sound known false room (.stmt s)

/-- Everything from a declaration on downwards is in order. -/
abbrev Decl.Sound (known : KnownTypes) (room : Nat) (d : Decl) : Prop :=
  Node.Sound known false room (.decl d)

abbrev Parameter.Sound (known : KnownTypes) (room : Nat) (p : Parameter) : Prop :=
  Node.Sound known false room (.parameter p)

abbrev Arm.Sound (known : KnownTypes) (room : Nat) (a : Arm) : Prop :=
  Node.Sound known false room (.arm a)

abbrev Handler.Sound (known : KnownTypes) (room : Nat) (h : Handler) : Prop :=
  Node.Sound known false room (.handler h)

abbrev Capture.Sound (known : KnownTypes) (room : Nat) (c : Capture) : Prop :=
  Node.Sound known false room (.capture c)

abbrev MemberInit.Sound (known : KnownTypes) (room : Nat) (m : MemberInit) : Prop :=
  Node.Sound known false room (.memberInit m)

abbrev Enumerator.Sound (known : KnownTypes) (room : Nat) (e : Enumerator) : Prop :=
  Node.Sound known false room (.enumerator e)

/-- A declaration that the head of a template may show, with everything below it in order. -/
def Decl.SoundHead (known : KnownTypes) (room : Nat) (d : Decl) : Prop :=
  d.IsHead ∧ Node.Sound known true room (.decl d)

/-- A declaration that may stand in a class, with everything below it in order. -/
def Decl.SoundMember (known : KnownTypes) (room : Nat) (d : Decl) : Prop :=
  d.Sound known room ∧ d.isOutside = false

/-- A declaration that may stand outside of classes, with everything below it in order. -/
def Decl.SoundFree (known : KnownTypes) (room : Nat) (d : Decl) : Prop :=
  d.Sound known room ∧ d.isMember = false

/-- A declaration that may stand in a class as well as outside, with everything below it in
    order. -/
def Decl.SoundAnywhere (known : KnownTypes) (room : Nat) (d : Decl) : Prop :=
  d.SoundMember known room ∧ d.SoundFree known room

/-- The variable of a statement, with everything below it in order. -/
abbrev VarDecl.Sound (known : KnownTypes) (room : Nat) (v : VarDecl) : Prop :=
  Stmt.Sound known room (.var v)

theorem Decl.Sound.anywhere {d : Decl} (h : d.Sound known room) (hmember : d.isMember = false)
    (houtside : d.isOutside = false) : d.SoundAnywhere known room :=
  ⟨⟨h, houtside⟩, h, hmember⟩

/-- What is inside of a query is sound, and its fields show whether it is for a type. -/
def Query.Sound (known : KnownTypes) (room : Nat) (q : Query) : Prop :=
  IsQuery q.fields ∧ Every (Node.Sound known false room) q.fields

namespace Expr

variable {e l r c : Expr} {es : List Expr} {size? : Option Expr}

/-- Where nothing stands inside of an expression. -/
def isAtom : Expr → Bool
  | .identifier _ | .string _ | .char _ | .int _ | .real _ | .bool _ | .null | .this
  | .templateId .. => true
  | _ => false

theorem sound_iff (h : (Node.expr e).opens false = false) : e.Sound known room ↔
    e.WellFormed ∧ Every (Node.Sound known false room) e.fields := by
  rw [Expr.Sound, Node.sound_iff_of_plain h]
  exact and_congr_right fun _ => and_iff_right trivial

theorem sound_of_isAtom (h : e.isAtom = true) : e.Sound known room := by
  cases e <;> simp [isAtom] at h
  all_goals
    rw [sound_iff rfl]
    simp [fields]

theorem sound_unary {op : UnaryOp} {fixity : Fixity} : (unary op fixity e).Sound known room ↔
    (fixity = .after → op = .inc ∨ op = .dec) ∧ e.Sound known room := by
  rw [sound_iff rfl]
  cases fixity <;> simp [fields]

theorem sound_binary {op : BinaryOp} :
    (binary op l r).Sound known room ↔ l.Sound known room ∧ r.Sound known room := by
  rw [sound_iff rfl]
  simp [fields]

theorem sound_conditional : (conditional c l r).Sound known room ↔
    c.Sound known room ∧ l.Sound known room ∧ r.Sound known room := by
  rw [sound_iff rfl]
  simp [fields]

theorem sound_call : (call c es).Sound known room ↔
    c.Sound known room ∧ ∀ e ∈ es, e.Sound known room := by
  rw [sound_iff rfl]
  simp [fields]

theorem sound_index :
    (index l r).Sound known room ↔ l.Sound known room ∧ r.Sound known room := by
  rw [sound_iff rfl]
  simp [fields]

theorem sound_member {arrow : Bool} {name : String} :
    (member e arrow name).Sound known room ↔ e.Sound known room := by
  rw [sound_iff rfl]
  simp [fields]

theorem sound_memberPointer {arrow : Bool} :
    (memberPointer l arrow r).Sound known room ↔ l.Sound known room ∧ r.Sound known room := by
  rw [sound_iff rfl]
  simp [fields]

theorem sound_new {type : String} : (new type es size? size?.isSome).Sound known room ↔
    (∀ e ∈ es, e.Sound known room) ∧ ∀ e, size? = some e → e.Sound known room := by
  rw [sound_iff rfl]
  cases size? <;> simp [fields, ifPresent, ofText, ofExprs, ofSize, ofFlag]

theorem sound_delete {isArray : Bool} :
    (delete e isArray).Sound known room ↔ e.Sound known room := by
  rw [sound_iff rfl]
  simp [fields]

theorem sound_sizeof {q : Query} : (sizeof q).Sound known room ↔ q.Sound known room :=
  sound_iff rfl

theorem sound_typeid {q : Query} : (typeid q).Sound known room ↔ q.Sound known room :=
  sound_iff rfl

theorem sound_cast {kind : CastKind} {type : String} :
    (cast kind type e).Sound known room ↔ e.Sound known room := by
  rw [sound_iff rfl]
  simp [fields]

theorem sound_initializers (hlt : inner < room) (h : ∀ e ∈ es, e.Sound known inner) :
    (initializers es).Sound known room := by
  refine .construct trivial trivial hlt ?_
  simpa [Node.fields, Node.isTemplate, fields] using h

end Expr

theorem Query.sound_type {name : String} : (type name).Sound known room := by
  constructor
  · simp [IsQuery, fields, ifPresent, ofFlag, ofText]
  · simp [fields]

theorem Query.sound_value {e : Expr} : (value e).Sound known room ↔ e.Sound known room := by
  have hquery : IsQuery (value e).fields := by
    simp [IsQuery, fields, ifPresent, ofFlag, ofExpr]
  rw [Query.Sound, and_iff_right hquery]
  simp [fields]

/-! ### Statements -/

namespace Stmt

variable {e : Expr} {s : Stmt} {ss : List Stmt}

/-- Where nothing stands inside of a statement. -/
def isAtom : Stmt → Bool
  | .breaking | .continuing | .goto _ | .label _ => true
  | _ => false

theorem sound_iff (h : (Node.stmt s).opens false = false) : s.Sound known room ↔
    s.WellFormed ∧ Every (Node.Sound known false room) s.fields := by
  rw [Stmt.Sound, Node.sound_iff_of_plain h]
  exact and_congr_right fun _ => and_iff_right trivial

/-- A construct, by what is inside of it, where there is room for one construct less. -/
theorem sound_construct (hshape : s.WellFormed) (h : Every (Node.Sound known false room) s.fields) :
    s.Sound known (room + 1) :=
  .construct hshape trivial (Nat.lt_succ_self room) h

theorem sound_of_isAtom (h : s.isAtom = true) : s.Sound known room := by
  cases s <;> simp [isAtom] at h
  all_goals
    rw [sound_iff rfl]
    simp [fields]

theorem sound_expr :
    (expr e).Sound known room ↔ e.isAssignment = false ∧ e.Sound known room := by
  rw [sound_iff rfl]
  simp [fields]

theorem sound_block : (block ss).Sound known room ↔ ∀ s ∈ ss, s.Sound known room := by
  rw [sound_iff rfl]
  simp [fields]

theorem sound_returning {value? : Option Expr} :
    (returning value?).Sound known room ↔ ∀ e, value? = some e → e.Sound known room := by
  rw [sound_iff rfl]
  simp [fields]

theorem sound_throwing {value? : Option Expr} :
    (throwing value?).Sound known room ↔ ∀ e, value? = some e → e.Sound known room := by
  rw [sound_iff rfl]
  simp [fields]

theorem sound_var {v : VarDecl} : (var v).Sound known room ↔
    (∀ e, v.init? = some e → e.Sound known room) ∧
      ∀ e, some e ∈ v.dimensions → e.Sound known room := by
  rw [sound_iff rfl]
  simp [fields, VarDecl.fields]

theorem sound_assign {target value : Expr} {op : BinaryOp} :
    (assign target op value).Sound known room ↔
      op.isAssignment = true ∧ target.Sound known room ∧ value.Sound known room := by
  rw [sound_iff rfl]
  simp [fields]

theorem sound_decl {d : Decl} : (decl d).Sound known room ↔ d.SoundFree known room := by
  rw [sound_iff rfl]
  simp [fields, Decl.SoundFree, and_comm]

theorem sound_ifElse {no? : Option Stmt} (hcondition : e.Sound known room)
    (hyes : s.Sound known room) (hno : ∀ s, no? = some s → s.Sound known room) :
    (ifElse e s no?).Sound known (room + 1) := by
  refine sound_construct trivial ?_
  simpa [fields] using ⟨hcondition, hyes, hno⟩

theorem sound_whileLoop (hcondition : e.Sound known room) (hbody : s.Sound known room) :
    (whileLoop e s).Sound known (room + 1) := by
  refine sound_construct trivial ?_
  simpa [fields] using ⟨hcondition, hbody⟩

theorem sound_doLoop (hbody : s.Sound known room) (hcondition : e.Sound known room) :
    (doLoop s e).Sound known (room + 1) := by
  refine sound_construct trivial ?_
  simpa [fields] using ⟨hbody, hcondition⟩

theorem sound_forLoop {init? : Option Stmt} {condition? step? : Option Expr}
    (hinit : ∀ s, init? = some s → s.Sound known room)
    (hcondition : ∀ e, condition? = some e → e.Sound known room)
    (hstep : ∀ e, step? = some e → e.Sound known room) (hbody : s.Sound known room) :
    (forLoop init? condition? step? s).Sound known (room + 1) := by
  refine sound_construct trivial ?_
  simpa [fields] using ⟨hinit, hcondition, hstep, hbody⟩

theorem sound_of_isBareVariable (h : s.IsBareVariable) : s.Sound known room := by
  cases s with
  | var v =>
    obtain ⟨hinit, hdimensions⟩ := h
    rw [sound_var, hinit, hdimensions]
    simp
  | _ => exact h.elim

theorem sound_rangeLoop {head : Stmt} (hhead : head.IsBareVariable) (hrange : e.Sound known room)
    (hbody : s.Sound known room) : (rangeLoop head e s).Sound known (room + 1) := by
  refine sound_construct hhead ?_
  have hhead : head.Sound known room := sound_of_isBareVariable hhead
  simpa [fields] using ⟨hhead, hrange, hbody⟩

theorem sound_switch {arms : List Arm} (hcondition : e.Sound known room)
    (harms : ∀ a ∈ arms, a.Sound known room) :
    (switch e arms).Sound known (room + 1) := by
  refine sound_construct trivial ?_
  simpa [fields] using ⟨hcondition, harms⟩

theorem sound_trying {handlers : List Handler} (hbody : ∀ s ∈ ss, s.Sound known room)
    (hne : handlers ≠ []) (hhandlers : ∀ h ∈ handlers, h.Sound known room) :
    (trying ss handlers).Sound known (room + 1) := by
  refine sound_construct hne ?_
  simpa [fields] using ⟨hbody, hhandlers⟩

end Stmt

/-! ### Small records -/

/-- Whether a node is one of the small records. -/
def Node.isRecord : Node → Bool
  | .parameter _ | .arm _ | .handler _ | .capture _ | .memberInit _ | .enumerator _ => true
  | _ => false

/-- A small record is in order if all that stands inside of it is. -/
theorem Node.sound_record {n : Node} (h : n.isRecord = true) :
    Node.Sound known false room n ↔ Every (Node.Sound known false room) n.fields := by
  cases n <;> simp [isRecord] at h
  all_goals
    rw [Node.sound_iff_of_plain rfl]
    exact (and_iff_right trivial).trans (and_iff_right trivial)

theorem Parameter.sound_iff {p : Parameter} : p.Sound known room ↔
    ∀ e, p.default? = some e → e.Sound known room := by
  rw [Sound, Node.sound_record rfl]
  simp [Node.fields]

theorem Arm.sound_iff {a : Arm} : a.Sound known room ↔
    (∀ e, a.value? = some e → e.Sound known room) ∧ ∀ s ∈ a.body, s.Sound known room := by
  rw [Sound, Node.sound_record rfl]
  simp [Node.fields]

theorem Handler.sound_iff {h : Handler} : h.Sound known room ↔
    ∀ s ∈ h.body, s.Sound known room := by
  rw [Sound, Node.sound_record rfl]
  simp [Node.fields]

theorem Capture.sound_iff {c : Capture} : c.Sound known room ↔
    ∀ e, c.init? = some e → e.Sound known room := by
  rw [Sound, Node.sound_record rfl]
  simp [Node.fields]

theorem MemberInit.sound_iff {m : MemberInit} : m.Sound known room ↔
    ∀ e ∈ m.arguments, e.Sound known room := by
  rw [Sound, Node.sound_record rfl]
  simp [Node.fields]

theorem Enumerator.sound_iff {e : Enumerator} : e.Sound known room ↔
    ∀ v, e.value? = some v → v.Sound known room := by
  rw [Sound, Node.sound_record rfl]
  simp [Node.fields]

/-- A lambda is a construct around its body. -/
theorem Expr.sound_lambda {captures : List Capture} {ps : List Parameter}
    {returnType? : Option String} {body : List Stmt} {isMutable : Bool}
    (hcaptures : ∀ c ∈ captures, c.Sound known room)
    (hparameters : ∀ p ∈ ps, p.Sound known room)
    (hbody : ∀ s ∈ body, s.Sound known room) :
    (lambda captures ps returnType? body isMutable).Sound known (room + 1) := by
  refine .construct trivial trivial (Nat.lt_succ_self room) ?_
  simpa [Node.fields, Node.isTemplate, fields] using ⟨hcaptures, hparameters, hbody⟩

/-! ### Declarations -/

namespace Decl

/-- Where nothing stands inside of a declaration, and no type is introduced. -/
def isAtom : Decl → Bool
  | .friend _ | .usingAlias .. | .usingName _ | .usingNamespace _ | .directive .. => true
  | _ => false

theorem sound_iff {d : Decl} (h : (Node.decl d).opens false = false)
    (htemplate : (Node.decl d).isTemplate = false) : d.Sound known room ↔
      d.WellFormed ∧ (Node.decl d).Introduces known ∧ Every (Node.Sound known false room) d.fields := by
  rw [Decl.Sound, Node.sound_iff_of_plain h, htemplate]
  exact Iff.rfl

theorem sound_of_isAtom {d : Decl} (h : d.isAtom = true) : d.Sound known room := by
  cases d <;> simp [isAtom] at h
  all_goals
    rw [sound_iff rfl rfl]
    simp [fields]

theorem sound_function {f : FunctionDecl} : (function f).Sound known room ↔
    (∀ p ∈ f.parameters, p.Sound known room) ∧
      ∀ ss, f.body? = some ss → ∀ s ∈ ss, s.Sound known room := by
  rw [sound_iff rfl rfl]
  simp [fields]

theorem sound_method {m : MethodDecl} : (method m).Sound known room ↔
    (∀ p ∈ m.parameters, p.Sound known room) ∧
      ∀ ss, m.body? = some ss → ∀ s ∈ ss, s.Sound known room := by
  rw [sound_iff rfl rfl]
  simp [fields]

theorem sound_constructor {c : ConstructorDecl} : (constructor c).Sound known room ↔
    (∀ p ∈ c.parameters, p.Sound known room) ∧
      (∀ m ∈ c.initializers, m.Sound known room) ∧
      ∀ ss, c.body? = some ss → ∀ s ∈ ss, s.Sound known room := by
  rw [sound_iff rfl rfl]
  simp [fields]

theorem sound_destructor {d : DestructorDecl} : (destructor d).Sound known room ↔
    ∀ ss, d.body? = some ss → ∀ s ∈ ss, s.Sound known room := by
  rw [sound_iff rfl rfl]
  simp [fields]

theorem sound_operator {o : OperatorDecl} : (operator o).Sound known room ↔
    (∀ p ∈ o.parameters, p.Sound known room) ∧
      ∀ ss, o.body? = some ss → ∀ s ∈ ss, s.Sound known room := by
  rw [sound_iff rfl rfl]
  simp [fields]

theorem sound_field {f : FieldDecl} : (field f).Sound known room ↔
    (∀ e, f.init? = some e → e.Sound known room) ∧
      (∀ e, some e ∈ f.dimensions → e.Sound known room) ∧
      ∀ e, f.bitWidth? = some e → e.Sound known room := by
  rw [sound_iff rfl rfl]
  simp [fields]

theorem sound_enumType {e : EnumDecl} : (enumType e).Sound known room ↔
    (e.name ≠ "" → e.name ∈ known.names) ∧
      ∀ v ∈ e.enumerators, v.Sound known room := by
  rw [sound_iff rfl rfl]
  simp [fields]

theorem sound_typedef {type synonym : String} {definition? : Option Decl} :
    (typedef type synonym definition?).Sound known room ↔ synonym ∈ known.names ∧
      ∀ d, definition? = some d → d.SoundFree known room := by
  rw [sound_iff rfl rfl]
  cases definition? <;>
    simp [fields, SoundFree,
      and_comm, and_left_comm]

theorem sound_staticAssert {condition : Expr} {message? : Option String} :
    (staticAssert condition message?).Sound known room ↔ condition.Sound known room := by
  rw [sound_iff rfl rfl]
  simp [fields]

theorem sound_template {ps : List TemplateParameter} {head : String}
    {declaration? : Option Decl} (h : ∀ d, declaration? = some d → d.SoundHead known room) :
    (template ps head declaration?).Sound known room := by
  rw [Decl.Sound, Node.sound_iff_of_plain rfl]
  refine ⟨?_, ?_, ?_⟩
  · cases declaration? with
    | none => trivial
    | some d => exact (h d rfl).1
  · simp
  · simpa [Node.fields, Node.isTemplate, fields] using fun d hd => (h d hd).2

theorem sound_namespaceBlock {name : String} {ss : List Stmt} (hlt : inner < room)
    (h : ∀ s ∈ ss, s.Sound known inner) : (namespaceBlock name ss).Sound known room := by
  refine .construct trivial ?_ hlt ?_
  · simp
  · simpa [Node.fields, Node.isTemplate, fields] using h

@[simp]
theorem introduced?_ofKey {key : ClassKey} {name : String} {bases : List BaseClass}
    {ds : List Decl} {isForward : Bool} :
    (classType (.ofKey key name bases ds isForward)).introduced? =
      if name = "" then none else some (TypeText.untilArguments name) :=
  rfl

/-- A class with a body is a construct around its members. -/
theorem sound_classType {key : ClassKey} {name : String} {bases : List BaseClass} {ds : List Decl}
    (hname : name ≠ "" → TypeText.untilArguments name ∈ known.names) (hlt : inner < room)
    (h : ∀ d ∈ ds, d.SoundMember known inner) :
    (classType (.ofKey key name bases ds false)).Sound known room := by
  refine .construct ?_ ?_ hlt ?_
  · refine ⟨fun hforward => (Bool.false_ne_true hforward).elim, fun d hd => (h d hd).2, ?_⟩
    cases key <;> simp [ClassDecl.ofKey, fields, ofFlag, ofText]
  · simpa [-introduced?] using hname
  · simpa [ClassDecl.ofKey, Node.fields, Node.isTemplate, fields] using fun d hd => (h d hd).1

/-- Of a class that is only declared, or that stands in a template, nothing is inside. -/
theorem sound_declared {inTemplate : Bool} {key : ClassKey} {name : String}
    {bases : List BaseClass} {isForward : Bool}
    (hname : name ≠ "" → TypeText.untilArguments name ∈ known.names)
    (hforward : isForward = true → bases = [])
    (hopens : isForward = true ∨ inTemplate = true) :
    Node.Sound known inTemplate room (.decl (classType (.ofKey key name bases [] isForward))) := by
  rw [Node.sound_iff_of_plain (by rcases hopens with rfl | rfl <;> simp [ClassDecl.ofKey])]
  refine ⟨⟨fun h => ⟨hforward h, rfl⟩, by simp [ClassDecl.ofKey], ?_⟩, ?_, ?_⟩
  · cases key <;> simp [ClassDecl.ofKey, fields, ofFlag, ofText]
  · simpa [-introduced?] using hname
  · simp [ClassDecl.ofKey, Node.fields, fields]

end Decl

end CTree
