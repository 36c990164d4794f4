import CTree.Ast.Document
import Mathlib.Data.List.Basic

/-!
# Nodes by their fields

Nodes that may stand in one place of a tree are told apart by their discriminators and their
fields. A discriminator names one form, in which every field has contents of one form too. No
attribute is lost in a field: an optional one is told from a missing one by the name of the field.
-/

namespace CTree

open Content

/-! ### Words and small records -/

/-- An operator is known by its spelling. -/
@[simp]
theorem BinaryOp.symbol_inj {op op' : BinaryOp} : op.symbol = op'.symbol ↔ op = op' := by
  refine ⟨fun h => ?_, fun h => by rw [h]⟩
  cases op <;> cases op' <;> first | rfl | exact absurd h (by decide)

@[simp]
theorem UnaryOp.symbol_inj {op op' : UnaryOp} : op.symbol = op'.symbol ↔ op = op' := by
  refine ⟨fun h => ?_, fun h => by rw [h]⟩
  cases op <;> cases op' <;> first | rfl | exact absurd h (by decide)

@[simp]
theorem Fixity.eq_after_iff {f f' : Fixity} : (f = .after ↔ f' = .after) ↔ f = f' := by
  cases f <;> cases f' <;> decide

@[simp]
theorem Access.word_inj {a a' : Access} : a.word = a'.word ↔ a = a' := by
  cases a <;> cases a' <;> decide

@[simp]
theorem CastKind.word_inj {k k' : CastKind} : k.word = k'.word ↔ k = k' := by
  cases k <;> cases k' <;> decide

/-- A field that may be missing, before fields of other names. -/
theorem optional_append_inj {α β : Type} {name : String} {value : α → β}
    (hvalue : ∀ a b, value a = value b → a = b) {a? b? : Option α} {fs gs : List (String × β)}
    (hfs : name ∉ fs.map Prod.fst) (hgs : name ∉ gs.map Prod.fst) :
    (a?.map fun a => (name, value a)).toList ++ fs =
      (b?.map fun b => (name, value b)).toList ++ gs ↔ a? = b? ∧ fs = gs := by
  constructor
  · intro h
    cases a? with
    | none =>
      cases b? with
      | none => exact ⟨rfl, h⟩
      | some b =>
        obtain rfl : fs = (name, value b) :: gs := h
        simp at hfs
    | some a =>
      cases b? with
      | none =>
        obtain rfl : (name, value a) :: fs = gs := h
        simp at hgs
      | some b =>
        obtain ⟨hhead, htail⟩ := List.cons.inj h
        obtain rfl := hvalue a b (Prod.mk.inj hhead).2
        exact ⟨rfl, htail⟩
  · rintro ⟨rfl, rfl⟩
    rfl

theorem optional_inj {α β : Type} {name : String} {value : α → β}
    (hvalue : ∀ a b, value a = value b → a = b) {a? b? : Option α} :
    (a?.map fun a => (name, value a)).toList = (b?.map fun b => (name, value b)).toList ↔
      a? = b? := by
  have h : (a?.map fun a => (name, value a)).toList ++ [] =
      (b?.map fun b => (name, value b)).toList ++ [] ↔ a? = b? ∧ [] = [] :=
    optional_append_inj hvalue List.not_mem_nil List.not_mem_nil
  simpa using h

theorem mem_names_optional {α β : Type} {name key : String} {value : α → β} {a? : Option α} :
    key ∈ (a?.map fun a => (name, value a)).toList.map Prod.fst ↔ key = name ∧ a?.isSome := by
  cases a? <;> simp

@[simp]
theorem BaseClass.toJson_inj {b b' : BaseClass} : b.toJson = b'.toJson ↔ b = b' := by
  obtain ⟨name, access, isVirtual⟩ := b
  obtain ⟨name', access', isVirtual'⟩ := b'
  simp [toJson]

@[simp]
theorem TemplateParameter.toJson_inj {p p' : TemplateParameter} :
    p.toJson = p'.toJson ↔ p = p' := by
  obtain ⟨kind, name, type?, value?, isPack⟩ := p
  obtain ⟨kind', name', type?', value?', isPack'⟩ := p'
  simp [toJson, optional_append_inj, optional_inj, mem_names_optional]

/-! ### Contents of one form -/

/-- The families of nodes: one node may stand in place of another of its family. -/
inductive Node.Family
  | program
  | expr
  | stmt
  | decl
  | parameter
  | arm
  | handler
  | capture
  | memberInit
  | enumerator

/-- The family of a node. -/
@[simp]
def Node.family : Node → Node.Family
  | .program _ => .program
  | .expr _ => .expr
  | .stmt _ => .stmt
  | .decl _ => .decl
  | .parameter _ => .parameter
  | .arm _ => .arm
  | .handler _ => .handler
  | .capture _ => .capture
  | .memberInit _ => .memberInit
  | .enumerator _ => .enumerator

namespace Content

/-- Contents of one kind, with nodes of one family. -/
inductive Alike : Content → Content → Prop
  | atom {a b : Json} : Alike (.atom a) (.atom b)
  | node {n m : Node} (h : n.family = m.family) : Alike (.node n) (.node m)
  | size {n m : Node} (h : n.family = m.family) : Alike (.size n) (.size m)
  | nodes {ns ms : List Node} (h : ∀ n ∈ ns, ∀ m ∈ ms, n.family = m.family) :
    Alike (.nodes ns) (.nodes ms)
  | sizes {ns ms : List (Option Node)}
    (h : ∀ n, some n ∈ ns → ∀ m, some m ∈ ms → n.family = m.family) : Alike (.sizes ns) (.sizes ms)

@[simp]
theorem alike_atom {a b : Json} : Alike (.atom a) (.atom b) :=
  .atom

@[simp]
theorem alike_node {n m : Node} : Alike (.node n) (.node m) ↔ n.family = m.family :=
  ⟨fun h => by cases h; assumption, .node⟩

@[simp]
theorem alike_size {n m : Node} : Alike (.size n) (.size m) ↔ n.family = m.family :=
  ⟨fun h => by cases h; assumption, .size⟩

@[simp]
theorem alike_nodes {ns ms : List Node} : Alike (.nodes ns) (.nodes ms) ↔
    ∀ n ∈ ns, ∀ m ∈ ms, n.family = m.family :=
  ⟨fun h => by cases h; assumption, .nodes⟩

@[simp]
theorem alike_sizes {ns ms : List (Option Node)} : Alike (.sizes ns) (.sizes ms) ↔
    ∀ n, some n ∈ ns → ∀ m, some m ∈ ms → n.family = m.family :=
  ⟨fun h => by cases h; assumption, .sizes⟩

/-- A field has contents of one form with each of the fields that have its name. -/
def AlikeTo (f : String × Content) (gs : List (String × Content)) : Prop :=
  ∀ g ∈ gs, f.1 = g.1 → f.2.Alike g.2

/-- Fields of which those with one name have contents of one form. -/
def AlikeFields (fs gs : List (String × Content)) : Prop :=
  ∀ f ∈ fs, AlikeTo f gs

theorem ifPresent_eq {α : Type} (field : String → α → String × Content) (name : String)
    (a? : Option α) : ifPresent field name a? = (a?.map fun a => field name a).toList :=
  rfl

theorem mem_names_ofDimensions {key : String} {ds : List (Option Expr)} :
    key ∈ (ofDimensions ds).map Prod.fst ↔ key = "dimensions" ∧ ds ≠ [] := by
  cases ds <;> simp [ofDimensions]

theorem ofDimensions_append_inj {ds ds' : List (Option Expr)} {fs gs : List (String × Content)}
    (hfs : "dimensions" ∉ fs.map Prod.fst) (hgs : "dimensions" ∉ gs.map Prod.fst) :
    ofDimensions ds ++ fs = ofDimensions ds' ++ gs ↔ ds = ds' ∧ fs = gs := by
  have hexpr : (Option.map Node.expr).Injective := Option.map_injective fun _ _ => Node.expr.inj
  cases ds with
  | nil =>
    cases ds' with
    | nil => simp [ofDimensions]
    | cons d ds' =>
      refine ⟨fun h => ?_, fun h => by cases h.1⟩
      obtain rfl : fs = _ := h
      simp [ofDimensions] at hfs
  | cons d ds =>
    cases ds' with
    | nil =>
      refine ⟨fun h => ?_, fun h => by cases h.1⟩
      obtain rfl : _ = gs := h
      simp [ofDimensions] at hgs
    | cons d' ds' => simp [ofDimensions, hexpr.eq_iff, (List.map_injective_iff.2 hexpr).eq_iff]

theorem ofDimensions_inj {ds ds' : List (Option Expr)} :
    ofDimensions ds = ofDimensions ds' ↔ ds = ds' := by
  have h : ofDimensions ds ++ [] = ofDimensions ds' ++ [] ↔ ds = ds' ∧ [] = [] :=
    ofDimensions_append_inj List.not_mem_nil List.not_mem_nil
  simpa using h

end Content

theorem Query.fields_inj {q q' : Query} : q.fields = q'.fields ↔ q = q' := by
  obtain ⟨isType, type?, operand?⟩ := q
  obtain ⟨isType', type?', operand?'⟩ := q'
  simp [fields, ifPresent_eq, ofFlag, ofText, ofExpr, optional_append_inj, optional_inj,
    mem_names_optional]

theorem VarDecl.fields_inj {v v' : VarDecl} : v.fields = v'.fields ↔ v = v' := by
  obtain ⟨type, name, init?, storage?, dimensions⟩ := v
  obtain ⟨type', name', init?', storage?', dimensions'⟩ := v'
  simp [fields, ifPresent_eq, ofDimensions_inj, ofText, ofExpr, optional_append_inj,
    mem_names_optional, mem_names_ofDimensions]

/-- An expression is known by its discriminator and its fields. -/
theorem Expr.eq_of_fields {e e' : Expr} (htag : e.tag = e'.tag) (h : e.fields = e'.fields) :
    e = e' := by
  cases e <;> cases e' <;> simp only [tag, String.reduceEq] at htag
  all_goals simp_all [fields, Query.fields_inj, ifPresent_eq, ofFlag, ofText, ofExpr, ofExprs,
    ofBody, ofParameters, ofSize, optional_append_inj, optional_inj, List.map_inj_right,
    Int64.toInt_inj]

theorem Stmt.eq_of_fields {s s' : Stmt} (hs : ∀ d, s ≠ .decl d) (hs' : ∀ d, s' ≠ .decl d)
    (htag : s.tag = s'.tag) (h : s.fields = s'.fields) : s = s' := by
  cases s <;> try exact (hs _ rfl).elim
  all_goals
    cases s' <;> try exact (hs' _ rfl).elim
    all_goals simp only [tag, String.reduceEq] at htag
  all_goals clear hs hs'
  all_goals simp_all [fields, VarDecl.fields_inj, ifPresent_eq, ofText, Content.ofExpr, ofStmt,
    ofBody, optional_append_inj, optional_inj, mem_names_optional, List.map_inj_right]

theorem Decl.eq_of_fields {d d' : Decl} (htag : d.tag = d'.tag) (h : d.fields = d'.fields) :
    d = d' := by
  cases d <;> cases d' <;> simp only [tag, String.reduceEq] at htag
  case function.function f f' | method.method f f' | constructor.constructor f f'
      | destructor.destructor f f' | operator.operator f f' | field.field f f'
      | classType.classType f f' | enumType.enumType f f' =>
    cases f
    cases f'
    simp_all [fields, ifPresent_eq, ofDimensions_append_inj, ofFlag, ofText, ofExpr, ofBody,
      ofParameters, ofSize, optional_append_inj, optional_inj, mem_names_optional,
      mem_names_ofDimensions, List.map_inj_right]
  all_goals simp_all [fields, ifPresent_eq, ofText, ofExpr, ofDecl, ofBody, optional_inj,
    List.map_inj_right]

/-! ### Forms -/

namespace Content

section Forms

variable {fs gs hs : List (String × Content)} {f g : String × Content}

@[simp]
theorem alikeTo_nil : AlikeTo f [] := by
  simp [AlikeTo]

@[simp]
theorem alikeTo_cons : AlikeTo f (g :: gs) ↔ (f.1 = g.1 → f.2.Alike g.2) ∧ AlikeTo f gs := by
  simp [AlikeTo]

@[simp]
theorem alikeTo_append : AlikeTo f (gs ++ hs) ↔ AlikeTo f gs ∧ AlikeTo f hs := by
  simp [AlikeTo, or_imp, forall_and]

@[simp]
theorem alikeTo_ifPresent {α : Type} {field : String → α → String × Content} {name : String}
    {a? : Option α} : AlikeTo f (ifPresent field name a?) ↔
      ∀ a, a? = some a → f.1 = (field name a).1 → f.2.Alike (field name a).2 := by
  cases a? <;> simp [ifPresent, AlikeTo]

@[simp]
theorem alikeTo_ofDimensions {ds : List (Option Expr)} : AlikeTo f (ofDimensions ds) ↔
    (ds ≠ [] → f.1 = "dimensions" → f.2.Alike (.sizes (ds.map (Option.map .expr)))) := by
  cases ds <;> simp [ofDimensions]

@[simp]
theorem alikeFields_nil : AlikeFields [] gs := by
  simp [AlikeFields]

@[simp]
theorem alikeFields_cons : AlikeFields (f :: fs) gs ↔ AlikeTo f gs ∧ AlikeFields fs gs := by
  simp [AlikeFields]

@[simp]
theorem alikeFields_append : AlikeFields (fs ++ gs) hs ↔ AlikeFields fs hs ∧ AlikeFields gs hs := by
  simp [AlikeFields, or_imp, forall_and]

@[simp]
theorem alikeFields_ifPresent {α : Type} {field : String → α → String × Content} {name : String}
    {a? : Option α} : AlikeFields (ifPresent field name a?) gs ↔
      ∀ a, a? = some a → AlikeTo (field name a) gs := by
  cases a? <;> simp [ifPresent]

@[simp]
theorem alikeFields_ofDimensions {ds : List (Option Expr)} : AlikeFields (ofDimensions ds) gs ↔
    (ds ≠ [] → AlikeTo ("dimensions", .sizes (ds.map (Option.map .expr))) gs) := by
  cases ds <;> simp [ofDimensions]

end Forms

end Content

theorem Query.alikeFields (q q' : Query) : AlikeFields q.fields q'.fields := by
  simp [fields, ofFlag, ofText, ofExpr]

theorem VarDecl.alikeFields (v v' : VarDecl) : AlikeFields v.fields v'.fields := by
  simp [fields, ofText, ofExpr]

theorem Expr.alikeFields {e e' : Expr} (htag : e.tag = e'.tag) :
    AlikeFields e.fields e'.fields := by
  cases e <;> cases e' <;> simp only [tag, String.reduceEq] at htag
  case sizeof.sizeof q q' | typeid.typeid q q' => exact q.alikeFields q'
  all_goals simp [fields, ofText, ofExpr, ofExprs, ofFlag, ofSize, ofBody, ofParameters]

theorem Stmt.alikeFields {s s' : Stmt} (hs : ∀ d, s ≠ .decl d) (hs' : ∀ d, s' ≠ .decl d)
    (htag : s.tag = s'.tag) : AlikeFields s.fields s'.fields := by
  cases s <;> try exact (hs _ rfl).elim
  all_goals
    cases s' <;> try exact (hs' _ rfl).elim
    all_goals simp only [tag, String.reduceEq] at htag
  case var.var v v' => exact v.alikeFields v'
  all_goals simp [fields, ofText, Content.ofExpr, ofStmt, ofBody]

theorem Decl.alikeFields {d d' : Decl} (htag : d.tag = d'.tag) :
    AlikeFields d.fields d'.fields := by
  cases d <;> cases d' <;> simp only [tag, String.reduceEq] at htag
  all_goals simp [fields, ofText, ofFlag, ofExpr, ofSize, ofDecl, ofBody, ofParameters]

/-! ### Nodes -/

namespace Node

variable {n m : Node}

/-- A declaration among statements, which stands as itself in a document. -/
def isLifted : Node → Bool
  | .stmt (.decl _) => true
  | _ => false

theorem alikeFields (hfamily : n.family = m.family) (hn : n.isLifted = false)
    (hm : m.isLifted = false) (htag : n.tag? = m.tag?) : AlikeFields n.fields m.fields := by
  cases n <;> cases m <;> cases hfamily
  case expr.expr e e' => exact Expr.alikeFields (Option.some.inj htag)
  case stmt.stmt s s' =>
    refine Stmt.alikeFields ?_ ?_ (Option.some.inj htag)
    · rintro d rfl
      cases hn
    · rintro d rfl
      cases hm
  case decl.decl d d' => exact Decl.alikeFields (Option.some.inj htag)
  all_goals simp [fields, ofText, ofFlag, ofExpr, ofExprs, ofBody]

theorem eq_of_fields (hfamily : n.family = m.family) (hn : n.isLifted = false)
    (hm : m.isLifted = false) (htag : n.tag? = m.tag?) (h : n.fields = m.fields) : n = m := by
  cases n <;> cases m <;> cases hfamily
  case expr.expr e e' => rw [Expr.eq_of_fields (Option.some.inj htag) h]
  case stmt.stmt s s' =>
    rw [Stmt.eq_of_fields ?_ ?_ (Option.some.inj htag) h]
    · rintro d rfl
      cases hn
    · rintro d rfl
      cases hm
  case decl.decl d d' => rw [Decl.eq_of_fields (Option.some.inj htag) h]
  all_goals
    rename_i r r'
    cases r
    cases r'
    simp_all [fields, ifPresent_eq, ofText, ofFlag, ofExpr, ofExprs, ofBody, optional_inj,
      List.map_inj_right]

/-- No other statement has the discriminator of a declaration. -/
theorem tag_ne_of_isLifted {s : Stmt} (hs : (stmt s).isLifted = false) (d : Decl) :
    s.tag ≠ d.tag := by
  cases s <;> try cases hs
  all_goals cases d <;> simp [Stmt.tag, Decl.tag]

end Node

end CTree
