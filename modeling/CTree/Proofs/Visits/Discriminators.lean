import CTree.Proofs.Documents.Tree
import CTree.Proofs.Visits.Addresses
import Mathlib.Data.List.Perm.Basic

/-!
# Visits and documents

A document shows the form of a node as its discriminator. The discriminators of the document of a
program are the forms that a visit notes, and those of the program itself and of arms and
handlers, which a visit passes through. A declaration among statements is noted twice and has one
document.
-/

namespace CTree

open Content

namespace Json

/-- The text of a value that is one. -/
def texts : Json → List String
  | .str s => [s]
  | _ => []

/-- The discriminators in a document: the texts of its fields `type`. In the document of a
    parameter that field is the type of the parameter. -/
def discriminators (isParameter : Bool) : Json → List String
  | .arr elements => elements.flatMap fun e => discriminators isParameter e
  | .obj fields =>
    fields.flatMap fun f =>
      (if f.1 = "type" ∧ isParameter = false then f.2.texts else []) ++
        discriminators (f.1 == "parameters") f.2
  | _ => []
termination_by document => document
decreasing_by
  · have := List.sizeOf_lt_of_mem ‹e ∈ elements›
    simp
    omega
  · have := List.sizeOf_lt_of_mem ‹f ∈ fields›
    cases f
    simp at *
    omega

end Json

/-- A parameter of a function. -/
def Node.isParameter : Node → Bool
  | .parameter _ => true
  | _ => false

namespace Node

@[simp] theorem isParameter_parameter (p : Parameter) : (parameter p).isParameter = true := rfl

@[simp] theorem isParameter_program (p : Program) : (program p).isParameter = false := rfl

@[simp] theorem isParameter_expr (e : Expr) : (expr e).isParameter = false := rfl

@[simp] theorem isParameter_stmt (s : Stmt) : (stmt s).isParameter = false := rfl

@[simp] theorem isParameter_decl (d : Decl) : (decl d).isParameter = false := rfl

@[simp] theorem isParameter_arm (a : Arm) : (arm a).isParameter = false := rfl

@[simp] theorem isParameter_handler (h : Handler) : (handler h).isParameter = false := rfl

@[simp] theorem isParameter_capture (c : Capture) : (capture c).isParameter = false := rfl

@[simp] theorem isParameter_memberInit (m : MemberInit) : (memberInit m).isParameter = false := rfl

@[simp] theorem isParameter_enumerator (e : Enumerator) : (enumerator e).isParameter = false := rfl

end Node

/-- The form that a visit notes; a declaration among statements is noted as itself. -/
def Node.kind? : Node → Option String
  | .expr e => some e.tag
  | .stmt (.decl _) => none
  | .stmt s => some s.tag
  | .decl d => some d.tag
  | _ => none

/-- The discriminators of what a visit passes through. -/
def passedThrough : List String :=
  ["Program", "CaseStmt", "DefaultStmt", "CatchStmt"]

/-- The nodes that a visit of a program notes, each with the number of those around it. -/
def Program.visits (p : Program) : List (Nat × Node) :=
  (Node.program p).walk Node.isNoted 0

namespace Json

@[simp] theorem discriminators_str (b : Bool) (s : String) : (str s).discriminators b = [] := by
  simp [discriminators]

@[simp] theorem discriminators_bool (b value : Bool) : (bool value).discriminators b = [] := by
  simp [discriminators]

@[simp] theorem discriminators_int (b : Bool) (n : Int) : (int n).discriminators b = [] := by
  simp [discriminators]

@[simp] theorem discriminators_real (b : Bool) (x : Binary64) : (real x).discriminators b = [] := by
  simp [discriminators]

@[simp] theorem discriminators_null (b : Bool) : null.discriminators b = [] := by
  simp [discriminators]

@[simp] theorem discriminators_arr (b : Bool) (es : List Json) :
    (arr es).discriminators b = es.flatMap (discriminators b) := by
  rw [discriminators]

/-- The discriminators of an object: its own, and those in its fields. -/
theorem discriminators_obj (b : Bool) (fs : List (String × Json)) :
    (obj fs).discriminators b = fs.flatMap fun f =>
      (if f.1 = "type" ∧ b = false then f.2.texts else []) ++
        f.2.discriminators (f.1 == "parameters") := by
  rw [discriminators]

end Json

/-! ### Fields that are not taken for discriminators -/

namespace Content

/-- The parameters of a function are exactly what stands in fields of that name, and a field
    without nodes shows no discriminators. -/
def Tidy (name : String) : Content → Prop
  | .atom document => document.discriminators (name == "parameters") = []
  | c => ∀ m ∈ c.toNodes, m.isParameter = (name == "parameters")

/-- A field that is not taken for the discriminator of its node. -/
def TidyField (isParameter : Bool) (f : String × Content) : Prop :=
  (f.1 = "type" → isParameter = true) ∧ f.2.Tidy f.1

/-- No field of a node, of a parameter or of another one, is taken for a discriminator. -/
def TidyFields (isParameter : Bool) (fs : List (String × Content)) : Prop :=
  ∀ f ∈ fs, TidyField isParameter f

variable {isParameter : Bool} {name : String}

@[simp] theorem tidyFields_nil : TidyFields isParameter [] := by
  simp [TidyFields]

@[simp] theorem tidyFields_cons {f : String × Content} {fs : List (String × Content)} :
    TidyFields isParameter (f :: fs) ↔ TidyField isParameter f ∧ TidyFields isParameter fs :=
  List.forall_mem_cons

@[simp] theorem tidyFields_append {fs gs : List (String × Content)} :
    TidyFields isParameter (fs ++ gs) ↔ TidyFields isParameter fs ∧ TidyFields isParameter gs :=
  List.forall_mem_append

theorem Tidy.of_nodes {c : Content} (hname : name ≠ "parameters")
    (hc : ∀ document, c ≠ .atom document) (hnodes : ∀ m ∈ c.toNodes, m.isParameter = false) :
    c.Tidy name := by
  cases c
  case atom document => exact absurd rfl (hc document)
  all_goals
    intro m hm
    rw [hnodes m hm, beq_eq_false_iff_ne.2 hname]

@[simp] theorem tidy_ofText (value : String) :
    TidyField isParameter (ofText name value) ↔ (name = "type" → isParameter = true) := by
  simp [TidyField, ofText, Tidy]

@[simp] theorem tidy_ofFlag (value : Bool) :
    TidyField isParameter (ofFlag name value) ↔ (name = "type" → isParameter = true) := by
  simp [TidyField, ofFlag, Tidy]

@[simp] theorem tidy_atom {document : Json} : TidyField isParameter (name, .atom document) ↔
    (name = "type" → isParameter = true) ∧ document.discriminators (name == "parameters") = [] :=
  Iff.rfl

section Nodes

variable (htype : name ≠ "type") (hname : name ≠ "parameters")

include htype hname

theorem TidyField.of_nodes {c : Content} (hc : ∀ document, c ≠ .atom document)
    (hnodes : ∀ m ∈ c.toNodes, m.isParameter = false) : TidyField isParameter (name, c) :=
  ⟨fun h => absurd h htype, .of_nodes hname hc hnodes⟩

@[simp] theorem tidy_ofExpr (e : Expr) : TidyField isParameter (ofExpr name e) :=
  .of_nodes htype hname (by simp) (by simp)

@[simp] theorem tidy_ofStmt (s : Stmt) : TidyField isParameter (ofStmt name s) :=
  .of_nodes htype hname (by simp) (by simp)

@[simp] theorem tidy_ofDecl (d : Decl) : TidyField isParameter (ofDecl name d) :=
  .of_nodes htype hname (by simp) (by simp)

@[simp] theorem tidy_ofSize (e : Expr) : TidyField isParameter (ofSize name e) :=
  .of_nodes htype hname (by simp) (by simp)

@[simp] theorem tidy_ofExprs (es : List Expr) : TidyField isParameter (ofExprs name es) :=
  .of_nodes htype hname (by simp) (by simp)

@[simp] theorem tidy_ofBody (ss : List Stmt) : TidyField isParameter (ofBody name ss) :=
  .of_nodes htype hname (by simp) (by simp)

@[simp] theorem tidy_nodes {ns : List Node} (hns : ∀ n ∈ ns, n.isParameter = false) :
    TidyField isParameter (name, .nodes ns) :=
  .of_nodes htype hname (by simp) hns

end Nodes

@[simp] theorem tidy_ofParameters (ps : List Parameter) :
    TidyField isParameter (ofParameters ps) := by
  simp [TidyField, ofParameters, Tidy]

@[simp] theorem tidyFields_ofDimensions (ds : List (Option Expr)) :
    TidyFields isParameter (ofDimensions ds) := by
  cases ds with
  | nil => exact tidyFields_nil
  | cons d ds =>
    refine tidyFields_cons.2 ⟨.of_nodes (by decide) (by decide) (fun _ h => by cases h) ?_, by simp⟩
    intro m hm
    obtain ⟨n?, hn, rfl⟩ := List.mem_filterMap.1 hm
    obtain ⟨e?, -, he⟩ := List.mem_map.1 hn
    obtain ⟨e, -, rfl⟩ := Option.map_eq_some_iff.1 he
    rfl

@[simp] theorem tidyFields_ifPresent {α : Type} (field : String → α → String × Content)
    (a? : Option α) :
    TidyFields isParameter (ifPresent field name a?) ↔
      ∀ a, a? = some a → TidyField isParameter (field name a) := by
  cases a? <;> simp [ifPresent]

end Content

theorem BaseClass.discriminators_toJson (b : BaseClass) : b.toJson.discriminators false = [] := by
  simp [toJson, Json.discriminators_obj]

theorem TemplateParameter.discriminators_toJson (p : TemplateParameter) :
    p.toJson.discriminators false = [] := by
  obtain ⟨kind, name, type?, value?, isPack⟩ := p
  cases type? <;> cases value? <;> simp [toJson, Json.discriminators_obj]

theorem Query.tidy_fields (q : Query) : TidyFields false q.fields := by
  simp [fields]

theorem Expr.tidy_fields (e : Expr) : TidyFields false e.fields := by
  cases e
  case sizeof q | typeid q => exact q.tidy_fields
  all_goals simp [fields]

theorem Stmt.tidy_fields (s : Stmt) : TidyFields false s.fields := by
  cases s
  case decl d => exact tidyFields_cons.2 ⟨tidy_ofDecl (by decide) (by decide) d, tidyFields_nil⟩
  all_goals simp [fields, VarDecl.fields]

theorem Decl.tidy_fields (d : Decl) : TidyFields false d.fields := by
  cases d <;>
    simp [fields, BaseClass.discriminators_toJson, TemplateParameter.discriminators_toJson]

theorem Node.tidy_fields (n : Node) : TidyFields n.isParameter n.fields := by
  cases n
  case expr e => exact e.tidy_fields
  case stmt s => exact s.tidy_fields
  case decl d => exact d.tidy_fields
  all_goals simp [fields]

/-! ### The discriminators of a document are the forms that a visit notes -/

namespace Content

/-- What a field without discriminators of its own shows is what is shown by the nodes in it. -/
theorem discriminators_document {name : String} {c : Content} (h : c.Tidy name) :
    c.document.discriminators (name == "parameters") =
      c.toNodes.flatMap fun m => m.toJson.discriminators m.isParameter := by
  cases c with
  | atom document => exact h
  | node n | size n =>
    have hn := h n (by simp)
    simp [toNodes, document, toJson, hn]
  | nodes ns =>
    rw [document_nodes, Json.discriminators_arr, List.flatMap_map]
    exact List.flatMap_congr fun m hm => by rw [h m hm]
  | sizes ns => 
    rw [document_sizes, Json.discriminators_arr, List.flatMap_map, toNodes,
      List.filterMap_eq_flatMap_toList, List.flatMap_assoc]
    refine List.flatMap_congr fun n? hn => ?_
    cases n? with
    | none => simp [dimension]
    | some n =>
      have hn : n.isParameter = (name == "parameters") :=
        h n (List.mem_filterMap.2 ⟨some n, hn, rfl⟩)
      simp [dimension, hn]

end Content

namespace Node

theorem discriminators_tagField (n : Node) : (n.tagField.flatMap fun f =>
      (if f.1 = "type" ∧ n.isParameter = false then f.2.texts else []) ++
        f.2.discriminators (f.1 == "parameters")) = n.tag?.toList := by
  cases n <;> simp [tagField, tag?, Json.texts]

theorem discriminators_toJson {n : Node} (h : n.isLifted = false) :
    n.toJson.discriminators n.isParameter =
      n.tag?.toList ++ n.fields.flatMap fun f =>
        f.2.toNodes.flatMap fun m => m.toJson.discriminators m.isParameter := by
  rw [toJson_eq h, Json.discriminators_obj, List.flatMap_append, List.flatMap_map,
    discriminators_tagField]
  congr 1
  refine List.flatMap_congr fun f hf => ?_
  obtain ⟨hname, htidy⟩ := n.tidy_fields f hf
  have hown : ¬(f.1 = "type" ∧ n.isParameter = false) := by
    rintro ⟨htype, hn⟩
    rw [hname htype] at hn
    cases hn
  rw [discriminators_document htidy, if_neg hown, List.nil_append]

/-- The nodes in the fields are those that a traversal goes to, in another order. -/
theorem perm_children (n : Node) : (n.fields.flatMap fun f => f.2.toNodes).Perm n.parts := by
  rw [← children_eq_parts, children, ← List.flatMap_map]
  exact (List.filter_append_perm _ _).symm.flatMap_right _

/-- A discriminator that counts is that of a node that a visit notes. -/
theorem filter_tag (n : Node) (h : n.isLifted = false) :
    n.tag?.toList.filter (· ∉ passedThrough) = n.kind?.toList := by
  cases n
  case expr e => cases e <;> rfl
  case stmt s =>
    cases s
    case decl d => cases h
    all_goals rfl
  case decl d => cases d <;> rfl
  case arm a => cases h : a.value? <;> simp [tag?, h, kind?, passedThrough]
  all_goals rfl

theorem kind?_eq_none {n : Node} (h : n.isNoted = false) : n.kind? = none := by
  cases n <;> first | rfl | cases h

/-- The forms that a visit notes: that of a node, and those below it. -/
theorem filterMap_walk (n : Node) (depth : Nat) : ∃ inner,
    (n.walk isNoted depth).filterMap (·.2.kind?) =
      n.kind?.toList ++ n.parts.flatMap fun m => (m.walk isNoted inner).filterMap (·.2.kind?) := by
  rw [walk_eq_parts]
  cases h : n.isNoted with
  | true =>
    refine ⟨depth + 1, ?_⟩
    rw [if_pos rfl, List.filterMap_cons, List.filterMap_flatMap]
    cases n.kind? <;> rfl
  | false =>
    refine ⟨depth, ?_⟩
    rw [if_neg (by simp), List.filterMap_flatMap, kind?_eq_none h]
    rfl

/-- The discriminators of a document, but those of nodes that a visit passes through, are the forms
    that a visit notes. -/
theorem discriminators_perm (n : Node) (depth : Nat) :
    ((n.toJson.discriminators n.isParameter).filter (· ∉ passedThrough)).Perm
      ((n.walk isNoted depth).filterMap (·.2.kind?)) := by
  induction n using induction_parts generalizing depth with
  | step n ih =>
    obtain ⟨inner, hwalk⟩ := filterMap_walk n depth
    rw [hwalk]
    cases h : n.isLifted with
    | true =>
      obtain ⟨d, rfl⟩ := exists_of_isLifted h
      have hd := ih (decl d) (by simp [parts, Stmt.parts]) inner
      rw [toJson_decl]
      simpa [parts, Stmt.parts, kind?] using hd
    | false =>
      rw [discriminators_toJson h, List.filter_append, filter_tag n h, ← List.flatMap_assoc,
        List.filter_flatMap]
      refine .append_left _ ((n.perm_children.flatMap_right _).trans ?_)
      exact List.Perm.flatMap_left _ fun m hm => ih m hm inner

end Node

namespace Program

/-- What is noted of a program: each node that is visited, and what it holds if it is a leaf. -/
theorem events_eq_visits (p : Program) : p.events false = p.visits.flatMap fun (depth, n) =>
    (n.family?.map (note depth)).toList ++ (n.leaf?.map (note (depth + 1))).toList :=
  rfl

/-- A visit goes to each expression, statement and declaration of a program, and to the program,
    once: there is one address for each visit, the addresses are those of these nodes, and they
    stand in the order of lists, where parents are before their children. A visit is as deep as
    there are such nodes around. The forms that are noted are the discriminators of the document,
    without those of the program, of arms and of handlers. -/
theorem visits_complete (p : Program) :
    (∃ addresses : List (List Nat), addresses.Pairwise (· < ·) ∧
      (∀ a, a ∈ addresses ↔ ∃ m, (Node.program p).at? a = some m ∧ m.isNoted = true) ∧
      p.visits.map some =
        addresses.map fun a => ((Node.program p).at? a).map ((Node.program p).around a, ·)) ∧
    ((p.toJson.discriminators false).filter (· ∉ passedThrough)).Perm
      (p.visits.filterMap (·.2.kind?)) := by
  have hwalk := (Node.program p).walk_eq_noted 0
  simp only [Nat.zero_add] at hwalk
  have haddresses : ∀ a, a ∈ (Node.program p).noted ↔
      ∃ m, (Node.program p).at? a = some m ∧ m.isNoted = true := fun _ => Node.mem_noted
  exact ⟨⟨_, (Node.program p).pairwise_noted, haddresses, hwalk⟩,
    (Node.program p).discriminators_perm 0⟩

end Program

end CTree
