import CTree.Outcome
import CTree.Proofs.Documents.Text
import CTree.Proofs.Documents.Tree
import CTree.Proofs.Tree.Sound

/-!
# Documents lose nothing

The document of a tree is finite if all its floating literals are. Then the tree can be read off
the document, and the document off its text, in either style. So an outcome can be read off its
text: the program, and all its diagnostics.
-/

namespace CTree

open Content

/-! ### Finite trees -/

/-- Every floating literal in a tree is finite. -/
def Node.IsFinite (n : Node) : Prop :=
  n.Everywhere fun m => ∀ x, m = .expr (.real x) → x.isFinite = true

namespace Content

/-- The attributes among the fields are finite. -/
def FiniteAtoms (fs : List (String × Content)) : Prop :=
  ∀ f ∈ fs, ∀ a, f.2 = .atom a → a.Finite

section Atoms

variable {f : String × Content} {fs gs : List (String × Content)}

@[simp]
theorem finiteAtoms_nil : FiniteAtoms [] := by
  simp [FiniteAtoms]

@[simp]
theorem finiteAtoms_cons :
    FiniteAtoms (f :: fs) ↔ (∀ a, f.2 = .atom a → a.Finite) ∧ FiniteAtoms fs := by
  simp [FiniteAtoms]

@[simp]
theorem finiteAtoms_append : FiniteAtoms (fs ++ gs) ↔ FiniteAtoms fs ∧ FiniteAtoms gs := by
  simp [FiniteAtoms, or_imp, forall_and]

@[simp]
theorem finiteAtoms_ifPresent {α : Type} {field : String → α → String × Content} {name : String}
    {a? : Option α} : FiniteAtoms (ifPresent field name a?) ↔
      ∀ v, a? = some v → ∀ a, (field name v).2 = .atom a → a.Finite := by
  cases a? <;> simp [ifPresent]

@[simp]
theorem finiteAtoms_ofDimensions {ds : List (Option Expr)} : FiniteAtoms (ofDimensions ds) := by
  cases ds <;> simp [ofDimensions]

end Atoms

end Content

theorem Content.finite_document {c : Content} (hatom : ∀ a, c = .atom a → a.Finite)
    (hnodes : ∀ n ∈ c.toNodes, n.toJson.Finite) : c.document.Finite := by
  cases c with
  | atom a => exact hatom a rfl
  | node n => exact hnodes n List.mem_cons_self
  | size n => exact hnodes n List.mem_cons_self
  | nodes ns =>
    rw [document_nodes]
    exact .arr (List.forall_mem_map.2 hnodes)
  | sizes ns =>
    rw [document_sizes]
    refine .arr (List.forall_mem_map.2 fun n hn => ?_)
    cases n with
    | none => exact .null
    | some n => exact hnodes n (List.mem_filterMap.2 ⟨some n, hn, rfl⟩)

theorem BaseClass.finite_toJson (b : BaseClass) : b.toJson.Finite := by
  simp [toJson]

theorem TemplateParameter.finite_toJson (p : TemplateParameter) : p.toJson.Finite := by
  obtain ⟨kind, name, type?, value?, isPack⟩ := p
  cases type? <;> cases value? <;> simp [toJson]

theorem Expr.finiteAtoms {e : Expr} (h : ∀ x, e = .real x → x.isFinite = true) :
    FiniteAtoms e.fields := by
  cases e
  case real x => simpa [fields] using h x rfl
  all_goals simp [fields, Query.fields, ofText, ofFlag, ofExpr, ofExprs, ofBody, ofParameters,
    ofSize]

theorem Stmt.finiteAtoms (s : Stmt) : FiniteAtoms s.fields := by
  cases s <;> simp [fields, VarDecl.fields, ofText, Content.ofExpr, ofStmt, ofBody]

theorem Decl.finiteAtoms (d : Decl) : FiniteAtoms d.fields := by
  cases d <;> simp [fields, ofText, ofFlag, ofExpr, ofDecl, ofBody, ofParameters, ofSize,
    BaseClass.finite_toJson, TemplateParameter.finite_toJson]

namespace Node

variable {n m : Node}

theorem finiteAtoms (h : ∀ x, n = .expr (.real x) → x.isFinite = true) :
    FiniteAtoms n.fields := by
  cases n
  case expr e => exact Expr.finiteAtoms fun x hx => h x (congrArg Node.expr hx)
  case stmt s => exact s.finiteAtoms
  case decl d => exact d.finiteAtoms
  all_goals simp [fields, ofText, ofFlag, ofExpr, ofExprs, ofBody]

theorem isFinite_iff : n.IsFinite ↔
    (∀ x, n = .expr (.real x) → x.isFinite = true) ∧ Every IsFinite n.fields := by
  refine ⟨fun h => ⟨h n .refl, fun f hf m hm l hl => ?_⟩, fun h l hl => ?_⟩
  · exact h l (.head (mem_children.2 ⟨f, hf, hm⟩) hl)
  · rcases hl.cases_head with rfl | ⟨m, hm, hl⟩
    · exact h.1
    · obtain ⟨f, hf, hmem⟩ := mem_children.1 hm
      exact h.2 f hf m hmem l hl

/-- The document of a tree is finite if its floating literals are. -/
theorem IsFinite.finite_toJson (h : n.IsFinite) : n.toJson.Finite := by
  induction hsize : sizeOf n using Nat.strongRecOn generalizing n with
  | ind size ih =>
    subst hsize
    obtain ⟨hreal, hfields⟩ := isFinite_iff.1 h
    have hinside : ∀ f ∈ n.fields, ∀ m ∈ f.2.toNodes, m.toJson.Finite :=
      fun f hf m hm => ih _ (sizeOf_lt_of_mem_fields hf hm) (hfields f hf m hm) rfl
    cases hn : n.isLifted with
    | true =>
      obtain ⟨d, rfl⟩ := exists_of_isLifted hn
      rw [toJson_decl]
      exact hinside _ List.mem_cons_self _ List.mem_cons_self
    | false =>
      rw [toJson_eq hn]
      refine .obj (List.forall_mem_append.2 ⟨?_, List.forall_mem_map.2 fun f hf => ?_⟩)
      · cases htag : n.tag? <;> simp [tagField, htag]
      · exact finite_document (finiteAtoms hreal f hf) (hinside f hf)

end Node

/-! ### Outcomes -/

@[simp]
theorem Stage.kind_inj {g g' : Stage} : g.kind = g'.kind ↔ g = g' := by
  cases g <;> cases g' <;> decide

namespace Diagnostic

/-- A diagnostic can be read off its document. -/
theorem toJson_injective {d d' : Diagnostic} (h : d.toJson = d'.toJson) : d = d' := by
  obtain ⟨position, ⟨line, column⟩, stage, message, expected?, found?⟩ := d
  obtain ⟨position', ⟨line', column'⟩, stage', message', expected?', found?'⟩ := d'
  simp_all [toJson, Json.nat, Int.ofNat_inj, optional_append_inj, optional_inj,
    mem_names_optional]

theorem finite_toJson (d : Diagnostic) : d.toJson.Finite := by
  obtain ⟨position, place, stage, message, expected?, found?⟩ := d
  cases expected? <;> cases found? <;> simp [toJson, Json.nat]

end Diagnostic

namespace Outcome

variable {o o' : Outcome}

/-- An outcome can be read off its document. -/
theorem toJson_injective (h : o.toJson = o'.toJson) : o = o' := by
  obtain ⟨program, diagnostics⟩ := o
  obtain ⟨program', diagnostics'⟩ := o'
  have hparts : program.toJson = program'.toJson ∧
      diagnostics.map Diagnostic.toJson = diagnostics'.map Diagnostic.toJson := by
    simpa [toJson] using h
  have hprogram := Node.toJson_injective (.program program) (.program program') rfl hparts.1
  have hdiagnostics : diagnostics = diagnostics' :=
    eq_of_map_eq (fun _ _ _ _ => Diagnostic.toJson_injective) hparts.2
  rw [Node.program.inj hprogram, hdiagnostics]

theorem finite_toJson (h : (Node.program o.program).IsFinite) : o.toJson.Finite := by
  have hprogram : o.program.toJson.Finite := h.finite_toJson
  simp [toJson, hprogram, Diagnostic.finite_toJson]

end Outcome

/-- Documents lose nothing. Outcomes in whose trees every floating literal is finite have one text
as documents, in one line or in several, only if they are the same: the same program, and the same
diagnostics in the same order. -/
theorem render_json_injective (pretty : Bool) (o o' : Outcome)
    (hfinite : (Node.program o.program).IsFinite) (hfinite' : (Node.program o'.program).IsFinite)
    (h : o.render pretty .json = o'.render pretty .json) : o = o' :=
  Outcome.toJson_injective
    (Json.text_injective (Outcome.finite_toJson hfinite) (Outcome.finite_toJson hfinite') h)

/-- One half, read as a literal and given by its fields. -/
theorem render_json_injective_half :
    let half : Binary64 := ⟨false, 1022, Binary64.fractionOf 0⟩
    let read : Outcome := ⟨⟨"half", [.expr (.real (Binary64.ofDecimal 5 (-1)))]⟩, []⟩
    let given : Outcome := ⟨⟨"half", [.expr (.real half)]⟩, []⟩
    (Node.program read.program).IsFinite ∧ (Node.program given.program).IsFinite ∧
      read.render false .json = given.render false .json ∧ read = given := by
  intro half read given
  have hread : Binary64.ofDecimal 5 (-1) = half := by decide +kernel
  have hhalf : half.isFinite = true := rfl
  have hfinite : (Node.program given.program).IsFinite := by
    refine Node.isFinite_iff.2 ⟨by simp [given], ?_⟩
    suffices hstmt : (Node.stmt (.expr (.real half))).IsFinite by simpa [given, Node.fields]
    refine Node.isFinite_iff.2 ⟨by simp, ?_⟩
    suffices hexpr : (Node.expr (.real half)).IsFinite by simpa [Node.fields, Stmt.fields]
    exact Node.isFinite_iff.2 ⟨by simp [hhalf], by simp [Node.fields, Expr.fields]⟩
  have hfinite' : (Node.program read.program).IsFinite := by
    simpa [read, given, hread] using hfinite
  have hrender : read.render false .json = given.render false .json := by
    simp only [read, given, hread]
  exact ⟨hfinite', hfinite, hrender,
    render_json_injective false read given hfinite' hfinite hrender⟩

end CTree
