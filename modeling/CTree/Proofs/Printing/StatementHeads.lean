import CTree.Proofs.Printing.StatementLexeme

/-!
# What statements begin with

A statement of C begins with a keyword of its own, a brace, `int`, a name or another expression. After
a name at its beginning a `:` comes only if it is a label. All lexemes of a statement are lexemes
of C.
-/

namespace CTree

open Lexeme

variable {ws : List Lexeme} {w : Lexeme}

/-! ### No label -/

/-- Lexemes that do not begin with a name and a `:`. -/
def BeginsNoLabel (ws : List Lexeme) : Prop :=
  ∀ w w' rest, ws = w :: w' :: rest → w.kind = .identifier → w'.kind ≠ .colon

namespace BeginsNoLabel

theorem single (w : Lexeme) : BeginsNoLabel [w] := by
  intro w w' rest h
  cases h

theorem cons (hw : w.kind ≠ .identifier) (rest : List Lexeme) : BeginsNoLabel (w :: rest) := by
  rintro _ _ _ ⟨⟩ hname
  exact (hw hname).elim

theorem append_cons (h : BeginsNoLabel ws) (hws : ws ≠ []) (hw : w.kind ≠ .colon)
    (rest : List Lexeme) : BeginsNoLabel (ws ++ w :: rest) := by
  match ws, hws with
  | [v], _ =>
    rintro _ _ _ ⟨⟩ -
    exact hw
  | v :: v' :: vs, _ =>
    rintro _ _ _ ⟨⟩ hname
    exact h v v' vs rfl hname

theorem enclose (h : BeginsNoLabel ws) (least level : Nat) :
    BeginsNoLabel (enclose least level ws) := by
  unfold Lexeme.enclose
  split
  · exact h
  · exact cons (by decide) _

end BeginsNoLabel

theorem BinaryOp.kind_ne_colon (op : BinaryOp) : op.kind ≠ .colon := by
  cases op <;> decide

theorem UnaryOp.kind_ne_colon (op : UnaryOp) : op.kind ≠ .colon := by
  cases op <;> decide

theorem UnaryOp.kind_ne_identifier (op : UnaryOp) : op.kind ≠ .identifier := by
  cases op <;> decide

/-- After a name at the beginning of an expression there is an operator, or something in brackets. -/
theorem Expr.InC.beginsNoLabel {e : Expr} (h : e.InC) : BeginsNoLabel e.lexemes := by
  have hnext {e : Expr} {w : Lexeme} {least : Nat} (he : e.InC) (ih : BeginsNoLabel e.lexemes)
      (hw : w.kind ≠ .colon) (rest : List Lexeme) :
      BeginsNoLabel (Lexeme.enclose least e.level e.lexemes ++ w :: rest) :=
    (ih.enclose least e.level).append_cons (he.begins.1.enclose least e.level).ne_nil hw rest
  induction h with
  | identifier h => exact .single _
  | int h => exact .single _
  | before op he ih => exact .cons op.kind_ne_identifier _
  | @after op h e he ih => exact hnext he ih op.kind_ne_colon []
  | sizeof he ih => exact .cons (by decide) _
  | call hf hes ih ihs => exact hnext hf ih (by decide) _
  | index he hi ih ihi => exact hnext he ih (by decide) _
  | member arrow he h ih => exact hnext he ih (by cases arrow <;> decide) _
  | @binary op h l r hl hr ihl ihr => exact hnext hl ihl op.kind_ne_colon _
  | conditional hc hyes hno ihc ihyes ihno => exact hnext hc ihc (by decide) _

/-! ### Values -/

namespace Expr.IsValue

variable {e : Expr}

theorem begins (h : e.IsValue) : Begins TokenKind.beginsExpression e.lexemes := by
  induction h with
  | expression h => exact h.begins.1
  | name h hnull => exact .cons rfl (fun h => by cases h) []
  | assign hop htarget hvalue iht ihv => exact (iht.enclose _ _).append _

theorem begins_lexemesAt (h : e.IsValue) (least : Nat) :
    Begins TokenKind.beginsExpression (e.lexemesAt least) :=
  h.begins.enclose least e.level

theorem beginsNoLabel (h : e.IsValue) : BeginsNoLabel e.lexemes := by
  induction h with
  | expression h => exact h.beginsNoLabel
  | name h hnull => exact .single _
  | @assign op hop target value htarget hvalue iht ihv =>
    exact (iht.enclose _ _).append_cons (htarget.begins.enclose _ _).ne_nil op.kind_ne_colon _

/-- What is an assignment is written with an operator of C. -/
theorem scans (h : e.IsValue) : ∀ w ∈ e.lexemes, w.Scans := by
  induction h with
  | expression h => exact h.scans
  | name h hnull => simpa [lexemes] using scans_name h
  | @assign op hop target value htarget hvalue iht ihv =>
    have hop' : op ≠ .threeWay := by
      rintro rfl
      cases hop
    simp only [lexemes, List.forall_mem_append, List.forall_mem_cons]
    exact ⟨scans_enclose iht, scans_spelled (BinaryOp.kind_mem hop'), scans_enclose ihv⟩

end Expr.IsValue

/-! ### Statements -/

/-- The kinds that a statement begins with. -/
def TokenKind.beginsStatement (k : TokenKind) : Bool :=
  k.beginsExpression ||
    [.lbrace, .kwInt, .kwReturn, .kwBreak, .kwContinue, .kwGoto, .kwIf, .kwWhile, .kwDo, .kwFor,
      .kwSwitch].contains k

theorem Expr.begins_caseLexemes (value? : Option Expr) : ∃ w rest, caseLexemes value? = w :: rest ∧
    (w.kind = .kwCase ∨ w.kind = .kwDefault) := by
  cases value? with
  | none => exact ⟨_, _, rfl, .inr rfl⟩
  | some e => exact ⟨_, _, rfl, .inl rfl⟩

namespace Stmt.InC

/-- A statement of C begins like one. -/
theorem begins {s : Stmt} (h : s.InC) :
    ∃ w rest, s.lexemes = w :: rest ∧ w.kind.beginsStatement := by
  have hvalue {e : Expr} (he : e.IsValue) :
      ∃ w rest, e.lexemes ++ [spelled .semicolon] = w :: rest ∧ w.kind.beginsStatement := by
    obtain ⟨w, rest, hws, hw, -⟩ := he.begins
    rw [hws]
    exact ⟨w, _, rfl, by rw [TokenKind.beginsStatement, hw, Bool.true_or]⟩
  cases h with
  | expr he hstatement hfirst => exact hvalue he
  | assign hop htarget hvalue' hfirst => exact hvalue (.assign hop htarget hvalue')
  | block hbody => exact ⟨_, _, rfl, rfl⟩
  | returning hvalue' => exact ⟨_, _, rfl, rfl⟩
  | breaking => exact ⟨_, _, rfl, rfl⟩
  | continuing => exact ⟨_, _, rfl, rfl⟩
  | goto h => exact ⟨_, _, rfl, rfl⟩
  | label h => exact ⟨_, _, rfl, rfl⟩
  | var h hinit => exact ⟨_, _, rfl, rfl⟩
  | ifElse hcondition hyes hno hclosed => exact ⟨_, _, rfl, rfl⟩
  | whileLoop hcondition hbody => exact ⟨_, _, rfl, rfl⟩
  | doLoop hbody hcondition => exact ⟨_, _, rfl, rfl⟩
  | forLoop hclause hinit hcondition hstep hbody => exact ⟨_, _, rfl, rfl⟩
  | switch hcondition hvalues hbodies => exact ⟨_, _, rfl, rfl⟩

theorem lexemes_ne_nil {s : Stmt} (h : s.InC) : s.lexemes ≠ [] := by
  obtain ⟨w, rest, hws, -⟩ := h.begins
  rw [hws]
  exact List.cons_ne_nil w rest

end Stmt.InC

/-! ### All lexemes -/

namespace Expr

variable {e : Expr} {e? : Option Expr}

theorem scans_optionalLexemes (h : ∀ e ∈ e?, e.IsValue) : ∀ w ∈ optionalLexemes e?, w.Scans := by
  cases e? with
  | none => exact List.forall_mem_nil _
  | some e => exact (h e rfl).scans

theorem scans_initLexemes (h : ∀ e ∈ e?, e.IsValue) : ∀ w ∈ initLexemes e?, w.Scans := by
  cases e? with
  | none => exact List.forall_mem_nil _
  | some e => exact List.forall_mem_cons.2 ⟨scans_spelled (by decide), scans_enclose (h e rfl).scans⟩

theorem scans_conditionLexemes (h : e.IsValue) : ∀ w ∈ e.conditionLexemes, w.Scans := by
  simp only [conditionLexemes, List.forall_mem_cons, List.forall_mem_append]
  exact ⟨scans_spelled (by decide), h.scans, scans_spelled (by decide), List.forall_mem_nil _⟩

theorem scans_caseLexemes (h : ∀ e ∈ e?, e.IsValue) : ∀ w ∈ caseLexemes e?, w.Scans := by
  have hcolon : ∀ w ∈ [spelled .colon], w.Scans :=
    List.forall_mem_singleton.2 (scans_spelled (by decide))
  cases e? with
  | none => exact List.forall_mem_cons.2 ⟨scans_spelled (by decide), hcolon⟩
  | some e =>
    simp only [caseLexemes, List.forall_mem_cons, List.forall_mem_append]
    exact ⟨scans_spelled (by decide), scans_enclose (h e rfl).scans, List.forall_mem_cons.1 hcolon⟩

end Expr

namespace Stmt

theorem scans_listLexemes {ss : List Stmt} (h : ∀ s ∈ ss, ∀ w ∈ s.lexemes, w.Scans) :
    ∀ w ∈ listLexemes ss, w.Scans := by
  induction ss with
  | nil => exact List.forall_mem_nil _
  | cons s ss ih =>
    simp only [listLexemes, List.forall_mem_cons, List.forall_mem_append] at h ⊢
    exact ⟨h.1, ih h.2⟩

theorem scans_armLexemes {arms : List Arm} (hvalues : ∀ a ∈ arms, ∀ e ∈ a.value?, e.IsValue)
    (h : ∀ a ∈ arms, ∀ s ∈ a.body, ∀ w ∈ s.lexemes, w.Scans) : ∀ w ∈ armLexemes arms, w.Scans := by
  induction arms with
  | nil => exact List.forall_mem_nil _
  | cons a arms ih =>
    obtain ⟨hvalue, hvalues'⟩ := List.forall_mem_cons.1 hvalues
    obtain ⟨hbody, hbodies⟩ := List.forall_mem_cons.1 h
    obtain ⟨value?, body⟩ := a
    simp only [armLexemes, List.forall_mem_append]
    exact ⟨Expr.scans_caseLexemes hvalue, scans_listLexemes hbody, ih hvalues' hbodies⟩

/-- A statement of C is written in lexemes of C. -/
theorem InC.scans {s : Stmt} (h : s.InC) : ∀ w ∈ s.lexemes, w.Scans := by
  have hspelled {k : TokenKind} {ws : List Lexeme} (hk : k ∈ Rule.spelledC)
      (hws : ∀ w ∈ ws, w.Scans) : ∀ w ∈ spelled k :: ws, w.Scans :=
    List.forall_mem_cons.2 ⟨scans_spelled hk, hws⟩
  have hend (k : TokenKind) (hk : k ∈ Rule.spelledC) : ∀ w ∈ [spelled k], w.Scans :=
    List.forall_mem_singleton.2 (scans_spelled hk)
  have hsemicolon := hend .semicolon (by decide)
  induction h with
  | expr he hstatement hfirst => exact List.forall_mem_append.2 ⟨he.scans, hsemicolon⟩
  | assign hop htarget hvalue hfirst =>
    exact List.forall_mem_append.2 ⟨(Expr.IsValue.assign hop htarget hvalue).scans, hsemicolon⟩
  | block hbody ih =>
    refine hspelled (by decide) (List.forall_mem_append.2 ⟨scans_listLexemes ih, ?_⟩)
    exact hend .rbrace (by decide)
  | returning hvalue =>
    refine hspelled (by decide) (List.forall_mem_append.2 ⟨?_, hsemicolon⟩)
    exact Expr.scans_optionalLexemes hvalue
  | breaking => exact hspelled (by decide) hsemicolon
  | continuing => exact hspelled (by decide) hsemicolon
  | goto h => exact hspelled (by decide) (List.forall_mem_cons.2 ⟨scans_name h, hsemicolon⟩)
  | label h => exact List.forall_mem_cons.2 ⟨scans_name h, hend .colon (by decide)⟩
  | var h hinit =>
    refine hspelled (by decide) (List.forall_mem_cons.2 ⟨scans_name h, ?_⟩)
    exact List.forall_mem_append.2 ⟨Expr.scans_initLexemes hinit, hsemicolon⟩
  | @ifElse condition hcondition yes hyes no? hno hclosed ihyes ihno =>
    refine hspelled (by decide) ?_
    simp only [List.forall_mem_append]
    refine ⟨Expr.scans_conditionLexemes hcondition, ihyes, ?_⟩
    cases no? with
    | none => exact List.forall_mem_nil _
    | some no => exact hspelled (by decide) (ihno no rfl)
  | whileLoop hcondition hbody ih =>
    refine hspelled (by decide) (List.forall_mem_append.2 ⟨?_, ih⟩)
    exact Expr.scans_conditionLexemes hcondition
  | doLoop hbody hcondition ih =>
    refine hspelled (by decide) (List.forall_mem_append.2 ⟨ih, hspelled (by decide) ?_⟩)
    exact List.forall_mem_append.2 ⟨Expr.scans_conditionLexemes hcondition, hsemicolon⟩
  | @forLoop init? hclause hinit condition? step? hcondition hstep body hbody ihinit ih =>
    have hfirst : ∀ w ∈ clauseLexemes init?, w.Scans := by
      cases init? with
      | none => exact hsemicolon
      | some s => exact ihinit s rfl
    have hlast : ∀ w ∈ spelled .rparen :: body.lexemes, w.Scans := hspelled (by decide) ih
    refine hspelled (by decide) (hspelled (by decide) ?_)
    refine List.forall_mem_append.2 ⟨hfirst, List.forall_mem_append.2 ⟨?_, ?_⟩⟩
    · exact Expr.scans_optionalLexemes hcondition
    · refine hspelled (by decide) (List.forall_mem_append.2 ⟨?_, hlast⟩)
      exact Expr.scans_optionalLexemes hstep
  | switch hcondition hvalues hbodies ih =>
    refine hspelled (by decide) (List.forall_mem_append.2 ⟨?_, hspelled (by decide) ?_⟩)
    · exact Expr.scans_conditionLexemes hcondition
    · refine List.forall_mem_append.2 ⟨scans_armLexemes hvalues ih, ?_⟩
      exact hend .rbrace (by decide)

end Stmt

end CTree
