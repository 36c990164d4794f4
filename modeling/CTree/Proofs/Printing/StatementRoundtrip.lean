import CTree.Proofs.Ceilings
import CTree.Proofs.Printing.StatementForms

/-!
# Reading functions that were written

Every statement of C is read back from the lexemes that it is written as. So is a function whose body
is made of such statements, up to the end of the text, and nothing is reported.
-/

namespace CTree

open Lexeme

namespace Stmt

variable {source : Source}

/-- An expression as a statement, or an assignment. -/
theorem IsRead.value {e : Expr} {s : Stmt} (he : e.IsValue) (hfirst : BeginsNoSpecifier e.lexemes)
    (hs : ofExpr e = s) (hlexemes : s.lexemes = e.lexemes ++ [spelled .semicolon]) :
    IsRead source s := by
  intro d hd _
  rw [hlexemes, List.length_append, List.length_singleton] at hd
  have hread : ReadsBefore source d (Grammar.ofDepth d).statement s.EndsBefore _ _ :=
    .statement_value he hfirst (Nat.le_of_succ_le_succ hd)
  rwa [hs, ← hlexemes] at hread

/-- Every statement of C is read. -/
theorem InC.isRead {s : Stmt} (h : s.InC) : s.IsRead source := by
  induction h with
  | expr he hstatement hfirst => exact .value he hfirst hstatement rfl
  | assign hop htarget hvalue hfirst =>
    exact .value (.assign hop htarget hvalue) hfirst (if_pos hop) rfl
  | block hbody ih => exact .block hbody ih
  | returning hvalue => exact .returning hvalue
  | breaking => exact .breaking
  | continuing => exact .continuing
  | goto h => exact .goto
  | label h => exact .label
  | var h hinit => exact .var hinit
  | ifElse hcondition hyes hno hclosed ihyes ihno =>
    exact .ifElse hcondition hyes ihyes hno ihno hclosed
  | whileLoop hcondition hbody ih => exact .whileLoop hcondition hbody ih
  | doLoop hbody hcondition ih => exact .doLoop hbody ih hcondition
  | forLoop hclause hinit hcondition hstep hbody ihinit ih =>
    exact .forLoop hclause hinit hcondition hstep hbody ih
  | switch hcondition hvalues hbodies ih => exact .switch hcondition hvalues hbodies ih

end Stmt

/-! ### Functions -/

/-- A function without parameters that gives an integer. -/
def FunctionDecl.ofBody (text : String) (body : List Stmt) : FunctionDecl where
  returnType := "int"
  name := text
  parameters := []
  body? := some body
  isStatic := false
  isInline := false
  isVirtual := false
  isOverride := false
  isConst := false

/-- The lexemes of such a function. -/
def FunctionDecl.bodyLexemes (text : String) (body : List Stmt) : List Lexeme :=
  spelled .kwInt :: Lexeme.name text :: spelled .lparen :: spelled .rparen :: spelled .lbrace ::
    (Stmt.listLexemes body ++ [spelled .rbrace])

namespace ReadsBefore

variable {source : Source} {d : Nat} {q : TokenKind → Prop} {text : String} {ss : List Stmt}

theorem emptyParameters {g : Grammar} :
    ReadsBefore source d g.parameters q [spelled .lparen, spelled .rparen] [] := by
  unfold Grammar.parameters
  exact .skipOver rfl (by decide) (.accept rfl (by decide) (.pure []))

/-- No qualifiers stand before the body of a function. -/
theorem functionQualifiers :
    ReadsBefore source d Parse.functionQualifiers (· = .lbrace) [] {} := by
  refine .stop fun s hs _ hnext => ?_
  have hkind : (source.view s).kind 0 = .lbrace := hnext
  have hnone : (source.view s).functionQualifier? {} = none := by
    unfold View.functionQualifier?
    rw [hkind]
  unfold Parse.functionQualifier
  rw [Parse.run_bind_ok Parse.run_kind, hkind, Parse.run_bind_ok Parse.run_view, hnone]
  rfl

theorem functionOrVariable (hss : ∀ s ∈ ss, s.InC) (hd : (Stmt.listLexemes ss).length ≤ d)
    (hmany : (Stmt.listLexemes ss).length ≤ source.settings.maxStatements) :
    ReadsBefore source d ((Grammar.ofDepth d).functionOrVariable {} "int") q
      (Lexeme.name text :: spelled .lparen :: spelled .rparen :: spelled .lbrace ::
        (Stmt.listLexemes ss ++ [spelled .rbrace])) (.decl (.function (.ofBody text ss))) := by
  have hbody : ReadsBefore source d (Grammar.ofDepth d).functionBody q
      (spelled .lbrace :: (Stmt.listLexemes ss ++ [spelled .rbrace])) (some ss) := by
    unfold Grammar.functionBody
    exact .check ((block hss (fun s hs => (hss s hs).isRead) hd hmany).andLast (.pure _))
  have hrest : ReadsBefore source d ((Grammar.ofDepth d).functionRest {} "int" text []) q
      (spelled .lbrace :: (Stmt.listLexemes ss ++ [spelled .rbrace])) (.ofBody text ss) := by
    unfold Grammar.functionRest
    exact functionQualifiers.bind rfl (hbody.andLast (.pure _))
  unfold Grammar.functionOrVariable
  refine Reads.qualifiedName.bind (fun n hn => by cases hn; decide) ?_
  refine .bindClosed (fun _ => emptyParameters.strictly.speculate) ?_
  exact hrest.andLast (.pure _)

/-- A function is read as a declaration, whatever comes after it. -/
theorem functionDeclaration (hss : ∀ s ∈ ss, s.InC) (hlook : 2 ≤ source.settings.maxLookahead)
    (hd : (Stmt.listLexemes ss).length ≤ d)
    (hmany : (Stmt.listLexemes ss).length ≤ source.settings.maxStatements) :
    ReadsBefore source d (Grammar.ofDepth d).declaration? q (FunctionDecl.bodyLexemes text ss)
      (some (.decl (.function (.ofBody text ss)))) := by
  have hrest : ReadsBefore source d ((Grammar.ofDepth d).functionOrVariable {} "int") q _
      (.decl (.function (.ofBody text ss))) :=
    functionOrVariable hss hd hmany
  unfold Grammar.declaration?
  show ReadsBefore source d _ q ([spelled .kwInt] ++ Lexeme.name text :: spelled .lparen ::
    spelled .rparen :: spelled .lbrace :: (Stmt.listLexemes ss ++ [spelled .rbrace])) _
  refine bindAhead (x := some (({} : Specifiers), "int", DeclarationForm.function))
    (fun s hs hsees => ?_) (hrest.andLast (.pure _))
  refine Parse.run_speculate_ok (Parse.run_declarationHead hs hsees ?_)
  have hname := hsees.2.2
  have hcpp : (source.view (s.after 1)).isCpp = false := hs.isCpp
  exact View.declarationForm?_function hcpp hname.kindAt hname.2.2.kindAt hname.2.2.2.2.kindAt
    hname.2.2.2.2.2.2.kindAt hlook

/-- There are no constructors outside of classes in C. -/
theorem special {β : Type} {g : Grammar} {f : Option Decl → Parse β} {ws : List Lexeme} {y : β}
    (hf : ReadsBefore source d (f none) q ws y) :
    ReadsBefore source d (g.special? >>= f) q ws y := by
  refine see (fun s hs _ => ?_) hf
  have hlook : ∃ b, Parse.atSpecial.run source s = (.ok b, s) := by
    unfold Parse.atSpecial
    rw [Parse.run_bind_ok Parse.run_kind]
    split
    · exact ⟨_, rfl⟩
    · exact ⟨_, rfl⟩
    · exact ⟨_, rfl⟩
    · exact ⟨_, rfl⟩
  obtain ⟨b, hb⟩ := hlook
  unfold Grammar.special?
  rw [Parse.run_bind_ok Parse.run_isCpp, hs.isCpp, Parse.run_bind_ok hb]
  rfl

/-- A function is read as the only item of a text. -/
theorem items (hss : ∀ s ∈ ss, s.InC)
    (hceilings : source.settings.CeilingsFrom (FunctionDecl.bodyLexemes text ss).length)
    (hd : (FunctionDecl.bodyLexemes text ss).length ≤ d) :
    ReadsBefore source d ((Grammar.ofDepth d).items false) (· = .eof)
      (FunctionDecl.bodyLexemes text ss) [.decl (.function (.ofBody text ss))] := by
  have hlength : (FunctionDecl.bodyLexemes text ss).length =
      (Stmt.listLexemes ss).length + 6 := by
    simp [FunctionDecl.bodyLexemes]
  rw [hlength] at hceilings hd
  have hstatements := hceilings.statements
  have hlookahead := hceilings.lookahead
  have hiterations := hceilings.iterations
  have hdeclaration : ReadsBefore source d (Grammar.ofDepth d).declaration? (· = .eof)
      (FunctionDecl.bodyLexemes text ss) (some (.decl (.function (.ofBody text ss)))) :=
    functionDeclaration hss (by omega) (by omega) (by omega)
  have hitem : ReadsBefore source d (Grammar.ofDepth d).item (· = .eof)
      (FunctionDecl.bodyLexemes text ss) (some (.decl (.function (.ofBody text ss)))) := by
    unfold Grammar.item
    exact .namedDeclaration rfl (.special (hdeclaration.andLast (.pure _)))
  unfold Grammar.items
  refine .rounds fun n hn => ?_
  obtain ⟨n, rfl⟩ : ∃ n', n = n' + 2 := ⟨n - 2, by omega⟩
  have hend : ReadsBefore source d (Parse.roundsFor ((Grammar.ofDepth d).itemRound false) (n + 1) 1)
      (· = .eof) [] [] := by
    rw [Parse.roundsFor, Grammar.itemRound, bind_assoc]
    refine .kindAfter ?_
    rintro _ rfl
    exact .pure []
  have hround : ReadsBefore source d ((Grammar.ofDepth d).itemRound false 0) (· = .eof)
      (FunctionDecl.bodyLexemes text ss) (some ([.decl (.function (.ofBody text ss))], 1)) := by
    have hattempt := hitem.attempt (List.cons_ne_nil _ _)
    unfold Grammar.itemRound
    refine .kind (.settings ?_)
    rw [if_neg (by omega)]
    exact hattempt.andLast (.pure _)
  rw [Parse.roundsFor]
  exact hround.andLast (hend.andLast (.pure _))

end ReadsBefore

/-! ### From the text on -/

/-- A function of C is written in lexemes of C. -/
theorem FunctionDecl.scans_bodyLexemes {text : String} {body : List Stmt} (htext : Rule.isName text)
    (hbody : ∀ s ∈ body, s.InC) : ∀ w ∈ bodyLexemes text body, w.Scans := by
  simp only [bodyLexemes, List.forall_mem_cons, List.forall_mem_append]
  refine ⟨scans_spelled (by decide), scans_name htext, scans_spelled (by decide),
    scans_spelled (by decide), scans_spelled (by decide), ?_, scans_spelled (by decide),
    List.forall_mem_nil _⟩
  exact Stmt.scans_listLexemes fun s hs => (hbody s hs).scans

/-- After the lexemes of a text the text ends. -/
theorem Session.kindAt_end {settings : Settings} {ws : List Lexeme} {text : List Char}
    (hdialect : settings.dialect = .c) (h : Written ws text) :
    (start settings text).source.kindAt ws.length = .eof := by
  have hsize : (start settings text).source.stream.body.size = ws.length := by
    rw [← body_start hdialect h, List.length_map, Array.length_toList]
  rw [Source.kindAt, TokenStream.get_of_le _ (Nat.le_of_eq hsize)]
  exact TokenStream.last_kind _

end CTree
