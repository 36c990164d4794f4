import CTree.Proofs.Printing.Forms
import CTree.Proofs.Printing.Scan

/-!
# Reading what was written

An expression of C that is written as lexemes is read back as that expression, up to the `;` after
it, and nothing is reported.
-/

namespace CTree

open Lexeme

namespace Expr.InC

variable {source : Source} {e : Expr}

/-- An expression at a place that asks for a level. -/
theorem readsAs_lexemesAt {least : Nat} (he : e.InC) (h : ReadsAs source e.lexemes e e.level)
    (hleast : least ≤ 14) : ReadsAs source (e.lexemesAt least) e least :=
  h.enclose he.begins.1 hleast

theorem begins_lexemesAt (he : e.InC) (least : Nat) :
    Begins TokenKind.beginsExpression (e.lexemesAt least) :=
  he.begins.1.enclose least e.level

/-- An expression of C is read at its own level. -/
theorem readsAs (h : e.InC) : ReadsAs source e.lexemes e e.level := by
  -- What stands after an operand makes an operand, whose first lexeme is that of the first one.
  have hafter {e : Expr} (he : e.InC) (hlevel : e.level = 14)
      (hread : AsSuffixed source e.lexemes e) : ReadsAs source e.lexemes e e.level := by
    rw [hlevel]
    exact .ofSuffixed (he.begins.2 (Nat.le_of_eq hlevel.symm)) hread
  have hoperand {e : Expr} (he : e.InC) (ih : ReadsAs source e.lexemes e e.level) :
      AsSuffixed source (e.lexemesAt 14) e :=
    (he.readsAs_lexemesAt ih (Nat.le_refl 14)).suffixed (Nat.le_refl 14)
  induction h with
  | identifier h =>
    refine hafter (.identifier h) rfl ?_
    rw [lexemes]
    exact .identifier h
  | int h =>
    refine hafter (.int h) rfl ?_
    rw [lexemes]
    exact .int h
  | @before op e he ih =>
    have hread := (he.readsAs_lexemesAt ih (by decide)).unary (Nat.le_refl 13)
    have hwhole := hread.before op (he.begins_lexemesAt 13).ne_nil
    show ReadsAs source _ _ 13
    rw [lexemes]
    exact .ofUnary (List.cons_ne_nil _ _) hwhole (fun h14 => absurd h14 (by decide)) (by decide)
  | @after op h e he ih =>
    refine hafter (.after h he) rfl ?_
    rw [lexemes]
    exact (hoperand he ih).after h
  | @sizeof e he ih =>
    have hread := (he.readsAs_lexemesAt ih (by decide)).unary (Nat.le_refl 13)
    have hwhole := AsUnary.sizeof (he.begins_lexemesAt 13) hread
    show ReadsAs source _ _ 13
    rw [lexemes]
    exact .ofUnary (List.cons_ne_nil _ _) hwhole (fun h14 => absurd h14 (by decide)) (by decide)
  | @call f es hf hes ih ihs =>
    refine hafter (.call hf hes) rfl ?_
    rw [lexemes]
    refine (hoperand hf ih).call fun e he => ⟨?_, (hes e he).begins_lexemesAt 1⟩
    exact ((hes e he).readsAs_lexemesAt (ihs e he) (by decide)).assignment (Nat.le_refl 1)
  | @index e i he hi ih ihi =>
    refine hafter (.index he hi) rfl ?_
    rw [lexemes]
    exact (hoperand he ih).index ihi.comma
  | @member e arrow field he h ih =>
    refine hafter (.member arrow he h) rfl ?_
    rw [lexemes]
    exact (hoperand he ih).member arrow
  | @binary op h l r hl hr ihl ihr =>
    have hne := (InC.binary h hl hr).begins.1.ne_nil
    have hbegins := hr.begins_lexemesAt op.rightLevel
    have hleft := hl.readsAs_lexemesAt ihl op.leftLevel_le
    have hright := hr.readsAs_lexemesAt ihr op.rightLevel_le
    show ReadsAs source _ _ op.level
    rw [lexemes] at hne ⊢
    obtain rfl | ⟨hop, hlevel, hl3, hr1⟩ | ⟨h3, hll, hrl⟩ := op.level_cases
    · exact .ofComma (.comma hbegins.ne_nil hleft.comma (hright.assignment (Nat.le_refl 1)))
    · rw [hl3] at hleft
      rw [hr1] at hright hbegins
      have hread := AsAssignment.assign hop hbegins (hleft.target (Nat.le_refl 3))
        (hright.assignment (Nat.le_refl 1))
      rw [hlevel]
      rw [hl3, hr1] at hne ⊢
      exact .ofAssignment hne (by decide) hread
    · rw [hll] at hleft
      rw [hrl] at hright
      rw [hll, hrl] at hne ⊢
      exact .ofBinary hne h3 op.level_le (hleft.binary_operation h3 hright)
  | @conditional c yes no hc hyes hno ihc ihyes ihno =>
    have hlast := (hno.readsAs_lexemesAt ihno (by decide)).assignment (Nat.le_refl 1)
    have hchoice := AsConditional.choice (hno.begins_lexemesAt 1).ne_nil
      (hc.readsAs_lexemesAt ihc (by decide)) ihyes.comma hlast
    have hne := ((InC.conditional hc hyes hno).begins).1.ne_nil
    rw [lexemes] at hne ⊢
    exact .ofAssignment hne (Nat.le_refl 2) (ReadsAs.asAssignment hchoice)

end Expr.InC

/-! ### From the text on -/

theorem TokenStream.body_ofList {tokens : List Token} {t : Token} (h : t.kind = .eof) :
    (TokenStream.ofList (tokens ++ [t])).body.toList = (tokens ++ [t]).dropLast := by
  simp [TokenStream.ofList, h]

namespace Session

variable {settings : Settings} {ws : List Lexeme} {text : List Char}

theorem body_start (hdialect : settings.dialect = .c) (h : Written ws text) :
    (start settings text).source.stream.body.toList.map Token.lexeme = ws := by
  have htokens := h.1
  rw [← hdialect] at htokens
  rw [← htokens]
  exact congrArg (List.map Token.lexeme) (TokenStream.body_ofList rfl)

/-- What a text is cut into is seen from the start on. -/
theorem sees_start (hdialect : settings.dialect = .c) (h : Written ws text) :
    (start settings text).source.Sees 0 ws :=
  @Source.sees_of_map _ ws [] (body_start hdialect h)

theorem ready_start (hdialect : settings.dialect = .c) (text : List Char) :
    Ready (start settings text).source settings.maxDepth (start settings text).state where
  dialect := hdialect
  names := rfl
  lenient := rfl
  inside := Nat.zero_le _
  room := Nat.le_of_eq (Nat.zero_add _)

/-- Nothing is wrong with the text of lexemes. -/
theorem diagnostics_start (hdialect : settings.dialect = .c) (h : Written ws text) :
    (start settings text).state.diagnostics = #[] := by
  have herrors := h.2
  rw [← hdialect] at herrors
  simp only [start, herrors]
  rfl

end Session

/-- An expression of C is read back from the lexemes that it is written as, up to the `;` after them,
    and nothing is reported. -/
theorem commaExpression_lexemes {e : Expr} (h : e.InC) {settings : Settings}
    (hdialect : settings.dialect = .c) (hdepth : e.lexemes.length ≤ settings.maxDepth) :
    let session := Session.start settings (line e.lexemes)
    ∃ t, (Grammar.ofDepth settings.maxDepth).commaExpression.run session.source session.state =
        (.ok e, t) ∧
      t.diagnostics = #[] ∧ t.cursor.position = e.lexemes.length ∧
      session.source.kindAt t.cursor.position = .semicolon := by
  intro session
  have hwritten := written_line h.scans
  obtain ⟨hsees, hsemicolon⟩ := Source.sees_append.1 (Session.sees_start hdialect hwritten)
  have hkind : session.source.kindAt (0 + e.lexemes.length) = .semicolon := hsemicolon.kindAt
  have hread : Reads session.source settings.maxDepth _ 0 e.lexemes e :=
    h.readsAs.comma.commaExpression hdepth
  have hends : Ends 0 (session.source.kindAt (0 + e.lexemes.length)) := by
    rw [hkind]
    exact fun n hn => by cases hn
  refine ⟨session.state.after e.lexemes.length,
    hread session.state (Session.ready_start hdialect _) hsees hends,
    Session.diagnostics_start hdialect hwritten, Nat.zero_add _, hkind⟩

/-- The text is `a = b ? c , d : - ( e + 1 ) [ f ] ;`. -/
theorem commaExpression_lexemes_assignment :
    let e : Expr := .binary .assign (.identifier "a") (.conditional (.identifier "b")
      (.binary .comma (.identifier "c") (.identifier "d"))
      (.unary .neg .before (.index (.binary .add (.identifier "e") (.int 1)) (.identifier "f"))))
    let session := Session.start { dialect := .c } (line e.lexemes)
    e.InC ∧ ∃ t, (Grammar.ofDepth 48).commaExpression.run session.source session.state =
        (.ok e, t) ∧
      t.diagnostics = #[] ∧ t.cursor.position = e.lexemes.length ∧
      session.source.kindAt t.cursor.position = .semicolon := by
  intro e session
  have hinC : e.InC :=
    .binary (by decide) (.identifier (by decide))
      (.conditional (.identifier (by decide))
        (.binary (by decide) (.identifier (by decide)) (.identifier (by decide)))
        (.before _ (.index (.binary (by decide) (.identifier (by decide))
          (.int (by decide))) (.identifier (by decide)))))
  have hdepth : e.lexemes.length ≤ 48 := by decide
  exact ⟨hinC, @commaExpression_lexemes e hinC { dialect := .c } rfl hdepth⟩

end CTree
