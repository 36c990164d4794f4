import CTree.Proofs.Printing.Declaration

/-!
# The forms of a statement

How each form of a statement is read, if the statements inside of it are. A statement that ends in a
choice without an `else` is read up to its end if no `else` comes after it, every other statement
whatever comes after it.
-/

namespace CTree

open Lexeme

variable {source : Source} {d : Nat} {ws : List Lexeme} {w : Lexeme} {q : TokenKind → Prop}

/-- A token of the given kind does not go on with a statement. -/
def Stmt.EndsBefore (s : Stmt) (k : TokenKind) : Prop :=
  s.endsOpen → k ≠ .kwElse

/-- The lexemes of a statement are read as the statement, where so many constructs may be opened and so
    many statements may stand side by side. -/
def Stmt.IsRead (source : Source) (s : Stmt) : Prop :=
  ∀ d, s.lexemes.length ≤ d + 1 → s.lexemes.length ≤ source.settings.maxStatements →
    ReadsBefore source d (Grammar.ofDepth d).statement s.EndsBefore s.lexemes (some s)

namespace Stmt.IsRead

variable {s : Stmt}

theorem nonterminal (h : s.IsRead source) (hne : s.lexemes ≠ []) (hd : s.lexemes.length ≤ d)
    (hmany : s.lexemes.length ≤ source.settings.maxStatements) :
    ReadsBefore source d ((Grammar.ofDepth d).parse .statement) s.EndsBefore s.lexemes (some s) := by
  cases d with
  | zero => exact absurd (List.length_eq_zero_iff.1 (Nat.le_zero.1 hd)) hne
  | succ d => exact .nested (h d hd hmany)

/-- A statement that another one governs. -/
theorem branch (h : s.IsRead source) (hne : s.lexemes ≠ []) (hd : s.lexemes.length ≤ d)
    (hmany : s.lexemes.length ≤ source.settings.maxStatements) :
    ReadsBefore source d (Grammar.ofDepth d).branch s.EndsBefore s.lexemes s := by
  unfold Grammar.branch
  exact (h.nonterminal hne hd hmany).andLast (.pure s)

end Stmt.IsRead

/-! ### Statements side by side -/

theorem TokenKind.ne_of_beginsStatement {k k' : TokenKind} (hk : k.beginsStatement)
    (hk' : k'.beginsStatement = false) : k ≠ k' := by
  rintro rfl
  rw [hk'] at hk
  cases hk

section Statements

variable {ss : List Stmt} {stop : TokenKind → Bool}

/-- What comes after a statement among others: another statement, or what comes after all of them. -/
theorem Stmt.before_listLexemes {s : Stmt} (hss : ∀ s ∈ ss, s.InC) (hq : ∀ k, q k → k ≠ .kwElse) :
    Before s.EndsBefore q (listLexemes ss) := by
  cases ss with
  | nil => exact fun k hk _ => hq k hk
  | cons s' ss =>
    obtain ⟨w, rest, hws, hw⟩ := (hss s' List.mem_cons_self).begins
    rw [listLexemes, hws]
    exact fun _ => TokenKind.ne_of_beginsStatement hw rfl

/-- Statements up to a token that ends them and that no statement begins with. -/
theorem ReadsBefore.statements (hss : ∀ s ∈ ss, s.InC) (hread : ∀ s ∈ ss, s.IsRead source)
    (hstop : ∀ k, k.beginsStatement → stop k = false) (helse : stop .kwElse = false)
    (hd : (Stmt.listLexemes ss).length ≤ d)
    (hmany : (Stmt.listLexemes ss).length ≤ source.settings.maxStatements) :
    ReadsBefore source d ((Grammar.ofDepth d).statements stop) (fun k => k == .eof || stop k)
      (Stmt.listLexemes ss) ss := by
  have hends : ∀ k, (k == .eof || stop k) = true → k ≠ .kwElse := by
    rintro _ hk rfl
    rw [helse] at hk
    cases hk
  have hloop : ∀ n count, (Stmt.listLexemes ss).length < n →
      count + (Stmt.listLexemes ss).length ≤ source.settings.maxStatements →
      ReadsBefore source d (Parse.roundsFor ((Grammar.ofDepth d).statementRound stop) n count)
        (fun k => k == .eof || stop k) (Stmt.listLexemes ss) ss := by
    clear hmany
    intro n count hn hcount
    induction ss generalizing n count with
    | nil =>
      obtain ⟨n, rfl⟩ : ∃ n', n = n' + 1 := ⟨n - 1, by omega⟩
      rw [Parse.roundsFor, Grammar.statementRound, bind_assoc]
      refine .kindAfter fun k hk => ?_
      rw [if_pos hk, pure_bind]
      exact .pure []
    | cons s ss ih =>
      obtain ⟨n, rfl⟩ : ∃ n', n = n' + 1 := ⟨n - 1, by omega⟩
      obtain ⟨hs, hss⟩ := List.forall_mem_cons.1 hss
      obtain ⟨hsread, hread⟩ := List.forall_mem_cons.1 hread
      obtain ⟨w, rest, hws, hw⟩ := hs.begins
      have hpos : 0 < s.lexemes.length := List.length_pos_iff.2 hs.lexemes_ne_nil
      rw [Stmt.listLexemes, List.length_append] at hd hn hcount
      have hfirst := (hsread.nonterminal (d := d) hs.lexemes_ne_nil (by omega) (by omega)).attempt
        hs.lexemes_ne_nil
      have hothers := ih hss hread (by omega) n (count + 1) (by omega) (by omega)
      have hgoes : (w.kind == .eof || stop w.kind) = false := by
        rw [hstop _ hw, Bool.or_false]
        exact beq_false_of_ne (TokenKind.ne_of_beginsStatement hw rfl)
      have hnext := Stmt.before_listLexemes (s := s) hss hends
      rw [Parse.roundsFor, Grammar.statementRound, bind_assoc, Stmt.listLexemes]
      rw [hws] at hfirst ⊢
      refine .kind ?_
      rw [hgoes, if_neg Bool.false_ne_true, bind_assoc]
      refine .settings ?_
      rw [if_neg (by omega), bind_assoc]
      exact hfirst.bind hnext (hothers.andLast (.pure _))
  unfold Grammar.statements
  exact .rounds fun n hn => hloop n 0 hn (by omega)

end Statements

/-! ### Parts of statements -/

namespace ReadsBefore

variable {β : Type} {y : β} {e : Expr} {e? : Option Expr}

theorem closeBrace {place : String} {f : Unit → Parse β} (hf : ReadsBefore source d (f ()) q ws y) :
    ReadsBefore source d (Parse.closeBrace place >>= f) q (spelled .rbrace :: ws) y := by
  unfold Parse.closeBrace
  rw [bind_assoc]
  refine .accept rfl (by decide) ?_
  rwa [if_pos rfl, pure_bind]

theorem block {ss : List Stmt} (hss : ∀ s ∈ ss, s.InC) (hread : ∀ s ∈ ss, s.IsRead source)
    (hd : (Stmt.listLexemes ss).length ≤ d)
    (hmany : (Stmt.listLexemes ss).length ≤ source.settings.maxStatements) :
    ReadsBefore source d (Grammar.ofDepth d).block q
      (spelled .lbrace :: (Stmt.listLexemes ss ++ [spelled .rbrace])) ss := by
  have hstop (k : TokenKind) (hk : k.beginsStatement) : (k == .rbrace) = false :=
    beq_false_of_ne (TokenKind.ne_of_beginsStatement hk rfl)
  have hbody := statements hss hread hstop rfl hd hmany
  unfold Grammar.block
  exact .skipOver rfl (by decide) (hbody.strictly.bind rfl (.closeBrace (.pure ss)))

theorem condition {keyword : String} (he : e.IsValue) (hd : e.lexemes.length ≤ d) :
    ReadsBefore source d ((Grammar.ofDepth d).condition keyword) q e.conditionLexemes e := by
  unfold Grammar.condition
  refine .skipOver rfl (by decide) ((he.commaExpression hd).bind ?_ ?_)
  · exact fun n hn => by cases hn
  · exact .skipOver rfl (by decide) (.pure e)

/-- A value that may be missing, before a token that no expression begins with. -/
theorem expressionUnless {k : TokenKind} (hk : k.beginsExpression = false) (hends : Ends 0 k)
    (he : ∀ e ∈ e?, e.IsValue) (hd : (Expr.optionalLexemes e?).length ≤ d) :
    ReadsBefore source d ((Grammar.ofDepth d).expressionUnless k) (· = k)
      (Expr.optionalLexemes e?) e? := by
  unfold Grammar.expressionUnless
  cases e? with
  | none =>
    unfold Parse.check
    rw [bind_assoc]
    refine .kindAfter ?_
    rintro _ rfl
    rw [pure_bind, beq_self_eq_true, if_pos rfl]
    exact .pure none
  | some e =>
    have hvalue : Reads source d (Grammar.ofDepth d).commaExpression 0 e.lexemes e :=
      (he e rfl).commaExpression hd
    refine .checkBefore (he e rfl).begins hk ?_
    refine (hvalue.mono ?_).andLast (.pure (some e))
    rintro _ rfl
    exact hends

theorem expressionStatement (he : e.IsValue) (hd : e.lexemes.length ≤ d) :
    ReadsBefore source d (Grammar.ofDepth d).expressionStatement q
      (e.lexemes ++ [spelled .semicolon]) (Stmt.ofExpr e) := by
  unfold Grammar.expressionStatement
  refine (he.commaExpression hd).bind ?_ (.skipOver rfl (by decide) (.pure _))
  exact fun n hn => by cases hn

/-- An expression as a statement is no declaration. -/
theorem plainStatement (he : e.IsValue) (hfirst : BeginsNoSpecifier e.lexemes)
    (hd : e.lexemes.length ≤ d) :
    ReadsBefore source d (Grammar.ofDepth d).plainStatement q
      (e.lexemes ++ [spelled .semicolon]) (Stmt.ofExpr e) := by
  have hexpr : ReadsBefore source d (Grammar.ofDepth d).expressionStatement q _ _ :=
    expressionStatement he hd
  obtain ⟨w, rest, hws, hw, -⟩ := he.begins
  have hplain : w.kind.beginsPlain := by rw [TokenKind.beginsPlain, hw, Bool.true_or]
  rw [hws] at hexpr hfirst ⊢
  unfold Grammar.plainStatement
  exact .namedDeclaration hplain (.declaration hw hfirst hexpr)

theorem statement_value (he : e.IsValue) (hfirst : BeginsNoSpecifier e.lexemes)
    (hd : e.lexemes.length ≤ d) :
    ReadsBefore source d (Grammar.ofDepth d).statement q
      (e.lexemes ++ [spelled .semicolon]) (some (Stmt.ofExpr e)) := by
  have hplain : ReadsBefore source d
      ((Grammar.ofDepth d).plainStatement >>= fun s => pure (some s)) q
      (e.lexemes ++ [spelled .semicolon]) (some (Stmt.ofExpr e)) :=
    (plainStatement he hfirst hd).andLast (.pure _)
  have hlabel := he.beginsNoLabel.append_cons he.begins.ne_nil
    (show (spelled .semicolon).kind ≠ .colon by decide) []
  obtain ⟨w, rest, hws, hw, -⟩ := he.begins
  have hsecond : ∃ w' rest', rest ++ [spelled .semicolon] = w' :: rest' :=
    List.exists_cons_of_ne_nil (by simp)
  obtain ⟨w', rest', hrest⟩ := hsecond
  rw [hws, List.cons_append, hrest] at hplain hlabel ⊢
  unfold Grammar.statement
  refine .kind ?_
  split
  case h_16 hname =>
    refine .checkSecond ?_
    rw [beq_false_of_ne (hlabel w w' rest' rfl hname), if_neg Bool.false_ne_true]
    exact hplain
  case h_17 => exact hplain
  all_goals
    rename_i hkeyword
    rw [hkeyword] at hw
    cases hw

/-- A keyword with the `;` after it. -/
theorem jump {place : String} {k : TokenKind} {s : Stmt} (hk : k ≠ .eof) :
    ReadsBefore source d (Grammar.jump s place) q [spelled k, spelled .semicolon] s := by
  unfold Grammar.jump
  exact .skip hk (.skipOver rfl (by decide) (.pure s))

theorem valueJump {place : String} (he : ∀ e ∈ e?, e.IsValue)
    (hd : (Expr.optionalLexemes e?).length ≤ d) :
    ReadsBefore source d ((Grammar.ofDepth d).valueJump place) q
      (spelled .kwReturn :: (Expr.optionalLexemes e? ++ [spelled .semicolon])) e? := by
  have hends : Ends 0 .semicolon := fun n hn => by cases hn
  unfold Grammar.valueJump
  refine .skip (by decide) ((expressionUnless rfl hends he hd).bind rfl ?_)
  exact .skipOver rfl (by decide) (.pure e?)

theorem labelName {text : String} :
    ReadsBefore source d Parse.labelName q [Lexeme.name text, spelled .colon] text := by
  unfold Parse.labelName
  refine .advance (fun h => by cases h) fun t ht => .skip (by decide) ?_
  have htext : t.text = text := congrArg Lexeme.text ht
  rw [htext]
  exact .pure text

/-- The first clause of a loop and the `;` after it. -/
theorem loopInit {init? : Option Stmt} (hclause : ∀ s ∈ init?, s.isClause)
    (hinit : ∀ s ∈ init?, s.InC) (hd : (Stmt.clauseLexemes init?).length ≤ d) :
    ReadsBefore source d (Grammar.ofDepth d).loopInit q (Stmt.clauseLexemes init?) init? := by
  have hvalue {e : Expr} (he : e.IsValue) (hfirst : BeginsNoSpecifier e.lexemes)
      (hd : (e.lexemes ++ [spelled .semicolon]).length ≤ d) :
      ReadsBefore source d (Grammar.ofDepth d).loopInit q (e.lexemes ++ [spelled .semicolon])
        (some (Stmt.ofExpr e)) := by
    rw [List.length_append] at hd
    have hexpr : ReadsBefore source d (Grammar.ofDepth d).expressionStatement q _ _ :=
      expressionStatement he (Nat.le_of_add_right_le hd)
    have hbegins := he.begins.append [spelled .semicolon]
    obtain ⟨w, rest, hws, hw, -⟩ := he.begins
    unfold Grammar.loopInit
    refine .acceptBefore hbegins rfl ?_
    rw [hws] at hexpr hfirst ⊢
    exact .declaration hw hfirst (hexpr.andLast (.pure _))
  cases init? with
  | none =>
    unfold Grammar.loopInit
    exact .accept rfl (by decide) (.pure none)
  | some s =>
    have hkind := hclause s rfl
    cases hinit s rfl with
    | expr he hstatement hfirst =>
      have hread := hvalue he hfirst hd
      rwa [hstatement] at hread
    | assign hop htarget hright hfirst =>
      have hread := hvalue (.assign hop htarget hright) hfirst hd
      rwa [Stmt.ofExpr, if_pos hop] at hread
    | var h hstart =>
      simp only [Stmt.clauseLexemes, Stmt.lexemes, List.length_cons, List.length_append] at hd
      unfold Grammar.loopInit
      refine .acceptOther (by decide) ?_
      exact (variableDeclaration hstart (by omega)).andLast (.pure _)
    | block | returning | breaking | continuing | goto | label | ifElse | whileLoop | doLoop | forLoop
    | switch => cases hkind

/-- The head of an arm. -/
theorem armValue (he : ∀ e ∈ e?, e.IsValue) (hd : (Expr.caseLexemes e?).length ≤ d) :
    ReadsBefore source d (Grammar.ofDepth d).armValue q (Expr.caseLexemes e?) e? := by
  unfold Grammar.armValue
  cases e? with
  | none => exact .kind (.skip (by decide) (.skipOver rfl (by decide) (.pure none)))
  | some e =>
    rw [Expr.caseLexemes, List.length_cons, List.length_append] at hd
    refine .kind (.skip (by decide) (((he e rfl).conditional (by omega)).bind ?_ ?_))
    · exact fun n hn => by cases hn
    · exact .skipOver rfl (by decide) (.pure (some e))

/-- An arm ends where another one begins, or with the switch. -/
theorem arm {ss : List Stmt} (he : ∀ e ∈ e?, e.IsValue) (hss : ∀ s ∈ ss, s.InC)
    (hread : ∀ s ∈ ss, s.IsRead source)
    (hd : (Expr.caseLexemes e? ++ Stmt.listLexemes ss).length ≤ d)
    (hmany : (Stmt.listLexemes ss).length ≤ source.settings.maxStatements) :
    ReadsBefore source d (Grammar.ofDepth d).arm (fun k => k == .eof || Grammar.endsArm k)
      (Expr.caseLexemes e? ++ Stmt.listLexemes ss) ⟨e?, ss⟩ := by
  rw [List.length_append] at hd
  have hstop : ∀ k, k.beginsStatement → Grammar.endsArm k = false := by
    intro k hk
    cases k <;> first | rfl | cases hk
  have hbody := statements hss hread hstop rfl (d := d) (by omega) hmany
  unfold Grammar.arm
  exact .bindClosed (fun _ => armValue he (by omega)) (hbody.andLast (.pure _))

theorem arms {arms : List Arm} (hvalues : ∀ a ∈ arms, ∀ e ∈ a.value?, e.IsValue)
    (hbodies : ∀ a ∈ arms, ∀ s ∈ a.body, s.InC)
    (hread : ∀ a ∈ arms, ∀ s ∈ a.body, s.IsRead source) (hd : (Stmt.armLexemes arms).length ≤ d)
    (hmany : (Stmt.armLexemes arms).length ≤ source.settings.maxStatements) :
    ReadsBefore source d (Parse.collect (Grammar.ofDepth d).nextArm) (· = .rbrace)
      (Stmt.armLexemes arms) (arms.map some) := by
  refine .collect fun n hn => ?_
  induction arms generalizing n with
  | nil =>
    obtain ⟨n, rfl⟩ : ∃ n', n = n' + 1 := ⟨n - 1, by omega⟩
    rw [Parse.collectFor, Grammar.nextArm, bind_assoc]
    refine .kindAfter ?_
    rintro _ rfl
    exact .pure []
  | cons a arms ih =>
    obtain ⟨n, rfl⟩ : ∃ n', n = n' + 1 := ⟨n - 1, by omega⟩
    obtain ⟨hvalue, hvalues'⟩ := List.forall_mem_cons.1 hvalues
    obtain ⟨hbody, hbodies'⟩ := List.forall_mem_cons.1 hbodies
    obtain ⟨harm, hread'⟩ := List.forall_mem_cons.1 hread
    obtain ⟨value?, body⟩ := a
    dsimp only at hvalue hbody harm
    rw [Stmt.armLexemes, ← List.append_assoc] at hd hn hmany ⊢
    rw [List.length_append] at hd hn hmany
    obtain ⟨w, rest, hws, hw⟩ := Expr.begins_caseLexemes value?
    have hpos : 0 < (Expr.caseLexemes value? ++ Stmt.listLexemes body).length := by
      rw [hws, List.cons_append, List.length_cons]
      omega
    have hmanyBody : (Stmt.listLexemes body).length ≤ source.settings.maxStatements := by
      rw [List.length_append] at hmany
      omega
    have hfirst := (arm hvalue hbody harm (d := d) (by omega) hmanyBody).attempt
      (List.length_pos_iff.1 hpos)
    have hothers := ih hvalues' hbodies' hread' (by omega) (by omega) n (by omega)
    rw [Parse.collectFor, Grammar.nextArm, bind_assoc]
    rw [hws] at hfirst ⊢
    refine .kind ?_
    rw [if_neg (by rcases hw with hw | hw <;> rw [hw] <;> decide), bind_assoc]
    refine hfirst.bind ?_ (hothers.andLast (.pure _))
    cases arms with
    | nil =>
      rintro _ rfl
      rfl
    | cons a arms =>
      obtain ⟨value?, body⟩ := a
      obtain ⟨w, rest, hws, hw⟩ := Expr.begins_caseLexemes value?
      rw [Stmt.armLexemes, hws]
      show (w.kind == .eof || Grammar.endsArm w.kind) = true
      rcases hw with hw | hw
      · rw [hw]
        rfl
      · rw [hw]
        rfl

end ReadsBefore

/-! ### Forms -/

namespace Stmt.IsRead

variable {e : Expr} {e? : Option Expr} {s : Stmt}

theorem block {ss : List Stmt} (hss : ∀ s ∈ ss, s.InC) (hread : ∀ s ∈ ss, s.IsRead source) :
    IsRead source (.block ss) := by
  intro d hd hmany
  simp only [lexemes, List.length_cons, List.length_append] at hd hmany
  unfold Grammar.statement
  refine .kind ?_
  exact (ReadsBefore.block hss hread (by omega) (by omega)).andLast (.pure _)

theorem returning (he : ∀ e ∈ e?, e.IsValue) : IsRead source (.returning e?) := by
  intro d hd _
  simp only [lexemes, List.length_cons, List.length_append] at hd
  unfold Grammar.statement
  exact .kind ((ReadsBefore.valueJump he (by omega)).andLast (.pure _))

theorem breaking : IsRead source .breaking := by
  intro d _ _
  unfold Grammar.statement
  refine .kind ?_
  exact (ReadsBefore.jump (by decide)).andLast (.pure _)

theorem continuing : IsRead source .continuing := by
  intro d _ _
  unfold Grammar.statement
  refine .kind ?_
  exact (ReadsBefore.jump (by decide)).andLast (.pure _)

theorem goto {text : String} : IsRead source (.goto text) := by
  intro d _ _
  unfold Grammar.statement
  refine .kind (.skip (by decide) ?_)
  exact ReadsBefore.bind (q := fun _ => True) .name trivial (.skipOver rfl (by decide) (.pure _))

theorem label {text : String} : IsRead source (.label text) := by
  intro d _ _
  unfold Grammar.statement
  exact .kind (.checkSecond (ReadsBefore.labelName.andLast (.pure _)))

theorem var {text : String} (he : ∀ e ∈ e?, e.IsValue) :
    IsRead source (.var ⟨"int", text, e?, none, []⟩) := by
  intro d hd _
  simp only [lexemes, List.length_cons, List.length_append] at hd
  have hplain : ReadsBefore source d (Grammar.ofDepth d).plainStatement
      (EndsBefore (.var ⟨"int", text, e?, none, []⟩)) (lexemes (.var ⟨"int", text, e?, none, []⟩))
      (.var ⟨"int", text, e?, none, []⟩) :=
    .namedDeclaration rfl ((ReadsBefore.variableDeclaration he (by omega)).andLast (.pure _))
  unfold Grammar.statement
  exact .kind (hplain.andLast (.pure _))

/-- A choice without a second branch has no `else` after it, and the first branch of one with a second
    branch has the `else` after it. -/
theorem ifElse {yes : Stmt} {no? : Option Stmt} (he : e.IsValue) (hyes : yes.InC)
    (hyesRead : yes.IsRead source) (hno : ∀ no ∈ no?, no.InC) (hnoRead : ∀ no ∈ no?, no.IsRead source)
    (hclosed : no?.isSome → yes.endsOpen = false) : IsRead source (.ifElse e yes no?) := by
  intro d hd hmany
  have hread : ReadsBefore source d (Grammar.ofDepth d).ifElse (EndsBefore (.ifElse e yes no?))
      (lexemes (.ifElse e yes no?)) (.ifElse e yes no?) := by
    simp only [lexemes, Expr.conditionLexemes, List.length_cons, List.length_append] at hd hmany
    have hfirst := hyesRead.branch hyes.lexemes_ne_nil (d := d) (by omega) (by omega)
    unfold Grammar.ifElse
    refine .skip (by decide) (.acceptOther (by decide) ?_)
    refine .bindClosed (fun _ => .condition he (by omega)) ?_
    cases no? with
    | none =>
      refine hfirst.bind (fun k hk _ => hk rfl) ?_
      exact (ReadsBefore.optionalAfter_none fun hk => hk rfl rfl).andLast (.pure _)
    | some no =>
      rw [elseLexemes, List.length_cons] at hd hmany
      have hsecond := (hnoRead no rfl).branch (hno no rfl).lexemes_ne_nil (d := d) (by omega) (by omega)
      have hends (k : TokenKind) (hk : EndsBefore (.ifElse e yes (some no)) k) : no.EndsBefore k := by
        rwa [EndsBefore, endsOpen] at hk
      refine hfirst.bind (fun hopen => ?_) ?_
      · rw [hclosed rfl] at hopen
        cases hopen
      · have helse := ReadsBefore.optionalAfter (w := spelled .kwElse) rfl (by decide)
          (hsecond.mono hends)
        exact helse.andLast (.pure _)
  unfold Grammar.statement
  exact .kind (hread.andLast (.pure _))

theorem whileLoop {body : Stmt} (he : e.IsValue) (hbody : body.InC) (hread : body.IsRead source) :
    IsRead source (.whileLoop e body) := by
  intro d hd hmany
  simp only [lexemes, Expr.conditionLexemes, List.length_cons, List.length_append] at hd hmany
  have hbranch := hread.branch hbody.lexemes_ne_nil (d := d) (by omega) (by omega)
  have hloop : ReadsBefore source d (Grammar.ofDepth d).whileLoop body.EndsBefore
      (lexemes (.whileLoop e body)) (.whileLoop e body) := by
    unfold Grammar.whileLoop
    refine .skip (by decide) (.bindClosed (fun _ => .condition he (by omega)) ?_)
    exact hbranch.andLast (.pure _)
  unfold Grammar.statement
  exact .kind (hloop.andLast (.pure _))

/-- The body of a loop that runs it first has the keyword of the condition after it. -/
theorem doLoop {body : Stmt} (hbody : body.InC) (hread : body.IsRead source) (he : e.IsValue) :
    IsRead source (.doLoop body e) := by
  intro d hd hmany
  simp only [lexemes, Expr.conditionLexemes, List.length_cons, List.length_append] at hd hmany
  have hbranch := hread.branch hbody.lexemes_ne_nil (d := d) (by omega) (by omega)
  have hloop : ReadsBefore source d (Grammar.ofDepth d).doLoop (EndsBefore (.doLoop body e))
      (lexemes (.doLoop body e)) (.doLoop body e) := by
    unfold Grammar.doLoop
    refine .skip (by decide) (hbranch.bind (fun _ => by decide) (.skipOver rfl (by decide) ?_))
    refine .bindClosed (fun _ => .condition he (by omega)) ?_
    exact .skipOver rfl (by decide) (.pure _)
  unfold Grammar.statement
  exact .kind (hloop.andLast (.pure _))

theorem forLoop {init? : Option Stmt} {condition? step? : Option Expr} {body : Stmt}
    (hclause : ∀ s ∈ init?, s.isClause) (hinit : ∀ s ∈ init?, s.InC)
    (hcondition : ∀ e ∈ condition?, e.IsValue) (hstep : ∀ e ∈ step?, e.IsValue) (hbody : body.InC)
    (hread : body.IsRead source) : IsRead source (.forLoop init? condition? step? body) := by
  intro d hd hmany
  simp only [lexemes, List.length_cons, List.length_append] at hd hmany
  have hbranch := hread.branch hbody.lexemes_ne_nil (d := d) (by omega) (by omega)
  have hclauses : ReadsBefore source d (Grammar.ofDepth d).clauseLoop body.EndsBefore
      (clauseLexemes init? ++ (Expr.optionalLexemes condition? ++ spelled .semicolon ::
        (Expr.optionalLexemes step? ++ spelled .rparen :: body.lexemes)))
      (.forLoop init? condition? step? body) := by
    unfold Grammar.clauseLoop
    refine .bindClosed (fun _ => .loopInit hclause hinit (by omega)) ?_
    refine (ReadsBefore.expressionUnless rfl (fun n hn => by cases hn) hcondition (by omega)).bind rfl ?_
    refine .skipOver rfl (by decide) ?_
    refine (ReadsBefore.expressionUnless rfl (fun n hn => by cases hn) hstep (by omega)).bind rfl ?_
    exact .skipOver rfl (by decide) (hbranch.andLast (.pure _))
  have hloop : ReadsBefore source d (Grammar.ofDepth d).forLoop body.EndsBefore
      (lexemes (.forLoop init? condition? step? body)) (.forLoop init? condition? step? body) := by
    unfold Grammar.forLoop
    exact .skip (by decide) (.skipOver rfl (by decide) (.isCpp hclauses))
  unfold Grammar.statement
  exact .kind (hloop.andLast (.pure _))

theorem switch {arms : List Arm} (he : e.IsValue) (hvalues : ∀ a ∈ arms, ∀ e ∈ a.value?, e.IsValue)
    (hbodies : ∀ a ∈ arms, ∀ s ∈ a.body, s.InC)
    (hread : ∀ a ∈ arms, ∀ s ∈ a.body, s.IsRead source) : IsRead source (.switch e arms) := by
  intro d hd hmany
  simp only [lexemes, Expr.conditionLexemes, List.length_cons, List.length_append] at hd hmany
  have harms := ReadsBefore.arms hvalues hbodies hread (d := d) (by omega) (by omega)
  have hswitch : ReadsBefore source d (Grammar.ofDepth d).switch (EndsBefore (.switch e arms))
      (lexemes (.switch e arms)) (.switch e arms) := by
    unfold Grammar.switch
    refine .skip (by decide) (.bindClosed (fun _ => .condition he (by omega)) ?_)
    refine .skipOver rfl (by decide) (harms.bind rfl (.closeBrace ?_))
    have hpresent : (arms.map some).filterMap id = arms := by
      rw [List.filterMap_map]
      exact List.filterMap_some
    rw [hpresent]
    exact .pure _
  unfold Grammar.statement
  exact .kind (hswitch.andLast (.pure _))

end Stmt.IsRead

end CTree