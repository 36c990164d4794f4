import CTree.Proofs.Tree.Declaration

/-!
# Sound statements

A choice, a loop, a switch and a `try` are constructs: what is inside of them is read where one
construct less may be opened.
-/

namespace CTree

open Parse

/-- An assignment becomes a statement of its own, so no other statement holds one at its top. -/
theorem Stmt.sound_ofExpr {known : KnownTypes} {room : Nat} {e : Expr} (h : e.Sound known room) :
    (ofExpr e).Sound known room := by
  unfold ofExpr
  split
  · rename_i op left right
    obtain ⟨hleft, hright⟩ := Expr.sound_binary.1 h
    split
    · rename_i hop
      exact sound_assign.2 ⟨hop, hleft, hright⟩
    · rename_i hop
      exact sound_expr.2 ⟨Bool.eq_false_iff.2 hop, h⟩
  · rename_i hother
    refine sound_expr.2 ⟨?_, h⟩
    unfold Expr.isAssignment
    split
    · exact (hother _ _ _ rfl).elim
    · rfl

namespace Grammar

namespace Sound

open Lockstep

variable {source : Source} {known : KnownTypes} {room : Nat} {g : Grammar}

/-- What the head of a loop over a range declares is a bare variable. -/
theorem rangeHead : Gives source known room Stmt.IsBareVariable rangeHead := by
  unfold Parse.rangeHead
  refine .leniently (.after specifiers fun specs => .after typeName fun type => ?_)
  have hrest : ∀ name, Gives source known room Stmt.IsBareVariable (do
      Parse.skipOver .colon "in range-for"
      return .var ⟨type, name, none, specs.storage?, []⟩) :=
    fun name => .after (skipOverAnywhere .colon _) fun _ => .pure ⟨rfl, rfl⟩
  refine .look (fun _ => rfl) fun brackets => ?_
  dsimp only
  split
  · refine .look (fun _ => rfl) fun start => .after (skipBalanced _ _ (by decide)) fun _ => ?_
    exact .after textSince hrest
  · exact .after (Lockstep.name _) hrest

section Parts

variable (hg : g.Sound source known)
include hg

/-! ### Parts of statements -/

theorem expressionStatement :
    Gives source known room (Stmt.Sound known room) g.expressionStatement := by
  unfold Grammar.expressionStatement
  refine hg.commaExpression.bind fun value => .after (skipOverAnywhere .semicolon _) fun _ => ?_
  exact .pure Stmt.sound_ofExpr

theorem expressionUnless (k : TokenKind) :
    Gives source known room (Maybe (Expr.Sound known room)) (g.expressionUnless k) := by
  unfold Grammar.expressionUnless
  refine .look (fun _ => rfl) fun missing => ?_
  split
  · exact .pure Maybe.none
  · exact hg.commaExpression.map fun value => Maybe.some

theorem condition (keyword : String) :
    Gives source known room (Expr.Sound known room) (g.condition keyword) := by
  unfold Grammar.condition
  refine .after (skipOverAnywhere .lparen _) fun _ => hg.commaExpression.bind fun value => ?_
  exact .after (skipOverAnywhere .rparen _) fun _ => .pure id

theorem branch : Gives source known room (Stmt.Sound known room) g.branch := by
  unfold Grammar.branch
  refine hg.parseStatement.bind fun s? => .pure fun hs => ?_
  cases s? with
  | none => exact Stmt.sound_block.2 Each.nil
  | some s => exact hs s rfl

/-! ### Choices and loops -/

theorem ifElse : Gives source known room (Stmt.Sound known (room + 1)) g.ifElse := by
  unfold Grammar.ifElse
  refine .after skipAnywhere fun _ => .after (acceptAnywhere .kwConstexpr) fun _ => ?_
  refine (hg.condition _).bind fun c => hg.branch.bind fun yes => ?_
  refine (hg.branch.optionalAfter .kwElse).bind fun no? => .pure fun hno hyes hc => ?_
  exact Stmt.sound_ifElse hc hyes hno

theorem whileLoop : Gives source known room (Stmt.Sound known (room + 1)) g.whileLoop := by
  unfold Grammar.whileLoop
  refine .after skipAnywhere fun _ => (hg.condition _).bind fun c => ?_
  exact hg.branch.bind fun body => .pure fun hbody hc => Stmt.sound_whileLoop hc hbody

theorem doLoop : Gives source known room (Stmt.Sound known (room + 1)) g.doLoop := by
  unfold Grammar.doLoop
  refine .after skipAnywhere fun _ => hg.branch.bind fun body => ?_
  refine .after (skipOverAnywhere .kwWhile _) fun _ => (hg.condition _).bind fun c => ?_
  refine .after (skipOverAnywhere .semicolon _) fun _ => .pure fun hc hbody => ?_
  exact Stmt.sound_doLoop hbody hc

theorem clauseLoop : Gives source known room (Stmt.Sound known (room + 1)) g.clauseLoop := by
  have hinit : Gives source known room (Maybe (Stmt.Sound known room)) g.loopInit := by
    unfold Grammar.loopInit
    refine .after (acceptAnywhere .semicolon) fun missing => ?_
    split
    · exact .pure Maybe.none
    · refine hg.declaration?.bind fun s? => ?_
      split
      · exact .pure id
      · exact hg.expressionStatement.bind fun s => .pure fun hs _ => Maybe.some hs
  unfold Grammar.clauseLoop
  refine hinit.bind fun init? => (hg.expressionUnless _).bind fun condition? => ?_
  refine .after (skipOverAnywhere .semicolon _) fun _ => ?_
  refine (hg.expressionUnless _).bind fun step? => ?_
  refine .after (skipOverAnywhere .rparen _) fun _ => hg.branch.bind fun body => ?_
  exact .pure fun hbody hstep hcondition hinit => Stmt.sound_forLoop hinit hcondition hstep hbody

theorem forLoop : Gives source known room (Stmt.Sound known (room + 1)) g.forLoop := by
  unfold Grammar.forLoop
  refine .after skipAnywhere fun _ => .after (skipOverAnywhere .lparen _) fun _ => ?_
  refine .look (fun _ => rfl) fun cpp => ?_
  split
  · refine rangeHead.speculate.bind fun head? => ?_
    split
    · rename_i head
      unfold Grammar.rangeLoop
      refine hg.expression.bind fun range => .after (skipOverAnywhere .rparen _) fun _ => ?_
      refine hg.branch.bind fun body => .pure fun hbody hrange hhead => ?_
      exact Stmt.sound_rangeLoop (hhead head rfl) hrange hbody
    · exact hg.clauseLoop.mono fun s hs _ => hs
  · exact hg.clauseLoop

/-! ### Switches -/

theorem arm : Gives source known room (Arm.Sound known room) g.arm := by
  have hvalue : Gives source known room (Maybe (Expr.Sound known room)) g.armValue := by
    unfold Grammar.armValue
    refine .look (fun _ => rfl) fun k => ?_
    split
    · refine .after skipAnywhere fun _ => hg.parseConditional.bind fun value => ?_
      exact .after (skipOverAnywhere .colon _) fun _ => .pure Maybe.some
    · refine .after skipAnywhere fun _ => ?_
      exact .after (skipOverAnywhere .colon _) fun _ => .pure Maybe.none
    · exact .failure fun _ => ⟨_, rfl⟩
  unfold Grammar.arm
  refine hvalue.bind fun value? => (hg.statements endsArm).bind fun body => ?_
  exact .pure fun hbody hvalue => Arm.sound_iff.2 ⟨hvalue, hbody⟩

theorem switch : Gives source known room (Stmt.Sound known (room + 1)) g.switch := by
  have harm : Gives source known room (Maybe (Maybe (Arm.Sound known room))) g.nextArm := by
    unfold Grammar.nextArm
    refine .look (fun _ => rfl) fun k => ?_
    split
    · exact .pure Maybe.none
    · exact hg.arm.attempt.map fun a? => Maybe.some
  unfold Grammar.switch
  refine .after skipAnywhere fun _ => (hg.condition _).bind fun c => ?_
  refine .after (skipOverAnywhere .lbrace _) fun _ => (Gives.collect harm).bind fun arms => ?_
  refine .after (closeBrace _) fun _ => .pure fun harms hc => Stmt.sound_switch hc ?_
  intro a ha
  obtain ⟨a?, hmem, hsome⟩ := List.mem_filterMap.1 ha
  exact harms a? hmem a hsome

/-! ### Exceptions -/

theorem trying : Gives source known room (Stmt.Sound known (room + 1)) g.trying := by
  have hhandler : Gives source known room (Maybe (Handler.Sound known room)) g.handler? := by
    unfold Grammar.handler?
    refine .after (acceptAnywhere .kwCatch) fun more => ?_
    split
    · refine .after (skipOverAnywhere .lparen _) fun _ => .after caught fun r => ?_
      refine .after (skipOverAnywhere .rparen _) fun _ => hg.block.bind fun body => ?_
      exact .pure fun hbody => Maybe.some (Handler.sound_iff.2 hbody)
    · exact .pure Maybe.none
  unfold Grammar.trying
  refine .after skipAnywhere fun _ => hg.block.bind fun body => ?_
  refine (Gives.collect hhandler).bind fun handlers => ?_
  dsimp only
  split
  · exact .failure fun _ => ⟨_, rfl⟩
  · rename_i hsome
    refine .pure fun hhandlers hbody => Stmt.sound_trying hbody ?_ hhandlers
    rintro rfl
    exact hsome rfl

/-! ### All statements -/

theorem valueJump (place : String) :
    Gives source known room (Maybe (Expr.Sound known room)) (g.valueJump place) := by
  unfold Grammar.valueJump
  refine .after skipAnywhere fun _ => (hg.expressionUnless _).bind fun value? => ?_
  exact .after (skipOverAnywhere .semicolon _) fun _ => .pure id

theorem plainStatement : Gives source known room (Stmt.Sound known room) g.plainStatement := by
  unfold Grammar.plainStatement
  refine hg.namedDeclaration?.bind fun s? => ?_
  split
  · rename_i s
    exact .pure fun hs => hs s rfl
  · refine hg.declaration?.bind fun s? => ?_
    split
    · rename_i s
      exact .pure fun hs _ => hs s rfl
    · exact hg.expressionStatement.mono fun s hs _ _ => hs

theorem statement :
    Gives source known room (Maybe (Stmt.Sound known (room + 1))) g.statement := by
  have hle : room ≤ room + 1 := Nat.le_succ room
  have hjump : ∀ {s : Stmt} {place : String}, s.isAtom = true → Gives source known room
      (Maybe (Stmt.Sound known (room + 1))) (some <$> jump s place) := by
    intro s place hs
    unfold jump
    refine .map (m := Stmt.Sound known (room + 1)) ?_ fun s => Maybe.some
    exact .after skipAnywhere fun _ => .after (skipOverAnywhere .semicolon _) fun _ =>
      .pure (Stmt.sound_of_isAtom hs)
  have hplain : Gives source known room (Maybe (Stmt.Sound known (room + 1)))
      (some <$> g.plainStatement) := hg.plainStatement.map fun s hs => Maybe.some (hs.mono hle)
  unfold Grammar.statement
  refine .look (fun _ => rfl) fun k => ?_
  split
  · exact .after skipAnywhere fun _ => .pure Maybe.none
  · refine hg.block.bind fun body => .pure fun hbody => Maybe.some (Stmt.sound_block.2 ?_)
    exact fun s hs => (hbody s hs).mono hle
  · exact hg.ifElse.map fun s => Maybe.some
  · exact hg.whileLoop.map fun s => Maybe.some
  · exact hg.doLoop.map fun s => Maybe.some
  · exact hg.forLoop.map fun s => Maybe.some
  · exact hg.switch.map fun s => Maybe.some
  · refine (hg.valueJump _).bind fun value? => .pure fun hvalue => Maybe.some ?_
    exact Stmt.sound_returning.2 fun e he => (hvalue e he).mono hle
  · exact hjump rfl
  · exact hjump rfl
  · refine .after skipAnywhere fun _ => .after (Lockstep.name _) fun label => ?_
    refine .after (skipOverAnywhere .semicolon _) fun _ => ?_
    exact .pure (Maybe.some (Stmt.sound_of_isAtom rfl))
  · exact hg.trying.map fun s => Maybe.some
  · refine (hg.valueJump _).bind fun value? => .pure fun hvalue => Maybe.some ?_
    exact Stmt.sound_throwing.2 fun e he => (hvalue e he).mono hle
  · exact .failure fun _ => ⟨_, rfl⟩
  · exact .failure fun _ => ⟨_, rfl⟩
  · refine .look (fun _ => rfl) fun colon => ?_
    split
    · refine .after (labelName source.takes_nothing) fun name => ?_
      exact .pure (Maybe.some (Stmt.sound_of_isAtom rfl))
    · exact hplain
  · exact hplain

end Parts

end Sound

/-! ### Grammars of every depth -/

/-- One construct more. -/
theorem Sound.step {source : Source} {known : KnownTypes} {g : Grammar}
    (hg : g.Sound source known) (hframes : g.InStep source source 0 g) :
    Grammar.Sound source known ⟨fun r => Parse.nested (g.rule r)⟩ where
  words := hg.words
  parseAssignment := .nested hframes.assignment.keeps fun _ h => h ▸ hg.assignment
  parseConditional := .nested hframes.conditional.keeps fun _ h => h ▸ hg.conditional
  parseUnary := .nested hframes.unary.keeps fun _ h => h ▸ hg.unary
  parseElements := .nested hframes.elements.keeps fun inner h =>
    hg.elements.mono fun _ hes => ⟨inner, h ▸ Nat.lt_succ_self inner, hes⟩
  parseStatement := .nested hframes.statement.keeps fun _ h => h ▸ hg.statement
  parseMembers owner bases access := .nested (hframes.members owner bases access).keeps
    fun inner h => (hg.members owner bases access).mono fun _ hds =>
      ⟨inner, h ▸ Nat.lt_succ_self inner, hds⟩
  parseItems := .nested (hframes.items true).keeps fun inner h =>
    (hg.items true).mono fun _ hss => ⟨inner, h ▸ Nat.lt_succ_self inner, hss⟩
  parseItem := .nested hframes.item.keeps fun inner h =>
    hg.item.mono fun _ hs s he => (hs s he).mono (h ▸ Nat.le_succ inner)

theorem sound_ofDepth {source : Source} (hwords : source.NamesAreWords) (known : KnownTypes)
    (depth : Nat) : (ofDepth depth).Sound source known := by
  induction depth with
  | zero =>
    have hfails : ∀ {α : Type} (r : Nonterminal α) {room : Nat} {m : α → Prop},
        Gives source known room m ((ofDepth 0).parse r) := fun _ => .failure fun _ => ⟨_, rfl⟩
    exact ⟨hwords, hfails _, hfails _, hfails _, hfails _, hfails _,
      fun _ _ _ => hfails _, hfails _, hfails _⟩
  | succ depth ih => exact ih.step (ofDepth_framed source depth)

end Grammar

end CTree
