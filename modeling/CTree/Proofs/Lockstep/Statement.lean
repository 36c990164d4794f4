import CTree.Proofs.Lockstep.Declaration

/-!
# Statements in lockstep

A statement takes a token whatever it is, for every keyword is taken, and so is the first token of an
expression.
-/

namespace CTree

namespace Lockstep

variable {a b : Source} {n k : Nat} {P : ParseState → Prop}

theorem rangeHead : Lockstep a b n P k always Parse.rangeHead Parse.rangeHead := by
  unfold Parse.rangeHead
  refine leniently (.bind specifiers fun specs => .bind typeName fun type => ?_)
  refine .test fun bracket => ?_
  split
  · refine .mark fun start => .bind (skipBalanced _ _ (by decide)).still fun _ => ?_
    refine .bind textSince fun name => .andThen (skipOver .colon _ nofun) fun _ => .pure _
  · exact .bind (name _).still fun name => .andThen (skipOver .colon _ nofun) fun _ => .pure _

theorem caught : Lockstep a b n P k never Parse.caught Parse.caught := by
  unfold Parse.caught
  refine .bind (acceptAnywhere .ellipsis) fun all => ?_
  split
  · exact .pure _
  · refine leniently (.bind specifiers fun _ => .bind typeName fun type => ?_)
    exact .bind nameOrNone fun name => .pure _

theorem jump {m : Stmt → Prop} (s : Stmt) (place : String) (hP : a.Takes n k P m) :
    Lockstep a b n P k m (Grammar.jump s place) (Grammar.jump s place) := by
  unfold Grammar.jump
  exact .taking hP skip fun _ => .bind (skipOverAnywhere .semicolon _) fun _ => .pure _

/-- A label of a switch does not belong anywhere else. -/
theorem strayLabel {α : Type} {m : α → Prop} {t : TokenKind}
    (h : IsPlain (t.describe ++ " label outside of a switch")) : Lockstep a b n (a.At t) k m
      (do Parse.unexpected ((← Parse.kind).describe ++ " label outside of a switch"))
      (do Parse.unexpected ((← Parse.kind).describe ++ " label outside of a switch")) := by
  refine .lookAt (fun v => v.kind 0) (fun _ _ => rfl) fun t' => ?_
  by_cases ht : t' = t
  · subst ht
    exact unexpected h
  · exact .vacuous fun s hs => ht (hs.2.symm.trans hs.1)

theorem labelName {m : String → Prop} (hP : a.Takes n k P m) :
    Lockstep a b n P k m Parse.labelName Parse.labelName := by
  unfold Parse.labelName
  exact .taking hP advance fun t => .bind skipAnywhere fun _ => .pure _

end Lockstep

namespace Grammar

namespace InStep

open Lockstep

variable {a b : Source} {n k : Nat} {P : ParseState → Prop} {g g' : Grammar}

section Parts

variable (hg : InStep a b n g g')
include hg

/-! ### Parts of statements -/

theorem expressionStatement :
    Lockstep a b n P (k + 1) always g.expressionStatement g'.expressionStatement := by
  unfold Grammar.expressionStatement
  refine .andThen hg.commaExpression fun value => ?_
  exact .bind (skipOverAnywhere .semicolon _) fun _ => .pure _

theorem expressionUnless (t : TokenKind) :
    Lockstep a b n P (k + 1) never (g.expressionUnless t) (g'.expressionUnless t) := by
  unfold Grammar.expressionUnless
  refine .test fun missing => ?_
  split
  · exact .pure _
  · exact .bind hg.commaExpression.still fun value => .pure _

theorem condition (keyword : String) :
    Lockstep a b n P k always (g.condition keyword) (g'.condition keyword) := by
  unfold Grammar.condition
  refine .andThen (skipOver .lparen _ nofun) fun _ => .andThen hg.commaExpression fun value => ?_
  exact .bind (skipOverAnywhere .rparen _) fun _ => .pure _

theorem branch : Lockstep a b n P (k + 2) always g.branch g'.branch := by
  unfold Grammar.branch
  exact .andThen hg.parseStatement fun s? => .pure _

end Parts

section Loops

variable (hg : InStep a b n g g')
include hg

/-! ### Choices and loops -/

theorem ifElse : Lockstep a b n P k always g.ifElse g'.ifElse := by
  unfold Grammar.ifElse
  refine .bind skipAnywhere fun _ => .bind (acceptAnywhere .kwConstexpr) fun _ => ?_
  refine .andThen (hg.condition _) fun condition => .andThen hg.branch fun yes => ?_
  exact .bind (optionalAfter .kwElse hg.branch.still nofun).still fun no? => .pure _

theorem whileLoop : Lockstep a b n P k always g.whileLoop g'.whileLoop := by
  unfold Grammar.whileLoop
  refine .bind skipAnywhere fun _ => .andThen (hg.condition _) fun condition => ?_
  exact .andThen hg.branch fun body => .pure _

theorem doLoop {m : Stmt → Prop} (hP : a.Takes n k P m) :
    Lockstep a b n P k m g.doLoop g'.doLoop := by
  unfold Grammar.doLoop
  refine .taking hP skip fun _ => .andThen hg.branch fun body => ?_
  refine .andThen (skipOver .kwWhile _ nofun) fun _ => .andThen (hg.condition _) fun condition => ?_
  exact .bind (skipOverAnywhere .semicolon _) fun _ => .pure _

theorem rangeLoop (head : Stmt) :
    Lockstep a b n P (k + 1) always (g.rangeLoop head) (g'.rangeLoop head) := by
  unfold Grammar.rangeLoop
  refine .andThen hg.expression fun range => .andThen (skipOver .rparen _ nofun) fun _ => ?_
  exact .andThen hg.branch fun body => .pure _

theorem loopInit : Lockstep a b n P (k + 1) always g.loopInit g'.loopInit := by
  unfold Grammar.loopInit
  refine .bindBool (accept .semicolon nofun) (.pure _) ?_
  refine .bindOption hg.declaration? (fun s => .pure _) ?_
  exact .andThen hg.expressionStatement fun s => .pure _

theorem clauseLoop : Lockstep a b n P (k + 1) always g.clauseLoop g'.clauseLoop := by
  unfold Grammar.clauseLoop
  refine .andThen hg.loopInit fun init? => .bind (hg.expressionUnless _) fun condition? => ?_
  refine .andThen (skipOver .semicolon _ nofun) fun _ => ?_
  refine .bind (hg.expressionUnless _) fun step? => ?_
  exact .andThen (skipOver .rparen _ nofun) fun _ => .andThen hg.branch fun body => .pure _

theorem forLoop : Lockstep a b n P k always g.forLoop g'.forLoop := by
  unfold Grammar.forLoop
  refine .bind skipAnywhere fun _ => ?_
  refine .andThen (skipOver .lparen _ nofun) fun _ => .isCpp fun cpp => ?_
  split
  · refine .bindOption (speculate rangeHead) (fun head => ?_) ?_
    · exact (hg.rangeLoop head).still
    · exact hg.clauseLoop.still
  · exact hg.clauseLoop.still

end Loops

section Switches

variable (hg : InStep a b n g g')
include hg

/-! ### Switches -/

theorem armValue : Lockstep a b n P k always g.armValue g'.armValue := by
  unfold Grammar.armValue
  refine .kind fun t => ?_
  split
  · refine .andThen (skip (Source.takes_at (by decide))) fun _ => ?_
    refine .andThen hg.parseConditional fun value => ?_
    exact .bind (skipOverAnywhere .colon _) fun _ => .pure _
  · refine .andThen (skip (Source.takes_at (by decide))) fun _ => ?_
    exact .bind (skipOverAnywhere .colon _) fun _ => .pure _
  · exact expected _

theorem arm : Lockstep a b n P k always g.arm g'.arm := by
  unfold Grammar.arm
  exact .andThen hg.armValue fun value? => .bind (hg.statements _) fun body => .pure _

theorem nextArm : Lockstep a b n P k present g.nextArm g'.nextArm := by
  unfold Grammar.nextArm
  refine .kind fun t => ?_
  split
  · exact .result Bool.false_ne_true
  · rename_i hgo
    have htoken : t ≠ .eof := by
      rintro rfl
      exact hgo rfl
    exact .andThen (attempt (Source.beforeToken_at htoken) hg.arm) fun x => .pure _

theorem switch : Lockstep a b n P k always g.switch g'.switch := by
  unfold Grammar.switch
  refine .bind skipAnywhere fun _ => .andThen (hg.condition _) fun condition => ?_
  refine .bind (skipOverAnywhere .lbrace _) fun _ => .bind (collect hg.nextArm.still) fun arms => ?_
  exact .bind (closeBrace _) fun _ => .pure _

end Switches

section Statements

variable (hg : InStep a b n g g')
include hg

/-! ### Exceptions -/

theorem handler? : Lockstep a b n P k never g.handler? g'.handler? := by
  unfold Grammar.handler?
  refine .bind (acceptAnywhere .kwCatch) fun more => ?_
  split
  · refine .bind (skipOverAnywhere .lparen _) fun _ => .bind caught fun named => ?_
    refine .andThen (skipOver .rparen _ nofun) fun _ => .andThen hg.block fun body => .pure _
  · exact .pure _

theorem trying : Lockstep a b n P k always g.trying g'.trying := by
  unfold Grammar.trying
  refine .bind skipAnywhere fun _ => .andThen hg.block fun body => ?_
  refine .bind (collect hg.handler?) fun handlers => ?_
  split
  · exact .bind (expected _) fun _ => .pure _
  · exact .pure _

/-! ### All statements -/

theorem valueJump {m : Option Expr → Prop} (place : String) (hP : a.Takes n k P m) :
    Lockstep a b n P k m (g.valueJump place) (g'.valueJump place) := by
  unfold Grammar.valueJump
  refine .taking hP skip fun _ => .bind (hg.expressionUnless _) fun value? => ?_
  exact .bind (skipOverAnywhere .semicolon _) fun _ => .pure _

theorem plainStatement :
    Lockstep a b n P (k + 1) always g.plainStatement g'.plainStatement := by
  unfold Grammar.plainStatement
  refine .bindOption hg.namedDeclaration? (fun s => .pure _) ?_
  refine .bindOption hg.declaration? (fun s => .pure _) ?_
  exact hg.expressionStatement

theorem statement : Lockstep a b n P (k + 1) always g.statement g'.statement := by
  unfold Grammar.statement
  refine .kind fun t => ?_
  split
  · exact .andThen (skip (Source.takes_at (by decide))) fun _ => .pure _
  · exact .andThen hg.block fun body => .pure _
  · exact hg.ifElse.map fun _ h => h
  · exact hg.whileLoop.map fun _ h => h
  · exact (hg.doLoop (Source.takes_at (by decide))).map fun _ h => h
  · exact hg.forLoop.map fun _ h => h
  · exact hg.switch.map fun _ h => h
  · exact .andThen (hg.valueJump _ (Source.takes_at (by decide))) fun value? => .pure _
  · exact (Lockstep.jump _ _ (Source.takes_at (by decide))).map fun _ h => h
  · exact (Lockstep.jump _ _ (Source.takes_at (by decide))).map fun _ h => h
  · refine .andThen (skip (Source.takes_at (by decide))) fun _ => ?_
    refine .bind (name _).still fun label => ?_
    exact .bind (skipOverAnywhere .semicolon _) fun _ => .pure _
  · exact hg.trying.map fun _ h => h
  · exact .andThen (hg.valueJump _ (Source.takes_at (by decide))) fun value? => .pure _
  · exact strayLabel (isPlain_append rfl (by decide) (by decide) (by decide))
  · exact strayLabel (isPlain_append rfl (by decide) (by decide) (by decide))
  · refine .checkAhead fun label => ?_
    split
    · exact .andThen (labelName (Source.takes_at (by decide))) fun name => .pure _
    · exact hg.plainStatement.map fun _ h => h
  · exact hg.plainStatement.map fun _ h => h

end Statements

end InStep

end Grammar

end CTree
