import CTree.Proofs.Printing.Roundtrip
import CTree.Proofs.Printing.StatementHeads

/-!
# Reading values

A name that is that of a cast is read as a variable wherever no `<` can come after it: where it stands
by itself, and on both sides of an assignment. All other values are expressions of C.
-/

namespace CTree

open Lexeme

variable {source : Source} {d : Nat} {e : Expr}

/-- A name is an operand, of an operation that is looser than a comparison. -/
theorem ReadsAs.name {text : String} (hnull : text ≠ "NULL") :
    ReadsAs source [Lexeme.name text] (.identifier text) 8 := by
  have hprimary (d : Nat) : Reads source d (Grammar.ofDepth d).primary 9 [Lexeme.name text]
      (.identifier text) := by
    unfold Grammar.primary
    refine .kind ?_
    show Reads source d (Grammar.ofDepth d).nameExpression 9 [Lexeme.name text] (.identifier text)
    unfold Grammar.nameExpression
    refine Reads.qualifiedName.bindLast (by decide) ?_
    rw [beq_false_of_ne hnull, if_neg Bool.false_ne_true]
    cases CastKind.ofName? text with
    | none => exact .templateName
    | some cast => exact .checkAfter (fun hends => absurd (hends 9 rfl) (by decide)) .templateName
  have hunary (d : Nat) :
      Reads source d (Grammar.ofDepth d).unary 9 [Lexeme.name text] (.identifier text) := by
    unfold Grammar.unary
    refine .kind (.kind ?_)
    exact (hprimary d).andLast (.stop (Reads.suffixAfter.weaken (by decide)))
  refine .ofLoops (List.cons_ne_nil _ _) (fun m _ _ hm d n least _ _ _ => ?_) (by decide)
    (fun h => absurd h (by decide)) (fun h => absurd h (by decide))
  exact .first ((hunary d).weaken (Nat.succ_le_succ hm))

theorem BinaryOp.levels_of_assignment {op : BinaryOp} (h : op.isAssignment) :
    op.level = 1 ∧ op.leftLevel = 3 ∧ op.rightLevel = 1 := by
  cases op <;> first | decide | cases h

namespace Expr.IsValue

/-- A value is read at each place that is looser than a comparison. -/
theorem readsAs_lexemesAt (h : e.IsValue) {least : Nat} (hle : least ≤ 8) :
    ReadsAs source (e.lexemesAt least) e least := by
  induction h generalizing least with
  | expression h => exact h.readsAs_lexemesAt h.readsAs (by omega)
  | @name text h hnull =>
    have hlexemes : (identifier text).lexemesAt least = [Lexeme.name text] :=
      if_pos (Nat.le_trans hle (by decide : 8 ≤ 14))
    rw [hlexemes]
    exact (ReadsAs.name hnull).mono hle
  | @assign op hop target value htarget hvalue iht ihv =>
    obtain ⟨hlevel, hleft, hright⟩ := BinaryOp.levels_of_assignment hop
    have hbegins := (assign hop htarget hvalue).begins
    have hread : AsAssignment source (binary op target value).lexemes (.binary op target value) := by
      rw [lexemes, hleft, hright]
      exact .assign hop (hvalue.begins_lexemesAt 1) ((iht (by decide)).target (Nat.le_refl 3))
        ((ihv (by decide)).assignment (Nat.le_refl 1))
    have hwhole : ReadsAs source (binary op target value).lexemes _ op.level :=
      .ofAssignment hbegins.ne_nil (by omega) hread
    exact hwhole.enclose hbegins (by omega)

/-- By itself a value is read with all the commas in it. -/
theorem commaExpression (h : e.IsValue) (hd : e.lexemes.length ≤ d) :
    Reads source d (Grammar.ofDepth d).commaExpression 0 e.lexemes e :=
  (h.readsAs_lexemesAt (Nat.zero_le 8)).comma.commaExpression hd

theorem isArgument (h : e.IsValue) : IsArgument source e :=
  ⟨(h.readsAs_lexemesAt (by decide)).assignment (Nat.le_refl 1), h.begins_lexemesAt 1⟩

/-- The value of an arm is a choice, or in parentheses. -/
theorem conditional (h : e.IsValue) (hd : (e.lexemesAt 3).length ≤ d) :
    Reads source d ((Grammar.ofDepth d).parse .conditional) 2 (e.lexemesAt 3) e := by
  have hread : AsConditional source (e.lexemesAt 3) e 2 :=
    (h.readsAs_lexemesAt (by decide)).target (Nat.le_refl 3)
  cases d with
  | zero =>
    exact absurd (List.length_eq_zero_iff.1 (Nat.le_zero.1 hd)) (h.begins_lexemesAt 3).ne_nil
  | succ d => exact .nested (hread d hd)

end Expr.IsValue

end CTree
