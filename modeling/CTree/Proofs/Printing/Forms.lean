import CTree.Proofs.Printing.Decimal
import CTree.Proofs.Printing.Levels

/-!
# The forms of an expression

How each form of an expression is read, at its own level, if its parts are read at the levels that
their places ask for.
-/

namespace CTree

open Lexeme

variable {source : Source} {d l : Nat} {ws ws' : List Lexeme} {e e' : Expr}

/-! ### Names and integers -/

/-- Without `::` a path is one name. -/
theorem Reads.qualifiedName {text : String} :
    Reads source d Parse.qualifiedName 15 [Lexeme.name text] text := by
  unfold Parse.qualifiedName
  refine .isCpp ?_
  show Reads source d (Parse.name >>= fun first => _) 15 [Lexeme.name text] text
  refine ReadsBefore.name.andLast (.stop ?_)
  unfold Parse.nameSegment
  refine .checkAfter (fun hends => absurd (hends 15 rfl) (by decide)) ?_
  exact .look (fun s => ⟨_, Parse.run_checkAhead 1 .identifier⟩) fun _ => .pure none

/-- A name of C has no template arguments. -/
theorem ReadsBefore.templateName {path : String} {q : TokenKind → Prop} :
    ReadsBefore source d (Grammar.templateName path) q [] (.identifier path) := by
  unfold Grammar.templateName
  refine .isCpp ?_
  exact .look (fun s => ⟨_, Parse.run_check .lt⟩) fun _ => .pure _

theorem AsSuffixed.identifier {text : String} (h : Rule.isVariable text) :
    AsSuffixed source [Lexeme.name text] (.identifier text) := by
  intro d _
  refine .first ?_
  simp only [Rule.isVariable, Bool.and_eq_true, bne_iff_ne, Option.isNone_iff_eq_none] at h
  obtain ⟨⟨-, hnull⟩, hcast⟩ := h
  unfold Grammar.primary
  refine .kind ?_
  show Reads source d (Grammar.ofDepth d).nameExpression 15 [Lexeme.name text] (.identifier text)
  unfold Grammar.nameExpression
  refine Reads.qualifiedName.bindLast (Nat.le_refl 15) ?_
  rw [beq_false_of_ne hnull, if_neg Bool.false_ne_true, hcast]
  exact .templateName

theorem AsSuffixed.int {value : Int64} (h : 0 ≤ value) :
    AsSuffixed source [decimal value.toNatClampNeg] (.int value) := by
  intro d _
  refine .first ?_
  unfold Grammar.primary
  refine .kind ?_
  show Reads source d Parse.intLiteral 15 [decimal value.toNatClampNeg] (.int value)
  unfold Parse.intLiteral
  refine .advance (fun h => by cases h) fun t ht => ?_
  have htext : t.text = value.toNatClampNeg.repr := congrArg Lexeme.text ht
  have hlt : value.toNatClampNeg < UInt64.size :=
    Nat.lt_trans (Int64.toNatClampNeg_lt value) (by decide)
  rw [htext, Literal.int_repr hlt, Int64.ofNat_toNatClampNeg value h]
  exact .pure _

/-! ### What stands after an operand -/

namespace AsSuffixed

/-- What stands after an operand goes on with any operand. -/
theorem next {w : Lexeme} (h : AsSuffixed source ws e) (hw : w.kind.extends? = some 14)
    (hsuffix : ∀ d, ws'.length ≤ d →
      Reads source d ((Grammar.ofDepth d).suffix e) 15 (w :: ws') (some e')) :
    AsSuffixed source (ws ++ w :: ws') e' := by
  intro d hd
  rw [List.length_append, List.length_cons] at hd
  refine (h d (by omega)).next (fun n hn => ?_) (hsuffix d (by omega))
  rw [hw] at hn
  cases hn
  decide

theorem after {op : UnaryOp} (hop : op = .inc ∨ op = .dec) (h : AsSuffixed source ws e) :
    AsSuffixed source (ws ++ [spelled op.kind]) (.unary op .after e) := by
  rcases hop with rfl | rfl
  · exact h.next rfl fun d _ => .kind (.skip (by decide) (.pure _))
  · exact h.next rfl fun d _ => .kind (.skip (by decide) (.pure _))

theorem index (h : AsSuffixed source ws e) (hposition : AsComma source ws' e') :
    AsSuffixed source (ws ++ spelled .lbracket :: (ws' ++ [spelled .rbracket])) (.index e e') := by
  refine h.next rfl fun d hd => .kind (.skip (by decide) ?_)
  rw [List.length_append] at hd
  refine (hposition.commaExpression (by omega)).bind ?_ (.skipOver rfl (by decide) (.pure _))
  exact fun n hn => by cases hn

theorem member {field : String} (arrow : Bool) (h : AsSuffixed source ws e) :
    AsSuffixed source (ws ++ [spelled (if arrow then .arrow else .dot), Lexeme.name field])
      (.member e arrow field) := by
  have hname : ∀ d, Reads source d Parse.memberName 15 [Lexeme.name field] field := fun d => by
    unfold Parse.memberName
    refine .acceptOther (fun h => by cases h) (.acceptOther (fun h => by cases h) (.isCpp ?_))
    exact .name
  cases arrow with
  | true =>
    refine h.next rfl fun d _ => .kind (.advance (by decide) fun t ht => ?_)
    rw [show t.kind = .arrow from congrArg Lexeme.kind ht]
    exact (hname d).bindLast (Nat.le_refl 15) (.pure _)
  | false =>
    refine h.next rfl fun d _ => .kind (.advance (by decide) fun t ht => ?_)
    rw [show t.kind = .dot from congrArg Lexeme.kind ht]
    exact (hname d).bindLast (Nat.le_refl 15) (.pure _)

end AsSuffixed

/-! ### Arguments -/

section Arguments

/-- What an argument is written as is read as the argument. -/
def IsArgument (source : Source) (e : Expr) : Prop :=
  AsAssignment source (e.lexemesAt 1) e ∧ Begins TokenKind.beginsExpression (e.lexemesAt 1)

/-- What a variable starts with is an expression, with no brace before it. -/
theorem IsArgument.initializer (h : IsArgument source e) (hd : (e.lexemesAt 1).length ≤ d) :
    Reads source d (Grammar.ofDepth d).initializer 1 (e.lexemesAt 1) e := by
  unfold Grammar.initializer
  exact .checkBefore h.2 rfl (.strictly (h.1.nonterminal h.2.ne_nil hd))

/-- An argument has no `...` after it. -/
theorem IsArgument.reads (h : IsArgument source e) (hd : (e.lexemesAt 1).length ≤ d) :
    Reads source d (Grammar.ofDepth d).argument 1 (e.lexemesAt 1) e := by
  unfold Grammar.argument
  refine (h.initializer hd).andLast (.acceptAfter ?_ (.pure e))
  exact fun hends => absurd (hends 1 rfl) (by decide)

theorem IsArgument.separated {es : List Expr} (he : IsArgument source e)
    (hes : ∀ e ∈ es, IsArgument source e) (hd : (Expr.listLexemes (e :: es)).length ≤ d) :
    Reads source d (Parse.separated (Grammar.ofDepth d).argument) 0 (Expr.listLexemes (e :: es))
      (e :: es) := by
  refine .chain fun n hn => ?_
  induction es generalizing e n with
  | nil =>
    obtain ⟨n, rfl⟩ : ∃ n', n = n' + 1 := ⟨n - 1, by omega⟩
    rw [Expr.listLexemes, Expr.moreLexemes, List.append_nil] at hd ⊢
    refine (he.reads hd).bindLast (by decide) (.acceptAfter ?_ (.pure _))
    exact fun hends => absurd (hends 0 rfl) (by decide)
  | cons e' es ih =>
    obtain ⟨n, rfl⟩ : ∃ n', n = n' + 1 := ⟨n - 1, by omega⟩
    have hlexemes : Expr.listLexemes (e :: e' :: es) =
        e.lexemesAt 1 ++ spelled .comma :: Expr.listLexemes (e' :: es) := rfl
    rw [hlexemes, List.length_append, List.length_cons] at hd hn
    obtain ⟨he', hes⟩ := List.forall_mem_cons.1 hes
    rw [hlexemes]
    refine (he.reads (by omega)).bind (fun k hk => ?_) (.accept rfl (by decide) ?_)
    · cases hk
      decide
    · exact (ih he' hes (by omega) n (by omega)).andLast (.pure _)

end Arguments

/-- Arguments in parentheses, the first of which is taken already. -/
theorem Reads.arguments {es : List Expr} (hes : ∀ e ∈ es, IsArgument source e)
    (hd : (Expr.listLexemes es).length ≤ d) :
    Reads source d ((Grammar.ofDepth d).arguments .rparen) 15
      (Expr.listLexemes es ++ [spelled .rparen]) es := by
  unfold Grammar.arguments
  cases es with
  | nil =>
    rw [Expr.listLexemes]
    exact .accept rfl (by decide) (.pure [])
  | cons e es =>
    obtain ⟨he, hes⟩ := List.forall_mem_cons.1 hes
    have hbegins : Begins TokenKind.beginsExpression (Expr.listLexemes (e :: es) ++ _) :=
      (he.2.append (Expr.moreLexemes es)).append [spelled .rparen]
    refine .acceptBefore hbegins rfl ((he.separated hes hd).bind ?_ ?_)
    · exact fun k hk => by cases hk
    · exact .skipOver rfl (by decide) (.pure (e :: es))

theorem AsSuffixed.call {es : List Expr} (h : AsSuffixed source ws e)
    (hes : ∀ e ∈ es, IsArgument source e) :
    AsSuffixed source (ws ++ spelled .lparen :: (Expr.listLexemes es ++ [spelled .rparen]))
      (.call e es) := by
  refine h.next rfl fun d hd => .kind (.skip (by decide) ?_)
  rw [List.length_append] at hd
  exact (Reads.arguments hes (by omega)).bindLast (Nat.le_refl 15) (.pure _)

/-! ### What stands before an operand -/

theorem AsUnary.before (op : UnaryOp) (hws : ws ≠ []) (h : AsUnary source ws e) :
    AsUnary source (spelled op.kind :: ws) (.unary op .before e) := by
  intro d hd
  unfold Grammar.unary
  refine .kind ?_
  rw [show (spelled op.kind).kind = op.kind from rfl, op.ofKind?_kind]
  refine .skip (by cases op <;> decide) ?_
  exact (h.nonterminal hws (Nat.le_of_succ_le_succ hd)).bindLast (Nat.le_refl 13) (.pure _)

/-- What stands after `sizeof` is no type. -/
theorem AsUnary.sizeof (hbegins : Begins TokenKind.beginsExpression ws) (h : AsUnary source ws e) :
    AsUnary source (spelled .kwSizeof :: ws) (.sizeof (.value e)) := by
  intro d hd
  unfold Grammar.unary
  refine .kind (.kind ?_)
  show Reads source d (Grammar.ofDepth d).sizeofOf 13 (spelled .kwSizeof :: ws) (.sizeof (.value e))
  unfold Grammar.sizeofOf
  refine .skip (by decide) (.acceptBefore hbegins rfl (.parenthesizedType hbegins ?_))
  exact (h.nonterminal hbegins.ne_nil (Nat.le_of_succ_le_succ hd)).bindLast (Nat.le_refl 13)
    (.pure _)

/-! ### What stands between operands -/

/-- A left operand may be an operation of the same level, a right operand may not. -/
theorem ReadsAs.binary_operation {op : BinaryOp} (h3 : 3 ≤ op.level)
    (hl : ReadsAs source ws e op.level) (hr : ReadsAs source ws' e' (op.level + 1)) :
    AsBinary source (ws ++ spelled op.kind :: ws') (.binary op e e') op.level := by
  intro d n least hd hleast hn
  rw [List.length_append, List.length_cons] at hd
  have h12 := op.level_le
  have hkind := BinaryOp.ofKind?_kind h3
  have hextends := BinaryOp.extends?_of_ofKind? hkind
  refine (hl.binary op.level h3 h12 (Nat.le_refl _) d n least (by omega) hleast hn).next ?_ ?_
  · intro m hm
    rw [show (spelled op.kind).kind = op.kind from rfl, hextends] at hm
    cases hm
    omega
  · unfold Grammar.operation
    refine .kind ?_
    rw [show (spelled op.kind).kind = op.kind from rfl, hkind]
    show Reads source d (if op.level - 2 < least then _ else _) _ _ _
    rw [if_neg (by omega)]
    have hright := hr.binaryReads (n := n) (d := d) (by omega) (by omega) (by omega) (by omega)
    rw [show op.level + 1 - 2 = op.level - 2 + 1 by omega] at hright
    refine .skip (by cases op <;> decide) ?_
    exact hright.bindLast (Nat.le_refl _) (.pure _)

/-- The target of an assignment is no choice, its value may be an assignment. -/
theorem AsAssignment.assign {op : BinaryOp} (hop : op.isAssignment)
    (hbegins : Begins TokenKind.beginsExpression ws') (hl : AsConditional source ws e 2)
    (hr : AsAssignment source ws' e') :
    AsAssignment source (ws ++ spelled op.kind :: ws') (.binary op e e') := by
  intro d hd
  rw [List.length_append, List.length_cons] at hd
  have hkind := BinaryOp.assignmentOfKind?_kind hop
  have hextends := BinaryOp.extends?_of_assignmentOfKind? hkind
  unfold Grammar.assignment
  refine ReadsBefore.bind (hl d (by omega)) ?_ (.kind ?_)
  · intro m hm
    rw [show (spelled op.kind).kind = op.kind from rfl, hextends] at hm
    cases hm
    decide
  · rw [show (spelled op.kind).kind = op.kind from rfl, hkind]
    refine .skip (by cases op <;> decide) ?_
    refine .checkBefore hbegins rfl ?_
    exact (hr.nonterminal hbegins.ne_nil (by omega)).bindLast (Nat.le_refl 1) (.pure _)

/-- What stands on the left of a comma may have commas itself. -/
theorem AsComma.comma (hws' : ws' ≠ []) (hl : AsComma source ws e) (hr : AsAssignment source ws' e') :
    AsComma source (ws ++ spelled .comma :: ws') (.binary .comma e e') := by
  intro d hd
  rw [List.length_append, List.length_cons] at hd
  refine (hl d (by omega)).next (fun m hm => ?_) ?_
  · cases hm
    decide
  · unfold Grammar.moreComma
    refine .accept rfl (by decide) ?_
    exact (ReadsBefore.strictly (hr.nonterminal hws' (by omega))).andLast (.pure _)

/-- The second operand of a choice stands between two tokens, so it may be anything; the last one
    takes an assignment with it. -/
theorem AsConditional.choice {wc wyes wno : List Lexeme} {c yes no : Expr} (hno : wno ≠ [])
    (hc : ReadsAs source wc c 3) (hyes : AsComma source wyes yes)
    (hlast : AsAssignment source wno no) :
    AsConditional source (wc ++ spelled .question :: (wyes ++ spelled .colon :: wno))
      (.conditional c yes no) 1 := by
  intro d hd
  simp only [List.length_append, List.length_cons] at hd
  unfold Grammar.conditional
  have hcondition : Reads source d ((Grammar.ofDepth d).binary BinaryOp.levels 1) 3 wc c :=
    hc.binaryReads (Nat.le_refl 3) (by decide) (by omega) (by decide)
  refine hcondition.bind (fun m hm => ?_) (.accept rfl (by decide) ?_)
  · cases hm
    decide
  · refine (hyes.commaExpression (by omega)).bind (fun m hm => by cases hm) ?_
    refine .skipOver rfl (by decide) ?_
    exact (hlast.nonterminal hno (by omega)).bindLast (Nat.le_refl 1) (.pure _)

end CTree
