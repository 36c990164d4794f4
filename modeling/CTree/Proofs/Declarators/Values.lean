import CTree.Proofs.Declarators.Core
import CTree.Proofs.Declarators.Lists
import CTree.Proofs.Resumption.Assignment
import Mathlib.Logic.Function.Iterate

/-!
# Names as values and as types

How a name is read as an operand, with `*` before it, in parentheses, or as the argument of a call, and when
parentheses with a name between them are taken for a type.
-/

namespace CTree

open Parse Lexeme

variable {source : Source} {s : ParseState} {g : Grammar} {n m d : Nat} {e e' : Expr}
  {w : Lexeme} {ws : List Lexeme} {text : String}

/-! ### What stands after values -/

/-- The kinds that end every expression, in either dialect. -/
def TokenKind.endsExpression : TokenKind → Bool
  | .semicolon | .comma | .colon | .rparen | .rbracket | .rbrace | .eof => true
  | _ => false

/-- The kinds that end an operand: those that end an expression, and operators between operands that may
stand before one as well. -/
def TokenKind.endsValue (k : TokenKind) : Bool :=
  k.endsExpression || (BinaryOp.ofKind? k).isSome && (UnaryOp.ofKind? k).isSome

theorem TokenKind.endsValue_of_endsExpression {k : TokenKind} (h : k.endsExpression = true) :
    k.endsValue = true := by
  rw [TokenKind.endsValue, h, Bool.true_or]

theorem TokenKind.startsOperand_of_endsExpression {k : TokenKind} (h : k.endsExpression = true) :
    k.startsOperand = false := by
  cases k <;> first | rfl | cases h

/-- The operators that may stand before an operand and between two. -/
theorem TokenKind.mem_of_operators {k : TokenKind} (hbefore : (UnaryOp.ofKind? k).isSome = true)
    (hbetween : (BinaryOp.ofKind? k).isSome = true) : k ∈ [.minus, .plus, .star, .amp] := by
  cases k <;> first | decide | (cases hbefore; done) | cases hbetween

/-- So many more constructs may be opened, by the grammar and by the settings. -/
structure Source.HasRoom (source : Source) (s : ParseState) (d m : Nat) : Prop where
  grammar : m ≤ d
  depth : s.cursor.depth + m ≤ source.settings.maxDepth

namespace Consumes

/-- A nonterminal is its rule in one more construct. -/
theorem parse {α : Type} {r : Nonterminal α} {x : α} (hroom : source.HasRoom s (d + 1) (m + 1))
    (h : source.HasRoom { s with cursor := { s.cursor with depth := s.cursor.depth + 1 } } d m →
      Consumes source { s with cursor := { s.cursor with depth := s.cursor.depth + 1 } } n
        ((Grammar.ofDepth d).rule r) x) :
    Consumes source s n ((Grammar.ofDepth (d + 1)).parse r) x := by
  have hdepth := hroom.depth
  refine nested (by omega) (h ⟨Nat.le_of_succ_le_succ hroom.grammar, ?_⟩)
  show s.cursor.depth + 1 + m ≤ _
  omega

/-! ### Operands -/

/-- A name by itself is an operand. -/
theorem primary (hsees : source.Sees s.cursor.position (Lexeme.name text :: w :: ws))
    (hnull : text ≠ "NULL") (hlt : w.kind ≠ .lt) (hcolons : w.kind ≠ .colonColon) :
    Consumes source s 1 g.primary (.identifier text) := by
  have hk : (source.view (s.after 1)).kind 0 = w.kind := hsees.next.kind
  have htemplate : (Grammar.templateName text).run source (s.after 1) =
      (.ok (.identifier text), s.after 1) := by
    unfold Grammar.templateName
    rw [run_bind_ok run_isCpp, run_bind_ok (run_check _), hk, beq_false_of_ne hlt, Bool.not_false,
      Bool.or_true]
    rfl
  unfold Grammar.primary
  refine look run_kind ?_
  rw [show (source.view s).kind 0 = .identifier from hsees.kind]
  refine (qualifiedName hsees (by rwa [show (source.view s).kind 1 = w.kind from hk])).andLast ?_
  rw [beq_false_of_ne hnull, if_neg Bool.false_ne_true]
  split
  · refine look (run_check _) ?_
    rw [hk, beq_false_of_ne hlt, if_neg Bool.false_ne_true]
    exact htemplate
  · exact htemplate

/-- Nothing goes on with an operand where a value ends. -/
theorem suffixed (h : Consumes source s n g.primary e)
    (hk : (source.kindAt (s.cursor.position + n)).endsValue = true) :
    Consumes source s n g.suffixed e := by
  refine h.andLast (stop ?_)
  unfold Grammar.suffix
  rw [run_bind_ok run_kind]
  have hk : ((source.view (s.after n)).kind 0).endsValue = true := hk
  generalize (source.view (s.after n)).kind 0 = k at hk
  cases k <;> first | rfl | cases hk

/-- A name by itself, where a value ends. -/
theorem unary (hsees : source.Sees s.cursor.position (Lexeme.name text :: w :: ws))
    (hnull : text ≠ "NULL") (hw : w.kind.endsValue = true) :
    Consumes source s 1 g.unary (.identifier text) := by
  have hne {k : TokenKind} (h : k.endsValue = false) : w.kind ≠ k := by
    rintro rfl
    rw [hw] at h
    cases h
  have hk : (source.view s).kind 0 = .identifier := hsees.kind
  unfold Grammar.unary
  refine look run_kind ?_
  rw [hk]
  refine look run_kind ?_
  rw [hk]
  exact suffixed (primary hsees hnull (hne rfl) (hne rfl)) (by rwa [show source.kindAt (s.cursor.position + 1) = w.kind from hsees.2.2.kindAt])

/-- An operator before an operand. -/
theorem before {op : UnaryOp} (hroom : source.HasRoom s d (m + 1))
    (hsees : source.Sees s.cursor.position (w :: ws)) (hop : UnaryOp.ofKind? w.kind = some op)
    (h : ∀ (s' : ParseState) (d' : Nat), s'.cursor.position = s.cursor.position + 1 →
      source.HasRoom s' d' m → Consumes source s' n (Grammar.ofDepth d').unary e) :
    Consumes source s (1 + n) (Grammar.ofDepth d).unary (.unary op .before e) := by
  have hgrammar := hroom.grammar
  obtain ⟨d, rfl⟩ : ∃ d', d = d' + 1 := ⟨d - 1, by omega⟩
  have hrest : Consumes source (s.after 1) n ((Grammar.ofDepth (d + 1)).parse .unary) e :=
    parse (m := m) ⟨hgrammar, hroom.depth⟩ fun hroom => h _ d rfl hroom
  unfold Grammar.unary
  refine look run_kind ?_
  rw [show (source.view s).kind 0 = w.kind from hsees.kind, hop]
  refine (skip ?_).bind (hrest.andLast (.pure _))
  rw [show (source.view s).kind 0 = w.kind from hsees.kind]
  intro heof
  rw [heof] at hop
  cases hop

/-- Any number of `*` before a name. -/
theorem derefs (hroom : source.HasRoom s d n)
    (hsees : source.Sees s.cursor.position
      (List.replicate n (spelled .star) ++ Lexeme.name text :: w :: ws))
    (hnull : text ≠ "NULL") (hw : w.kind.endsValue = true) :
    Consumes source s (n + 1) (Grammar.ofDepth d).unary
      ((Expr.unary .deref .before)^[n] (.identifier text)) := by
  induction n generalizing s d with
  | zero => exact unary hsees hnull hw
  | succ n ih =>
    rw [Function.iterate_succ_apply', Nat.add_comm (n + 1)]
    refine before (w := spelled .star) hroom hsees rfl fun s' d' hposition hroom => ih hroom ?_
    rw [hposition]
    exact hsees.2.2

/-! ### Operations -/

/-- No operator goes on with an operand where the expression ends. -/
theorem binary (h : Consumes source s n g.unary e)
    (hk : (source.kindAt (s.cursor.position + n)).endsExpression = true) (levels least : Nat) :
    Consumes source s n (g.binary levels least) e := by
  cases levels with
  | zero => exact h
  | succ levels =>
    refine h.andLast (stop ?_)
    have hk : ((source.view (s.after n)).kind 0).endsExpression = true := hk
    unfold Grammar.operation
    rw [run_bind_ok run_kind]
    generalize (source.view (s.after n)).kind 0 = k at hk
    cases k <;> first | rfl | cases hk

/-- Two operands and the operator between them. -/
theorem operation {op : BinaryOp} {level : Nat} (h : Consumes source s n g.unary e)
    (hsees : source.Sees (s.after n).cursor.position (w :: ws))
    (hop : BinaryOp.ofKind? w.kind = some (op, level))
    (h' : Consumes source (s.after (n + 1)) m g.unary e')
    (hend : (source.kindAt (s.cursor.position + (n + (1 + m)))).endsExpression = true) :
    Consumes source s (n + (1 + m)) (g.binary BinaryOp.levels 1) (.binary op e e') := by
  have hlevel : ¬ level < 1 := by
    unfold BinaryOp.ofKind? at hop
    split at hop <;> cases hop <;> decide
  have hstep : Consumes source (s.after n) (1 + m)
      (Grammar.operation (g.binary 9) 1 e) (some (.binary op e e')) := by
    unfold Grammar.operation
    refine look run_kind ?_
    rw [show (source.view (s.after n)).kind 0 = w.kind from hsees.kind, hop]
    show Consumes _ _ _ (if level < 1 then _ else _) _
    rw [if_neg hlevel]
    refine (skip ?_).bind (m := m) (Consumes.andLast ?_ (.pure _))
    · rw [show (source.view (s.after n)).kind 0 = w.kind from hsees.kind]
      intro heof
      rw [heof] at hop
      cases hop
    · rw [ParseState.after_after]
      refine binary h' ?_ 9 (level + 1)
      rwa [ParseState.position_after, Nat.add_assoc, Nat.add_assoc]
  have hstop : (Grammar.operation (g.binary 9) 1 (.binary op e e')).run source
      (s.after (n + (1 + m))) = (.ok none, s.after (n + (1 + m))) := by
    have hk : ((source.view (s.after (n + (1 + m)))).kind 0).endsExpression = true := hend
    unfold Grammar.operation
    rw [run_bind_ok run_kind]
    generalize (source.view (s.after (n + (1 + m)))).kind 0 = k at hk
    cases k <;> first | rfl | cases hk
  have hone : source.Sees (s.after n).cursor.position [w] := ⟨hsees.1, hsees.2.1, trivial⟩
  refine h.bind (.iterate hone fun i hi => ?_)
  obtain ⟨i, rfl⟩ : ∃ j, i = j + 1 + 1 := ⟨i - 2, by rw [List.length_singleton] at hi; omega⟩
  rw [iterateFor]
  refine hstep.andLast ?_
  rw [ParseState.after_after]
  exact stopFor hstop i

/-! ### Expressions -/

/-- Where an expression ends, there is neither a choice nor an assignment. -/
theorem assignment (h : Consumes source s n (g.binary BinaryOp.levels 1) e)
    (hk : (source.kindAt (s.cursor.position + n)).endsExpression = true) :
    Consumes source s n g.assignment e := by
  have hk : ((source.view (s.after n)).kind 0).endsExpression = true := hk
  have hconditional : Consumes source s n g.conditional e := by
    have hquestion : (source.view (s.after n)).kind 0 ≠ .question := by
      intro h
      rw [h] at hk
      cases hk
    exact h.andLast (look (run_accept_of_ne hquestion) (.pure e))
  refine hconditional.andLast (look run_kind ?_)
  generalize (source.view (s.after n)).kind 0 = k at hk
  cases k <;> first | exact .pure e | cases hk

/-- An expression is read strictly, in a construct of its own. -/
theorem expression (hroom : source.HasRoom s d (m + 1))
    (h : ∀ (s' : ParseState) (d' : Nat), s'.cursor.position = s.cursor.position →
      s'.cursor.known = s.cursor.known → s'.lenient = false → source.HasRoom s' d' m →
        Consumes source s' n ((Grammar.ofDepth d').binary BinaryOp.levels 1) e)
    (hk : (source.kindAt (s.cursor.position + n)).endsExpression = true) :
    Consumes source s n (Grammar.ofDepth d).expression e := by
  have hgrammar := hroom.grammar
  obtain ⟨d, rfl⟩ : ∃ d', d = d' + 1 := ⟨d - 1, by omega⟩
  refine withLeniency (parse (m := m) ⟨hgrammar, hroom.depth⟩ fun hroom => ?_)
  exact assignment (h _ d rfl rfl rfl hroom) hk

/-- A name by itself is an expression. -/
theorem nameExpression (hroom : source.HasRoom s d 1) (hnull : text ≠ "NULL")
    (hsees : source.Sees s.cursor.position (Lexeme.name text :: w :: ws))
    (hw : w.kind.endsExpression = true) :
    Consumes source s 1 (Grammar.ofDepth d).expression (.identifier text) := by
  have hk : source.kindAt (s.cursor.position + 1) = w.kind := hsees.2.2.kindAt
  refine expression (m := 0) hroom (fun s' d' hposition _ _ _ => ?_) (by rwa [hk])
  rw [← hposition] at hsees hk
  exact binary (unary hsees hnull (TokenKind.endsValue_of_endsExpression hw)) (by rwa [hk]) _ _

/-- An expression before a token that is no comma. -/
theorem commaExpression (h : Consumes source s n g.expression e)
    (hk : source.kindAt (s.cursor.position + n) ≠ .comma) :
    Consumes source s n g.commaExpression e := by
  refine h.andLast (stop ?_)
  unfold Grammar.moreComma
  rw [run_bind_ok (run_accept_of_ne (s := s.after n) hk)]
  rfl

/-! ### Names in parentheses -/

/-- An expression in parentheses as an operand. -/
theorem parenthesized (hk : (source.view s).kind 0 = .lparen)
    (h : Consumes source (s.after 1) n g.commaExpression e)
    (hclose : source.kindAt (s.cursor.position + 1 + n) = .rparen) :
    Consumes source s (1 + (n + 1)) g.primary e := by
  have hclose : (source.view ((s.after 1).after n)).kind 0 = .rparen := hclose
  unfold Grammar.primary
  refine look run_kind ?_
  rw [hk]
  refine (skip (by rw [hk]; decide)).bind (h.bind (m := 1) ?_)
  exact (skipOver hclose (by decide)).andLast (.pure _)

/-- A name in parentheses as an operand. -/
theorem enclosed (hroom : source.HasRoom s d 1) (hnull : text ≠ "NULL")
    (hsees : source.Sees s.cursor.position
      (spelled .lparen :: Lexeme.name text :: spelled .rparen :: ws)) :
    Consumes source s 3 (Grammar.ofDepth d).primary (.identifier text) := by
  have hclose : source.kindAt (s.cursor.position + 1 + 1) = .rparen := hsees.2.2.2.2.kindAt
  refine parenthesized hsees.kind (commaExpression ?_ ?_) hclose
  · exact nameExpression ⟨hroom.grammar, hroom.depth⟩ hnull hsees.next rfl
  · rw [show source.kindAt ((s.after 1).cursor.position + 1) = .rparen from hclose]
    decide

/-- A known name in parentheses as a type. -/
theorem typeInParentheses {place : String} (hword : Rule.IsWord text)
    (hknown : s.cursor.known.contains text = true)
    (hsees : source.Sees s.cursor.position
      (spelled .lparen :: Lexeme.name text :: spelled .rparen :: ws)) :
    Consumes source s 3 (Parse.typeInParentheses place) text := by
  have hk : (source.view s).kind 0 = .lparen := hsees.kind
  have htype : Consumes source (s.after 1) 1 Parse.typeName text := by
    have h := typeName (s := s.after 1) (w := spelled .rparen) (List.forall_mem_nil _)
      (.named hword hknown) (List.forall_mem_nil _) rfl hsees.next
    exact joined_name text ▸ h
  have hclose : (source.view ((s.after 1).after 1)).kind 0 = .rparen := hsees.next.next.kind
  refine (skip (by rw [hk]; decide)).bind (m := 2) (htype.bind (m := 1) ?_)
  exact (skipOver hclose (by decide)).andLast (.pure _)

end Consumes

/-- In parentheses with one name between them a type begins if the name is known. -/
theorem View.startsType_of_enclosed (hlenient : s.lenient = false) (hsees : source.Sees s.cursor.position
      (spelled .lparen :: Lexeme.name text :: spelled .rparen :: ws)) :
    (source.view s).startsType 1 = s.cursor.known.contains text := by
  have hname : (source.view s).kind 1 = .identifier := hsees.next.kind
  have htext : ((source.view s).token 1).text = text := hsees.next.text
  have hclose : (source.view s).kind 2 = .rparen := hsees.next.next.kind
  have hpast : (source.view s).past isQualifier 1 = 1 := past_eq_self (by rw [hname]; rfl)
  have hview : (source.view s).lenient = false := hlenient
  have hkind : ((source.view s).token 1).kind = .identifier := hname
  unfold startsType
  simp only [hpast, hkind, hview, htext, hclose, Bool.false_or]
  rw [show (TokenKind.rparen == TokenKind.colonColon) = false from rfl, Bool.and_false, Bool.or_false]
  rfl

section Probes

variable (hword : Rule.IsWord text) (hlenient : s.lenient = false)
  (hsees : source.Sees s.cursor.position
    (spelled .lparen :: Lexeme.name text :: spelled .rparen :: w :: ws))

include hword hlenient hsees

/-- A name in parentheses is a type if it is known. -/
theorem Parse.run_parenthesizedType_of_name : parenthesizedType.run source s =
    if s.cursor.known.contains text then (.ok (some text), s.after 3) else (.ok none, s) := by
  have hk : (source.view s).kind 0 = .lparen := hsees.kind
  unfold parenthesizedType
  rw [run_bind_ok (run_check _), hk, run_bind_ok run_view, View.startsType_of_enclosed hlenient hsees]
  by_cases hknown : s.cursor.known.contains text = true
  · rw [hknown]
    exact (Consumes.typeInParentheses hword hknown hsees).speculate
  · rw [Bool.not_eq_true] at hknown
    rw [hknown]
    rfl

/-- A name in parentheses is the type of a cast if it is known, and an operand may follow. -/
theorem Parse.run_castType_of_name : castType.run source s =
    if s.cursor.known.contains text && w.kind.startsOperand then (.ok (some text), s.after 3)
    else (.ok none, s) := by
  have hstate : ({ s with lenient := false } : ParseState) = s := by rw [← hlenient]
  unfold castType strictly
  rw [run_withLeniency, hstate, run_bind_ok run_view, View.startsType_of_enclosed hlenient hsees]
  by_cases hknown : s.cursor.known.contains text = true
  · have htype : Consumes source s 3 (Parse.typeInParentheses "after cast type") text :=
      Consumes.typeInParentheses hword hknown hsees
    have hw : (source.view (s.after 3)).kind 0 = w.kind := hsees.next.next.next.kind
    rw [hknown, if_pos rfl, Bool.true_and]
    by_cases hoperand : w.kind.startsOperand = true
    · have hhead : Consumes source s 3 castHead text := by
        refine htype.andLast (.look run_kind ?_)
        rw [hw, hoperand]
        exact .pure _
      rw [hoperand, hhead.speculate]
      rw [← hstate]
      rfl
    · have hhead : castHead.run source s = (unexpected "not a cast" : Parse String).run source
          (s.after 3) := by
        unfold castHead
        rw [run_bind_ok htype, run_bind_ok run_kind, hw, if_neg hoperand]
      rw [run_unexpected] at hhead
      rw [if_neg hoperand, run_speculate_error hhead, ParseState.after_backTo]
      rw [← hstate]
      rfl
  · rw [Bool.not_eq_true] at hknown
    rw [hknown, ← hstate]
    rfl

end Probes

namespace Consumes

variable {type : String}

/-- A cast: a type in parentheses, and the operand after it. -/
theorem cast (hroom : source.HasRoom s d (m + 1)) (hk : (source.view s).kind 0 = .lparen)
    (hcast : castType.run source s = (.ok (some type), s.after 3))
    (hbrace : source.kindAt (s.cursor.position + 3) ≠ .lbrace)
    (h : ∀ (s' : ParseState) (d' : Nat), s'.cursor.position = s.cursor.position + 3 →
      s'.cursor.known = s.cursor.known → s'.lenient = s.lenient → source.HasRoom s' d' m →
        Consumes source s' n (Grammar.ofDepth d').unary e) :
    Consumes source s (3 + n) (Grammar.ofDepth d).unary (.cast .parenthesized type e) := by
  have hgrammar := hroom.grammar
  obtain ⟨d, rfl⟩ : ∃ d', d = d' + 1 := ⟨d - 1, by omega⟩
  have hoperand : Consumes source (s.after 3) n (Grammar.ofDepth (d + 1)).castOperand e := by
    have hbrace : (source.view (s.after 3)).kind 0 ≠ .lbrace := hbrace
    refine look (run_check _) ?_
    rw [beq_false_of_ne hbrace, if_neg Bool.false_ne_true]
    exact parse (m := m) ⟨hgrammar, hroom.depth⟩ fun hroom => h _ d rfl rfl rfl hroom
  have htype : Consumes source s 3 castType (some type) := hcast
  unfold Grammar.unary
  refine look run_kind ?_
  rw [hk]
  refine look run_kind ?_
  rw [hk]
  exact htype.bind (hoperand.andLast (.pure _))

/-- Parentheses that are no cast. -/
theorem uncast (hk : (source.view s).kind 0 = .lparen)
    (hcast : castType.run source s = (.ok none, s)) (h : Consumes source s n g.suffixed e) :
    Consumes source s n g.unary e := by
  unfold Grammar.unary
  refine look run_kind ?_
  rw [hk]
  refine look run_kind ?_
  rw [hk]
  exact look hcast h

/-- A name in parentheses, where a value ends. -/
theorem enclosedName (hroom : source.HasRoom s d 1) (hword : Rule.IsWord text)
    (hnull : text ≠ "NULL") (hlenient : s.lenient = false)
    (hsees : source.Sees s.cursor.position
      (spelled .lparen :: Lexeme.name text :: spelled .rparen :: w :: ws))
    (hw : w.kind.endsValue = true)
    (hvalue : (s.cursor.known.contains text && w.kind.startsOperand) = false) :
    Consumes source s 3 (Grammar.ofDepth d).unary (.identifier text) := by
  have hcast := run_castType_of_name hword hlenient hsees
  rw [hvalue, if_neg Bool.false_ne_true] at hcast
  have hnext : source.kindAt (s.cursor.position + 3) = w.kind := hsees.2.2.2.2.2.2.kindAt
  exact uncast hsees.kind hcast (suffixed (enclosed hroom hnull hsees) (by rwa [hnext]))

/-- A name is read as an argument. -/
theorem argument (hroom : source.HasRoom s d 1) (hnull : text ≠ "NULL") :
    ReadsEntry source s (Grammar.ofDepth d).argument (fun text => [Lexeme.name text]) .rparen
      (fun _ => true) .identifier text := by
  intro n w ws hsees hw
  have hk : (source.view (s.after n)).kind 0 = .identifier := hsees.kind
  have hnext : (source.view ((s.after n).after 1)).kind 0 = w.kind := hsees.next.kind
  have hends : w.kind.endsExpression = true := by
    generalize w.kind = k at hw
    cases k <;> first | rfl | cases hw
  have hinitializer : Consumes source (s.after n) 1 (Grammar.ofDepth d).initializer (.identifier text) := by
    refine look (run_check _) ?_
    rw [hk]
    exact nameExpression ⟨hroom.grammar, hroom.depth⟩ hnull hsees hends
  have hellipsis : (source.view ((s.after n).after 1)).kind 0 ≠ .ellipsis := by
    rw [hnext]
    exact TokenKind.ne_of_endsEntry hw rfl
  exact hinitializer.andLast (look (run_accept_of_ne hellipsis) (.pure _))

/-- Names as arguments, after the opening parenthesis. -/
theorem arguments {texts : List String} (hroom : source.HasRoom s d 1)
    (hnull : ∀ text ∈ texts, text ≠ "NULL")
    (hsees : source.Sees s.cursor.position (names texts ++ spelled .rparen :: ws)) :
    Consumes source s ((names texts).length + 1) ((Grammar.ofDepth d).arguments .rparen)
      (texts.map .identifier) := by
  have hclose : (source.view (s.after (names texts).length)).kind 0 = .rparen := (hsees.after _).kind
  unfold Grammar.arguments
  cases texts with
  | nil => exact (accept hclose (by decide)).andLast (.pure _)
  | cons text texts =>
    have hstart : (source.view s).kind 0 ≠ .rparen := by
      rw [show (source.view s).kind 0 = .identifier from hsees.kind]
      decide
    have hlist := ConsumesIf.separated (fun text' htext' => argument hroom (hnull text' htext'))
      (by decide) rfl hsees
    rw [List.all_eq_true.2 fun _ _ => rfl] at hlist
    refine look (run_accept_of_ne hstart) ?_
    exact Consumes.bind hlist ((skipOver hclose (by decide)).andLast (.pure _))

/-- A call of a name in parentheses with one argument. -/
theorem call {argument : String} (hroom : source.HasRoom s d 1) (hnull : text ≠ "NULL")
    (hargument : argument ≠ "NULL") (hsees : source.Sees s.cursor.position
      (spelled .lparen :: Lexeme.name text :: spelled .rparen :: spelled .lparen ::
        Lexeme.name argument :: spelled .rparen :: w :: ws))
    (hw : w.kind.endsExpression = true) :
    Consumes source s 6 (Grammar.ofDepth d).suffixed
      (.call (.identifier text) [.identifier argument]) := by
  have hopen : (source.view (s.after 3)).kind 0 = .lparen := hsees.next.next.next.kind
  have hcall : Consumes source (s.after 3) 3 ((Grammar.ofDepth d).suffix (.identifier text))
      (some (.call (.identifier text) [.identifier argument])) := by
    unfold Grammar.suffix
    refine look run_kind ?_
    rw [hopen]
    refine (skip (by rw [hopen]; decide)).bind (m := 2) (Consumes.andLast ?_ (.pure _))
    have hnull : ∀ text ∈ [argument], text ≠ "NULL" := by simpa using hargument
    have hrest : source.Sees ((s.after 3).after 1).cursor.position
        (names [argument] ++ spelled .rparen :: w :: ws) := hsees.next.next.next.next
    exact arguments (s := (s.after 3).after 1) ⟨hroom.grammar, hroom.depth⟩ hnull hrest
  have hstop : ((Grammar.ofDepth d).suffix (.call (.identifier text) [.identifier argument])).run
      source ((s.after 3).after 3) = (.ok none, (s.after 3).after 3) := by
    have hk : ((source.view ((s.after 3).after 3)).kind 0).endsExpression = true := by
      rw [show (source.view ((s.after 3).after 3)).kind 0 = w.kind from
        hsees.next.next.next.next.next.next.kind]
      exact hw
    unfold Grammar.suffix
    rw [run_bind_ok run_kind]
    generalize (source.view ((s.after 3).after 3)).kind 0 = k at hk
    cases k <;> first | rfl | cases hk
  have hone : source.Sees (s.after 3).cursor.position [spelled .lparen] :=
    ⟨hsees.2.2.2.2.2.2.1, hsees.2.2.2.2.2.2.2.1, trivial⟩
  refine (enclosed hroom hnull hsees).bind (m := 3) (.iterate hone fun i hi => ?_)
  obtain ⟨i, rfl⟩ : ∃ j, i = j + 1 + 1 := ⟨i - 2, by rw [List.length_singleton] at hi; omega⟩
  rw [iterateFor]
  exact hcall.andLast (stopFor hstop i)

end Consumes

end CTree
