import CTree.Proofs.Lockstep.TypeName

/-!
# Grammars in lockstep

The rules are written for any grammar, and so are the proofs about them: if two grammars read every
nonterminal in lockstep, then they do so for every rule. Each nonterminal has its rank, the number
of constructs that reading it may open before the first token is taken.
-/

namespace CTree

namespace Grammar

/-- Two grammars that read every nonterminal in lockstep. -/
structure InStep (a b : Source) (n : Nat) (g g' : Grammar) : Prop where
  parseAssignment : ∀ {P k}, Lockstep a b n P (k + 1) always (g.parse .assignment)
    (g'.parse .assignment)
  parseConditional : ∀ {P k}, Lockstep a b n P (k + 1) always (g.parse .conditional)
    (g'.parse .conditional)
  parseUnary : ∀ {P k}, Lockstep a b n P (k + 1) always (g.parse .unary) (g'.parse .unary)
  parseElements : ∀ {P k}, Lockstep a b n P (k + 2) always (g.parse .elements)
    (g'.parse .elements)
  parseStatement : ∀ {P k}, Lockstep a b n P (k + 2) always (g.parse .statement)
    (g'.parse .statement)
  parseMembers : ∀ {P k} owner bases access, Lockstep a b n P (k + 1) never
    (g.parse (.members owner bases access)) (g'.parse (.members owner bases access))
  parseItems : ∀ {P k}, Lockstep a b n P (k + 3) never (g.parse .items) (g'.parse .items)
  parseItem : ∀ {P k}, Lockstep a b n P (k + 3) always (g.parse .item) (g'.parse .item)

namespace InStep

open Lockstep

variable {a b : Source} {n k : Nat} {P : ParseState → Prop} {g g' : Grammar}

section Lists

variable (hg : InStep a b n g g')
include hg

/-! ### Expressions and lists of them -/

theorem expression : Lockstep a b n P (k + 1) always g.expression g'.expression := by
  unfold Grammar.expression
  exact hg.parseAssignment.strictly

theorem moreComma (left : Expr) :
    Lockstep a b n P k never (g.moreComma left) (g'.moreComma left) := by
  unfold Grammar.moreComma
  refine .bindBool (accept .comma nofun) ?_ (.pure _)
  exact .andThen hg.expression fun right => .pure _

theorem commaExpression :
    Lockstep a b n P (k + 1) always g.commaExpression g'.commaExpression := by
  unfold Grammar.commaExpression
  exact .andThen hg.expression fun first => iterate hg.moreComma first

theorem initializerList :
    Lockstep a b n P k always g.initializerList g'.initializerList := by
  unfold Grammar.initializerList
  exact .andThen (skipOver .lbrace _ nofun) fun _ => hg.parseElements.any

theorem bracedList : Lockstep a b n P k always g.bracedList g'.bracedList := by
  unfold Grammar.bracedList
  exact .andThen hg.initializerList fun es => .pure _

theorem initializer : Lockstep a b n P (k + 1) always g.initializer g'.initializer := by
  unfold Grammar.initializer
  refine .test fun brace => ?_
  split
  · exact hg.bracedList
  · exact hg.expression

theorem argument : Lockstep a b n P (k + 1) always g.argument g'.argument := by
  unfold Grammar.argument
  refine .andThen hg.initializer fun value => ?_
  exact .bind (acceptAnywhere .ellipsis) fun unpacked => .pure _

theorem arguments (closing : TokenKind) (hc : closing ≠ .eof) :
    Lockstep a b n P (k + 1) always (g.arguments closing) (g'.arguments closing) := by
  unfold Grammar.arguments
  refine .bindBool (accept closing hc) (.pure _) ?_
  refine .bind (separated hg.argument.still) fun values => ?_
  exact .andThen (skipOver closing _ hc) fun _ => .pure _

theorem dimensions : Lockstep a b n P k never g.dimensions g'.dimensions := by
  unfold Grammar.dimensions
  refine collect (.bindBool (accept .lbracket nofun) ?_ (.pure _))
  refine .bindBool (accept .rbracket nofun) (.pure _) ?_
  refine .andThen hg.expression fun size => ?_
  exact .bind (skipOverAnywhere .rbracket _) fun _ => .pure _

end Lists

end InStep

end Grammar

end CTree
