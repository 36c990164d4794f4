import CTree.Ast.Basic
import CTree.Parse.TypeName

/-!
# The recursive part of the grammar

Whatever can stand inside itself does so through one of a few nonterminals, and each of them opens
a construct. The other rules are written for any `Grammar`, a parser for each nonterminal. So a
rule can be read, and reasoned about, before it is known how deep the nesting may go.
-/

namespace CTree

/-- The constructs that may stand inside each other, by what reading them gives. -/
inductive Nonterminal : Type → Type
  /-- An expression that may be an assignment. -/
  | assignment : Nonterminal Expr
  /-- An expression that may be a choice, but no assignment. -/
  | conditional : Nonterminal Expr
  /-- An operand with what stands before it. -/
  | unary : Nonterminal Expr
  /-- What stands between braces in an initializer, and the closing brace. -/
  | elements : Nonterminal (List Expr)
  /-- A statement; `none` for a `;` by itself. -/
  | statement : Nonterminal (Option Stmt)
  /-- The members of a class with the given name and bases, the first of which has the given
  access. -/
  | members (owner : String) (bases : List BaseClass) (access : Access) : Nonterminal (List Decl)
  /-- The items of a namespace. -/
  | items : Nonterminal (List Stmt)
  /-- An item of a translation unit or a namespace. -/
  | item : Nonterminal (Option Stmt)

/-- A parser for each nonterminal. -/
structure Grammar where
  parse : {α : Type} → Nonterminal α → Parse α

namespace Grammar

open Parse

variable (g : Grammar)

/-- An expression without a comma outside of brackets. -/
def expression : Parse Expr :=
  strictly (g.parse .assignment)

/-- Goes on with the comma that stands here, if one does. -/
def moreComma (left : Expr) : Parse (Option Expr) := do
  if ← accept .comma then return some (.binary .comma left (← g.expression)) else return none

/-- An expression, after which more may follow with commas between them. -/
def commaExpression : Parse Expr := do
  iterate g.moreComma (← g.expression)

/-- A list in braces. -/
def initializerList : Parse (List Expr) := do
  skipOver .lbrace "to start initializer list"
  g.parse .elements

/-- A list in braces as an expression. -/
def bracedList : Parse Expr :=
  return .initializers (← g.initializerList)

/-- A list in braces, or an expression. -/
def initializer : Parse Expr := do
  if ← check .lbrace then g.bracedList else g.expression

/-- An argument, perhaps an unpacked one. -/
def argument : Parse Expr := do
  let value ← g.initializer
  let _ ← accept .ellipsis
  return value

/-- Arguments up to the token that closes them, the opening one being taken already. -/
def arguments (closing : TokenKind) : Parse (List Expr) := do
  if ← accept closing then return []
  let values ← separated g.argument
  skipOver closing "after arguments"
  return values

/-- Any number of array sizes in brackets; an open one is `none`. -/
def dimensions : Parse (List (Option Expr)) :=
  collect do
    if ← accept .lbracket then
      if ← accept .rbracket then return some none
      let size ← g.expression
      skipOver .rbracket "after array size"
      return some (some size)
    else return none

end Grammar

end CTree
