import CTree.Parse.Statement
import CTree.Proofs.Printing.Heads

/-!
# Statements as lexemes

How a statement is written in C: a keyword, expressions in parentheses, and the statements that it
governs. Nothing marks the end of a choice without an `else`, so where one ends another statement no
`else` may come after it.
-/

namespace CTree

open Lexeme

/-! ### Values -/

/-- An expression of C. The name of a cast is a variable where it stands by itself: only a `<` after
    it would make it a cast. -/
inductive Expr.IsValue : Expr → Prop
  | expression {e : Expr} (h : e.InC) : IsValue e
  | name {text : String} (h : Rule.isName text) (hnull : text ≠ "NULL") : IsValue (.identifier text)
  | assign {op : BinaryOp} (hop : op.isAssignment) {target value : Expr} (htarget : IsValue target)
    (hvalue : IsValue value) : IsValue (.binary op target value)

namespace Expr

/-- The lexemes of an expression that may be missing. -/
def optionalLexemes : Option Expr → List Lexeme
  | none => []
  | some e => e.lexemes

/-- The lexemes of what a variable starts with. -/
def initLexemes : Option Expr → List Lexeme
  | none => []
  | some e => spelled .assign :: e.lexemesAt 1

/-- The lexemes of a condition. -/
def conditionLexemes (e : Expr) : List Lexeme :=
  spelled .lparen :: (e.lexemes ++ [spelled .rparen])

/-- The lexemes of the head of an arm. -/
def caseLexemes : Option Expr → List Lexeme
  | none => [spelled .kwDefault, spelled .colon]
  | some e => spelled .kwCase :: (e.lexemesAt 3 ++ [spelled .colon])

end Expr

/-! ### Statements -/

namespace Stmt

mutual

/-- The lexemes of a statement of C. Other statements have none. -/
@[simp]
def lexemes : Stmt → List Lexeme
  | .expr e => e.lexemes ++ [spelled .semicolon]
  | .assign target op value => (Expr.binary op target value).lexemes ++ [spelled .semicolon]
  | .block body => spelled .lbrace :: (listLexemes body ++ [spelled .rbrace])
  | .returning value? =>
    spelled .kwReturn :: (Expr.optionalLexemes value? ++ [spelled .semicolon])
  | .breaking => [spelled .kwBreak, spelled .semicolon]
  | .continuing => [spelled .kwContinue, spelled .semicolon]
  | .goto text => [spelled .kwGoto, name text, spelled .semicolon]
  | .label text => [name text, spelled .colon]
  | .var ⟨_, text, init?, _, _⟩ =>
    spelled .kwInt :: name text :: (Expr.initLexemes init? ++ [spelled .semicolon])
  | .ifElse condition yes no? =>
    spelled .kwIf :: (condition.conditionLexemes ++ (yes.lexemes ++ elseLexemes no?))
  | .whileLoop condition body => spelled .kwWhile :: (condition.conditionLexemes ++ body.lexemes)
  | .doLoop body condition =>
    spelled .kwDo ::
      (body.lexemes ++ spelled .kwWhile :: (condition.conditionLexemes ++ [spelled .semicolon]))
  | .forLoop init? condition? step? body =>
    spelled .kwFor :: spelled .lparen ::
      (clauseLexemes init? ++ (Expr.optionalLexemes condition? ++ spelled .semicolon ::
        (Expr.optionalLexemes step? ++ spelled .rparen :: body.lexemes)))
  | .switch condition arms =>
    spelled .kwSwitch ::
      (condition.conditionLexemes ++ spelled .lbrace :: (armLexemes arms ++ [spelled .rbrace]))
  | _ => []

/-- The lexemes of statements. -/
@[simp]
def listLexemes : List Stmt → List Lexeme
  | [] => []
  | s :: ss => s.lexemes ++ listLexemes ss

/-- The lexemes of the second branch of a choice. -/
@[simp]
def elseLexemes : Option Stmt → List Lexeme
  | none => []
  | some s => spelled .kwElse :: s.lexemes

/-- The lexemes of the first clause of a loop. -/
@[simp]
def clauseLexemes : Option Stmt → List Lexeme
  | none => [spelled .semicolon]
  | some s => s.lexemes

/-- The lexemes of the arms of a switch. -/
@[simp]
def armLexemes : List Arm → List Lexeme
  | [] => []
  | ⟨value?, body⟩ :: arms => Expr.caseLexemes value? ++ (listLexemes body ++ armLexemes arms)

end

/-- Whether a statement ends in a choice without an `else`. -/
def endsOpen : Stmt → Bool
  | .ifElse _ _ none => true
  | .ifElse _ _ (some no) => no.endsOpen
  | .whileLoop _ body => body.endsOpen
  | .forLoop _ _ _ body => body.endsOpen
  | _ => false

/-- Whether a statement may be the first clause of a loop. -/
def isClause : Stmt → Bool
  | .expr _ | .assign .. | .var _ => true
  | _ => false

end Stmt

/-! ### The statements of C -/

/-- Lexemes that do not begin with a word that announces a declaration without being a keyword. -/
def BeginsNoSpecifier (ws : List Lexeme) : Prop :=
  ws.head? ≠ some (name "thread_local")

/-- The statements of C whose variables are integers. The first branch of a choice with an `else` does
    not end in a choice without one. -/
inductive Stmt.InC : Stmt → Prop
  | expr {e : Expr} (he : e.IsValue) (hstatement : ofExpr e = .expr e)
    (hfirst : BeginsNoSpecifier e.lexemes) : InC (.expr e)
  | assign {op : BinaryOp} (hop : op.isAssignment) {target value : Expr} (htarget : target.IsValue)
    (hvalue : value.IsValue) (hfirst : BeginsNoSpecifier (Expr.binary op target value).lexemes) :
    InC (.assign target op value)
  | block {body : List Stmt} (hbody : ∀ s ∈ body, InC s) : InC (.block body)
  | returning {value? : Option Expr} (hvalue : ∀ e ∈ value?, e.IsValue) : InC (.returning value?)
  | breaking : InC .breaking
  | continuing : InC .continuing
  | goto {label : String} (h : Rule.isName label) : InC (.goto label)
  | label {text : String} (h : Rule.isName text) : InC (.label text)
  | var {text : String} (h : Rule.isName text) {init? : Option Expr}
    (hinit : ∀ e ∈ init?, e.IsValue) : InC (.var ⟨"int", text, init?, none, []⟩)
  | ifElse {condition : Expr} (hcondition : condition.IsValue) {yes : Stmt} (hyes : InC yes)
    {no? : Option Stmt} (hno : ∀ no ∈ no?, InC no) (hclosed : no?.isSome → yes.endsOpen = false) :
    InC (.ifElse condition yes no?)
  | whileLoop {condition : Expr} (hcondition : condition.IsValue) {body : Stmt} (hbody : InC body) :
    InC (.whileLoop condition body)
  | doLoop {body : Stmt} (hbody : InC body) {condition : Expr} (hcondition : condition.IsValue) :
    InC (.doLoop body condition)
  | forLoop {init? : Option Stmt} (hclause : ∀ s ∈ init?, s.isClause) (hinit : ∀ s ∈ init?, InC s)
    {condition? step? : Option Expr} (hcondition : ∀ e ∈ condition?, e.IsValue)
    (hstep : ∀ e ∈ step?, e.IsValue) {body : Stmt} (hbody : InC body) :
    InC (.forLoop init? condition? step? body)
  | switch {condition : Expr} (hcondition : condition.IsValue) {arms : List Arm}
    (hvalues : ∀ a ∈ arms, ∀ e ∈ a.value?, e.IsValue) (hbodies : ∀ a ∈ arms, ∀ s ∈ a.body, InC s) :
    InC (.switch condition arms)

end CTree
