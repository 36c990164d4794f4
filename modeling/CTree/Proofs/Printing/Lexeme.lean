import CTree.Ast.Basic
import CTree.Ast.Precedence
import CTree.Token.Scan

/-!
# Expressions as lexemes

How an expression is written in C, with parentheses only where the levels of the operators demand
them. From the loosest to the tightest the levels are

    0        comma
    1        assignments, from the right
    2        choices, from the right
    3 .. 12  binary operators, from the left
    13       operators before an operand, `sizeof`
    14       what stands after an operand, names and integers

An operand is enclosed in parentheses if its own level is below the one that its place asks for.
-/

namespace CTree

/-! ### Lexemes -/

/-- A token without its place. -/
structure Lexeme where
  kind : TokenKind
  text : String
  deriving DecidableEq, Repr

/-- The lexeme that a token is. -/
def Token.lexeme (t : Token) : Lexeme :=
  ⟨t.kind, t.text⟩

namespace Lexeme

/-- The lexeme of a kind with one spelling. -/
def spelled (k : TokenKind) : Lexeme :=
  ⟨k, k.spelling⟩

/-- A name. -/
def name (name : String) : Lexeme :=
  ⟨.identifier, name⟩

/-- An integer in decimal digits. -/
def decimal (n : Nat) : Lexeme :=
  ⟨.intLiteral, n.repr⟩

/-- The text of lexemes, each with a blank after it, and a `;`. -/
def line (ws : List Lexeme) : List Char :=
  ws.flatMap (fun w => w.text.toList ++ [' ']) ++ [';']

/-- Lexemes, in parentheses if their level is below the one that is asked for. -/
def enclose (least level : Nat) (ws : List Lexeme) : List Lexeme :=
  if least ≤ level then ws else spelled .lparen :: (ws ++ [spelled .rparen])

end Lexeme

/-! ### Operators -/

namespace BinaryOp

/-- The kind of the token that an operator is written as. -/
def kind : BinaryOp → TokenKind
  | .add => .plus
  | .sub => .minus
  | .mul => .star
  | .div => .slash
  | .mod => .percent
  | .shl => .shl
  | .shr => .shr
  | .lt => .lt
  | .gt => .gt
  | .le => .le
  | .ge => .ge
  | .threeWay => .spaceship
  | .eq => .eqEq
  | .ne => .ne
  | .bitAnd => .amp
  | .bitXor => .caret
  | .bitOr => .pipe
  | .and => .andAnd
  | .or => .orOr
  | .assign => .assign
  | .addAssign => .plusAssign
  | .subAssign => .minusAssign
  | .mulAssign => .starAssign
  | .divAssign => .slashAssign
  | .modAssign => .percentAssign
  | .andAssign => .ampAssign
  | .orAssign => .pipeAssign
  | .xorAssign => .caretAssign
  | .shlAssign => .shlAssign
  | .shrAssign => .shrAssign
  | .comma => .comma

/-- The level of an expression whose outermost operator this is. -/
def level : BinaryOp → Nat
  | .comma => 0
  | .or => 3
  | .and => 4
  | .bitOr => 5
  | .bitXor => 6
  | .bitAnd => 7
  | .eq | .ne => 8
  | .lt | .gt | .le | .ge | .threeWay => 9
  | .shl | .shr => 10
  | .add | .sub => 11
  | .mul | .div | .mod => 12
  | _ => 1

/-- The least level of a left operand. The target of an assignment may be any binary operation, but
    no choice. -/
def leftLevel (op : BinaryOp) : Nat :=
  if op.isAssignment then 3 else op.level

/-- The least level of a right operand. The value of an assignment may be another assignment. -/
def rightLevel (op : BinaryOp) : Nat :=
  if op.isAssignment then 1 else op.level + 1

end BinaryOp

/-- The kind of the token that an operator is written as. -/
def UnaryOp.kind : UnaryOp → TokenKind
  | .neg => .minus
  | .plus => .plus
  | .not => .bang
  | .bitNot => .tilde
  | .deref => .star
  | .addrOf => .amp
  | .inc => .plusPlus
  | .dec => .minusMinus

/-! ### Expressions -/

namespace Expr

open Lexeme

/-- The level of an expression. -/
def level : Expr → Nat
  | .binary op _ _ => op.level
  | .conditional .. => 2
  | .unary _ .before _ | .sizeof _ => 13
  | _ => 14

mutual

/-- The lexemes of an expression of C. Other expressions have none. -/
def lexemes : Expr → List Lexeme
  | .identifier text => [name text]
  | .int value => [decimal value.toNatClampNeg]
  | .unary op .before e => spelled op.kind :: enclose 13 e.level e.lexemes
  | .unary op .after e => enclose 14 e.level e.lexemes ++ [spelled op.kind]
  | .sizeof (.value e) => spelled .kwSizeof :: enclose 13 e.level e.lexemes
  | .call f es =>
    enclose 14 f.level f.lexemes ++ spelled .lparen :: (listLexemes es ++ [spelled .rparen])
  | .index e i =>
    enclose 14 e.level e.lexemes ++ spelled .lbracket :: (i.lexemes ++ [spelled .rbracket])
  | .member e arrow field =>
    enclose 14 e.level e.lexemes ++ [spelled (if arrow then .arrow else .dot), name field]
  | .binary op l r =>
    enclose op.leftLevel l.level l.lexemes ++
      spelled op.kind :: enclose op.rightLevel r.level r.lexemes
  | .conditional c yes no =>
    enclose 3 c.level c.lexemes ++
      spelled .question :: (yes.lexemes ++ spelled .colon :: enclose 1 no.level no.lexemes)
  | _ => []

/-- The lexemes of arguments. -/
def listLexemes : List Expr → List Lexeme
  | [] => []
  | e :: es => enclose 1 e.level e.lexemes ++ moreLexemes es

/-- The lexemes of arguments after others. -/
def moreLexemes : List Expr → List Lexeme
  | [] => []
  | e :: es => spelled .comma :: (enclose 1 e.level e.lexemes ++ moreLexemes es)

end

/-- The lexemes of an expression at a place that asks for the given level. -/
def lexemesAt (least : Nat) (e : Expr) : List Lexeme :=
  enclose least e.level e.lexemes

end Expr

/-! ### The expressions of C -/

/-- Whether a text is a name in C: a word that is no keyword. -/
def Rule.isName (text : String) : Bool :=
  (match text.toList with
  | [] => false
  | c :: cs => isNameStart c && cs.all Text.isAsciiWord) &&
    !spelledC.any (·.spelling == text)

/-- Whether a name stands for itself: it is neither the null pointer nor the name of a cast. -/
def Rule.isVariable (text : String) : Bool :=
  isName text && text != "NULL" && (CastKind.ofName? text).isNone

/-- The expressions of C: names, integers, operators, calls, subscripts and members. -/
inductive Expr.InC : Expr → Prop
  | identifier {text : String} (h : Rule.isVariable text) : InC (.identifier text)
  | int {value : Int64} (h : 0 ≤ value) : InC (.int value)
  | before (op : UnaryOp) {e : Expr} (he : InC e) : InC (.unary op .before e)
  | after {op : UnaryOp} (h : op = .inc ∨ op = .dec) {e : Expr} (he : InC e) :
    InC (.unary op .after e)
  | sizeof {e : Expr} (he : InC e) : InC (.sizeof (.value e))
  | call {f : Expr} {es : List Expr} (hf : InC f) (hes : ∀ e ∈ es, InC e) : InC (.call f es)
  | index {e i : Expr} (he : InC e) (hi : InC i) : InC (.index e i)
  | member {e : Expr} (arrow : Bool) {field : String} (he : InC e) (h : Rule.isName field) :
    InC (.member e arrow field)
  | binary {op : BinaryOp} (h : op ≠ .threeWay) {l r : Expr} (hl : InC l) (hr : InC r) :
    InC (.binary op l r)
  | conditional {c yes no : Expr} (hc : InC c) (hyes : InC yes) (hno : InC no) :
    InC (.conditional c yes no)

end CTree
