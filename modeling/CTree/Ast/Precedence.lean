import CTree.Ast.Operator
import CTree.Token.Kind

/-!
# Operators in sources

Which operator a token stands for, and how tightly the operators between two operands bind.
-/

namespace CTree

/-- The binary operator that a token stands for, and its level: the higher, the tighter. -/
def BinaryOp.ofKind? : TokenKind → Option (BinaryOp × Nat)
  | .orOr => some (.or, 1)
  | .andAnd => some (.and, 2)
  | .pipe => some (.bitOr, 3)
  | .caret => some (.bitXor, 4)
  | .amp => some (.bitAnd, 5)
  | .eqEq => some (.eq, 6)
  | .ne => some (.ne, 6)
  | .lt => some (.lt, 7)
  | .gt => some (.gt, 7)
  | .le => some (.le, 7)
  | .ge => some (.ge, 7)
  | .spaceship => some (.threeWay, 7)
  | .shl => some (.shl, 8)
  | .shr => some (.shr, 8)
  | .plus => some (.add, 9)
  | .minus => some (.sub, 9)
  | .star => some (.mul, 10)
  | .slash => some (.div, 10)
  | .percent => some (.mod, 10)
  | _ => none

/-- The number of levels of binary operators. -/
def BinaryOp.levels : Nat := 10

/-- The assignment that a token stands for. -/
def BinaryOp.assignmentOfKind? : TokenKind → Option BinaryOp
  | .assign => some .assign
  | .plusAssign => some .addAssign
  | .minusAssign => some .subAssign
  | .starAssign => some .mulAssign
  | .slashAssign => some .divAssign
  | .percentAssign => some .modAssign
  | .ampAssign => some .andAssign
  | .pipeAssign => some .orAssign
  | .caretAssign => some .xorAssign
  | .shlAssign => some .shlAssign
  | .shrAssign => some .shrAssign
  | _ => none

/-- The operator that a token before an operand stands for. -/
def UnaryOp.ofKind? : TokenKind → Option UnaryOp
  | .plusPlus => some .inc
  | .minusMinus => some .dec
  | .minus => some .neg
  | .plus => some .plus
  | .bang => some .not
  | .tilde => some .bitNot
  | .star => some .deref
  | .amp => some .addrOf
  | _ => none

/-- The access that a label gives. -/
def Access.ofKind? : TokenKind → Option Access
  | .kwPublic => some .publicAccess
  | .kwPrivate => some .privateAccess
  | .kwProtected => some .protectedAccess
  | _ => none

/-- The keyword of a class that a token is. -/
def ClassKey.ofKind : TokenKind → ClassKey
  | .kwClass => .classKey
  | .kwUnion => .unionKey
  | _ => .structKey

/-- The tokens that may begin what a type in parentheses is applied to. -/
def TokenKind.startsOperand : TokenKind → Bool
  | .identifier | .intLiteral | .hexLiteral | .octalLiteral | .floatLiteral | .stringLiteral
  | .charLiteral | .kwTrue | .kwFalse | .kwNullptr | .kwThis | .lparen | .lbrace | .bang | .tilde
  | .minus | .plus | .star | .amp | .plusPlus | .minusMinus | .kwSizeof | .kwNew
  | .colonColon => true
  | _ => false

end CTree
