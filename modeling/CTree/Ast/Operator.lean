/-!
# Operators and other closed vocabularies of the tree

Each word has the text under which it stands in documents, which for operators is also the text in
the source.
-/

namespace CTree

/-- Who may use a member of a class. -/
inductive Access
  | publicAccess
  | privateAccess
  | protectedAccess
  deriving DecidableEq, Repr, Inhabited

/-- The keyword of an access. -/
def Access.word : Access → String
  | .publicAccess => "public"
  | .privateAccess => "private"
  | .protectedAccess => "protected"

/-- Operators with two operands, the assignments and the comma included. -/
inductive BinaryOp
  | add | sub | mul | div | mod | shl | shr | lt | gt | le | ge | threeWay | eq | ne
  | bitAnd | bitXor | bitOr | and | or
  | assign | addAssign | subAssign | mulAssign | divAssign | modAssign | andAssign | orAssign
  | xorAssign | shlAssign | shrAssign
  | comma
  deriving DecidableEq, Repr, Inhabited

namespace BinaryOp

/-- The spelling of an operator. -/
def symbol : BinaryOp → String
  | .add => "+"
  | .sub => "-"
  | .mul => "*"
  | .div => "/"
  | .mod => "%"
  | .shl => "<<"
  | .shr => ">>"
  | .lt => "<"
  | .gt => ">"
  | .le => "<="
  | .ge => ">="
  | .threeWay => "<=>"
  | .eq => "=="
  | .ne => "!="
  | .bitAnd => "&"
  | .bitXor => "^"
  | .bitOr => "|"
  | .and => "&&"
  | .or => "||"
  | .assign => "="
  | .addAssign => "+="
  | .subAssign => "-="
  | .mulAssign => "*="
  | .divAssign => "/="
  | .modAssign => "%="
  | .andAssign => "&="
  | .orAssign => "|="
  | .xorAssign => "^="
  | .shlAssign => "<<="
  | .shrAssign => ">>="
  | .comma => ","

/-- The operators that store a value. -/
def isAssignment : BinaryOp → Bool
  | .assign | .addAssign | .subAssign | .mulAssign | .divAssign | .modAssign | .andAssign
  | .orAssign | .xorAssign | .shlAssign | .shrAssign => true
  | _ => false

end BinaryOp

/-- Operators with one operand. -/
inductive UnaryOp
  | neg | plus | not | bitNot | deref | addrOf | inc | dec
  deriving DecidableEq, Repr, Inhabited

/-- The spelling of an operator. -/
def UnaryOp.symbol : UnaryOp → String
  | .neg => "-"
  | .plus => "+"
  | .not => "!"
  | .bitNot => "~"
  | .deref => "*"
  | .addrOf => "&"
  | .inc => "++"
  | .dec => "--"

/-- On which side of its operand a unary operator stands. -/
inductive Fixity
  | before
  | after
  deriving DecidableEq, Repr, Inhabited

/-- The side by name. -/
def Fixity.word : Fixity → String
  | .before => "prefix"
  | .after => "postfix"

/-- The forms of a cast. -/
inductive CastKind
  | staticCast
  | dynamicCast
  | constCast
  | reinterpretCast
  /-- A type in parentheses before the operand. -/
  | parenthesized
  deriving DecidableEq, Repr, Inhabited

/-- The keyword of a cast, or the name of the form without one. -/
def CastKind.word : CastKind → String
  | .staticCast => "static_cast"
  | .dynamicCast => "dynamic_cast"
  | .constCast => "const_cast"
  | .reinterpretCast => "reinterpret_cast"
  | .parenthesized => "c_style"

/-- The cast that a name stands for. -/
def CastKind.ofName? (name : String) : Option CastKind :=
  [CastKind.staticCast, .dynamicCast, .constCast, .reinterpretCast].find? (·.word == name)

/-- The keyword of a class definition. -/
inductive ClassKey
  | classKey
  | structKey
  | unionKey
  deriving DecidableEq, Repr, Inhabited

/-- The spelling of the keyword. -/
def ClassKey.word : ClassKey → String
  | .classKey => "class"
  | .structKey => "struct"
  | .unionKey => "union"

/-- The access of members and bases that are given none: only a `class` hides them. -/
def ClassKey.defaultAccess : ClassKey → Access
  | .classKey => .privateAccess
  | _ => .publicAccess

end CTree
