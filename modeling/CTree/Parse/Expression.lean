import CTree.Ast.Precedence
import CTree.Literal
import CTree.Parse.Block
import CTree.Parse.Parameter

/-!
# Expressions

From the loosest to the tightest: assignments, choices, ten levels of binary operators, what
stands before an operand, what stands after it, and the operands themselves. The comma operator is
not among them; it belongs to the places that allow it.
-/

namespace CTree

namespace Parse

/-- Takes an integer literal. One without a value is reported and keeps its place in the tree. -/
def intLiteral : Parse Expr := do
  let t ← advance
  match Literal.int t.text.toList with
  | .ok value => return .int value
  | .error fault =>
    report ⟨.invalidLiteral t.text, t.offset⟩
    return .int fault.substitute

/-- Takes string literals that stand side by side; together they are one. -/
def stringLiterals : Parse Expr :=
  .string <$> iterate (fun value => do
    if ← check .stringLiteral then
      return some (value ++ String.ofList (Literal.body (← advance).text.toList))
    else return none) ""

/-- Takes a type in parentheses. -/
def typeInParentheses (place : String) : Parse String := do
  skip
  let type ← typeName
  skipOver .rparen place
  return type

/-- Takes a type in parentheses, if the parentheses hold a type and nothing else. -/
def parenthesizedType : Parse (Option String) := do
  if (← check .lparen) && (← view).startsType 1 then speculate (typeInParentheses "after type")
  else return none

/-- Takes the type of a cast, after which an operand has to follow. -/
def castHead : Parse String := do
  let type ← typeInParentheses "after cast type"
  if (← kind).startsOperand then return type else unexpected "not a cast"

/-- Takes the type of a cast, if the parentheses hold one and an operand may follow. -/
def castType : Parse (Option String) :=
  strictly do
    if (← view).startsType 1 then speculate castHead else return none

/-- Takes template arguments, after which a use of the template has to follow. -/
def argumentsBeforeUse : Parse (List String) := do
  let arguments ← templateArguments
  match ← kind with
  | .lparen | .colonColon | .lbrace => return arguments
  | _ => unexpected "not a template argument list"

/-- Takes template arguments, if such stand here and a use of the template follows. -/
def usedTemplateArguments : Parse (Option (List String)) :=
  speculate argumentsBeforeUse

/-- Takes the name of a member. -/
def memberName : Parse String := do
  if ← accept .tilde then return "~" ++ (← name "after '~'")
  let _ ← accept .kwTemplate
  if ← isCpp then qualifiedName else name "after member access"

/-- A template with its arguments, as text. -/
def templateText (name : String) (arguments : List String) : String :=
  name ++ "<" ++ String.intercalate ", " arguments ++ ">"

end Parse

namespace Grammar

open Parse

variable (g : Grammar)

/-! ### Operands -/

/-- A cast by name, whose name is taken already. -/
def namedCast (cast : CastKind) : Parse Expr := do
  let type := String.intercalate ", " (← templateArguments)
  skipOver .lparen "after cast type"
  let operand ← g.expression
  skipOver .rparen "after cast operand"
  return .cast cast type operand

/-- A name that may be followed by template arguments. -/
def templateName (path : String) : Parse Expr := do
  if !(← isCpp) || !(← check .lt) then return .identifier path
  match ← usedTemplateArguments with
  | none => return .identifier path
  | some arguments =>
    if (← check .colonColon) && (← checkAhead 1 .identifier) then
      skip
      return .identifier (templateText path arguments ++ "::" ++ (← qualifiedName))
    else return .templateId path arguments

/-- A name: a null pointer, a cast, a template, or a variable. -/
def nameExpression : Parse Expr := do
  let path ← qualifiedName
  if path == "NULL" then return .null
  match CastKind.ofName? path with
  | some cast => if ← check .lt then g.namedCast cast else templateName path
  | none => templateName path

/-- `typeid` of a type or of a value. -/
def typeidOf : Parse Expr := do
  skip
  match ← parenthesizedType with
  | some type => return .typeid (.type type)
  | none =>
    skipOver .lparen "after 'typeid'"
    let operand ← g.expression
    skipOver .rparen "after typeid operand"
    return .typeid (.value operand)

/-- The number of elements of a new array, if it is one. -/
def newSize : Parse (Option Expr) := do
  if ← accept .lbracket then
    let size ← g.expression
    skipOver .rbracket "after array size"
    return some size
  else return none

/-- The arguments of a new object, which may be missing. -/
def newArguments : Parse (List Expr) := do
  if ← accept .lparen then g.arguments .rparen
  else if ← check .lbrace then g.initializerList
  else return []

/-- A new object or array; where it is placed is not kept. -/
def newObject : Parse Expr := do
  skip
  if ← accept .lparen then
    let _ ← g.arguments .rparen
  let type ← leniently typeName
  let size? ← g.newSize
  return .new type (← g.newArguments) size? size?.isSome

/-- The end of an object or array. -/
def deletion : Parse Expr := do
  skip
  let isArray ← emptyBrackets
  return .delete (← g.parse .unary) isArray

/-- A captured variable. -/
def capture : Parse Capture := do
  match ← kind with
  | .assign =>
    skip
    return ⟨"=", false, false, none⟩
  | .amp =>
    skip
    if ← check .identifier then
      let captured := (← advance).text
      let _ ← accept .ellipsis
      return ⟨captured, true, false, none⟩
    else return ⟨"&", true, false, none⟩
  | .kwThis =>
    skip
    return ⟨"this", false, true, none⟩
  | .star =>
    if ← checkAhead 1 .kwThis then
      skip
      skip
      return ⟨"*this", false, true, none⟩
    else expected "lambda capture"
  | .identifier =>
    let captured := (← advance).text
    let _ ← accept .ellipsis
    let init? ← optionalAfter .assign g.expression
    return ⟨captured, false, false, init?⟩
  | _ => expected "lambda capture"

/-- What stands between the parameters of a lambda and its body: whether it is mutable, and the
type it returns. -/
def lambdaQualifier : Bool × Option String → Parse (Option (Bool × Option String))
  | (isMutable, returnType?) => do
    match ← kind with
    | .kwMutable =>
      skip
      return some (true, returnType?)
    | .kwConstexpr =>
      skip
      return some (isMutable, returnType?)
    | .kwNoexcept =>
      skipWithGroup
      return some (isMutable, returnType?)
    | .arrow =>
      skip
      return some (isMutable, some (← leniently typeName))
    | _ => return none

/-- A lambda. -/
def lambda : Parse Expr := do
  skip
  let captures ← commaList (· == .rbracket) g.capture
  skipOver .rbracket "to close lambda captures"
  let ps ← if ← check .lparen then leniently g.parameters else pure []
  let (isMutable, returnType?) ← iterate lambdaQualifier (false, none)
  return .lambda captures ps returnType? (← g.block) isMutable

/-- An operand by itself. -/
def primary : Parse Expr := do
  match ← kind with
  | .intLiteral | .hexLiteral | .octalLiteral => intLiteral
  | .floatLiteral => return .real (Literal.real (← advance).text.toList)
  | .stringLiteral => stringLiterals
  | .charLiteral => return .char (String.ofList (Literal.body (← advance).text.toList))
  | .kwTrue =>
    skip
    return .bool true
  | .kwFalse =>
    skip
    return .bool false
  | .kwNullptr =>
    skip
    return .null
  | .kwThis =>
    skip
    return .this
  | .lparen =>
    skip
    let value ← g.commaExpression
    skipOver .rparen "after expression"
    return value
  | .lbrace => g.bracedList
  | .lbracket => if ← isCpp then g.lambda else expected "expression"
  | .kwNew => g.newObject
  | .kwDelete => g.deletion
  | .kwTypeid => g.typeidOf
  | .identifier | .colonColon => g.nameExpression
  | k =>
    if k.isBuiltinType && (← checkAhead 1 .lparen) then return .identifier (← advance).text
    else expected "expression"

/-! ### What stands after an operand -/

/-- Whether a list in braces after an operand makes an object of that type. -/
def constructs (v : View) : Expr → Bool
  | .identifier name => v.isKnown name
  | .templateId .. => true
  | _ => false

/-- An operand with one thing more after it, if something can be read there. -/
def suffix (operand : Expr) : Parse (Option Expr) := do
  match ← kind with
  | .lparen =>
    skip
    return some (.call operand (← g.arguments .rparen))
  | .lbracket =>
    skip
    let position ← g.commaExpression
    skipOver .rbracket "after array index"
    return some (.index operand position)
  | .dot | .arrow =>
    let arrow := (← advance).kind == .arrow
    return some (.member operand arrow (← memberName))
  | .dotStar | .arrowStar =>
    let arrow := (← advance).kind == .arrowStar
    return some (.memberPointer operand arrow (← g.parse .unary))
  | .plusPlus =>
    skip
    return some (.unary .inc .after operand)
  | .minusMinus =>
    skip
    return some (.unary .dec .after operand)
  | .lbrace =>
    if (← isCpp) && constructs (← view) operand then
      return some (.call operand (← g.initializerList))
    else return none
  | _ => return none

/-- An operand with all that stands after it. -/
def suffixed : Parse Expr := do
  iterate g.suffix (← g.primary)

/-! ### What stands before an operand -/

/-- `sizeof` of a type, of a value, or of the number of elements of a pack. -/
def sizeofOf : Parse Expr := do
  skip
  if ← accept .ellipsis then
    skipOver .lparen "after 'sizeof...'"
    let pack ← name "in 'sizeof...'"
    skipOver .rparen "after 'sizeof...' pack"
    return .sizeof (.type (pack ++ "..."))
  match ← parenthesizedType with
  | some type => return .sizeof (.type type)
  | none => return .sizeof (.value (← g.parse .unary))

/-- What a type in parentheses is applied to. -/
def castOperand : Parse Expr := do
  if ← check .lbrace then g.bracedList else g.parse .unary

/-- An operand with what stands before it. -/
def unary : Parse Expr := do
  match UnaryOp.ofKind? (← kind) with
  | some op =>
    skip
    return .unary op .before (← g.parse .unary)
  | none =>
    match ← kind with
    | .kwSizeof => g.sizeofOf
    | .lparen =>
      match ← castType with
      | some type => return .cast .parenthesized type (← g.castOperand)
      | none => g.suffixed
    | _ => g.suffixed

/-! ### What stands between operands -/

/-- Goes on with the operator that stands here, if its level is at least `least`. What is on its
right is read at the next level. -/
def operation (operand : Nat → Parse Expr) (least : Nat) (left : Expr) : Parse (Option Expr) := do
  match BinaryOp.ofKind? (← kind) with
  | some (op, level) =>
    if level < least then return none
    skip
    return some (.binary op left (← operand (level + 1)))
  | none => return none

/-- Operands and the binary operators between them whose level is at least `least`, with at most
the given number of levels inside each other. Operators of one level are applied from the left. -/
def binary : Nat → Nat → Parse Expr
  | 0, _ => g.unary
  | n + 1, least => do iterate (operation (binary n) least) (← g.unary)

/-- A choice between two values, or its condition alone. -/
def conditional : Parse Expr := do
  let condition ← g.binary BinaryOp.levels 1
  if ← accept .question then
    let yes ← g.commaExpression
    skipOver .colon "in conditional expression"
    return .conditional condition yes (← g.parse .assignment)
  else return condition

/-- An assignment, or its target alone. -/
def assignment : Parse Expr := do
  let target ← g.conditional
  match BinaryOp.assignmentOfKind? (← kind) with
  | none => return target
  | some op =>
    skip
    let value ← if ← check .lbrace then g.bracedList else g.parse .assignment
    return .binary op target value

/-! ### Initializers -/

/-- Whether an element of an initializer names its field. -/
def atDesignator (v : View) : Bool :=
  v.kind 0 == .dot && v.kind 1 == .identifier && v.kind 2 == .assign

/-- An element of an initializer. -/
def element : Parse Expr := do
  if atDesignator (← view) then
    skip
    let field := (← advance).text
    skip
    return .binary .assign (.identifier ("." ++ field)) (← g.initializer)
  else g.initializer

/-- The elements of an initializer, and the brace that closes it. -/
def elements : Parse (List Expr) := do
  let es ← commaList (fun k => k == .rbrace || k == .eof) g.element
  skipOver .rbrace "to close initializer list"
  return es

end Grammar

end CTree
