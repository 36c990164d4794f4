import CTree.Parse.Declaration

/-!
# Statements

What a statement is, its keyword tells. One without a keyword is a label, a declaration, or an
expression, which is tried last.
-/

namespace CTree

/-- An expression as a statement: an assignment is a statement of its own. -/
def Stmt.ofExpr : Expr → Stmt
  | .binary op left right =>
    if op.isAssignment then .assign left op right else .expr (.binary op left right)
  | e => .expr e

namespace Parse

/-- What the head of a range loop declares: a variable, or several in brackets. -/
def rangeHead : Parse Stmt :=
  leniently do
    let specs ← specifiers
    let type ← typeName
    let name ← if ← check .lbracket then
        let start ← position
        skipBalanced .lbracket .rbracket
        textSince start
      else name "in range-for declaration"
    skipOver .colon "in range-for"
    return .var ⟨type, name, none, specs.storage?, []⟩

/-- What a handler catches: a type and a name. -/
def caught : Parse (String × String) := do
  if ← accept .ellipsis then return ("...", "")
  leniently do
    let _ ← specifiers
    return (← typeName, ← nameOrNone)

/-- Takes a label by itself. -/
def labelName : Parse String := do
  let t ← advance
  skip
  return t.text

end Parse

namespace Grammar

open Parse

variable (g : Grammar)

/-! ### Parts of statements -/

/-- An expression with the `;` after it. -/
def expressionStatement : Parse Stmt := do
  let value ← g.commaExpression
  skipOver .semicolon "after expression"
  return .ofExpr value

/-- An expression, unless a token of the given kind comes next. -/
def expressionUnless (k : TokenKind) : Parse (Option Expr) := do
  if ← check k then return none else return some (← g.commaExpression)

/-- A condition in parentheses after a keyword. -/
def condition (keyword : String) : Parse Expr := do
  skipOver .lparen ("after '" ++ keyword ++ "'")
  let value ← g.commaExpression
  skipOver .rparen ("after " ++ keyword ++ " condition")
  return value

/-- A statement that another one governs; a `;` by itself is an empty block. -/
def branch : Parse Stmt :=
  return (← g.parse .statement).getD (.block [])

/-! ### Choices and loops -/

/-- A choice between two branches, the second of which may be missing. -/
def ifElse : Parse Stmt := do
  skip
  let _ ← accept .kwConstexpr
  let condition ← g.condition "if"
  let yes ← g.branch
  let no? ← optionalAfter .kwElse g.branch
  return .ifElse condition yes no?

/-- A loop that looks at its condition first. -/
def whileLoop : Parse Stmt := do
  skip
  let condition ← g.condition "while"
  return .whileLoop condition (← g.branch)

/-- A loop that runs its body first. -/
def doLoop : Parse Stmt := do
  skip
  let body ← g.branch
  skipOver .kwWhile "after do body"
  let condition ← g.condition "while"
  skipOver .semicolon "after do-while"
  return .doLoop body condition

/-- A loop over a range, whose head is taken already. -/
def rangeLoop (head : Stmt) : Parse Stmt := do
  let range ← g.expression
  skipOver .rparen "after range expression"
  return .rangeLoop head range (← g.branch)

/-- What a loop starts with, and the `;` after it. -/
def loopInit : Parse (Option Stmt) := do
  if ← accept .semicolon then return none
  match ← g.declaration? with
  | some s => return some s
  | none => return some (← g.expressionStatement)

/-- A loop with its three clauses, from the first of them on. -/
def clauseLoop : Parse Stmt := do
  let init? ← g.loopInit
  let condition? ← g.expressionUnless .semicolon
  skipOver .semicolon "after for condition"
  let step? ← g.expressionUnless .rparen
  skipOver .rparen "after for clauses"
  return .forLoop init? condition? step? (← g.branch)

/-- A loop over a range, or one with clauses. -/
def forLoop : Parse Stmt := do
  skip
  skipOver .lparen "after 'for'"
  if ← isCpp then
    match ← speculate rangeHead with
    | some head => g.rangeLoop head
    | none => g.clauseLoop
  else g.clauseLoop

/-! ### Switches -/

/-- The tokens that end the arm of a switch. -/
def endsArm : TokenKind → Bool
  | .kwCase | .kwDefault | .rbrace => true
  | _ => false

/-- The value of an arm; the default arm has none. -/
def armValue : Parse (Option Expr) := do
  match ← kind with
  | .kwCase =>
    skip
    let value ← g.parse .conditional
    skipOver .colon "after case value"
    return some value
  | .kwDefault =>
    skip
    skipOver .colon "after 'default'"
    return none
  | _ => expected "'case' or 'default'"

/-- An arm of a switch. -/
def arm : Parse Arm := do
  let value? ← g.armValue
  return ⟨value?, ← g.statements endsArm⟩

/-- An arm that could be read, or `none` if it was skipped; no result if no arm is left. -/
def nextArm : Parse (Option (Option Arm)) := do
  let k ← kind
  if k == .rbrace || k == .eof then return none
  return some (← attempt g.arm)

/-- A switch with its arms. -/
def switch : Parse Stmt := do
  skip
  let condition ← g.condition "switch"
  skipOver .lbrace "to start switch body"
  let arms ← collect g.nextArm
  closeBrace "to close switch body"
  return .switch condition (arms.filterMap id)

/-! ### Exceptions -/

/-- A handler, if one comes next. -/
def handler? : Parse (Option Handler) := do
  if ← accept .kwCatch then
    skipOver .lparen "after 'catch'"
    let (type, name) ← caught
    skipOver .rparen "after catch declaration"
    return some ⟨type, name, ← g.block⟩
  else return none

/-- A block with the handlers after it, at least one. -/
def trying : Parse Stmt := do
  skip
  let body ← g.block
  let handlers ← collect g.handler?
  if handlers.isEmpty then expected "'catch' after try block"
  return .trying body handlers

/-! ### All statements -/

/-- A keyword with the `;` after it. -/
def jump (s : Stmt) (place : String) : Parse Stmt := do
  skip
  skipOver .semicolon place
  return s

/-- A keyword with a value, which may be missing, and the `;` after it. -/
def valueJump (place : String) : Parse (Option Expr) := do
  skip
  let value? ← g.expressionUnless .semicolon
  skipOver .semicolon place
  return value?

/-- A statement without a keyword that belongs to statements alone. -/
def plainStatement : Parse Stmt := do
  if let some s ← g.namedDeclaration? then return s
  if let some s ← g.declaration? then return s
  g.expressionStatement

/-- A statement; `none` for a `;` by itself. -/
def statement : Parse (Option Stmt) := do
  match ← kind with
  | .semicolon =>
    skip
    return none
  | .lbrace => return some (.block (← g.block))
  | .kwIf => g.ifElse
  | .kwWhile => g.whileLoop
  | .kwDo => g.doLoop
  | .kwFor => g.forLoop
  | .kwSwitch => g.switch
  | .kwReturn => return some (.returning (← g.valueJump "after return value"))
  | .kwBreak => jump .breaking "after 'break'"
  | .kwContinue => jump .continuing "after 'continue'"
  | .kwGoto =>
    skip
    let label ← name "after 'goto'"
    skipOver .semicolon "after 'goto'"
    return some (.goto label)
  | .kwTry => g.trying
  | .kwThrow => return some (.throwing (← g.valueJump "after throw"))
  | .kwCase | .kwDefault =>
    unexpected ((← kind).describe ++ " label outside of a switch")
  | .identifier =>
    if ← checkAhead 1 .colon then return some (.label (← labelName)) else g.plainStatement
  | _ => g.plainStatement

end Grammar

end CTree
