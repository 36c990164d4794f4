import CTree.Parse.Expression

/-!
# Declarators

What may follow the type of a declaration: variables with their initializers, functions, and
constructors, destructors and operators.
-/

namespace CTree

/-- The marks that a later declarator of a variable may begin with. -/
def TokenKind.isVariableMark : TokenKind → Bool
  | .star | .amp | .andAnd => true
  | _ => false

/-- The marks that a later declarator of a field or a type name may begin with. -/
def TokenKind.isPointerMark : TokenKind → Bool
  | .star | .amp => true
  | _ => false

/-- Variables as one statement: several form a block. -/
def Stmt.ofVariables : List VarDecl → Stmt
  | [v] => .var v
  | vs => .block (vs.map .var)

/-- Declarations as one statement: several form a block. -/
def Stmt.ofDecls : List Decl → Stmt
  | [d] => .decl d
  | ds => .block (ds.map .decl)

/-- A function from what stands in front of its name, between its name and its body, and the
body. -/
def FunctionDecl.assemble (specs : Specifiers) (type name : String) (parameters : List Parameter)
    (q : FunctionQualifiers) (body? : Option (List Stmt)) : FunctionDecl where
  returnType := q.returnType type
  name
  parameters
  body?
  isStatic := specs.isStatic
  isInline := specs.isInline
  isVirtual := specs.isVirtual
  isOverride := q.isOverride
  isConst := q.isConst

/-- Symbols that no operator of a class can have. -/
def TokenKind.isBracketLike : TokenKind → Bool
  | .lparen | .rparen | .lbrace | .rbrace | .lbracket | .rbracket | .semicolon | .colonColon =>
    true
  | _ => false

namespace Parse

/-- Takes what stands after `operator`: a symbol, or the type of a conversion. -/
def operatorSymbol : Parse String := do
  match ← kind, ← kindAhead 1 with
  | .lparen, .rparen =>
    skip
    skip
    return "()"
  | .lbracket, .rbracket =>
    skip
    skip
    return "[]"
  | .kwNew, _ | .kwDelete, _ =>
    let symbol := (← advance).text
    if ← emptyBrackets then return symbol ++ "[]" else return symbol
  | .stringLiteral, .identifier =>
    skip
    return "\"\"" ++ (← advance).text
  | k, _ =>
    if k.spelling?.isSome && !k.isKeyword && !k.isBracketLike then return (← advance).text
    else leniently typeName

/-- Takes the name of what a constructor initializes, with template arguments. -/
def memberInitPath : Parse String := do
  let path ← qualifiedName
  if ← check .lt then return templateText path (← templateArguments) else return path

end Parse

namespace Grammar

open Parse

variable (g : Grammar)

/-- What a variable starts with, if anything: a value, a list, or arguments. -/
def variableInit (type : String) : Parse (Option Expr) := do
  if ← accept .assign then return some (← g.initializer)
  if (← isCpp) && (← check .lbrace) then return some (← g.bracedList)
  if ← accept .lparen then
    return some (.call (.identifier (TypeText.base type)) (← g.arguments .rparen))
  return none

/-- A variable of the given type. -/
def variableOf (storage? : Option String) (type : String) : Parse VarDecl := do
  let name ← qualifiedName
  let dimensions ← g.dimensions
  let init? ← g.variableInit type
  return ⟨type, name, init?, storage?, dimensions⟩

/-- Variables whose first one has the given type, and the `;` after them. -/
def variableDecls (specs : Specifiers) (type : String) : Parse (List VarDecl) := do
  let vs ← chain (g.variableOf specs.storage?)
    (takeTexts TokenKind.isVariableMark (TypeText.base type)) type
  skipOver .semicolon "after declaration"
  return vs

/-- The rest of a function, after its parameters. -/
def functionRest (specs : Specifiers) (type name : String) (ps : List Parameter) :
    Parse FunctionDecl := do
  let q ← functionQualifiers
  return .assemble specs type name ps q (← g.functionBody)

/-- The arguments of a variable, up to the `;` after them. -/
def directArguments : Parse (List Expr) := do
  skipOver .lparen
  let values ← g.arguments .rparen
  skipOver .semicolon "after declaration"
  return values

/-- A name with parentheses after it: a function if they hold parameters, a variable if they hold
arguments, and a function again if they hold neither. -/
def functionOrVariable (specs : Specifiers) (type : String) : Parse Stmt := do
  let name ← qualifiedName
  match ← speculate (strictly g.parameters) with
  | some ps => return .decl (.function (← g.functionRest specs type name ps))
  | none =>
    match ← speculate g.directArguments with
    | some values =>
      let init := Expr.call (.identifier (TypeText.base type)) values
      return .var ⟨type, name, some init, specs.storage?, []⟩
    | none =>
      let ps ← leniently g.parameters
      return .decl (.function (← g.functionRest specs type name ps))

/-- An operator outside of a class, from the names of its owners on. -/
def freeOperator (type : String) : Parse OperatorDecl := do
  iterate (fun () => do
    if ← check .identifier then
      skip
      skip
      return some ()
    else return none) ()
  skipOver .kwOperator
  let symbol ← operatorSymbol
  let ps ← leniently g.parameters
  let q ← functionQualifiers
  let body? ← g.functionBody
  return ⟨type, symbol, .publicAccess, q.isConst, ps, body?⟩

/-- What a member or base is initialized with. -/
def memberInitValues : Parse (List Expr) := do
  if ← accept .lparen then g.arguments .rparen
  else if ← check .lbrace then g.initializerList
  else expected "'(' or '\x7b' in member initializer"

/-- An entry of the list before the body of a constructor. -/
def memberInit (bases : List BaseClass) : Parse MemberInit := do
  let path ← memberInitPath
  let values ← g.memberInitValues
  let _ ← accept .ellipsis
  let plain := TypeText.plain path
  let isBase := bases.any (TypeText.plain ·.name == plain) || (← isKnown plain) ||
    TypeText.isQualified plain
  return ⟨path, isBase, values⟩

/-- The rest of a constructor, after its parameters. -/
def constructorRest (name : String) (access : Access) (isExplicit : Bool) (ps : List Parameter)
    (bases : List BaseClass) : Parse ConstructorDecl := do
  let _ ← functionQualifiers
  let initializers ← if ← accept .colon then separated (g.memberInit bases) else pure []
  let body? ← g.functionBody
  return ⟨name, access, isExplicit, ps, initializers, body?⟩

/-- The rest of a destructor, after its name. -/
def destructorRest (name : String) (access : Access) (isVirtual : Bool) :
    Parse DestructorDecl := do
  let _ ← g.parameters
  let _ ← functionQualifiers
  let body? ← g.functionBody
  return ⟨name, access, isVirtual, body?⟩

end Grammar

end CTree
