import CTree.Parse.Member

/-!
# Declarations

Declarations outside of classes. Some have a keyword of their own; the others begin with a type,
and a look at the tokens after the type decides between a variable, a function and an operator. In
C++ constructors and destructors may stand outside of their class too.
-/

namespace CTree

/-- The forms of a declaration that begins with a type. -/
inductive DeclarationForm
  | variable
  | function
  | operator
  deriving DecidableEq, Repr

/-- The form of the declaration whose type ends before the current token, if it is one. The
parentheses of a function are looked for among the given number of places. -/
def View.declarationForm? (limit : Nat) (v : View) : Option DeclarationForm :=
  if v.isCpp && v.atOperatorName then some .operator
  else
    match v.shape limit with
    | .variable => some .variable
    | .function => some .function
    | .neither => none

/-- The path to a constructor or a destructor. -/
structure SpecialPath where
  text : String
  /-- The last name but one; empty if there is only one. -/
  owner : String
  last : String
  isDestructor : Bool
  deriving DecidableEq, Repr

/-- The path with one more name, which may be that of a destructor. -/
def SpecialPath.extend (p : SpecialPath) (isDestructor : Bool) (name : String) : SpecialPath where
  text := p.text ++ "::" ++ (if isDestructor then "~" else "") ++ name
  owner := p.last
  last := name
  isDestructor

namespace Parse

/-- The type in front of a declaration, and the form that the tokens after the type show. -/
def formedType : Parse (String × DeclarationForm) := do
  let type ← typeName
  match ← lookAhead View.declarationForm? with
  | some form => return (type, form)
  | none => unexpected "not a declaration"

/-- The specifiers and the type in front of a declaration, and its form. -/
def declarationHead : Parse (Specifiers × String × DeclarationForm) := do
  let specs ← specifiers
  unless (← view).startsType do
    expected "type name"
  return (specs, ← formedType)

/-- Takes `::` and a name, or `::~` and a name, if they come next. -/
def specialSegment (p : SpecialPath) : Parse (Option SpecialPath) := do
  if p.isDestructor then return none
  if ← accept .colonColon then
    if ← accept .tilde then return some (p.extend true (← name "after '~'"))
    else return some (p.extend false (← name))
  else return none

/-- Takes the path to a constructor or destructor, up to its parameters. -/
def specialPath : Parse SpecialPath := do
  let _ ← specifiers
  let first ← name
  let path ← iterate specialSegment ⟨first, "", first, false⟩
  if path.owner == path.last && (← check .lparen) then return path
  else unexpected "not a constructor or destructor"

/-- Whether a constructor or destructor may begin here. -/
def atSpecial : Parse Bool := do
  match ← kind with
  | .kwInline | .kwExplicit => return true
  | .identifier => checkAhead 1 .colonColon
  | _ => return false

/-- Takes the marks between the definition of a type and the first variable, and adds their texts
to the type. -/
def definitionMarks (type : String) : Parse String :=
  iterate (fun type => do
    match ← kind with
    | .star | .amp => return some (type ++ (← advance).text)
    | .kwConst => return some (type ++ " " ++ (← advance).text)
    | _ => return none) type

/-- Takes the name of a namespace, if it has one. -/
def namespaceName : Parse String := do
  if ← check .identifier then qualifiedName else return ""

end Parse

namespace Grammar

open Parse

variable (g : Grammar)

/-- A declaration that begins with a type, if one begins here. -/
def declaration? : Parse (Option Stmt) := do
  match ← speculate declarationHead with
  | none => return none
  | some (_, type, .operator) => return some (.decl (.operator (← g.freeOperator type)))
  | some (specs, type, .function) => g.functionOrVariable specs type
  | some (specs, type, .variable) => return some (.ofVariables (← g.variableDecls specs type))

/-- The rest of a constructor or destructor outside of its class, after its path. -/
def specialRest (path : SpecialPath) : Parse Decl := do
  if path.isDestructor then
    return .destructor (← g.destructorRest path.text .publicAccess false)
  else
    let ps ← leniently g.parameters
    return .constructor (← g.constructorRest path.text .publicAccess false ps [])

/-- A constructor or destructor outside of its class, if one begins here. -/
def special? : Parse (Option Decl) := do
  if !(← isCpp) || !(← atSpecial) then return none
  match ← speculate specialPath with
  | none => return none
  | some path => return some (← g.specialRest path)

/-- The rest of a declaration that begins with the definition of a type: the `;`, or variables of
that type. If the source ends, that is reported. -/
def definitionRest (t : TypeDefinition) : Parse Stmt := do
  if ← accept .semicolon then return .decl t.decl
  if ← atEnd then
    report (← expectation "';' after type definition")
    return .decl t.decl
  let vs ← g.variableDecls {} (← definitionMarks t.type)
  return .block (.decl t.decl :: vs.map .var)

/-- The rest of a namespace, after its keyword. -/
def namespaceRest : Parse Decl := do
  let name ← namespaceName
  if ← accept .assign then
    let target ← qualifiedName
    skipOver .semicolon "after namespace alias"
    return .usingAlias target name
  skipOver .lbrace "to start namespace body"
  let body ← g.parse .items
  closeBrace "to close namespace"
  return .namespaceBlock name body

/-- A namespace, or another name for one. -/
def namespaceDeclaration : Parse Decl := do
  skip
  g.namespaceRest

/-- Items of a foreign linkage: one, or several in braces. -/
def linkage : Parse Stmt := do
  skip
  skip
  if ← accept .lbrace then
    let body ← g.parse .items
    closeBrace "to close linkage block"
    return .block body
  return (← g.parse .item).getD (.block [])

/-- A declaration that has a keyword of its own, if one begins here. -/
def namedDeclaration? : Parse (Option Stmt) := do
  match ← g.typeDefinition? with
  | some t => g.definitionRest t
  | none =>
    match ← kind, ← kindAhead 1 with
    | .kwNamespace, _ => return some (.decl (← g.namespaceDeclaration))
    | .kwInline, .kwNamespace =>
      skip
      return some (.decl (← g.namespaceDeclaration))
    | .kwTemplate, _ => return some (.decl (← g.template))
    | .kwTypedef, _ => return some (.ofDecls (← g.typedefs))
    | .kwUsing, _ => return some (.decl (← usingDeclaration))
    | .kwExtern, .stringLiteral => g.linkage
    | .kwStaticAssert, _ => return some (.decl (← g.staticAssertion))
    | k, _ => if k.isDirective then return some (.decl (← directive)) else return none

/-! ### Items -/

/-- An item of a translation unit or a namespace. -/
def item : Parse (Option Stmt) := do
  if let some s ← g.namedDeclaration? then return some s
  if let some d ← g.special? then return some (.decl d)
  if let some s ← g.declaration? then return some s
  g.parse .statement

/-- A round of a run of items, with the number of items tried before it. The brace that closes their
namespace ends the run; one that closes nothing is skipped. -/
def itemRound (inNamespace : Bool) (round : Nat) : Parse (Option (List Stmt × Nat)) := do
  match ← kind with
  | .eof => return none
  | .rbrace =>
    if inNamespace then return none
    skipToken "at top level"
    return some ([], round)
  | _ =>
    let limit := (← settings).maxIterations
    if limit ≤ round then
      report (← exhaustion limit .translationUnit)
      return none
    return some ((← attempt g.item).join.toList, round + 1)

/-- Items up to the end of the source, or up to the brace that closes their namespace. -/
def items (inNamespace : Bool) : Parse (List Stmt) :=
  rounds (g.itemRound inNamespace) 0

end Grammar

end CTree
