import CTree.Parse.Assertion
import CTree.Parse.Directive
import CTree.Parse.Synonym
import CTree.Parse.Template

/-!
# Members of classes

The body of a class is a run of members. What has no keyword of its own is tried as a constructor,
a destructor, an operator, a method and a field, in this order, and the first head that can be read
decides. Within a head any name counts as the name of a type.
-/

namespace CTree

/-- The beginning of a member that has no keyword of its own. -/
inductive MemberHead
  | constructor (specs : Specifiers) (parameters : List Parameter)
  | destructor (specs : Specifiers)
  | operator (type symbol : String) (parameters : List Parameter)
  | method (specs : Specifiers) (type name : String) (parameters : List Parameter)
  | field (specs : Specifiers) (type name : String)

/-- What may follow the parameters of a constructor or method. -/
def TokenKind.followsParameters : TokenKind → Bool
  | .kwConst | .kwVolatile | .kwOverride | .kwFinal | .kwNoexcept | .kwThrow | .arrow | .assign
  | .lbrace | .semicolon | .amp | .andAnd | .colon => true
  | _ => false

/-- What may follow the name of a field. -/
def TokenKind.followsField : TokenKind → Bool
  | .semicolon | .assign | .lbrace | .lbracket | .comma | .colon => true
  | _ => false

namespace Parse

variable {α : Type}

/-- The first of several parsers that succeeds, each tried on its own. -/
def firstOf : List (Parse α) → Parse (Option α)
  | [] => pure none
  | p :: ps => do
    match ← speculate p with
    | some a => return some a
    | none => firstOf ps

/-- Fails unless the kind of the current token is in a class. -/
def demand (p : TokenKind → Bool) (message : String) : Parse Unit := do
  unless p (← kind) do
    unexpected message

/-- The head of a destructor. -/
def destructorHead (owner : String) : Parse MemberHead := do
  let specs ← specifiers
  skipOver .tilde
  if (← name "after '~'") != owner then unexpected "destructor name does not match class"
  unless ← check .lparen do
    expected "'(' after destructor name"
  return .destructor specs

/-- The head of a field. -/
def fieldHead : Parse MemberHead := do
  let specs ← specifiers
  let type ← typeName
  let (name, pointer) ← declaredName (name "in function pointer member")
    (name "in member declaration")
  demand TokenKind.followsField "not a field"
  return .field specs (type ++ pointer) name

/-- A friend, whose body is skipped. -/
def friend : Parse Decl := do
  skip
  let start ← position
  let _ ← skipToBody ((← view).remaining + 1) 0
  let text ← textSince start
  if ← check .lbrace then skipBalanced .lbrace .rbrace
  else skipOver .semicolon "after friend declaration"
  return .friend text

end Parse

namespace Grammar

open Parse

variable (g : Grammar)

/-! ### Heads -/

/-- The head of a constructor of the class `owner`. -/
def constructorHead (owner : String) : Parse MemberHead := do
  let specs ← specifiers
  if (← name) != owner || !(← check .lparen) then unexpected "not a constructor"
  let ps ← g.parameters
  demand TokenKind.followsParameters "not a constructor"
  return .constructor specs ps

/-- The head of an operator; a conversion has its symbol for its type. -/
def operatorHead : Parse MemberHead := do
  let _ ← specifiers
  let type ← if ← check .kwOperator then pure "" else typeName
  skipOver .kwOperator
  let symbol ← operatorSymbol
  let ps ← g.parameters
  return .operator (if type.isEmpty then symbol else type) symbol ps

/-- The head of a method. -/
def methodHead : Parse MemberHead := do
  let specs ← specifiers
  let type ← typeName
  let name ← name
  demand (· == .lparen) "not a method"
  let ps ← g.parameters
  demand TokenKind.followsParameters "not a method"
  return .method specs type name ps

/-- The head of a member of the class `owner`, if one can be read. -/
def memberHead (owner : String) : Parse (Option MemberHead) :=
  firstOf <| [g.constructorHead owner, destructorHead owner, g.operatorHead, g.methodHead,
    fieldHead].map leniently

/-! ### Fields -/

/-- What a field starts with, if anything. -/
def fieldInit : Parse (Option Expr) := do
  if ← accept .assign then return some (← g.initializer)
  if ← check .lbrace then return some (← g.bracedList)
  return none

/-- A field of the given type and name. -/
def fieldOf (specs : Specifiers) (access : Access) : String × String → Parse FieldDecl
  | (type, name) => do
    let dimensions ← g.dimensions
    let bitWidth? ← optionalAfter .colon (g.parse .conditional)
    let init? ← g.fieldInit
    return {
      type
      name
      access
      isMutable := specs.isMutable
      isStatic := specs.isStatic
      isConst := specs.isConstexpr || TypeText.isConst type
      init?
      dimensions
      bitWidth? }

/-- Fields, the first of which has the given type and name, and the `;` after them. -/
def fields (specs : Specifiers) (access : Access) (type name : String) : Parse (List Decl) := do
  let next : Parse (String × String) := do
    let type ← takeTexts TokenKind.isPointerMark (TypeText.base type)
    return (type, ← Parse.name "in member declaration")
  let fs ← chain (g.fieldOf specs access) next (type, name)
  skipOver .semicolon "after member declaration"
  return fs.map .field

/-! ### Members -/

/-- The rest of a member after its head. -/
def memberRest (owner : String) (bases : List BaseClass) (access : Access) :
    MemberHead → Parse (List Decl)
  | .constructor specs ps =>
    return [.constructor (← g.constructorRest owner access specs.isExplicit ps bases)]
  | .destructor specs =>
    return [.destructor (← g.destructorRest ("~" ++ owner) access specs.isVirtual)]
  | .operator type symbol ps => do
    let q ← functionQualifiers
    return [.operator ⟨type, symbol, access, q.isConst, ps, ← g.functionBody⟩]
  | .method specs type name ps => do
    let q ← functionQualifiers
    let body? ← g.functionBody
    return [.method {
      returnType := q.returnType type
      name
      access
      parameters := ps
      body?
      isVirtual := specs.isVirtual
      isOverride := q.isOverride
      isConst := q.isConst
      isStatic := specs.isStatic
      isPure := q.isPure }]
  | .field specs type name => g.fields specs access type name

/-- The rest of a member that begins with the definition of a type: the `;`, or fields of that
type. -/
def nestedTypeRest (access : Access) (t : TypeDefinition) : Parse (List Decl) := do
  if ← accept .semicolon then return [t.decl]
  let type ← takeTexts TokenKind.isPointerMark t.type
  let name ← name "after type definition"
  return t.decl :: (← g.fields {} access type name)

/-- A member that is no label, and whose keyword, if it has one, is not that of a type. A token
that begins no member is skipped. -/
def plainMember (owner : String) (bases : List BaseClass) (access : Access) :
    Parse (List Decl) := do
  match ← kind with
  | .semicolon =>
    skip
    return []
  | .kwTypedef => g.typedefs
  | .kwUsing => return [← usingDeclaration]
  | .kwTemplate => return [← g.template]
  | .kwStaticAssert => return [← g.staticAssertion]
  | .kwFriend => return [← friend]
  | k =>
    if k.isDirective then return [← directive]
    match ← g.memberHead owner with
    | some head => g.memberRest owner bases access head
    | none =>
      skipToken "in class body"
      return []

/-- The access that a label gives, if one stands here. -/
def accessLabel : Parse (Option Access) := do
  if ← checkAhead 1 .colon then
    match Access.ofKind? (← kind) with
    | some access =>
      skip
      skip
      return some access
    | none => return none
  else return none

/-- A member, and the access of the members after it. -/
def member (owner : String) (bases : List BaseClass) (access : Access) :
    Parse (Access × List Decl) := do
  match ← accessLabel with
  | some access => return (access, [])
  | none =>
    match ← g.typeDefinition? with
    | some t => return (access, ← g.nestedTypeRest access t)
    | none => return (access, ← g.plainMember owner bases access)

/-- A round of the run of members, with the number of rounds before it and the access of the next
member. The brace that closes the class ends the run. -/
def memberRound (owner : String) (bases : List BaseClass) :
    Nat × Access → Parse (Option (List Decl × Nat × Access))
  | (round, access) => do
    let k ← kind
    if k == .rbrace || k == .eof then return none
    let limit := (← settings).maxIterations
    if limit ≤ round then throw (← exhaustion limit .classBody)
    let (access, decls) := (← attempt (g.member owner bases access)).getD (access, [])
    return some (decls, round + 1, access)

/-- Members up to the brace that closes the class, or up to the end of the source. -/
def members (owner : String) (bases : List BaseClass) (access : Access) : Parse (List Decl) :=
  rounds (g.memberRound owner bases) (0, access)

end Grammar

end CTree
