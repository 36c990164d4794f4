import CTree.Parse.Expression

/-!
# Definitions of types

Classes and enumerations, from their keyword up to the closing brace. The tag of a type is known
before its body is read, so that the body may use it.
-/

namespace CTree

/-- A class or an enumeration that is defined on the spot. -/
structure TypeDefinition where
  keyword : String
  name : String
  decl : Decl

/-- The text of the type that a definition introduces. -/
def TypeDefinition.type (t : TypeDefinition) : String :=
  TypeText.ofDefinition t.keyword t.name

namespace Parse

/-- Takes the tag of a type, if one stands here, and makes it known with and without its
keyword. -/
def tag (keyword : String) : Parse String := do
  let tag ← nameOrNone
  unless tag.isEmpty do
    register tag
    register (keyword ++ " " ++ tag)
  return tag

/-- Takes an access or `virtual` in front of a base class, if one comes next. -/
def baseMark : Access × Bool → Parse (Option (Access × Bool))
  | (access, isVirtual) => do
    match ← kind with
    | .kwVirtual =>
      skip
      return some (access, true)
    | k =>
      match Access.ofKind? k with
      | some access =>
        skip
        return some (access, isVirtual)
      | none => return none

/-- A base class, with the access that it has if none is given. -/
def baseClass (default : Access) : Parse BaseClass := do
  let (access, isVirtual) ← iterate baseMark (default, false)
  let type ← leniently typeName
  let _ ← accept .ellipsis
  return ⟨type, access, isVirtual⟩

/-- The base classes of a class with the given keyword, if a `:` announces them. -/
def baseClasses (key : ClassKey) : Parse (List BaseClass) := do
  if ← accept .colon then separated (baseClass key.defaultAccess) else return []

/-- The name of a class, with the template arguments of a specialization. -/
def className (keyword : String) : Parse String := do
  let tag ← tag keyword
  if !tag.isEmpty && (← isCpp) && (← check .lt) then
    return templateText tag (← templateArguments)
  else return tag

/-- Takes the second keyword of a scoped enumeration, if one comes next; whether one did. -/
def scopeMark : Parse Bool := do
  match ← kind with
  | .kwClass | .kwStruct =>
    skip
    return true
  | _ => return false

end Parse

namespace Grammar

open Parse

variable (g : Grammar)

/-- A class; one without a body is declared only. -/
def classType : Parse ClassDecl := do
  let key := ClassKey.ofKind (← advance).kind
  let name ← className key.word
  let _ ← accept .kwFinal
  match ← kind with
  | .colon | .lbrace =>
    let bases ← baseClasses key
    skipOver .lbrace "to start class body"
    let members ← g.parse (.members (TypeText.plain name) bases key.defaultAccess)
    closeBrace "to close class body"
    return .ofKey key name bases members false
  | _ => return .ofKey key name [] [] true

/-- A name of an enumeration and its value. -/
def enumerator : Parse Enumerator := do
  let name ← name "in enumerator list"
  return ⟨name, ← optionalAfter .assign g.expression⟩

/-- The names of an enumeration in braces, if there are braces. -/
def enumerators : Parse (List Enumerator) := do
  if ← accept .lbrace then
    let es ← commaList (fun k => k == .rbrace || k == .eof) g.enumerator
    closeBrace "to close enumerator list"
    return es
  else return []

/-- An enumeration. -/
def enumType : Parse EnumDecl := do
  skipOver .kwEnum
  let isScoped ← scopeMark
  let name ← tag "enum"
  let underlying? ← optionalAfter .colon (leniently typeName)
  return ⟨name, isScoped, underlying?, ← g.enumerators⟩

/-- The definition of a class or an enumeration, if one begins here. -/
def typeDefinition? : Parse (Option TypeDefinition) := do
  if ← lookAhead fun limit v => v.atClass limit then
    let c ← g.classType
    return some ⟨c.key.word, c.name, .classType c⟩
  else if (← view).atEnum then
    let e ← g.enumType
    return some ⟨"enum", e.name, .enumType e⟩
  else return none

end Grammar

end CTree
