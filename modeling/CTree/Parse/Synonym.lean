import CTree.Parse.Declarator
import CTree.Parse.TypeDefinition

/-!
# New names for types

`typedef` and `using`. A type that is defined in a `typedef` without a tag is called by the first
name that it is given, if that name stands alone.
-/

namespace CTree

/-- A declarator of a `typedef`: a name, and what stands around it. -/
structure SynonymDeclarator where
  name : String
  pointers : String
  suffix : String
  deriving DecidableEq, Repr

namespace SynonymDeclarator

/-- Whether the name stands alone. -/
def isPlain (d : SynonymDeclarator) : Bool :=
  d.pointers.isEmpty && d.suffix.isEmpty

/-- The declaration that a declarator makes of a type. -/
def decl (d : SynonymDeclarator) (type : String) (definition? : Option Decl) : Decl :=
  .typedef (type ++ d.pointers ++ d.suffix) d.name definition?

end SynonymDeclarator

/-- The definition, called by the name of a declarator if it has none of its own. -/
def TypeDefinition.calledBy (t : TypeDefinition) (d : SynonymDeclarator) : TypeDefinition :=
  if t.name.isEmpty && d.isPlain then { t with name := d.name } else t

namespace Parse

/-- Takes a declarator of a `typedef`, and makes its name known. -/
def synonymDeclarator : Parse SynonymDeclarator := do
  let pointers ← takeTexts TokenKind.isPointerMark ""
  if ← atFunctionPointer then
    let (name, suffix) ← functionPointer (name "in function pointer typedef")
    return ⟨name, pointers, suffix⟩
  else
    let name ← name "in typedef"
    return ⟨name, pointers, ← bracketTexts ""⟩

/-- Makes a name known as that of a type. -/
def synonymOf (type : String) (definition? : Option Decl) (d : SynonymDeclarator) : Parse Decl := do
  register d.name
  return d.decl type definition?

/-- The further names that a `typedef` gives to a type. -/
def moreSynonyms (type : String) : Parse (List Decl) := do
  if ← accept .comma then separated (synonymDeclarator >>= synonymOf type none) else return []

end Parse

namespace Grammar

open Parse

variable (g : Grammar)

/-- What a `typedef` names: the text of the type, as the first declarator calls it, and its
definition, if it is defined on the spot. -/
def synonymTarget : Parse ((SynonymDeclarator → String) × Option Decl) := do
  match ← g.typeDefinition? with
  | some t => return (fun d => (t.calledBy d).type, some t.decl)
  | none =>
    let type ← leniently (specifiers *> typeName)
    return (fun _ => type, none)

/-- The names that a `typedef` gives. Only the first declaration holds the definition, and the
later ones start from the type without its pointers. -/
def typedefs : Parse (List Decl) := do
  skipOver .kwTypedef
  let (typeFor, definition?) ← g.synonymTarget
  let d ← synonymDeclarator
  let first ← synonymOf (typeFor d) definition? d
  let rest ← moreSynonyms (TypeText.base (typeFor d))
  skipOver .semicolon "after typedef"
  return first :: rest

end Grammar

namespace Parse

/-- A declaration that begins with `using`. -/
def usingDeclaration : Parse Decl := do
  skipOver .kwUsing
  if ← accept .kwNamespace then
    let target ← qualifiedName
    skipOver .semicolon "after using directive"
    return .usingNamespace target
  if (← check .identifier) && (← checkAhead 1 .assign) then
    let name := (← advance).text
    skip
    let type ← leniently typeName
    skipOver .semicolon "after alias declaration"
    register name
    return .usingAlias type name
  let _ ← accept .kwTypename
  let path ← qualifiedName
  skipOver .semicolon "after using declaration"
  return .usingName path

end Parse

end CTree
