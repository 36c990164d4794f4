import CTree.Parse.Declarator
import CTree.Parse.TypeDefinition

/-!
# Templates

Of a template, the parameters and the text of the head are kept, and the declaration that the head
shows, if it shows one. The body is skipped.
-/

namespace CTree

/-- The words that declare a parameter of a template to be a type or a template. -/
def isTypeParameter (kind : String) : Bool :=
  kind == "typename" || kind == "class" || kind == "template"

/-- A parameter whose default, if it has one, is a type or a value as its kind tells. -/
def TemplateParameter.ofDefault (kind name : String) (isPack : Bool) (default? : Option String) :
    TemplateParameter :=
  if isTypeParameter kind then ⟨kind, name, default?, none, isPack⟩
  else ⟨kind, name, none, default?, isPack⟩

/-- What the reading of a default does at a token. -/
inductive DefaultStep
  /-- The default cannot go on like this. -/
  | fail
  /-- The default ends before the token. -/
  | stop
  /-- The token belongs to the default. -/
  | take (inside : ArgumentNesting)
  deriving DecidableEq, Repr

/-- What the reading of a default does at a token of the given kind. Parentheses do not protect
the `<` and `>` between them. -/
def ArgumentNesting.defaultStep (n : ArgumentNesting) : TokenKind → DefaultStep
  | .comma => if n.angles = 0 && n.parens = 0 then .stop else .take n
  | .gt =>
    if n.angles = 0 && n.parens = 0 then .stop else .take { n with angles := n.angles - 1 }
  | .lt => .take { n with angles := n.angles + 1 }
  | .shr => if 2 ≤ n.angles then .take { n with angles := n.angles - 2 } else .fail
  | .lparen => .take { n with parens := n.parens + 1 }
  | .rparen => if 0 < n.parens then .take { n with parens := n.parens - 1 } else .fail
  | .semicolon | .lbrace | .rbrace | .eof => .fail
  | _ => .take n

namespace Parse

/-! ### Parameters -/

/-- Takes the tokens of a default, looking at the given number of tokens. -/
def skipDefault : Nat → ArgumentNesting → Parse Unit
  | 0, _ => pure ()
  | n + 1, inside => do
    match inside.defaultStep (← kind) with
    | .fail => expected "template parameter default"
    | .stop => return ()
    | .take inside =>
      skip
      skipDefault n inside

/-- The text of a default, which must not be empty. -/
def templateDefault : Parse String := do
  let start ← position
  skipDefault ((← view).remaining + 1) ⟨0, 0⟩
  if (← position) == start then expected "template parameter default"
  textSince start

/-- The kind of a parameter: a word, or the type of a value. -/
def templateParameterKind : Parse String := do
  match ← kind with
  | .kwTypename | .kwClass => return (← advance).text
  | .kwTemplate =>
    skip
    let _ ← templateArguments
    match ← kind with
    | .kwClass | .kwTypename =>
      skip
      return "template"
    | _ => expected "'class' in template template parameter"
  | _ => leniently typeName

/-- A parameter of a template. -/
def templateParameter : Parse TemplateParameter := do
  let kind ← templateParameterKind
  let isPack ← accept .ellipsis
  let name ← nameOrNone
  let default? ← optionalAfter .assign templateDefault
  return .ofDefault kind name isPack default?

/-- The parameters of a template between `<` and `>`. -/
def strictTemplateParameters : Parse (List TemplateParameter) := do
  skipOver .lt "after 'template'"
  if ← accept .gt then return []
  let ps ← separated templateParameter
  skipOver .gt "to close template parameters"
  return ps

/-- The parameters of a template, if there are any. What cannot be read as parameters is kept as
text. -/
def templateParameters : Parse (List TemplateParameter) := do
  if ← check .lt then
    match ← speculate strictTemplateParameters with
    | some ps => return ps
    | none => return (← templateArguments).map (⟨"unparsed", ·, none, none, false⟩)
  else return []

/-! ### Heads -/

/-- Takes tokens up to a `{` or `;` outside of parentheses, or up to the end, within the given
number of tokens; whether one of these was found. -/
def skipToBody : Nat → Nat → Parse Bool
  | 0, _ => pure false
  | n + 1, parens => do
    match ← kind, parens with
    | .eof, _ | .lbrace, 0 | .semicolon, 0 => return true
    | .lparen, _ =>
      skip
      skipToBody n (parens + 1)
    | .rparen, _ =>
      skip
      skipToBody n (parens - 1)
    | _, _ =>
      skip
      skipToBody n parens

/-- Takes the tokens of a head; their text. -/
def headText : Parse String := do
  let start ← position
  let limit := (← settings).maxIterations
  unless ← skipToBody limit 0 do
    throw (← exhaustion limit .templateHead)
  textSince start

/-- The class that a head shows. -/
def templateClass : Parse Decl := do
  let key := ClassKey.ofKind (← advance).kind
  let name ← name "in class template"
  register name
  if ← check .lt then
    let _ ← templateArguments
  let isForward ← check .semicolon
  return .classType (.ofKey key name (← baseClasses key) [] isForward)

/-- The new name of a type that a head shows. -/
def templateUsing : Parse Decl := do
  skip
  let name ← name "after 'using'"
  skipOver .assign "in alias template"
  let start ← position
  skipWhile fun k => k != .semicolon && k != .eof
  register name
  return .usingAlias (← textSince start) name

end Parse

namespace Grammar

open Parse

variable (g : Grammar)

/-- The function that a head shows. -/
def templateFunction : Parse Decl := do
  let specs ← specifiers
  let type ← typeName
  let name ← qualifiedName
  let ps ← g.parameters
  let q ← functionQualifiers
  return .function (.assemble specs type name ps q none)

/-- The declaration that a head shows. -/
def templateHead : Parse Decl := do
  match ← kind with
  | .kwClass | .kwStruct | .kwUnion => templateClass
  | .kwUsing => templateUsing
  | _ => g.templateFunction

/-- A template. -/
def template : Parse Decl := do
  skip
  let ps ← templateParameters
  let (head, declaration?) ← rereading headText (speculate (leniently g.templateHead))
  if ← check .lbrace then
    skipBalanced .lbrace .rbrace
    let _ ← accept .semicolon
  else skipOver .semicolon "after template declaration"
  return .template ps head declaration?

end Grammar

end CTree
