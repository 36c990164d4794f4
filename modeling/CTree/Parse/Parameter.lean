import CTree.Parse.Grammar

/-!
# Parameters and the qualifiers after them

The parameter list of a function, and what may stand between it and the body.
-/

namespace CTree

namespace Parse

/-- Takes the rest of a pointer to functions, `(*name)(args)`, with the given parser for its name;
the name, and what the pointer adds to the type. -/
def functionPointer (name : Parse String) : Parse (String × String) := do
  skip
  skip
  let name ← name
  skipOver .rparen "after function pointer name"
  let start ← position
  skipBalanced .lparen .rparen
  return (name, " (*)" ++ (← textSince start))

/-- Whether a pointer to functions comes next. -/
def atFunctionPointer : Parse Bool :=
  return (← check .lparen) && (← checkAhead 1 .star)

/-- Takes a name, which may be that of a pointer to functions; the name, and what the pointer adds
to the type. -/
def declaredName (inPointer plain : Parse String) : Parse (String × String) := do
  if ← atFunctionPointer then functionPointer inPointer else return (← plain, "")

/-- Takes any number of groups in brackets, and adds their texts to a text. -/
def bracketTexts (text : String) : Parse String :=
  iterate (fun text => do
    if ← check .lbracket then
      let start ← position
      skipBalanced .lbracket .rbracket
      return some (text ++ (← textSince start))
    else return none) text

end Parse

namespace Grammar

open Parse

variable (g : Grammar)

/-- A parameter with a type. -/
def typedParameter : Parse Parameter := do
  let _ ← specifiers
  let type ← typeName
  let type := type ++ if ← accept .ellipsis then "..." else ""
  let (name, pointer) ← declaredName nameOrNone nameOrNone
  let type ← bracketTexts (type ++ pointer)
  let default? ← optionalAfter .assign g.expression
  return ⟨type, name, default?⟩

/-- A parameter, or `...`. -/
def parameter : Parse Parameter := do
  if ← accept .ellipsis then return ⟨"...", "", none⟩ else g.typedParameter

/-- A parameter list in parentheses; `(void)` is empty. -/
def parameters : Parse (List Parameter) := do
  skipOver .lparen "to start parameter list"
  if ← accept .rparen then return []
  if (← check .kwVoid) && (← checkAhead 1 .rparen) then
    skip
    skip
    return []
  let ps ← separated g.parameter
  skipOver .rparen "after parameters"
  return ps

end Grammar

/-- What stands after the parameters of a function. -/
structure FunctionQualifiers where
  isConst : Bool := false
  isOverride : Bool := false
  isPure : Bool := false
  trailing? : Option String := none
  deriving DecidableEq, Repr

/-- The type that a function returns: a trailing one replaces `auto`. -/
def FunctionQualifiers.returnType (q : FunctionQualifiers) (type : String) : String :=
  match q.trailing? with
  | some trailing => if type == "auto" then trailing else type
  | none => type

/-- The qualifiers with the one-token qualifier at the current token, and the number of tokens
that it takes, if one stands there. -/
def View.functionQualifier? (v : View) (q : FunctionQualifiers) :
    Option (Nat × FunctionQualifiers) :=
  match v.kind 0 with
  | .kwConst => some (1, { q with isConst := true })
  | .kwVolatile | .amp | .andAnd | .kwFinal => some (1, q)
  | .kwOverride => some (1, { q with isOverride := true })
  | .assign =>
    match v.kind 1 with
    | .intLiteral => if (v.token 1).text == "0" then some (2, { q with isPure := true }) else none
    | .kwDefault | .kwDelete => some (2, q)
    | _ => none
  | _ => none

namespace Parse

/-- Takes one qualifier of a function, if one comes next. -/
def functionQualifier (q : FunctionQualifiers) : Parse (Option FunctionQualifiers) := do
  match ← kind with
  | .kwNoexcept | .kwThrow =>
    skipWithGroup
    return some q
  | .arrow =>
    if ← isCpp then
      skip
      return some { q with trailing? := some (← typeName) }
    else return none
  | _ =>
    match (← view).functionQualifier? q with
    | some (1, q) =>
      skip
      return some q
    | some (_, q) =>
      skip
      skip
      return some q
    | none => return none

/-- Takes the qualifiers of a function. -/
def functionQualifiers : Parse FunctionQualifiers :=
  iterate functionQualifier {}

end Parse

end CTree
