import CTree.Parse.Basic

/-!
# Looking ahead

Decisions that are made by looking at the tokens ahead, without taking any: where a type may
begin, where a parenthesis is closed, and what a declarator, a class or an enumeration looks like.
-/

namespace CTree

namespace View

variable (v : View)

/-- The first place from `n` on whose kind is not in a class, looking at the given number of
places. -/
def pastFor (p : TokenKind → Bool) : Nat → Nat → Nat
  | 0, n => n
  | fuel + 1, n => if p (v.kind n) then pastFor p fuel (n + 1) else n

/-- The first place from `n` on whose kind is not in a class. -/
def past (p : TokenKind → Bool) (n : Nat) : Nat :=
  v.pastFor p v.remaining n

/-- The first place from `n` on where no `::` and name follow, looking at the given number of
places. -/
def pastSegmentsFor : Nat → Nat → Nat
  | 0, n => n
  | fuel + 1, n =>
    if v.kind n == .colonColon && v.kind (n + 1) == .identifier then pastSegmentsFor fuel (n + 2)
    else n

/-- The first place from `n` on where no `::` and name follow. -/
def pastSegments (n : Nat) : Nat :=
  v.pastSegmentsFor v.remaining n

/-- The kinds of `const` and `volatile`. -/
def isQualifier : TokenKind → Bool
  | .kwConst | .kwVolatile => true
  | _ => false

/-- Whether a type may begin `n` places ahead. -/
def startsType (n : Nat := 0) : Bool :=
  let n := v.past isQualifier n
  let t := v.token n
  match t.kind with
  | .kwStruct | .kwClass | .kwUnion | .kwEnum | .kwTypename | .kwDecltype => true
  | .identifier =>
    v.lenient || v.isKnown t.text || (v.isCpp && v.kind (n + 1) == .colonColon)
  | .colonColon => v.isCpp
  | k => k.isBuiltinType

/-- The place of the parenthesis that closes the ones opened so far, looking at the given number
of places from `n` on. -/
def closingFrom : Nat → Nat → Nat → Option Nat
  | 0, _, _ => none
  | fuel + 1, n, depth =>
    match v.kind n with
    | .lparen => closingFrom fuel (n + 1) (depth + 1)
    | .rparen => if depth ≤ 1 then some n else closingFrom fuel (n + 1) (depth - 1)
    | .eof => none
    | _ => closingFrom fuel (n + 1) depth

/-- The place of the `)` that closes the `(` at place `n`, if it is among the given number of
places. -/
def matchingParen (limit n : Nat) : Option Nat :=
  if v.kind n == .lparen then v.closingFrom limit n 0 else none

/-- What follows a type. -/
inductive Shape
  | variable
  | function
  | neither
  deriving DecidableEq, Repr

/-- The qualifiers between the parameters of a function and its body. -/
def isHeadQualifier : TokenKind → Bool
  | .kwConst | .kwVolatile | .kwOverride | .kwFinal | .kwNoexcept => true
  | _ => false

/-- What begins at the current token, which stands after a type. The parentheses of a function are
looked for among the given number of places. -/
def shape (limit : Nat) : Shape :=
  if v.kind 0 != .identifier then .neither
  else
    let n := if v.isCpp then v.pastSegments 1 else 1
    if v.kind n != .lparen then .variable
    else
      match v.matchingParen limit n with
      | none => .neither
      | some close =>
        let after := if v.isCpp then v.past isHeadQualifier (close + 1) else close + 1
        match v.kind after with
        | .lbrace | .semicolon => .function
        | .arrow => if v.isCpp then .function else .neither
        | .assign =>
          match v.isCpp, v.kind (after + 1) with
          | true, .kwDefault | true, .kwDelete => .function
          | _, _ => .neither
        | _ => .neither

/-- The first place from `n` on where no name and `::` follow, looking at the given number of
places. -/
def pastOwnersFor : Nat → Nat → Nat
  | 0, n => n
  | fuel + 1, n =>
    if v.kind n == .identifier && v.kind (n + 1) == .colonColon then pastOwnersFor fuel (n + 2)
    else n

/-- Whether `operator` comes next, perhaps after the names of its owners. -/
def atOperatorName : Bool :=
  v.kind (v.pastOwnersFor v.remaining 0) == .kwOperator

/-- The place after the template arguments at place `n`, looking at the given number of places;
none if the declaration ends before they do. -/
def pastArgumentsFor : Nat → Nat → Nat → Option Nat
  | 0, n, _ => some n
  | fuel + 1, n, depth =>
    let next (depth : Nat) := if depth = 0 then some (n + 1) else pastArgumentsFor fuel (n + 1) depth
    match v.kind n with
    | .lt => next (depth + 1)
    | .gt => next (depth - 1)
    | .shr => next (depth - 2)
    | .semicolon | .eof => none
    | _ => next depth

/-- Whether the definition or the forward declaration of a class begins at the current token. Its
body is looked for among the given number of places. -/
def atClass (limit : Nat) : Bool :=
  match v.kind 0 with
  | .kwClass | .kwStruct | .kwUnion =>
    match v.kind 1 with
    | .lbrace => true
    | .identifier =>
      let after := if v.kind 2 == .lt then v.pastArgumentsFor (limit - 2) 2 0 else some 2
      match after.map v.kind with
      | some .lbrace | some .colon | some .semicolon | some .kwFinal => true
      | _ => false
    | _ => false
  | _ => false

/-- Whether the definition of an enumeration begins at the current token. -/
def atEnum : Bool :=
  if v.kind 0 != .kwEnum then false
  else
    let n := match v.kind 1 with
      | .kwClass | .kwStruct => 2
      | _ => 1
    let n := if v.kind n == .identifier then n + 1 else n
    match v.kind n with
    | .lbrace | .colon => true
    | _ => false

end View

end CTree
