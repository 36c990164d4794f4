import CTree.Text.Blank

/-!
# Types as text

A type is kept as the normalized text of its tokens. These are the questions that are asked of
such texts.
-/

namespace CTree.TypeText

/-- The marks of pointers and references, and the blanks around them. -/
def isDeclaratorMark (c : Char) : Bool :=
  c == '*' || c == '&' || c == ' '

/-- The type that the later declarators of a declaration start from: `int` in `int *a, b`. -/
def base (type : String) : String :=
  String.ofList (type.toList.reverse.dropWhile isDeclaratorMark).reverse

/-- A name without its template arguments: `Base` of `Base<T>`. -/
def plain (name : String) : String :=
  String.ofList (Text.trim (name.toList.takeWhile (· != '<')))

/-- Whether `::` stands in a text. -/
def hasScope : List Char → Bool
  | ':' :: ':' :: _ => true
  | _ :: cs => hasScope cs
  | [] => false

/-- Whether a name has a scope. -/
def isQualified (name : String) : Bool :=
  hasScope name.toList

/-- Whether a type begins with `const`. -/
def isConst (type : String) : Bool :=
  "const ".toList.isPrefixOf type.toList

/-- What stands for the body of a definition without a name. -/
def anonymousBody : String :=
  "\x7b...\x7d"

/-- The type that a definition introduces: `struct Tag`, or `struct` and a body if it has no
name. -/
def ofDefinition (keyword name : String) : String :=
  keyword ++ " " ++ if name.isEmpty then anonymousBody else name

end CTree.TypeText
