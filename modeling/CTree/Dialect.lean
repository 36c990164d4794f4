/-!
# Dialects

The two grammars that the library reads.
-/

namespace CTree

/-- The procedural base grammar, or the one extended with classes and templates. -/
inductive Dialect
  | c
  | cpp
  deriving DecidableEq, Repr, Inhabited

/-- The dialect of a file with the given extension: `c` and `h`, in either case, are C. -/
def Dialect.ofExtension (extension : String) : Dialect :=
  if ["c", "h"].contains (String.ofList (extension.toList.map Char.toLower)) then .c else .cpp

end CTree
