import CTree.Dialect

/-!
# Settings of a parse

A dialect, and the ceilings that bound recursion and every loop.
-/

namespace CTree

/-- What a parse is told beside its source. -/
structure Settings where
  dialect : Dialect := .cpp
  /-- The number of constructs that may stand inside each other. -/
  maxDepth : Nat := 48
  /-- The number of rounds of a loop over items, class members or skipped tokens. -/
  maxIterations : Nat := 100000
  /-- The number of statements of one block. -/
  maxStatements : Nat := 10000
  /-- The number of tokens looked at in search of a closing parenthesis. -/
  maxLookahead : Nat := 100
  deriving DecidableEq, Repr

end CTree
