/-!
# Failures of a parse

Why a parser gave up, and where. Failures are values inside a parse; what leaves it are the
diagnostics made from them.
-/

namespace CTree

/-- The loops that have a ceiling. -/
inductive Loop
  | block
  | classBody
  | translationUnit
  | recovery
  | balancedGroup
  | templateHead
  deriving DecidableEq, Repr

/-- What a loop reads. -/
def Loop.describe : Loop → String
  | .block => "block"
  | .classBody => "class body"
  | .translationUnit => "translation unit"
  | .recovery => "recovery"
  | .balancedGroup => "balanced group"
  | .templateHead => "template head"

/-- Why a parser gave up. -/
inductive Cause
  /-- Something else had to stand here. -/
  | expected (what found : String)
  /-- What stands here does not belong here. -/
  | unexpected (message : String)
  /-- Too many constructs stand inside each other. -/
  | tooDeep (limit : Nat)
  /-- A loop took too many rounds. -/
  | tooMany (limit : Nat) (loop : Loop)
  /-- A literal has no value. -/
  | invalidLiteral (text : String)
  deriving DecidableEq, Repr

namespace Cause

/-- The wording of a cause. -/
def message : Cause → String
  | .expected what found => "Expected " ++ what ++ ", found " ++ found
  | .unexpected message => message
  | .tooDeep limit => "Maximum nesting depth of " ++ toString limit ++ " exceeded"
  | .tooMany limit loop =>
    "Iteration limit of " ++ toString limit ++ " exceeded while parsing " ++ loop.describe
  | .invalidLiteral text => "Invalid literal '" ++ text ++ "'"

/-- What had to stand where a parser gave up, if that is the cause. -/
def expected? : Cause → Option String
  | .expected what _ => some what
  | _ => none

/-- What stood there instead. -/
def found? : Cause → Option String
  | .expected _ found => some found
  | _ => none

/-- A ceiling was reached. Such a failure ends every attempt that it happens in. -/
def isFatal : Cause → Bool
  | .tooDeep _ | .tooMany _ _ => true
  | _ => false

end Cause

/-- A cause and the position that it is about. -/
structure Failure where
  cause : Cause
  offset : Nat
  deriving DecidableEq, Repr

/-- A ceiling was reached. -/
def Failure.isFatal (f : Failure) : Bool :=
  f.cause.isFatal

end CTree
