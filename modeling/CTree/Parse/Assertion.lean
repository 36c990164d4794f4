import CTree.Literal
import CTree.Parse.Grammar

/-!
# Static assertions
-/

namespace CTree

namespace Grammar

open Parse

variable (g : Grammar)

/-- The message of a static assertion, if it has one. -/
def assertionMessage : Parse (Option String) := do
  if ← accept .comma then
    let t ← require .stringLiteral "as static_assert message"
    return some (String.ofList (Literal.body t.text.toList))
  else return none

/-- A condition that has to hold when the source is compiled. -/
def staticAssertion : Parse Decl := do
  skipOver .kwStaticAssert
  skipOver .lparen "after 'static_assert'"
  let condition ← g.expression
  let message? ← assertionMessage
  skipOver .rparen "after static_assert"
  skipOver .semicolon "after static_assert"
  return .staticAssert condition message?

end Grammar

end CTree
