import CTree.Ast.Traversal
import CTree.Text.Blank

/-!
# Labels of nodes

A label says what a node is in one line: its kind, and the details that its children do not show.
-/

namespace CTree

/-- What a line of an outline says about a node. -/
structure Label where
  kind : String
  /-- May be empty. -/
  detail : String
  deriving DecidableEq, Repr

/-- The line of a label. -/
def Label.line (l : Label) : String :=
  if l.detail.isEmpty then l.kind else l.kind ++ " [" ++ l.detail ++ "]"

/-- Words with a blank between each two. -/
def Label.words (ws : List String) : String :=
  String.intercalate " " ws

open Label

/-- The text of a double in an outline. -/
def Binary64.outlineText (x : Binary64) : String :=
  if x.isFinite then Layout.outline.write x
  else if x.fraction.val = 0 then (if x.negative then "-inf" else "inf")
  else "NaN"

/-- The detail of a type query. -/
def Query.detail (q : Query) : String :=
  q.type?.getD ""

/-- The detail of an expression. -/
def Expr.detail : Expr → String
  | .identifier name => name
  | .string value => "\"" ++ value ++ "\""
  | .char value => "'" ++ value ++ "'"
  | .int value => toString value.toInt
  | .real value => value.outlineText
  | .bool value => if value then "true" else "false"
  | .unary op fixity _ => words [fixity.word, op.symbol]
  | .binary op _ _ => op.symbol
  | .call _ arguments => words [toString arguments.length, "args"]
  | .member _ arrow name => (if arrow then "->" else ".") ++ name
  | .memberPointer _ arrow _ => if arrow then "->*" else ".*"
  | .new type _ _ isArray => if isArray then type ++ "[]" else type
  | .delete _ isArray => if isArray then "[]" else ""
  | .sizeof query | .typeid query => query.detail
  | .templateId name arguments => name ++ "<" ++ String.intercalate ", " arguments ++ ">"
  | .lambda _ _ returnType? _ _ => returnType?.getD ""
  | .cast kind type _ => words [kind.word, type]
  | .initializers elements => words [toString elements.length, "elements"]
  | .null | .conditional .. | .index .. | .this => ""

/-- The detail of a variable. -/
def VarDecl.detail (v : VarDecl) : String :=
  words (v.storage?.toList ++ [v.type, v.name])

/-- The detail of a class. -/
def ClassDecl.detail (c : ClassDecl) : String :=
  words [c.key.word, c.name] ++
    (if c.bases.isEmpty then "" else " : " ++ String.intercalate ", " (c.bases.map (·.name))) ++
    (if c.isForward then " (forward)" else "")

/-- The detail of a declaration. -/
def Decl.detail : Decl → String
  | .function f => words [f.returnType, f.name]
  | .method m => words [m.access.word, m.returnType, m.name]
  | .constructor c => words [c.access.word, c.name]
  | .destructor d => words [d.access.word, "~" ++ d.name]
  | .operator o => words [o.access.word, "operator" ++ o.symbol]
  | .field f => words [f.access.word, f.type, f.name]
  | .classType c => c.detail
  | .friend declaration => declaration
  | .namespaceBlock name _ => name
  | .enumType e => if e.isScoped then words ["class", e.name] else e.name
  | .typedef type synonym _ | .usingAlias type synonym => words [synonym, "=", type]
  | .usingName name => name
  | .usingNamespace target => target
  | .template ps head _ => "<" ++ String.intercalate ", " (ps.map (·.name)) ++ "> " ++ head
  | .staticAssert _ message? => message?.getD ""
  | .directive name value => words [name, value]

/-- The detail of a statement other than a declaration. -/
def Stmt.detail : Stmt → String
  | .switch _ arms => words [toString arms.length, "arms"]
  | .goto target => target
  | .label name => name
  | .var v => v.detail
  | .assign _ op _ => op.symbol
  | _ => ""

/-- The text without blanks at its end. -/
def Label.trimEnd (s : String) : String :=
  String.ofList (Text.trimRight s.toList)

/-- The label of a node. -/
def Node.label (n : Node) : Label :=
  match n with
  | .program p => ⟨"Program", p.name⟩
  | .expr e => ⟨e.tag, e.detail⟩
  | .stmt s => ⟨s.tag, s.detail⟩
  | .decl d => ⟨d.tag, d.detail⟩
  | .parameter p => ⟨"Parameter", trimEnd (words [p.type, p.name])⟩
  | .handler h => ⟨"CatchStmt", trimEnd (words [h.type, h.name])⟩
  | n => ⟨n.tag?.getD "", ""⟩

end CTree
