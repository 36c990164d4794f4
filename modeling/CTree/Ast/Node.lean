import CTree.Ast.Basic
import CTree.Json.Basic

/-!
# Nodes and their fields

One view of everything that stands in a tree. `Node.fields` lists the fields of a node in the order
of its document; `Node.children` lists the nodes among them in the order of a traversal, which
takes sizes (of arrays and bit fields) before the rest. Every child is smaller than its parent, so
traversals, outlines and documents are recursions on nodes.
-/

namespace CTree

/-- Anything in a tree that has fields. -/
inductive Node
  | program (p : Program)
  | expr (e : Expr)
  | stmt (s : Stmt)
  | decl (d : Decl)
  | parameter (p : Parameter)
  | arm (a : Arm)
  | handler (h : Handler)
  | capture (c : Capture)
  | memberInit (m : MemberInit)
  | enumerator (e : Enumerator)

/-- The content of a field. -/
inductive Content
  /-- An attribute without nodes. -/
  | atom (document : Json)
  | node (n : Node)
  | nodes (ns : List Node)
  /-- The size of an array or a bit field. -/
  | size (n : Node)
  /-- The dimensions of an array; an open one is `none`. -/
  | sizes (ns : List (Option Node))

namespace Content

/-- The nodes in a field, in order. -/
def toNodes : Content → List Node
  | .atom _ => []
  | .node n | .size n => [n]
  | .nodes ns => ns
  | .sizes ns => ns.filterMap id

/-- Whether a field holds sizes. -/
def isSize : Content → Bool
  | .size _ | .sizes _ => true
  | _ => false

/-- A field with a text. -/
def ofText (name value : String) : String × Content := (name, .atom (.str value))

/-- A field with a truth value. -/
def ofFlag (name : String) (value : Bool) : String × Content := (name, .atom (.bool value))

/-- A field with an expression. -/
def ofExpr (name : String) (e : Expr) : String × Content := (name, .node (.expr e))

/-- A field with a statement. -/
def ofStmt (name : String) (s : Stmt) : String × Content := (name, .node (.stmt s))

/-- A field with a declaration. -/
def ofDecl (name : String) (d : Decl) : String × Content := (name, .node (.decl d))

/-- A field with expressions. -/
def ofExprs (name : String) (es : List Expr) : String × Content := (name, .nodes (es.map .expr))

/-- A field with statements. -/
def ofBody (name : String) (ss : List Stmt) : String × Content := (name, .nodes (ss.map .stmt))

/-- The field of the parameters of a function. -/
def ofParameters (ps : List Parameter) : String × Content :=
  ("parameters", .nodes (ps.map .parameter))

/-- A field that is there only if it has a content. -/
def ifPresent {α : Type} (field : String → α → String × Content) (name : String) (a? : Option α) :
    List (String × Content) :=
  (a?.map (field name)).toList

/-- Dimensions, which are left out if there are none. -/
def ofDimensions : List (Option Expr) → List (String × Content)
  | [] => []
  | ds => [("dimensions", .sizes (ds.map (Option.map .expr)))]

/-- A field with a size. -/
def ofSize (name : String) (e : Expr) : String × Content := (name, .size (.expr e))

end Content

open Content

/-- The document of a base class. -/
def BaseClass.toJson (b : BaseClass) : Json :=
  .obj [("name", .str b.name), ("access", .str b.access.word), ("isVirtual", .bool b.isVirtual)]

/-- The document of a template parameter. -/
def TemplateParameter.toJson (p : TemplateParameter) : Json :=
  .obj <| [("kind", .str p.kind), ("name", .str p.name)] ++
    (p.defaultType?.map fun t => ("defaultType", .str t)).toList ++
    (p.defaultValue?.map fun v => ("defaultValue", .str v)).toList ++
    [("isPack", .bool p.isPack)]

/-- The fields of a type query. -/
def Query.fields (q : Query) : List (String × Content) :=
  [ofFlag "isType" q.isType] ++ ifPresent ofText "typeName" q.type? ++
    ifPresent ofExpr "expression" q.operand?

/-- The discriminator of an expression. -/
def Expr.tag : Expr → String
  | .identifier _ => "Identifier"
  | .string _ => "StringLiteral"
  | .char _ => "CharLiteral"
  | .int _ => "IntLiteral"
  | .real _ => "RealLiteral"
  | .bool _ => "BoolLiteral"
  | .null => "NullLiteral"
  | .unary .. => "UnaryOp"
  | .binary .. => "BinaryOp"
  | .conditional .. => "TernaryOp"
  | .call .. => "CallExpr"
  | .index .. => "ArrayAccessExpr"
  | .member .. => "MemberAccessExpr"
  | .memberPointer .. => "PointerToMemberExpr"
  | .new .. => "NewExpr"
  | .delete .. => "DeleteExpr"
  | .this => "ThisExpr"
  | .sizeof _ => "SizeofExpr"
  | .typeid _ => "TypeidExpr"
  | .templateId .. => "TemplateIdExpr"
  | .lambda .. => "LambdaExpr"
  | .cast .. => "CastExpr"
  | .initializers _ => "InitializerList"

/-- The fields of an expression. -/
def Expr.fields : Expr → List (String × Content)
  | .identifier name => [ofText "name" name]
  | .string value => [ofText "value" value]
  | .char value => [ofText "value" value]
  | .int value => [("value", .atom (.int value.toInt))]
  | .real value => [("value", .atom (.real value))]
  | .bool value => [ofFlag "value" value]
  | .null => []
  | .unary op fixity operand =>
    [ofText "operator" op.symbol, ofFlag "postfix" (fixity == .after), ofExpr "operand" operand]
  | .binary op left right =>
    [ofText "operator" op.symbol, ofExpr "left" left, ofExpr "right" right]
  | .conditional condition yes no =>
    [ofExpr "condition" condition, ofExpr "thenExpr" yes, ofExpr "elseExpr" no]
  | .call callee arguments => [ofExpr "callee" callee, ofExprs "arguments" arguments]
  | .index array position => [ofExpr "array" array, ofExpr "index" position]
  | .member object arrow name =>
    [ofExpr "object" object, ofText "member" name, ofFlag "isPointerAccess" arrow]
  | .memberPointer object arrow pointer =>
    [ofExpr "object" object, ofExpr "member" pointer, ofFlag "isArrow" arrow]
  | .new type arguments size? isArray =>
    [ofText "typeName" type, ofExprs "arguments" arguments] ++
      ifPresent ofSize "arraySize" size? ++ [ofFlag "isArray" isArray]
  | .delete operand isArray => [ofExpr "operand" operand, ofFlag "isArray" isArray]
  | .this => []
  | .sizeof query | .typeid query => query.fields
  | .templateId name arguments =>
    [ofText "templateName" name,
      ("templateArguments", .atom (.arr (arguments.map fun a => .str a)))]
  | .lambda captures ps returnType? ss isMutable =>
    [("captures", .nodes (captures.map .capture)), ofParameters ps] ++
      ifPresent ofText "returnType" returnType? ++ [ofBody "body" ss, ofFlag "isMutable" isMutable]
  | .cast kind type operand =>
    [ofText "castKind" kind.word, ofText "targetType" type, ofExpr "expression" operand]
  | .initializers elements => [ofExprs "elements" elements]

/-- The fields of a variable. -/
def VarDecl.fields (v : VarDecl) : List (String × Content) :=
  [ofText "varType" v.type, ofText "name" v.name] ++ ifPresent ofExpr "initializer" v.init? ++
    ifPresent ofText "storage" v.storage? ++ ofDimensions v.dimensions

/-- The discriminator of a declaration. -/
def Decl.tag : Decl → String
  | .function _ => "FunctionDecl"
  | .method _ => "MethodDecl"
  | .constructor _ => "ConstructorDecl"
  | .destructor _ => "DestructorDecl"
  | .operator _ => "OperatorDecl"
  | .field _ => "FieldDecl"
  | .classType _ => "ClassDecl"
  | .friend _ => "FriendDecl"
  | .namespaceBlock .. => "NamespaceDecl"
  | .enumType _ => "EnumDecl"
  | .typedef .. => "TypedefDecl"
  | .usingAlias .. => "UsingAliasDecl"
  | .usingName _ => "UsingDecl"
  | .usingNamespace _ => "UsingNamespaceDecl"
  | .template .. => "TemplateDecl"
  | .staticAssert .. => "StaticAssertDecl"
  | .directive .. => "PreprocessorDirective"

/-- The fields of a declaration. -/
def Decl.fields : Decl → List (String × Content)
  | .function f =>
    [ofText "returnType" f.returnType, ofText "name" f.name, ofParameters f.parameters] ++
      ifPresent ofBody "body" f.body? ++
      [ofFlag "isStatic" f.isStatic, ofFlag "isInline" f.isInline, ofFlag "isVirtual" f.isVirtual,
        ofFlag "isOverride" f.isOverride, ofFlag "isConst" f.isConst]
  | .method m =>
    [ofText "returnType" m.returnType, ofText "name" m.name, ofText "access" m.access.word,
      ofParameters m.parameters] ++ ifPresent ofBody "body" m.body? ++
      [ofFlag "isVirtual" m.isVirtual, ofFlag "isOverride" m.isOverride, ofFlag "isConst" m.isConst,
        ofFlag "isStatic" m.isStatic, ofFlag "isPureVirtual" m.isPure]
  | .constructor c =>
    [ofText "name" c.name, ofText "access" c.access.word, ofFlag "isExplicit" c.isExplicit,
      ofParameters c.parameters, ("initializers", .nodes (c.initializers.map .memberInit))] ++
      ifPresent ofBody "body" c.body?
  | .destructor d =>
    [ofText "name" d.name, ofText "access" d.access.word, ofFlag "isVirtual" d.isVirtual] ++
      ifPresent ofBody "body" d.body?
  | .operator o =>
    [ofText "returnType" o.returnType, ofText "operatorSymbol" o.symbol, ofText "access" o.access.word,
      ofFlag "isConst" o.isConst, ofParameters o.parameters] ++ ifPresent ofBody "body" o.body?
  | .field f =>
    [ofText "typeName" f.type, ofText "name" f.name, ofText "access" f.access.word,
      ofFlag "isMutable" f.isMutable, ofFlag "isStatic" f.isStatic, ofFlag "isConst" f.isConst] ++
      ifPresent ofExpr "initializer" f.init? ++ ofDimensions f.dimensions ++
      ifPresent ofSize "bitWidth" f.bitWidth?
  | .classType c =>
    [ofText "name" c.name, ("bases", .atom (.arr (c.bases.map BaseClass.toJson))),
      ("members", .nodes (c.members.map .decl)), ofFlag "isStruct" c.isStruct,
      ofFlag "isUnion" c.isUnion, ofFlag "isForward" c.isForward]
  | .friend declaration => [ofText "declaration" declaration]
  | .namespaceBlock name ss => [ofText "name" name, ofBody "body" ss]
  | .enumType e =>
    [ofText "name" e.name, ofFlag "isScoped" e.isScoped] ++
      ifPresent ofText "underlyingType" e.underlying? ++
      [("enumerators", .nodes (e.enumerators.map .enumerator))]
  | .typedef type synonym definition? =>
    [ofText "typeName" type, ofText "alias" synonym] ++
      ifPresent ofDecl "definition" definition?
  | .usingAlias type synonym => [ofText "typeName" type, ofText "alias" synonym]
  | .usingName name => [ofText "name" name]
  | .usingNamespace target => [ofText "target" target]
  | .template ps head declaration? =>
    [("templateParameters", .atom (.arr (ps.map TemplateParameter.toJson))),
      ofText "head" head] ++
      ifPresent ofDecl "declaration" declaration?
  | .staticAssert condition message? =>
    [ofExpr "condition" condition] ++ ifPresent ofText "message" message?
  | .directive name value => [ofText "directive" name, ofText "value" value]

/-- The discriminator of a statement; a declaration stands under its own. -/
def Stmt.tag : Stmt → String
  | .expr _ => "ExprStmt"
  | .block _ => "Block"
  | .returning _ => "ReturnStmt"
  | .breaking => "BreakStmt"
  | .continuing => "ContinueStmt"
  | .ifElse .. => "IfStmt"
  | .whileLoop .. => "WhileStmt"
  | .doLoop .. => "DoWhileStmt"
  | .forLoop .. => "ForStmt"
  | .rangeLoop .. => "RangeForStmt"
  | .switch .. => "SwitchStmt"
  | .trying .. => "TryStmt"
  | .throwing _ => "ThrowStmt"
  | .goto _ => "GotoStmt"
  | .label _ => "LabelStmt"
  | .var _ => "VarDeclStmt"
  | .assign .. => "AssignStmt"
  | .decl d => d.tag

/-- The fields of a statement other than a declaration. -/
def Stmt.fields : Stmt → List (String × Content)
  | .expr value => [ofExpr "expression" value]
  | .block ss => [ofBody "statements" ss]
  | .returning value? | .throwing value? => ifPresent ofExpr "value" value?
  | .breaking | .continuing => []
  | .ifElse condition yes no? =>
    [ofExpr "condition" condition, ofStmt "thenBranch" yes] ++ ifPresent ofStmt "elseBranch" no?
  | .whileLoop condition s => [ofExpr "condition" condition, ofStmt "body" s]
  | .doLoop s condition => [ofStmt "body" s, ofExpr "condition" condition]
  | .forLoop init? condition? step? s =>
    ifPresent ofStmt "init" init? ++ ifPresent ofExpr "condition" condition? ++
      ifPresent ofExpr "increment" step? ++ [ofStmt "body" s]
  | .rangeLoop head range s =>
    [ofStmt "init" head, ofExpr "range" range, ofStmt "body" s]
  | .switch condition arms =>
    [ofExpr "condition" condition, ("cases", .nodes (arms.map .arm))]
  | .trying ss handlers => [ofBody "tryBlock" ss, ("handlers", .nodes (handlers.map .handler))]
  | .goto target => [ofText "label" target]
  | .label name => [ofText "name" name]
  | .var v => v.fields
  | .assign target op value =>
    [ofExpr "target" target, ofText "operator" op.symbol, ofExpr "value" value]
  | .decl d => [("declaration", .node (.decl d))]

namespace Node

/-- The discriminator of a node; small records have none. -/
def tag? : Node → Option String
  | .program _ => some "Program"
  | .expr e => some e.tag
  | .stmt s => some s.tag
  | .decl d => some d.tag
  | .arm a => some (if a.value?.isSome then "CaseStmt" else "DefaultStmt")
  | .handler _ => some "CatchStmt"
  | .parameter _ | .capture _ | .memberInit _ | .enumerator _ => none

/-- The fields of a node, in the order of its document. -/
def fields : Node → List (String × Content)
  | .program p => [ofText "name" p.name, ofBody "body" p.body]
  | .expr e => e.fields
  | .stmt s => s.fields
  | .decl d => d.fields
  | .parameter p =>
    [ofText "type" p.type, ofText "name" p.name] ++ ifPresent ofExpr "defaultValue" p.default?
  | .arm a => ifPresent ofExpr "value" a.value? ++ [ofBody "body" a.body]
  | .handler h =>
    [ofText "exceptionType" h.type, ofText "exceptionName" h.name, ofBody "body" h.body]
  | .capture c =>
    [ofText "name" c.name, ofFlag "byReference" c.byReference, ofFlag "isThis" c.isThis] ++
      ifPresent ofExpr "init" c.init?
  | .memberInit m =>
    [ofText "memberName" m.name, ofFlag "isBaseClass" m.isBase, ofExprs "arguments" m.arguments]
  | .enumerator e => [ofText "name" e.name] ++ ifPresent ofExpr "value" e.value?

/-- The nodes right below a node, in the order of a traversal: sizes first. -/
def children (n : Node) : List Node :=
  let fs := n.fields.map Prod.snd
  (fs.filter (·.isSize) ++ fs.filter (!·.isSize)).flatMap (·.toNodes)

end Node

end CTree
