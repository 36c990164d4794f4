import CTree.Ast.Operator
import CTree.Decimal.Binary64

/-!
# The syntax tree

Expressions, statements and declarations, and the records that stand inside them. A node owns its
children, so a program is a tree. Types are kept as normalized text.
-/

namespace CTree

/-- A base class of a class. -/
structure BaseClass where
  name : String
  access : Access
  isVirtual : Bool
  deriving DecidableEq, Repr

/-- A parameter of a template. -/
structure TemplateParameter where
  /-- `typename`, `class`, `template`, or the type of the values that the parameter stands for. -/
  kind : String
  name : String
  defaultType? : Option String
  defaultValue? : Option String
  isPack : Bool
  deriving DecidableEq, Repr

mutual

/-- A value or an operation on values. -/
inductive Expr
  | identifier (name : String)
  /-- A string literal: what stands between the quotes, escapes kept. -/
  | string (value : String)
  /-- A character literal: what stands between the quotes, escapes kept. -/
  | char (value : String)
  | int (value : Int64)
  | real (value : Binary64)
  | bool (value : Bool)
  | null
  | unary (op : UnaryOp) (fixity : Fixity) (operand : Expr)
  | binary (op : BinaryOp) (left right : Expr)
  | conditional (condition yes no : Expr)
  | call (callee : Expr) (arguments : List Expr)
  | index (array position : Expr)
  | member (object : Expr) (arrow : Bool) (name : String)
  | memberPointer (object : Expr) (arrow : Bool) (pointer : Expr)
  | new (type : String) (arguments : List Expr) (size? : Option Expr) (isArray : Bool)
  | delete (operand : Expr) (isArray : Bool)
  | this
  | sizeof (query : Query)
  | typeid (query : Query)
  | templateId (name : String) (arguments : List String)
  | lambda (captures : List Capture) (parameters : List Parameter) (returnType? : Option String)
      (body : List Stmt) (isMutable : Bool)
  | cast (kind : CastKind) (type : String) (operand : Expr)
  | initializers (elements : List Expr)

/-- The operand of `sizeof` and `typeid`: a type or an expression. -/
structure Query where
  isType : Bool
  type? : Option String
  operand? : Option Expr

/-- A captured variable of a lambda. -/
structure Capture where
  name : String
  byReference : Bool
  isThis : Bool
  init? : Option Expr

/-- A parameter of a function; its name is empty if it has none. -/
structure Parameter where
  type : String
  name : String
  default? : Option Expr

/-- A variable of one declarator. An unsized dimension is `none`. -/
structure VarDecl where
  type : String
  name : String
  init? : Option Expr
  storage? : Option String
  dimensions : List (Option Expr)

/-- A step of control flow. -/
inductive Stmt
  | expr (value : Expr)
  | block (body : List Stmt)
  | returning (value? : Option Expr)
  | breaking
  | continuing
  | ifElse (condition : Expr) (yes : Stmt) (no? : Option Stmt)
  | whileLoop (condition : Expr) (body : Stmt)
  | doLoop (body : Stmt) (condition : Expr)
  | forLoop (init? : Option Stmt) (condition? step? : Option Expr) (body : Stmt)
  | rangeLoop (head : Stmt) (range : Expr) (body : Stmt)
  | switch (condition : Expr) (arms : List Arm)
  | trying (body : List Stmt) (handlers : List Handler)
  | throwing (value? : Option Expr)
  | goto (label : String)
  | label (name : String)
  | var (v : VarDecl)
  | assign (target : Expr) (op : BinaryOp) (value : Expr)
  | decl (declaration : Decl)

/-- An arm of a `switch`: the default one has no value. -/
structure Arm where
  value? : Option Expr
  body : List Stmt

/-- A handler of a `try`; its type is `...` if it catches everything. -/
structure Handler where
  type : String
  name : String
  body : List Stmt

/-- A function outside of a class. It has no body if it is only declared. -/
structure FunctionDecl where
  returnType : String
  name : String
  parameters : List Parameter
  body? : Option (List Stmt)
  isStatic : Bool
  isInline : Bool
  isVirtual : Bool
  isOverride : Bool
  isConst : Bool

/-- A function of a class. -/
structure MethodDecl where
  returnType : String
  name : String
  access : Access
  parameters : List Parameter
  body? : Option (List Stmt)
  isVirtual : Bool
  isOverride : Bool
  isConst : Bool
  isStatic : Bool
  isPure : Bool

/-- An entry of the list before the body of a constructor. -/
structure MemberInit where
  name : String
  isBase : Bool
  arguments : List Expr

/-- A constructor; outside of its class its name is a path. -/
structure ConstructorDecl where
  name : String
  access : Access
  isExplicit : Bool
  parameters : List Parameter
  initializers : List MemberInit
  body? : Option (List Stmt)

/-- A destructor, whose name begins with `~`; outside of its class the name is a path. -/
structure DestructorDecl where
  name : String
  access : Access
  isVirtual : Bool
  body? : Option (List Stmt)

/-- A function that gives an operator its meaning. -/
structure OperatorDecl where
  returnType : String
  /-- What stands after `operator`: `+`, `[]`, `()`, or the type of a conversion. -/
  symbol : String
  access : Access
  isConst : Bool
  parameters : List Parameter
  body? : Option (List Stmt)

/-- A variable of a class. -/
structure FieldDecl where
  type : String
  name : String
  access : Access
  isMutable : Bool
  isStatic : Bool
  isConst : Bool
  init? : Option Expr
  dimensions : List (Option Expr)
  bitWidth? : Option Expr

/-- A class, perhaps only declared. -/
structure ClassDecl where
  name : String
  bases : List BaseClass
  members : List Decl
  isStruct : Bool
  isUnion : Bool
  isForward : Bool

/-- A name of an enumeration, perhaps with a value. -/
structure Enumerator where
  name : String
  value? : Option Expr

/-- An enumeration. -/
structure EnumDecl where
  name : String
  isScoped : Bool
  underlying? : Option String
  enumerators : List Enumerator

/-- A named entity. -/
inductive Decl
  | function (f : FunctionDecl)
  | method (m : MethodDecl)
  | constructor (c : ConstructorDecl)
  | destructor (d : DestructorDecl)
  | operator (o : OperatorDecl)
  | field (f : FieldDecl)
  | classType (c : ClassDecl)
  /-- A friend, kept as text. -/
  | friend (text : String)
  | namespaceBlock (name : String) (body : List Stmt)
  | enumType (e : EnumDecl)
  /-- A name for a type, which may be defined on the spot. -/
  | typedef (type : String) (synonym : String) (definition? : Option Decl)
  | usingAlias (type : String) (synonym : String)
  | usingName (name : String)
  | usingNamespace (target : String)
  /-- A template: the text of its head, and the declaration that the head shows. -/
  | template (parameters : List TemplateParameter) (head : String) (declaration? : Option Decl)
  | staticAssert (condition : Expr) (message? : Option String)
  | directive (name : String) (value : String)

end

/-- The query for a type. -/
@[match_pattern]
abbrev Query.type (name : String) : Query :=
  ⟨true, some name, none⟩

/-- The query for the value of an expression. -/
@[match_pattern]
abbrev Query.value (operand : Expr) : Query :=
  ⟨false, none, some operand⟩

/-- The class that a keyword begins. -/
def ClassDecl.ofKey (key : ClassKey) (name : String) (bases : List BaseClass)
    (members : List Decl) (isForward : Bool) : ClassDecl :=
  ⟨name, bases, members, key == .structKey, key == .unionKey, isForward⟩

/-- The keyword of a class. -/
def ClassDecl.key (c : ClassDecl) : ClassKey :=
  if c.isUnion then .unionKey else if c.isStruct then .structKey else .classKey

/-- A parsed translation unit. -/
structure Program where
  name : String
  body : List Stmt

instance : Inhabited Expr := ⟨.null⟩
instance : Inhabited Stmt := ⟨.breaking⟩
instance : Inhabited Decl := ⟨.friend ""⟩

end CTree
