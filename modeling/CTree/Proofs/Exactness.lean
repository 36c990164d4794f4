import CTree.Proofs.Lockstep.Depth
import CTree.Proofs.Names

/-!
# The frame of the whole parser

Every parse function keeps the frame, whether it succeeds or fails, from every state. So an attempt
that fails is undone exactly, but for the type names learnt in it, and where a declaration is looked
for in vain not even those differ.
-/

namespace CTree

namespace Parse

/-- Whatever comes of a parser, it leaves the depth and the flag as they were, forgets no type name,
    takes no diagnostic back and does not move back. -/
def KeepsFrame {α : Type} (source : Source) (p : Parse α) : Prop :=
  ∀ s, Frame source s (p.run source s).2

end Parse

open Parse

/-- A parser in lockstep with itself keeps the frame. -/
theorem Lockstep.keeps {α : Type} {source : Source} {m : α → Prop} {p : Parse α}
    (h : Lockstep source source 0 anywhere 3 m p p) : KeepsFrame source p :=
  fun _ => h.frame trivial

/-- The frame does not depend on whether a token is there to be taken. -/
theorem Source.takes_nothing {α : Type} (source : Source) :
    source.Takes 0 3 anywhere (never : α → Prop) :=
  .inr ⟨rfl, by decide, fun _ h => h⟩

/-! ### The parse functions -/

section Frames

variable {source : Source} {g : Grammar}

/-- Single tokens, recovery, and types. -/
structure TokenFrames (source : Source) : Prop where
  advance : KeepsFrame source advance
  accept : ∀ kind, KeepsFrame source (accept kind)
  require : ∀ kind place, KeepsFrame source (require kind place)
  skipOver : ∀ kind place, KeepsFrame source (skipOver kind place)
  name : ∀ place, KeepsFrame source (name place)
  synchronize : KeepsFrame source synchronize
  ensureProgress : ∀ start, KeepsFrame source (ensureProgress start)
  skipToken : ∀ place, KeepsFrame source (skipToken place)
  skipBalanced : ∀ opening closing, KeepsFrame source (skipBalanced opening closing)
  closeBrace : ∀ place, KeepsFrame source (closeBrace place)
  specifiers : KeepsFrame source specifiers
  templateArguments : KeepsFrame source templateArguments
  typePath : KeepsFrame source typePath
  typeCore : KeepsFrame source typeCore
  typeName : KeepsFrame source typeName
  qualifiedName : KeepsFrame source qualifiedName
  functionQualifiers : KeepsFrame source functionQualifiers

theorem tokenFrames (source : Source) : TokenFrames source where
  advance := Lockstep.advanceAnywhere.keeps
  accept kind := (Lockstep.acceptAnywhere kind).keeps
  require kind place := (Lockstep.requireAnywhere kind place).keeps
  skipOver kind place := (Lockstep.skipOverAnywhere kind place).keeps
  name place := (Lockstep.name place).keeps
  synchronize := Lockstep.synchronize.keeps
  ensureProgress start := (Lockstep.ensureProgress start).keeps
  skipToken place := (Lockstep.skipToken source.takes_nothing place).keeps
  skipBalanced opening closing := by
    refine Lockstep.keeps (m := never) ?_
    unfold Parse.skipBalanced
    refine .bind (.skipOverAnywhere opening _) fun _ => ?_
    exact .settings (.skipGroup opening closing 1)
  closeBrace place := (Lockstep.closeBrace place).keeps
  specifiers := Lockstep.specifiers.keeps
  templateArguments := Lockstep.templateArguments.keeps
  typePath := Lockstep.typePath.keeps
  typeCore := Lockstep.typeCore.keeps
  typeName := Lockstep.typeName.keeps
  qualifiedName := Lockstep.qualifiedName.keeps
  functionQualifiers := Lockstep.functionQualifiers.keeps

/-- Expressions, initializers, and what is tried in them. -/
structure ExpressionFrames (source : Source) (g : Grammar) : Prop where
  intLiteral : KeepsFrame source intLiteral
  stringLiterals : KeepsFrame source stringLiterals
  typeInParentheses : ∀ place, KeepsFrame source (typeInParentheses place)
  parenthesizedType : KeepsFrame source parenthesizedType
  castHead : KeepsFrame source castHead
  castType : KeepsFrame source castType
  argumentsBeforeUse : KeepsFrame source argumentsBeforeUse
  memberName : KeepsFrame source memberName
  expression : KeepsFrame source g.expression
  commaExpression : KeepsFrame source g.commaExpression
  initializerList : KeepsFrame source g.initializerList
  bracedList : KeepsFrame source g.bracedList
  initializer : KeepsFrame source g.initializer
  arguments : ∀ closing, KeepsFrame source (g.arguments closing)
  dimensions : KeepsFrame source g.dimensions
  nameExpression : KeepsFrame source g.nameExpression
  typeidOf : KeepsFrame source g.typeidOf
  newObject : KeepsFrame source g.newObject
  deletion : KeepsFrame source g.deletion
  capture : KeepsFrame source g.capture
  lambda : KeepsFrame source g.lambda
  primary : KeepsFrame source g.primary
  suffixed : KeepsFrame source g.suffixed
  sizeofOf : KeepsFrame source g.sizeofOf
  castOperand : KeepsFrame source g.castOperand
  unary : KeepsFrame source g.unary
  binary : ∀ levels least, KeepsFrame source (g.binary levels least)
  conditional : KeepsFrame source g.conditional
  assignment : KeepsFrame source g.assignment
  elements : KeepsFrame source g.elements

theorem expressionFrames (hg : g.InStep source source 0 g) : ExpressionFrames source g where
  intLiteral := (Lockstep.intLiteral source.takes_nothing).keeps
  stringLiterals := by
    refine Lockstep.keeps (m := never) ?_
    unfold Parse.stringLiterals
    refine Lockstep.map (m := never) (.iterate (fun value => .test fun more => ?_) _) fun _ h => h
    split
    · exact .bind .advanceAnywhere fun t => .pure _
    · exact .pure _
  typeInParentheses place := (Lockstep.typeInParentheses place).keeps
  parenthesizedType := Lockstep.parenthesizedType.keeps
  castHead := Lockstep.castHead.keeps
  castType := Lockstep.castType.keeps
  argumentsBeforeUse := Lockstep.argumentsBeforeUse.keeps
  memberName := Lockstep.memberName.keeps
  expression := hg.expression.keeps
  commaExpression := hg.commaExpression.keeps
  initializerList := hg.initializerList.keeps
  bracedList := hg.bracedList.keeps
  initializer := hg.initializer.keeps
  arguments closing := by
    refine Lockstep.keeps (m := never) ?_
    unfold Grammar.arguments
    refine .bind (.acceptAnywhere closing) fun closed => ?_
    split
    · exact .pure _
    · refine .bind (.separated hg.argument.still) fun values => ?_
      exact .bind (.skipOverAnywhere closing _) fun _ => .pure _
  dimensions := hg.dimensions.keeps
  nameExpression := hg.nameExpression.keeps
  typeidOf := hg.typeidOf.keeps
  newObject := (hg.newObject source.takes_nothing).keeps
  deletion := (hg.deletion source.takes_nothing).keeps
  capture := hg.capture.keeps
  lambda := hg.lambda.keeps
  primary := hg.primary.keeps
  suffixed := hg.suffixed.keeps
  sizeofOf := (hg.sizeofOf source.takes_nothing).keeps
  castOperand := hg.castOperand.keeps
  unary := hg.unary.keeps
  binary levels least := (hg.binary levels least).keeps
  conditional := hg.conditional.keeps
  assignment := hg.assignment.keeps
  elements := hg.elements.keeps

/-- Declarations outside of classes, definitions of types, and what is tried in them. -/
structure DeclarationFrames (source : Source) (g : Grammar) : Prop where
  operatorSymbol : KeepsFrame source operatorSymbol
  baseClasses : ∀ key, KeepsFrame source (baseClasses key)
  usingDeclaration : KeepsFrame source usingDeclaration
  directive : KeepsFrame source directive
  templateDefault : KeepsFrame source templateDefault
  templateParameter : KeepsFrame source templateParameter
  strictTemplateParameters : KeepsFrame source strictTemplateParameters
  templateParameters : KeepsFrame source templateParameters
  headText : KeepsFrame source headText
  declarationHead : KeepsFrame source declarationHead
  specialPath : KeepsFrame source specialPath
  parameter : KeepsFrame source g.parameter
  parameters : KeepsFrame source g.parameters
  strictParameters : KeepsFrame source (strictly g.parameters)
  functionBody : KeepsFrame source g.functionBody
  variableInit : ∀ type, KeepsFrame source (g.variableInit type)
  variableDecls : ∀ specs type, KeepsFrame source (g.variableDecls specs type)
  functionRest : ∀ specs type name ps, KeepsFrame source (g.functionRest specs type name ps)
  directArguments : KeepsFrame source g.directArguments
  functionOrVariable : ∀ specs type, KeepsFrame source (g.functionOrVariable specs type)
  freeOperator : ∀ type, KeepsFrame source (g.freeOperator type)
  classType : KeepsFrame source g.classType
  enumType : KeepsFrame source g.enumType
  typeDefinition? : KeepsFrame source g.typeDefinition?
  typedefs : KeepsFrame source g.typedefs
  templateHead : KeepsFrame source g.templateHead
  lenientTemplateHead : KeepsFrame source (leniently g.templateHead)
  template : KeepsFrame source g.template
  staticAssertion : KeepsFrame source g.staticAssertion
  declaration? : KeepsFrame source g.declaration?
  special? : KeepsFrame source g.special?
  definitionRest : ∀ t, KeepsFrame source (g.definitionRest t)
  namespaceDeclaration : KeepsFrame source g.namespaceDeclaration
  linkage : KeepsFrame source g.linkage
  namedDeclaration? : KeepsFrame source g.namedDeclaration?
  item : KeepsFrame source g.item
  items : ∀ inNamespace, KeepsFrame source (g.items inNamespace)

theorem declarationFrames (hg : g.InStep source source 0 g) : DeclarationFrames source g where
  operatorSymbol := Lockstep.operatorSymbol.keeps
  baseClasses key := (Lockstep.baseClasses key).keeps
  usingDeclaration := Lockstep.usingDeclaration.keeps
  directive := (Lockstep.directive source.takes_nothing).keeps
  templateDefault := Lockstep.templateDefault.keeps
  templateParameter := Lockstep.templateParameter.keeps
  strictTemplateParameters := Lockstep.strictTemplateParameters.keeps
  templateParameters := Lockstep.templateParameters.keeps
  headText := Lockstep.headText.keeps
  declarationHead := Lockstep.declarationHead.keeps
  specialPath := Lockstep.specialPath.keeps
  parameter := hg.parameter.keeps
  parameters := hg.parameters.keeps
  strictParameters := hg.parameters.strictly.keeps
  functionBody := hg.functionBody.keeps
  variableInit type := (hg.variableInit type).keeps
  variableDecls specs type := (hg.variableDecls specs type).keeps
  functionRest specs type name ps := (hg.functionRest specs type name ps).keeps
  directArguments := hg.directArguments.keeps
  functionOrVariable specs type := (hg.functionOrVariable specs type).keeps
  freeOperator type := (hg.freeOperator type).keeps
  classType := (hg.classType source.takes_nothing).keeps
  enumType := hg.enumType.keeps
  typeDefinition? := hg.typeDefinition?.keeps
  typedefs := hg.typedefs.keeps
  templateHead := hg.templateHead.keeps
  lenientTemplateHead := hg.templateHead.leniently.keeps
  template := (hg.template source.takes_nothing).keeps
  staticAssertion := hg.staticAssertion.keeps
  declaration? := hg.declaration?.keeps
  special? := hg.special?.keeps
  definitionRest t := (hg.definitionRest t).keeps
  namespaceDeclaration := (hg.namespaceDeclaration source.takes_nothing).keeps
  linkage := (hg.linkage source.takes_nothing).keeps
  namedDeclaration? := hg.namedDeclaration?.keeps
  item := hg.item.keeps
  items inNamespace := (hg.items inNamespace).keeps

/-- The members of classes. -/
structure MemberFrames (source : Source) (g : Grammar) : Prop where
  destructorHead : ∀ owner, KeepsFrame source (destructorHead owner)
  fieldHead : KeepsFrame source fieldHead
  friend : KeepsFrame source friend
  constructorHead : ∀ owner, KeepsFrame source (g.constructorHead owner)
  operatorHead : KeepsFrame source g.operatorHead
  methodHead : KeepsFrame source g.methodHead
  memberHead : ∀ owner, KeepsFrame source (g.memberHead owner)
  memberInit : ∀ bases, KeepsFrame source (g.memberInit bases)
  constructorRest : ∀ name access isExplicit ps bases, KeepsFrame source (g.constructorRest name access isExplicit ps bases)
  destructorRest : ∀ name access isVirtual, KeepsFrame source (g.destructorRest name access isVirtual)
  fields : ∀ specs access type name, KeepsFrame source (g.fields specs access type name)
  memberRest : ∀ owner bases access head, KeepsFrame source (g.memberRest owner bases access head)
  nestedTypeRest : ∀ access t, KeepsFrame source (g.nestedTypeRest access t)
  member : ∀ owner bases access, KeepsFrame source (g.member owner bases access)
  members : ∀ owner bases access, KeepsFrame source (g.members owner bases access)

theorem memberFrames (hg : g.InStep source source 0 g) : MemberFrames source g where
  destructorHead owner := (Lockstep.destructorHead owner).keeps
  fieldHead := Lockstep.fieldHead.keeps
  friend := (Lockstep.friend source.takes_nothing).keeps
  constructorHead owner := (hg.constructorHead owner).keeps
  operatorHead := hg.operatorHead.keeps
  methodHead := hg.methodHead.keeps
  memberHead owner := (hg.memberHead owner).keeps
  memberInit bases := (hg.memberInit bases).keeps
  constructorRest name access isExplicit ps bases := (hg.constructorRest name access isExplicit ps bases).keeps
  destructorRest name access isVirtual := (hg.destructorRest name access isVirtual).keeps
  fields specs access type name := (hg.fields specs access type name).keeps
  memberRest owner bases access head := (hg.memberRest owner bases access head).keeps
  nestedTypeRest access t := (hg.nestedTypeRest access t).keeps
  member owner bases access := (hg.member owner bases access source.takes_nothing).keeps
  members owner bases access := (hg.members owner bases access).keeps

/-- Statements, and what is tried in them. -/
structure StatementFrames (source : Source) (g : Grammar) : Prop where
  rangeHead : KeepsFrame source rangeHead
  statements : ∀ stop, KeepsFrame source (g.statements stop)
  block : KeepsFrame source g.block
  expressionStatement : KeepsFrame source g.expressionStatement
  expressionUnless : ∀ kind, KeepsFrame source (g.expressionUnless kind)
  condition : ∀ keyword, KeepsFrame source (g.condition keyword)
  branch : KeepsFrame source g.branch
  ifElse : KeepsFrame source g.ifElse
  whileLoop : KeepsFrame source g.whileLoop
  doLoop : KeepsFrame source g.doLoop
  forLoop : KeepsFrame source g.forLoop
  armValue : KeepsFrame source g.armValue
  arm : KeepsFrame source g.arm
  switch : KeepsFrame source g.switch
  trying : KeepsFrame source g.trying
  plainStatement : KeepsFrame source g.plainStatement
  statement : KeepsFrame source g.statement

theorem statementFrames (hg : g.InStep source source 0 g) : StatementFrames source g where
  rangeHead := Lockstep.rangeHead.keeps
  statements stop := (hg.statements stop).keeps
  block := hg.block.keeps
  expressionStatement := hg.expressionStatement.keeps
  expressionUnless kind := (hg.expressionUnless kind).keeps
  condition keyword := (hg.condition keyword).keeps
  branch := hg.branch.keeps
  ifElse := hg.ifElse.keeps
  whileLoop := hg.whileLoop.keeps
  doLoop := (hg.doLoop source.takes_nothing).keeps
  forLoop := hg.forLoop.keeps
  armValue := hg.armValue.keeps
  arm := hg.arm.keeps
  switch := hg.switch.keeps
  trying := hg.trying.keeps
  plainStatement := hg.plainStatement.keeps
  statement := hg.statement.keeps
end Frames

/-- All parse functions over a grammar. -/
structure ParserFrames (source : Source) (g : Grammar) : Prop where
  tokens : TokenFrames source
  expressions : ExpressionFrames source g
  declarations : DeclarationFrames source g
  members : MemberFrames source g
  statements : StatementFrames source g
  nonterminals : ∀ {α : Type} (r : Nonterminal α), KeepsFrame source (g.parse r)

theorem parserFrames (source : Source) (depth : Nat) :
    ParserFrames source (Grammar.ofDepth depth) := by
  have hg := Grammar.ofDepth_framed source depth
  refine ⟨tokenFrames source, expressionFrames hg, declarationFrames hg, memberFrames hg,
    statementFrames hg, fun r => ?_⟩
  cases r with
  | assignment => exact hg.parseAssignment.keeps
  | conditional => exact hg.parseConditional.keeps
  | unary => exact hg.parseUnary.keeps
  | elements => exact hg.parseElements.keeps
  | statement => exact hg.parseStatement.keeps
  | members owner bases access => exact (hg.parseMembers owner bases access).keeps
  | items => exact hg.parseItems.keeps
  | item => exact hg.parseItem.keeps

/-! ### Going back -/

/-- An attempt that gives nothing ends where it began, with the diagnostics from before it. Only the
    type names learnt in it are left. -/
def UndoneExactly {α : Type} (source : Source) (p : Parse α) : Prop :=
  ∀ s r t, (speculate p).run source s = (r, t) → (∀ x, r ≠ .ok (some x)) →
    t = { s with cursor := { s.cursor with known := t.cursor.known } }

/-- Where a parser finds nothing, nothing has changed, and no type name was learnt. -/
def Traceless {α : Type} (source : Source) (p : Parse (Option α)) : Prop :=
  ∀ s t, p.run source s = (.ok none, t) → t = s

section Undoing

variable {α β : Type} {source : Source} {s t : ParseState} {p : Parse α} {g : Grammar}

theorem Parse.KeepsFrame.undoneExactly (h : KeepsFrame source p) : UndoneExactly source p := by
  intro s r t hrun hr
  have hs := h s
  rcases hp : p.run source s with ⟨e | x, u⟩
  · rw [hp] at hs
    rw [run_speculate_error hp] at hrun
    obtain ⟨-, rfl⟩ := Prod.mk.inj hrun
    rw [hs.backTo_eq]
  · rw [run_speculate_ok hp] at hrun
    obtain ⟨rfl, -⟩ := Prod.mk.inj hrun
    exact (hr x rfl).elim

/-- Of a parser that learns no type name, an attempt that gives nothing leaves no trace. -/
theorem Parse.KeepsFrame.speculate_none (h : KeepsFrame source p) (hnames : KeepsNames source p) :
    Traceless source (speculate p) := by
  intro s t hrun
  have hundone := h.undoneExactly s _ t hrun fun x hx => by cases hx
  have hknown := hnames.speculate s
  rw [hrun] at hknown
  rw [hundone, hknown]

/-- What gives the value of another parser never gives nothing. -/
theorem run_bind_some_ne {p : Parse β} {f : β → α} :
    (p >>= fun x => pure (some (f x)) : Parse (Option α)).run source s ≠ (.ok none, t) := by
  intro h
  obtain ⟨x, u, -, hrest⟩ := exists_of_run_bind h
  cases hrest

/-- A declaration is looked for by an attempt at its head; where a head was found, there is a
    declaration or a failure. -/
theorem traceless_declaration? (g : Grammar) : Traceless source g.declaration? := by
  intro s t h
  obtain ⟨head?, u, hhead, hrest⟩ := exists_of_run_bind h
  rcases head? with _ | ⟨specs, type, form⟩
  · cases hrest
    have hframe : KeepsFrame source declarationHead := Lockstep.declarationHead.keeps
    exact hframe.speculate_none .declarationHead s t hhead
  · cases form <;> exact (run_bind_some_ne hrest).elim

theorem state_of_atSpecial {x : Bool} (h : atSpecial.run source s = (.ok x, t)) : t = s := by
  unfold atSpecial at h
  rw [run_bind_ok run_kind] at h
  split at h <;> cases h <;> rfl

theorem traceless_special? (g : Grammar) : Traceless source g.special? := by
  intro s t h
  unfold Grammar.special? at h
  rw [run_bind_ok run_isCpp] at h
  obtain ⟨here, u, hhere, hrest⟩ := exists_of_run_bind h
  obtain rfl := state_of_atSpecial hhere
  split at hrest
  · cases hrest
    rfl
  · obtain ⟨path?, v, hpath, hlast⟩ := exists_of_run_bind hrest
    cases path? with
    | some path => exact (run_bind_some_ne hlast).elim
    | none =>
      cases hlast
      have hframe : KeepsFrame source specialPath := Lockstep.specialPath.keeps
      exact hframe.speculate_none .specialPath u t hpath

/-- Keywords decide whether a declaration has a keyword of its own, and nothing has to be undone. -/
theorem traceless_namedDeclaration? (g : Grammar) : Traceless source g.namedDeclaration? := by
  intro s t h
  obtain ⟨definition?, u, hdefinition, hrest⟩ := exists_of_run_bind h
  cases definition? with
  | some d => exact (run_bind_some_ne hrest).elim
  | none =>
    obtain rfl := Grammar.state_of_typeDefinition?_none hdefinition
    rw [run_bind_ok run_kind, run_bind_ok (run_kindAhead 1)] at hrest
    split at hrest
    any_goals exact (run_bind_some_ne hrest).elim
    split at hrest
    · exact (run_bind_some_ne hrest).elim
    · cases hrest
      rfl

end Undoing

/-- The frame of the parser and the exactness of its backtracking: from every state, whatever comes
    of a parse function, the frame is kept; an attempt that gives nothing is undone; where no
    declaration of one of the three kinds begins, the state is as it was; and a session goes on with
    the source that it had. -/
theorem parser_keepsFrame (source : Source) (depth : Nat) :
    ParserFrames source (Grammar.ofDepth depth) ∧
    (∀ {α : Type} (p : Parse α), KeepsFrame source p → UndoneExactly source p) ∧
    Traceless source (Grammar.ofDepth depth).declaration? ∧
    Traceless source (Grammar.ofDepth depth).namedDeclaration? ∧
    Traceless source (Grammar.ofDepth depth).special? ∧
    ∀ (state : ParseState) (name : String),
      ((Session.mk source state).parse name).2.source = source ∧
      Frame source state ((Session.mk source state).parse name).2.state := by
  refine ⟨parserFrames source depth, fun _ h => h.undoneExactly, traceless_declaration? _,
    traceless_namedDeclaration? _, traceless_special? _, fun state name => ?_⟩
  have hframe := (parserFrames source source.settings.maxDepth).declarations.items false state
  rw [Session.parse_eq_run]
  exact ⟨rfl, hframe⟩

end CTree
