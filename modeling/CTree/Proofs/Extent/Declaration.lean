import CTree.Proofs.Extent.Expression

/-!
# Declarations that fit

What follows the type of a declaration, definitions of types, new names for types, templates and directives.
-/

namespace CTree

open Parse

variable {source : Source}

namespace Decl

variable {ps : List Parameter} {body? : Option (List Stmt)} {name type : String} {access : Access}

theorem fits_function {f : FunctionDecl} (htype : source.InLine f.returnType)
    (hname : source.InLine f.name) (hps : Each (Parameter.AllFit source) f.parameters)
    (hbody : Maybe (BodyFits source) f.body?) : (function f).AllFit source := by
  refine fits (forall_length_le hbody) (.words (Each.cons htype (Each.single hname))) ?_
  simp only [parts, List.forall_mem_append, List.forall_mem_map, Node.forall_mem_ofBody?]
  exact ⟨hps, fun body h => (hbody body h).2⟩

theorem fits_method {m : MethodDecl} (htype : source.InLine m.returnType) (hname : source.InLine m.name)
    (hps : Each (Parameter.AllFit source) m.parameters) (hbody : Maybe (BodyFits source) m.body?) :
    (method m).AllFit source := by
  refine fits (forall_length_le hbody)
    (.words (Each.cons (.ofAccess _) (Each.cons htype (Each.single hname)))) ?_
  simp only [parts, List.forall_mem_append, List.forall_mem_map, Node.forall_mem_ofBody?]
  exact ⟨hps, fun body h => (hbody body h).2⟩

theorem fits_constructor {c : ConstructorDecl} (hname : source.InLine c.name)
    (hps : Each (Parameter.AllFit source) c.parameters)
    (hinits : Each (fun i => Node.AllFit source (.memberInit i)) c.initializers)
    (hbody : Maybe (BodyFits source) c.body?) : (constructor c).AllFit source := by
  refine fits (forall_length_le hbody) (.words (Each.cons (.ofAccess _) (Each.single hname))) ?_
  simp only [parts, List.forall_mem_append, List.forall_mem_map, Node.forall_mem_ofBody?]
  exact ⟨⟨hps, hinits⟩, fun body h => (hbody body h).2⟩

theorem fits_destructor {d : DestructorDecl} (hname : source.InLine d.name)
    (hbody : Maybe (BodyFits source) d.body?) : (destructor d).AllFit source := by
  refine fits (forall_length_le hbody) (.words (Each.cons (.ofAccess _) (Each.single ?_))) ?_
  · exact .append (.const (by decide)) hname
  · exact Node.forall_mem_ofBody?.2 fun body h => (hbody body h).2

theorem fits_operator {o : OperatorDecl} (hsymbol : source.InLine o.symbol)
    (hps : Each (Parameter.AllFit source) o.parameters) (hbody : Maybe (BodyFits source) o.body?) :
    (operator o).AllFit source := by
  refine fits (forall_length_le hbody) (.words (Each.cons (.ofAccess _) (Each.single ?_))) ?_
  · exact .append (.const (by decide)) hsymbol
  · simp only [parts, List.forall_mem_append, List.forall_mem_map, Node.forall_mem_ofBody?]
    exact ⟨hps, fun body h => (hbody body h).2⟩

theorem fits_classType {key : ClassKey} {bases : List BaseClass} {members : List Decl} {isForward : Bool}
    (hname : source.InLine name) (hbases : Each (fun b => source.InLine b.name) bases)
    (hmembers : Each (Decl.AllFit source) members) :
    (classType (.ofKey key name bases members isForward)).AllFit source := by
  refine fits (List.forall_mem_nil _) ?_ (List.forall_mem_map.2 hmembers)
  refine .append (.append (.words (Each.cons (.ofKey _) (Each.single hname))) ?_) ?_
  · split
    · exact .empty
    · exact .append (.const (by decide)) (.intercalate (.const (by decide)) (List.forall_mem_map.2 hbases))
  · split
    · exact .const (by decide)
    · exact .empty

theorem fits_enumType {e : EnumDecl} (hname : source.InLine e.name)
    (h : Each (fun e => Node.AllFit source (.enumerator e)) e.enumerators) : (enumType e).AllFit source := by
  refine fits (List.forall_mem_nil _) ?_ (List.forall_mem_map.2 h)
  show source.InLine (if e.isScoped = true then Label.words ["class", e.name] else e.name)
  split
  · exact .words (Each.cons (.const (by decide)) (Each.single hname))
  · exact hname

theorem fits_typedef {definition? : Option Decl} (htype : source.InLine type) (hname : source.InLine name)
    (hdefinition : Maybe (Decl.AllFit source) definition?) : (typedef type name definition?).AllFit source :=
  fits (List.forall_mem_nil _)
    (.words (Each.cons hname (Each.cons (.const (by decide)) (Each.single htype))))
    (Node.forall_mem_optional.2 hdefinition)

theorem fits_usingAlias (htype : source.InLine type) (hname : source.InLine name) :
    (usingAlias type name).AllFit source :=
  fits (List.forall_mem_nil _)
    (.words (Each.cons hname (Each.cons (.const (by decide)) (Each.single htype)))) (List.forall_mem_nil _)

theorem fits_template {tps : List TemplateParameter} {head : String} {declaration? : Option Decl}
    (hps : Each (fun p => source.InLine p.name) tps) (hhead : source.InLine head)
    (hdeclaration : Maybe (Decl.AllFit source) declaration?) :
    (template tps head declaration?).AllFit source := by
  refine fits (List.forall_mem_nil _) ?_ (Node.forall_mem_optional.2 hdeclaration)
  have hnames : source.InLine (String.intercalate ", " (tps.map (·.name))) :=
    .intercalate (.const (by decide)) (List.forall_mem_map.2 hps)
  exact ((Source.InLine.append (.const (by decide)) hnames).append (.const (by decide))).append hhead

theorem fits_staticAssert {condition : Expr} {message? : Option String} (h : condition.AllFit source)
    (hmessage : Maybe source.InLine message?) : (staticAssert condition message?).AllFit source := by
  refine fits (List.forall_mem_nil _) ?_ (List.forall_mem_singleton.2 h)
  cases message? with
  | none => exact .empty
  | some message => exact hmessage message rfl

/-- A declaration with nothing but its label. -/
theorem fits_plain {d : Decl} (hbodies : d.bodies = []) (hlabel : source.InLine d.detail)
    (hparts : d.parts = []) : d.AllFit source :=
  fits (hbodies ▸ List.forall_mem_nil _) hlabel (hparts ▸ List.forall_mem_nil _)

end Decl

namespace Grammar

namespace Fits

variable {g : Grammar} (hg : g.Fits source)

section Declarators

include hg

/-! ### Variables -/

theorem variableInit {type : String} (htype : source.InLine type) :
    Yields source (Maybe (Expr.AllFit source)) (g.variableInit type) := by
  have harguments : Yields source (Maybe (Expr.AllFit source)) (do
      if ← accept .lparen then
        return some (.call (.identifier (TypeText.base type)) (← g.arguments .rparen))
      return none) := by
    refine .after fun parens => ?_
    split
    · refine (hg.arguments _).bind fun es hes => .pure (Maybe.some ?_)
      exact Expr.fits_call (Expr.fits_identifier htype.base) hes
    · exact .pure Maybe.none
  unfold Grammar.variableInit
  refine .after fun assigned => ?_
  split
  · exact hg.initializer.map fun value hvalue => Maybe.some hvalue
  · refine .after fun cpp => .after fun brace => ?_
    split
    · exact hg.bracedList.map fun value hvalue => Maybe.some hvalue
    · exact harguments

theorem variableDecls (specs : Specifiers) {type : String} (htype : source.InLine type) :
    Yields source (Each (VarDecl.AllFit source)) (g.variableDecls specs type) := by
  have hvariable {type : String} (htype : source.InLine type) :
      Yields source (VarDecl.AllFit source) (g.variableOf specs.storage? type) := by
    unfold Grammar.variableOf
    refine Source.InLine.qualifiedName.bind fun name hname => hg.dimensions.bind fun ds hds => ?_
    exact (hg.variableInit htype).bind fun init? hinit => .pure (Stmt.fits_var htype hname .storage hinit hds)
  unfold Grammar.variableDecls
  have hnext := Source.InLine.takeTexts TokenKind.isVariableMark htype.base
  exact (Yields.chainOf (k := source.InLine) (fun _ => hvariable) hnext htype).bind fun vs hvs =>
    .after fun _ => .pure hvs

/-! ### Functions -/

theorem functionRest (specs : Specifiers) {type name : String} {ps : List Parameter}
    (htype : source.InLine type) (hname : source.InLine name) (hps : Each (Parameter.AllFit source) ps) :
    Yields source (fun f => (Decl.function f).AllFit source) (g.functionRest specs type name ps) := by
  unfold Grammar.functionRest
  refine Source.InLine.functionQualifiers.bind fun q hq => hg.functionBody.bind fun body? hbody => .pure ?_
  exact Decl.fits_function (.returnType hq htype) hname hps hbody

theorem functionOrVariable (specs : Specifiers) {type : String} (htype : source.InLine type) :
    Yields source (Stmt.AllFit source) (g.functionOrVariable specs type) := by
  unfold Grammar.functionOrVariable
  refine Source.InLine.qualifiedName.bind fun name hname => ?_
  refine hg.parameters.strictly.speculate.bind fun ps? hps => ?_
  split
  · exact (hg.functionRest specs htype hname (hps _ rfl)).bind fun f hf => .pure (Stmt.fits_decl hf)
  · have harguments : Yields source (Each (Expr.AllFit source)) g.directArguments := by
      unfold Grammar.directArguments
      exact .after fun _ => (hg.arguments _).bind fun values hvalues => .after fun _ => .pure hvalues
    refine harguments.speculate.bind fun values? hvalues => ?_
    split
    · have hinit := Expr.fits_call (Expr.fits_identifier htype.base) (hvalues _ rfl)
      exact .pure (Stmt.fits_var htype hname .storage (Maybe.some hinit) fun e he => nomatch he)
    · refine hg.parameters.leniently.bind fun ps hps => ?_
      exact (hg.functionRest specs htype hname hps).bind fun f hf => .pure (Stmt.fits_decl hf)

theorem freeOperator (type : String) :
    Yields source (fun o => (Decl.operator o).AllFit source) (g.freeOperator type) := by
  unfold Grammar.freeOperator
  refine .after fun _ => .after fun _ => Source.InLine.operatorSymbol.bind fun symbol hsymbol => ?_
  refine hg.parameters.leniently.bind fun ps hps => .after fun q => ?_
  exact hg.functionBody.bind fun body? hbody => .pure (Decl.fits_operator hsymbol hps hbody)

/-! ### Constructors and destructors -/

theorem memberInit (bases : List BaseClass) :
    Yields source (fun i => Node.AllFit source (.memberInit i)) (g.memberInit bases) := by
  have hvalues : Yields source (Each (Expr.AllFit source)) g.memberInitValues := by
    unfold Grammar.memberInitValues
    refine .after fun parens => ?_
    split
    · exact hg.arguments _
    · refine .after fun braces => ?_
      split
      · exact hg.initializerList
      · exact .expected _
  unfold Grammar.memberInit
  refine .after fun path => hvalues.bind fun values hvalues => .after fun _ => .after fun isKnown => ?_
  exact .pure (.intro ⟨List.forall_mem_nil _, .empty⟩ (List.forall_mem_map.2 hvalues))

theorem constructorRest {name : String} (access : Access) (isExplicit : Bool) {ps : List Parameter}
    (hname : source.InLine name) (hps : Each (Parameter.AllFit source) ps) (bases : List BaseClass) :
    Yields source (fun c => (Decl.constructor c).AllFit source)
      (g.constructorRest name access isExplicit ps bases) := by
  have hrest {inits : List MemberInit} (hinits : Each (fun i => Node.AllFit source (.memberInit i)) inits) :
      Yields source (fun c => (Decl.constructor c).AllFit source)
        (do return ConstructorDecl.mk name access isExplicit ps inits (← g.functionBody)) :=
    hg.functionBody.bind fun body? hbody => .pure (Decl.fits_constructor hname hps hinits hbody)
  unfold Grammar.constructorRest
  refine .after fun _ => .after fun colon => ?_
  dsimp only
  split
  · exact (Yields.separated (hg.memberInit bases)).bind fun inits hinits => hrest hinits
  · exact hrest Each.nil

theorem destructorRest {name : String} (access : Access) (isVirtual : Bool) (hname : source.InLine name) :
    Yields source (fun d => (Decl.destructor d).AllFit source) (g.destructorRest name access isVirtual) := by
  unfold Grammar.destructorRest
  refine .after fun _ => .after fun _ => hg.functionBody.bind fun body? hbody => ?_
  exact .pure (Decl.fits_destructor hname hbody)

end Declarators

/-! ### Definitions of types -/

theorem tag (keyword : String) : Yields source source.InLine (Parse.tag keyword) := by
  unfold Parse.tag
  refine Source.InLine.nameOrNone.bind fun tag htag => ?_
  dsimp only
  split
  · exact .pure htag
  · exact .after fun _ => .after fun _ => .pure htag

theorem className (keyword : String) : Yields source source.InLine (Parse.className keyword) := by
  unfold Parse.className
  refine (tag keyword).bind fun tag htag => .after fun cpp => .after fun angle => ?_
  split
  · refine Source.InLine.templateArguments.bind fun arguments harguments => .pure ?_
    exact .templateText htag harguments
  · exact .pure htag

theorem baseClasses (key : ClassKey) :
    Yields source (Each fun b : BaseClass => source.InLine b.name) (Parse.baseClasses key) := by
  have hbase : Yields source (fun b : BaseClass => source.InLine b.name) (baseClass key.defaultAccess) := by
    unfold baseClass
    refine .after fun marks => Source.InLine.typeName.leniently.bind fun type htype => ?_
    exact .after fun _ => .pure htype
  unfold Parse.baseClasses
  refine .after fun colon => ?_
  split
  · exact .separated hbase
  · exact .pure Each.nil

section Types

include hg

/-- The members of a class are read with the name of their class. -/
theorem classType : Yields source (fun c => (Decl.classType c).AllFit source ∧ source.InLine c.name)
    g.classType := by
  unfold Grammar.classType
  refine .after fun t => (className _).bind fun name hname => .after fun _ => .after fun k => ?_
  have hbody : Yields source (fun c => (Decl.classType c).AllFit source ∧ source.InLine c.name) (do
      let key := ClassKey.ofKind t.kind
      let bases ← Parse.baseClasses key
      skipOver .lbrace "to start class body"
      let members ← g.parse (.members (TypeText.plain name) bases key.defaultAccess)
      closeBrace "to close class body"
      return ClassDecl.ofKey key name bases members false) := by
    refine (baseClasses _).bind fun bases hbases => .after fun _ => ?_
    refine (hg.parseMembers _ _ _ hname.plain).bind fun ds hds => .after fun _ => ?_
    exact .pure ⟨Decl.fits_classType hname hbases hds, hname⟩
  split
  · exact hbody
  · exact hbody
  · exact .pure ⟨Decl.fits_classType hname Each.nil Each.nil, hname⟩

theorem enumType : Yields source (fun e => (Decl.enumType e).AllFit source ∧ source.InLine e.name)
    g.enumType := by
  have henumerator : Yields source (fun e => Node.AllFit source (.enumerator e)) g.enumerator := by
    unfold Grammar.enumerator
    refine .after fun name => (hg.expression.optionalAfter .assign).bind fun value? hvalue => ?_
    exact .pure (.intro ⟨List.forall_mem_nil _, .empty⟩ (Node.forall_mem_optional.2 hvalue))
  have henumerators : Yields source (Each fun e => Node.AllFit source (.enumerator e)) g.enumerators := by
    unfold Grammar.enumerators
    refine .after fun braces => ?_
    split
    · exact (Yields.commaList _ henumerator).bind fun es hes => .after fun _ => .pure hes
    · exact .pure Each.nil
  unfold Grammar.enumType
  refine .after fun _ => .after fun isScoped => (tag _).bind fun name hname => .after fun underlying? => ?_
  exact henumerators.bind fun es hes => .pure ⟨Decl.fits_enumType hname hes, hname⟩

/-- The definition of a type, and the text of the type. -/
theorem typeDefinition? : Yields source (Maybe fun t => t.decl.AllFit source ∧ source.InLine t.keyword ∧
    source.InLine t.name) g.typeDefinition? := by
  have henum : source.InLine "enum" := .const (by decide)
  unfold Grammar.typeDefinition?
  refine .after fun atClass => ?_
  split
  · exact hg.classType.bind fun c hc => .pure (Maybe.some ⟨hc.1, .ofKey _, hc.2⟩)
  · refine .after fun v => ?_
    split
    · exact hg.enumType.bind fun e he => .pure (Maybe.some ⟨he.1, henum, he.2⟩)
    · exact .pure Maybe.none

end Types

/-! ### New names for types -/

theorem synonymDeclarator : Yields source (fun d : SynonymDeclarator => source.InLine d.name ∧
    source.InLine d.pointers ∧ source.InLine d.suffix) Parse.synonymDeclarator := by
  unfold Parse.synonymDeclarator
  refine (Source.InLine.takeTexts _ .empty).bind fun pointers hpointers => .after fun pointer => ?_
  split
  · refine (Source.InLine.functionPointer (.name _)).bind fun r hr => .pure ?_
    exact ⟨hr.1, hpointers, hr.2⟩
  · refine (Source.InLine.name _).bind fun name hname => ?_
    exact (Source.InLine.bracketTexts .empty).bind fun suffix hsuffix => .pure ⟨hname, hpointers, hsuffix⟩

theorem synonymOf {type : String} {definition? : Option Decl} {d : SynonymDeclarator}
    (htype : source.InLine type) (hdefinition : Maybe (Decl.AllFit source) definition?)
    (hd : source.InLine d.name ∧ source.InLine d.pointers ∧ source.InLine d.suffix) :
    Yields source (Decl.AllFit source) (Parse.synonymOf type definition? d) := by
  unfold Parse.synonymOf
  exact .after fun _ => .pure (Decl.fits_typedef ((htype.append hd.2.1).append hd.2.2) hd.1 hdefinition)

theorem moreSynonyms {type : String} (htype : source.InLine type) :
    Yields source (Each (Decl.AllFit source)) (Parse.moreSynonyms type) := by
  unfold Parse.moreSynonyms
  refine .after fun more => ?_
  split
  · exact .separated (synonymDeclarator.bind fun d hd => synonymOf htype Maybe.none hd)
  · exact .pure Each.nil

theorem calledBy {t : TypeDefinition} {d : SynonymDeclarator} (hkeyword : source.InLine t.keyword)
    (hname : source.InLine t.name) (hd : source.InLine d.name) : source.InLine (t.calledBy d).type := by
  unfold TypeDefinition.calledBy
  split
  · exact .ofDefinition hkeyword hd
  · exact .ofDefinition hkeyword hname

include hg in
theorem typedefs : Yields source (Each (Decl.AllFit source)) g.typedefs := by
  have htarget : Yields source (fun r => (∀ d : SynonymDeclarator, source.InLine d.name →
      source.InLine (r.1 d)) ∧ Maybe (Decl.AllFit source) r.2) g.synonymTarget := by
    unfold Grammar.synonymTarget
    refine hg.typeDefinition?.bind fun t? ht => ?_
    split
    · obtain ⟨hdecl, hkeyword, hname⟩ := ht _ rfl
      exact .pure ⟨fun d hd => calledBy hkeyword hname hd, Maybe.some hdecl⟩
    · refine Yields.bind (m := source.InLine) (.leniently ?_) fun type htype => ?_
      · rw [seqRight_eq_bind]
        exact .after fun _ => Source.InLine.typeName
      · exact .pure ⟨fun d _ => htype, Maybe.none⟩
  unfold Grammar.typedefs
  refine .after fun _ => htarget.bind fun target htarget => synonymDeclarator.bind fun d hd => ?_
  have htype := htarget.1 d hd.1
  refine (synonymOf htype htarget.2 hd).bind fun first hfirst => ?_
  exact (moreSynonyms htype.base).bind fun rest hrest => .after fun _ => .pure (Each.cons hfirst hrest)

theorem usingDeclaration : Yields source (Decl.AllFit source) Parse.usingDeclaration := by
  have hpath (form : String → Decl) {place : String} (hbodies : ∀ path, (form path).bodies = [])
      (hlabel : ∀ path, source.InLine path → source.InLine (form path).detail)
      (hparts : ∀ path, (form path).parts = []) : Yields source (Decl.AllFit source) (do
        let path ← Parse.qualifiedName
        skipOver .semicolon place
        return form path) :=
    Source.InLine.qualifiedName.bind fun path hpath => .after fun _ =>
      .pure (Decl.fits_plain (hbodies path) (hlabel path hpath) (hparts path))
  unfold Parse.usingDeclaration
  refine .after fun _ => .after fun whole => ?_
  dsimp only
  split
  · exact hpath .usingNamespace (fun _ => rfl) (fun _ => id) fun _ => rfl
  · refine .after fun named => .after fun assigned => ?_
    split
    · refine Source.InLine.advance.bind fun t ht => .after fun _ => ?_
      refine Source.InLine.typeName.leniently.bind fun type htype => .after fun _ => .after fun _ => ?_
      exact .pure (Decl.fits_usingAlias htype ht)
    · exact .after fun _ => hpath .usingName (fun _ => rfl) (fun _ => id) fun _ => rfl

/-! ### Assertions and directives -/

include hg in
theorem staticAssertion : Yields source (Decl.AllFit source) g.staticAssertion := by
  have hmessage : Yields source (Maybe source.InLine) assertionMessage := by
    unfold Grammar.assertionMessage
    refine .after fun more => ?_
    split
    · exact (Source.InLine.require _ _).bind fun t ht => .pure (Maybe.some ht.body)
    · exact .pure Maybe.none
  unfold Grammar.staticAssertion
  refine .after fun _ => .after fun _ => hg.expression.bind fun condition hcondition => ?_
  refine hmessage.bind fun message? hmessage => .after fun _ => .after fun _ => .pure ?_
  exact Decl.fits_staticAssert hcondition hmessage

/-- Where a directive stands, it is read in one line. -/
theorem directive {s t : ParseState} {d : Decl} (hkind : ((source.view s).kind 0).isDirective = true)
    (hrun : Parse.directive.run source s = (.ok d, t)) : d.AllFit source := by
  let token := source.stream.get s.cursor.position
  have hdirective : token.kind.isDirective = true := hkind
  have heof : (source.view s).kind 0 ≠ .eof := by
    intro h
    rw [h] at hkind
    cases hkind
  have hadvance : Parse.advance.run source s = (.ok token, s.after 1) := by
    rw [run_advance, Source.advance_of_token heof]
    rfl
  have hword : source.InLine token.text := .token source _
  by_cases hinclude : token.kind = .includeDirective
  · unfold Parse.directive at hrun
    rw [run_bind_ok hadvance, if_pos (beq_iff_eq.2 hinclude)] at hrun
    cases hrun
    exact Decl.fits_plain rfl (.words (Each.cons (.const (by decide)) (Each.single hword.includedPath))) rfl
  · obtain ⟨n, hskip, htaken, -⟩ :=
      @run_skipUntil source (s.after 1) (Text.logicalEnd source.text token.offset)
    rw [run_directive_of_skipUntil rfl hdirective hinclude hskip] at hrun
    cases hrun
    have hname : source.InLine (String.ofList (token.text.toList.dropWhile (· == '#'))) :=
      hword.part fun c hc => (List.dropWhile_sublist _).mem hc
    have hvalue : source.InLine
        (source.exactText (s.cursor.position + 1) (s.cursor.position + 1 + n)) :=
      fun hlined => hlined.directive s.cursor.position n hdirective hinclude htaken
    exact Decl.fits_plain rfl (.words (Each.cons hname (Each.single hvalue))) rfl

/-! ### Templates -/

theorem templateParameters :
    Yields source (Each fun p : TemplateParameter => source.InLine p.name) Parse.templateParameters := by
  have hparameter : Yields source (fun p : TemplateParameter => source.InLine p.name) templateParameter := by
    unfold templateParameter
    refine .after fun kind => .after fun isPack => Source.InLine.nameOrNone.bind fun name hname => ?_
    refine .after fun default? => .pure ?_
    unfold TemplateParameter.ofDefault
    split <;> exact hname
  have hstrict : Yields source (Each fun p : TemplateParameter => source.InLine p.name)
      strictTemplateParameters := by
    unfold strictTemplateParameters
    refine .after fun _ => .after fun closed => ?_
    split
    · exact .pure Each.nil
    · exact (Yields.separated hparameter).bind fun ps hps => .after fun _ => .pure hps
  unfold Parse.templateParameters
  refine .after fun angle => ?_
  split
  · refine hstrict.speculate.bind fun ps? hps => ?_
    split
    · exact .pure (hps _ rfl)
    · exact Source.InLine.templateArguments.bind fun texts htexts => .pure (List.forall_mem_map.2 htexts)
  · exact .pure Each.nil

theorem headText : Yields source source.InLine Parse.headText := by
  unfold Parse.headText
  refine .after fun start => .after fun limits => .after fun found => ?_
  dsimp only
  split
  · exact Source.InLine.textSince start
  · exact .after fun e => .after fun _ => Source.InLine.textSince start

section Templates

include hg

/-- What the head of a template shows is kept without its body. -/
theorem templateHead : Yields source (Decl.AllFit source) g.templateHead := by
  have hclass : Yields source (Decl.AllFit source) templateClass := by
    unfold templateClass
    refine .after fun t => (Source.InLine.name _).bind fun name hname => .after fun _ => .after fun angle => ?_
    have hrest : Yields source (Decl.AllFit source) (do
        let isForward ← check .semicolon
        return .classType (.ofKey (ClassKey.ofKind t.kind) name
          (← Parse.baseClasses (ClassKey.ofKind t.kind)) [] isForward)) :=
      .after fun isForward => (baseClasses _).bind fun bases hbases =>
        .pure (Decl.fits_classType hname hbases Each.nil)
    dsimp only
    split
    · exact .after fun _ => hrest
    · exact hrest
  have halias : Yields source (Decl.AllFit source) templateUsing := by
    unfold templateUsing
    refine .after fun _ => (Source.InLine.name _).bind fun name hname => .after fun _ => ?_
    refine .after fun start => .after fun _ => .after fun _ => ?_
    exact (Source.InLine.textSince start).bind fun type htype => .pure (Decl.fits_usingAlias htype hname)
  have hfunction : Yields source (Decl.AllFit source) g.templateFunction := by
    unfold Grammar.templateFunction
    refine .after fun specs => Source.InLine.typeName.bind fun type htype => ?_
    refine Source.InLine.qualifiedName.bind fun name hname => hg.parameters.bind fun ps hps => ?_
    refine Source.InLine.functionQualifiers.bind fun q hq => .pure ?_
    exact Decl.fits_function (.returnType hq htype) hname hps Maybe.none
  unfold Grammar.templateHead
  refine .after fun k => ?_
  split
  · exact hclass
  · exact hclass
  · exact hclass
  · exact halias
  · exact hfunction

theorem template : Yields source (Decl.AllFit source) g.template := by
  unfold Grammar.template
  refine .after fun _ => templateParameters.bind fun ps hps => ?_
  refine (Yields.rereading headText hg.templateHead.leniently.speculate).bind fun r hr => ?_
  have hrest := Decl.fits_template hps hr.1 hr.2
  refine .after fun braces => ?_
  dsimp only
  split
  · exact .after fun _ => .after fun _ => .pure hrest
  · exact .after fun _ => .pure hrest

end Templates

end Fits

end Grammar

end CTree
