import CTree.Proofs.Containment.Expression

/-!
# Declarations of C

What follows the type of a declaration, definitions of types, members and items. Of the words that
begin a declaration of C++ alone none is a token of C, and an operator is not looked for in C.
-/

namespace CTree

open Content Parse

/-- The parameters in the head of a member are of C, and it is not the head of an operator. -/
def MemberHead.AllC (source : Source) : MemberHead → Prop
  | .constructor _ ps | .method _ _ _ ps => Each (Parameter.AllC source) ps
  | .operator .. => False
  | .destructor _ | .field .. => True

variable {source : Source}

theorem ClassKey.ofKind_ne_classKey {k : TokenKind} (hk : k.inC = true) :
    ClassKey.ofKind k ≠ .classKey := by
  intro h
  cases k <;> cases h
  exact absurd hk (by decide)

/-- A class is of C if its keyword and its members are. -/
theorem Decl.allC_classType {key : ClassKey} {name : String} {bases : List BaseClass}
    {members : List Decl} {isForward : Bool} (hkey : key ≠ .classKey)
    (hmembers : Each (Decl.AllC source) members) :
    (Decl.classType (.ofKey key name bases members isForward)).AllC source := by
  refine .intro ?_ ?_
  · cases key with
    | classKey => exact absurd rfl hkey
    | structKey => exact nofun
    | unionKey => exact nofun
  · simpa [Node.fields, Decl.fields, ClassDecl.ofKey] using hmembers

theorem Stmt.allC_decl {d : Decl} (h : d.AllC source) : (Stmt.decl d).AllC source :=
  .intro trivial (by simpa [Node.fields, Stmt.fields] using h)

theorem Stmt.allC_block {ss : List Stmt} (h : Each (Stmt.AllC source) ss) :
    (Stmt.block ss).AllC source :=
  .intro trivial (by simpa [Node.fields, Stmt.fields] using h)

theorem Stmt.allC_var {v : VarDecl} (hinit : Maybe (Expr.AllC source) v.init?)
    (hdimensions : ∀ e, some e ∈ v.dimensions → e.AllC source) : (Stmt.var v).AllC source :=
  .intro trivial (by simpa [Node.fields, Stmt.fields, VarDecl.fields] using ⟨hinit, hdimensions⟩)

/-- A variable is of C as a statement. -/
abbrev VarDecl.AllC (source : Source) (v : VarDecl) : Prop :=
  Stmt.AllC source (.var v)

theorem Stmt.allC_ofVariables {vs : List VarDecl} (h : Each (VarDecl.AllC source) vs) :
    (ofVariables vs).AllC source := by
  unfold ofVariables
  split
  · exact h _ List.mem_cons_self
  · exact allC_block (List.forall_mem_map.2 h)

theorem Stmt.allC_ofDecls {ds : List Decl} (h : Each (Decl.AllC source) ds) :
    (ofDecls ds).AllC source := by
  unfold ofDecls
  split
  · exact allC_decl (h _ List.mem_cons_self)
  · exact allC_block (List.forall_mem_map.2 fun d hd => allC_decl (h d hd))

theorem Decl.allC_function {f : FunctionDecl} (hps : Each (Parameter.AllC source) f.parameters)
    (hbody : Maybe (Each (Stmt.AllC source)) f.body?) : (Decl.function f).AllC source :=
  .intro trivial (by simpa [Node.fields, Decl.fields] using ⟨hps, hbody⟩)

namespace Grammar

namespace OfC

variable {g : Grammar} (hg : g.OfC source)
include hg

/-! ### Variables -/

theorem variableInit (type : String) :
    Yields source (Maybe (Expr.AllC source)) (g.variableInit type) := by
  unfold Grammar.variableInit
  refine .after fun assigned => ?_
  split
  · exact hg.initializer.map fun value hvalue => Maybe.some hvalue
  · refine .isCpp hg.isC (.after fun brace => .after fun direct => ?_)
    split
    · refine (hg.arguments .rparen).bind fun values hvalues => .pure (Maybe.some ?_)
      refine .intro trivial ?_
      simpa [Node.fields, Expr.fields] using ⟨Expr.allC_identifier _, hvalues⟩
    · exact .pure Maybe.none

theorem variableDecls (specs : Specifiers) (type : String) :
    Yields source (Each (VarDecl.AllC source)) (g.variableDecls specs type) := by
  have hvariable : ∀ type, Yields source (VarDecl.AllC source) (g.variableOf specs.storage? type) := by
    intro type
    unfold Grammar.variableOf
    refine .after fun name => hg.dimensions.bind fun dimensions hdimensions => ?_
    refine (hg.variableInit type).bind fun init? hinit => .pure ?_
    exact Stmt.allC_var hinit hdimensions
  unfold Grammar.variableDecls
  exact (Yields.chain hvariable type).bind fun vs hvs => .after fun _ => .pure hvs

/-! ### Functions -/

/-- The rest of a function is of C if its parameters are. -/
theorem functionRest (specs : Specifiers) (type name : String) {ps : List Parameter}
    (hps : Each (Parameter.AllC source) ps) :
    Yields source (fun f => (Decl.function f).AllC source) (g.functionRest specs type name ps) := by
  unfold Grammar.functionRest
  refine .after fun q => hg.functionBody.bind fun body? hbody => .pure ?_
  exact Decl.allC_function hps hbody

theorem functionOrVariable (specs : Specifiers) (type : String) :
    Yields source (Stmt.AllC source) (g.functionOrVariable specs type) := by
  unfold Grammar.functionOrVariable
  refine .after fun name => hg.parameters.strictly.speculate.bind fun ps? hps => ?_
  split
  · rename_i ps
    refine (hg.functionRest specs type name (hps ps rfl)).bind fun f hf => .pure ?_
    exact Stmt.allC_decl hf
  · have harguments : Yields source (Each (Expr.AllC source)) g.directArguments := by
      unfold Grammar.directArguments
      refine .after fun _ => (hg.arguments .rparen).bind fun values hvalues => ?_
      exact .after fun _ => .pure hvalues
    refine harguments.speculate.bind fun values? hvalues => ?_
    split
    · rename_i values
      refine .pure (Stmt.allC_var (Maybe.some (.intro trivial ?_)) fun e he => nomatch he)
      simpa [Node.fields, Expr.fields] using ⟨Expr.allC_identifier _, hvalues values rfl⟩
    · refine hg.parameters.leniently.bind fun ps hps => ?_
      refine (hg.functionRest specs type name hps).bind fun f hf => .pure ?_
      exact Stmt.allC_decl hf

/-! ### Constructors and destructors -/

theorem memberInit (bases : List BaseClass) :
    Yields source (fun i => Node.AllC source (.memberInit i)) (g.memberInit bases) := by
  have hvalues : Yields source (Each (Expr.AllC source)) g.memberInitValues := by
    unfold Grammar.memberInitValues
    refine .after fun parens => ?_
    split
    · exact hg.arguments .rparen
    · refine .after fun braces => ?_
      split
      · exact hg.initializerList
      · exact .expected _
  unfold Grammar.memberInit
  refine .after fun path => hvalues.bind fun values hvalues => .after fun _ => .after fun isKnown => ?_
  exact .pure (.intro trivial (by simpa [Node.fields] using hvalues))

theorem constructorRest (name : String) (access : Access) (isExplicit : Bool)
    {ps : List Parameter} (hps : Each (Parameter.AllC source) ps) (bases : List BaseClass) :
    Yields source (fun c => (Decl.constructor c).AllC source)
      (g.constructorRest name access isExplicit ps bases) := by
  have hrest : ∀ inits, Each (fun i => Node.AllC source (.memberInit i)) inits →
      Yields source (fun c => (Decl.constructor c).AllC source)
        (do return ConstructorDecl.mk name access isExplicit ps inits (← g.functionBody)) := by
    intro inits hinits
    refine hg.functionBody.bind fun body? hbody => .pure (.intro trivial ?_)
    simpa [Node.fields, Decl.fields] using ⟨hps, hinits, hbody⟩
  unfold Grammar.constructorRest
  refine .after fun _ => .after fun colon => ?_
  dsimp only
  split
  · exact (Yields.separated (hg.memberInit bases)).bind hrest
  · exact hrest [] Each.nil

theorem destructorRest (name : String) (access : Access) (isVirtual : Bool) :
    Yields source (fun d => (Decl.destructor d).AllC source)
      (g.destructorRest name access isVirtual) := by
  unfold Grammar.destructorRest
  refine .after fun _ => .after fun _ => hg.functionBody.bind fun body? hbody => ?_
  exact .pure (.intro trivial (by simpa [Node.fields, Decl.fields] using hbody))

/-! ### Definitions of types -/

theorem classType : Yields source (fun c => (Decl.classType c).AllC source) g.classType := by
  unfold Grammar.classType
  refine .advance hg.isC fun t ht => .after fun name => .after fun _ => .after fun k => ?_
  have hkey := ClassKey.ofKind_ne_classKey ht
  have hbody : Yields source (fun c => (Decl.classType c).AllC source) (do
      let key := ClassKey.ofKind t.kind
      let bases ← baseClasses key
      Parse.skipOver .lbrace "to start class body"
      let members ← g.parse (.members (TypeText.plain name) bases key.defaultAccess)
      Parse.closeBrace "to close class body"
      return ClassDecl.ofKey key name bases members false) := by
    refine .after fun bases => .after fun _ => ?_
    refine (hg.parseMembers _ _ _).bind fun ds hds => .after fun _ => .pure ?_
    exact Decl.allC_classType hkey hds
  split
  · exact hbody
  · exact hbody
  · exact .pure (Decl.allC_classType hkey Each.nil)

theorem enumType : Yields source (fun e => (Decl.enumType e).AllC source) g.enumType := by
  have henumerator : Yields source (fun e => Node.AllC source (.enumerator e)) g.enumerator := by
    unfold Grammar.enumerator
    refine .after fun name => (hg.expression.optionalAfter .assign).bind fun value? hvalue => ?_
    exact .pure (.intro trivial (by simpa [Node.fields] using hvalue))
  have henumerators : Yields source (Each fun e => Node.AllC source (.enumerator e))
      g.enumerators := by
    unfold Grammar.enumerators
    refine .after fun braces => ?_
    split
    · exact (Yields.commaList _ henumerator).bind fun es hes => .after fun _ => .pure hes
    · exact .pure Each.nil
  unfold Grammar.enumType
  refine .after fun _ => .after fun isScoped => .after fun name => .after fun underlying? => ?_
  refine henumerators.bind fun es hes => .pure (.intro trivial ?_)
  simpa [Node.fields, Decl.fields] using hes

theorem typeDefinition? :
    Yields source (Maybe fun t => t.decl.AllC source) g.typeDefinition? := by
  unfold Grammar.typeDefinition?
  refine .after fun atClass => ?_
  split
  · exact hg.classType.bind fun c hc => .pure (Maybe.some hc)
  · refine .after fun v => ?_
    split
    · exact hg.enumType.bind fun e he => .pure (Maybe.some he)
    · exact .pure Maybe.none

theorem typedefs : Yields source (Each (Decl.AllC source)) g.typedefs := by
  have hsynonym : ∀ type (definition? : Option Decl) d, Maybe (Decl.AllC source) definition? →
      Yields source (Decl.AllC source) (synonymOf type definition? d) := by
    intro type definition? d hdefinition
    unfold Parse.synonymOf
    refine .after fun _ => .pure (.intro trivial ?_)
    simpa [Node.fields, SynonymDeclarator.decl, Decl.fields] using hdefinition
  have htarget : Yields source (fun r => Maybe (Decl.AllC source) r.2) g.synonymTarget := by
    unfold Grammar.synonymTarget
    refine hg.typeDefinition?.bind fun t? ht => ?_
    split
    · rename_i t
      exact .pure (Maybe.some (ht t rfl))
    · exact .after fun type => .pure Maybe.none
  have hmore : ∀ type, Yields source (Each (Decl.AllC source)) (moreSynonyms type) := by
    intro type
    unfold Parse.moreSynonyms
    refine .after fun more => ?_
    split
    · exact .separated (.after fun d => hsynonym type none d Maybe.none)
    · exact .pure Each.nil
  unfold Grammar.typedefs
  refine .after fun _ => htarget.bind fun target htarget => .after fun d => ?_
  refine (hsynonym _ _ d htarget).bind fun first hfirst => (hmore _).bind fun rest hrest => ?_
  exact .after fun _ => .pure (Each.cons hfirst hrest)

omit hg in
theorem directive : Yields source (Decl.AllC source) directive := by
  have hdirective : ∀ name value, (Decl.directive name value).AllC source :=
    fun name value => .intro trivial (by simp [Node.fields, Decl.fields])
  unfold Parse.directive
  refine .after fun t => ?_
  split
  · exact .pure (hdirective _ _)
  · exact .after fun start => .after fun stop => .after fun _ => .after fun text =>
      .pure (hdirective _ _)

/-! ### Members -/

theorem memberHead (owner : String) :
    Yields source (Maybe (MemberHead.AllC source)) (g.memberHead owner) := by
  have hconstructor : Yields source (MemberHead.AllC source) (g.constructorHead owner) := by
    unfold Grammar.constructorHead
    refine .after fun specs => .after fun name => .after fun paren => ?_
    dsimp only
    split
    · exact .after fun _ => hg.parameters.bind fun ps hps => .after fun _ => .pure hps
    · exact hg.parameters.bind fun ps hps => .after fun _ => .pure hps
  have hdestructor : Yields source (MemberHead.AllC source) (destructorHead owner) := by
    unfold Parse.destructorHead
    refine .after fun specs => .after fun _ => .after fun name => ?_
    dsimp only
    split
    · refine .after fun _ => .after fun paren => ?_
      split
      · exact .pure trivial
      · exact .after fun _ => .pure trivial
    · refine .after fun paren => ?_
      split
      · exact .pure trivial
      · exact .after fun _ => .pure trivial
  have hoperator : Yields source (MemberHead.AllC source) g.operatorHead := by
    unfold Grammar.operatorHead
    refine .after fun _ => .check hg.isC (by decide) ?_
    exact .after fun type => .skipOver hg.isC (by decide)
  have hmethod : Yields source (MemberHead.AllC source) g.methodHead := by
    unfold Grammar.methodHead
    refine .after fun specs => .after fun type => .after fun name => .after fun _ => ?_
    exact hg.parameters.bind fun ps hps => .after fun _ => .pure hps
  have hfield : Yields source (MemberHead.AllC source) fieldHead := by
    unfold Parse.fieldHead
    exact .after fun specs => .after fun type => .after fun name => .after fun _ => .pure trivial
  unfold Grammar.memberHead
  refine .firstOf fun p hp => ?_
  obtain ⟨head, hhead, rfl⟩ := List.mem_map.1 hp
  simp only [List.mem_cons, List.not_mem_nil, or_false] at hhead
  rcases hhead with rfl | rfl | rfl | rfl | rfl
  · exact hconstructor.leniently
  · exact hdestructor.leniently
  · exact hoperator.leniently
  · exact hmethod.leniently
  · exact hfield.leniently

theorem fields (specs : Specifiers) (access : Access) (type name : String) :
    Yields source (Each (Decl.AllC source)) (g.fields specs access type name) := by
  have hinit : Yields source (Maybe (Expr.AllC source)) g.fieldInit := by
    unfold Grammar.fieldInit
    refine .after fun assigned => ?_
    split
    · exact hg.initializer.map fun value hvalue => Maybe.some hvalue
    · refine .after fun brace => ?_
      split
      · exact hg.bracedList.map fun value hvalue => Maybe.some hvalue
      · exact .pure Maybe.none
  have hfield : ∀ declared, Yields source (fun f => (Decl.field f).AllC source)
      (g.fieldOf specs access declared) := by
    intro declared
    unfold Grammar.fieldOf
    refine hg.dimensions.bind fun dimensions hdimensions => ?_
    refine (hg.parseConditional.optionalAfter .colon).bind fun bitWidth? hwidth => ?_
    refine hinit.bind fun init? hinit => .pure (.intro trivial ?_)
    simpa [Node.fields, Decl.fields] using ⟨hinit, hdimensions, hwidth⟩
  unfold Grammar.fields
  refine (Yields.chain hfield (type, name)).bind fun fs hfs => .after fun _ => .pure ?_
  exact List.forall_mem_map.2 hfs

/-- The rest of a member is of C if its head is. -/
theorem memberRest (owner : String) (bases : List BaseClass) (access : Access)
    {head : MemberHead} (hhead : head.AllC source) :
    Yields source (Each (Decl.AllC source)) (g.memberRest owner bases access head) := by
  cases head with
  | constructor specs ps =>
    refine (hg.constructorRest owner access specs.isExplicit hhead bases).bind fun c hc => ?_
    exact .pure (Each.single hc)
  | destructor specs =>
    refine (hg.destructorRest ("~" ++ owner) access specs.isVirtual).bind fun d hd => ?_
    exact .pure (Each.single hd)
  | operator type symbol ps => exact hhead.elim
  | method specs type name ps =>
    refine .after fun q => hg.functionBody.bind fun body? hbody => .pure (Each.single ?_)
    have hps : Each (Parameter.AllC source) ps := hhead
    exact .intro trivial (by simpa [Node.fields, Decl.fields] using ⟨hps, hbody⟩)
  | field specs type name => exact hg.fields specs access type name

theorem plainMember (owner : String) (bases : List BaseClass) (access : Access) :
    Yields source (Each (Decl.AllC source)) (g.plainMember owner bases access) := by
  unfold Grammar.plainMember
  refine .kind hg.isC fun k hk => ?_
  split
  · exact .after fun _ => .pure Each.nil
  · exact hg.typedefs
  · exact absurd hk (by decide)
  · exact absurd hk (by decide)
  · exact absurd hk (by decide)
  · exact absurd hk (by decide)
  · split
    · exact directive.bind fun d hd => .pure (Each.single hd)
    · refine (hg.memberHead owner).bind fun head? hhead => ?_
      split
      · rename_i head
        exact hg.memberRest owner bases access (hhead head rfl)
      · exact .after fun _ => .pure Each.nil

theorem member (owner : String) (bases : List BaseClass) (access : Access) :
    Yields source (fun r => Each (Decl.AllC source) r.2) (g.member owner bases access) := by
  unfold Grammar.member
  refine .after fun access? => ?_
  split
  · exact .pure Each.nil
  · refine hg.typeDefinition?.bind fun t? ht => ?_
    split
    · rename_i t
      have hrest : Yields source (Each (Decl.AllC source)) (g.nestedTypeRest access t) := by
        unfold Grammar.nestedTypeRest
        refine .after fun bare => ?_
        split
        · exact .pure (Each.single (ht t rfl))
        · refine .after fun type => .after fun name => ?_
          exact (hg.fields {} access type name).bind fun ds hds => .pure (Each.cons (ht t rfl) hds)
      exact hrest.bind fun ds hds => .pure hds
    · exact (hg.plainMember owner bases access).bind fun ds hds => .pure hds

theorem members (owner : String) (bases : List BaseClass) (access : Access) :
    Yields source (Each (Decl.AllC source)) (g.members owner bases access) := by
  unfold Grammar.members
  refine .rounds (fun round => ?_) _
  unfold Grammar.memberRound
  refine .after fun k => ?_
  dsimp only
  split
  · exact .pure Maybe.none
  · refine .after fun limit => ?_
    split
    · exact .failure fun s => ⟨_, s, rfl⟩
    · refine (hg.member owner bases round.2).attempt.bind fun r? hr => .pure (Maybe.some ?_)
      cases r? with
      | none => exact Each.nil
      | some r => exact hr r rfl

/-! ### Declarations and items -/

theorem declaration? : Yields source (Maybe (Stmt.AllC source)) g.declaration? := by
  have hform : Yields source (fun r => r.2.2 ≠ .operator) declarationHead := by
    have hlook : ∀ {f : Option DeclarationForm → Parse (String × DeclarationForm)},
        (∀ form?, form? ≠ some .operator → Yields source (fun r => r.2 ≠ .operator) (f form?)) →
        Yields source (fun r => r.2 ≠ .operator) (lookAhead View.declarationForm? >>= f) := by
      intro f hf s r t hrun
      rw [run_bind_ok (run_lookAhead _)] at hrun
      refine hf _ ?_ s r t hrun
      have hcpp : (source.view s).isCpp = false := by
        show (source.settings.dialect == .cpp) = false
        rw [hg.isC.dialect]
        rfl
      unfold View.declarationForm?
      rw [hcpp, Bool.false_and, if_neg Bool.false_ne_true]
      split <;> exact nofun
    unfold declarationHead
    refine .after fun specs => .after fun v => ?_
    have hformed : Yields source (fun r => r.2 ≠ .operator) formedType := by
      unfold formedType
      refine .after fun type => hlook fun form? hform => ?_
      split
      · exact .pure fun h => hform (congrArg some h)
      · exact .unexpected _
    dsimp only
    split
    · exact hformed.bind fun r hr => .pure hr
    · exact .after fun _ => hformed.bind fun r hr => .pure hr
  unfold Grammar.declaration?
  refine hform.speculate.bind fun head? hhead => ?_
  split
  · exact .pure Maybe.none
  · exact absurd rfl (hhead _ rfl)
  · exact (hg.functionOrVariable _ _).map fun s hs => Maybe.some hs
  · refine (hg.variableDecls _ _).bind fun vs hvs => .pure ?_
    exact Maybe.some (Stmt.allC_ofVariables hvs)

theorem definitionRest {t : TypeDefinition} (ht : t.decl.AllC source) :
    Yields source (Stmt.AllC source) (g.definitionRest t) := by
  unfold Grammar.definitionRest
  refine .after fun bare => ?_
  split
  · exact .pure (Stmt.allC_decl ht)
  · refine .after fun atEnd => ?_
    split
    · exact .after fun e => .after fun _ => .pure (Stmt.allC_decl ht)
    · refine .after fun type => (hg.variableDecls {} type).bind fun vs hvs => .pure ?_
      exact Stmt.allC_block (Each.cons (Stmt.allC_decl ht) (List.forall_mem_map.2 hvs))

theorem linkage : Yields source (Stmt.AllC source) g.linkage := by
  unfold Grammar.linkage
  refine .after fun _ => .after fun _ => .after fun several => ?_
  split
  · exact hg.parseItems.bind fun body hbody => .after fun _ => .pure (Stmt.allC_block hbody)
  · refine hg.parseItem.bind fun s? hs => .pure ?_
    cases s? with
    | none => exact Stmt.allC_block Each.nil
    | some s => exact hs s rfl

theorem namedDeclaration? : Yields source (Maybe (Stmt.AllC source)) g.namedDeclaration? := by
  unfold Grammar.namedDeclaration?
  refine hg.typeDefinition?.bind fun t? ht => ?_
  split
  · rename_i t
    exact (hg.definitionRest (ht t rfl)).map fun s hs => Maybe.some hs
  · refine .kind hg.isC fun k hk => .kindAhead hg.isC fun next hnext => ?_
    split
    · exact absurd hk (by decide)
    · exact absurd hnext (by decide)
    · exact absurd hk (by decide)
    · exact hg.typedefs.bind fun ds hds => .pure (Maybe.some (Stmt.allC_ofDecls hds))
    · exact absurd hk (by decide)
    · exact hg.linkage.map fun s hs => Maybe.some hs
    · exact absurd hk (by decide)
    · split
      · exact directive.bind fun d hd => .pure (Maybe.some (Stmt.allC_decl hd))
      · exact .pure Maybe.none

theorem item : Yields source (Maybe (Stmt.AllC source)) g.item := by
  unfold Grammar.item
  refine hg.namedDeclaration?.bind fun s? hs => ?_
  split
  · exact .pure hs
  · have hspecial : Yields source (· = none) g.special? := by
      unfold Grammar.special?
      exact .isCpp hg.isC (.after fun here => .pure rfl)
    refine hspecial.bind fun d? hd => ?_
    subst hd
    refine hg.declaration?.bind fun s? hs => ?_
    split
    · exact .pure hs
    · exact hg.parseStatement

theorem items (inNamespace : Bool) :
    Yields source (Each (Stmt.AllC source)) (g.items inNamespace) := by
  unfold Grammar.items
  refine .rounds (fun round => ?_) 0
  unfold Grammar.itemRound
  refine .after fun k => ?_
  split
  · exact .pure Maybe.none
  · split
    · exact .pure Maybe.none
    · exact .after fun _ => .pure (Maybe.some Each.nil)
  · refine .after fun limit => ?_
    dsimp only
    split
    · exact .after fun e => .after fun _ => .pure Maybe.none
    · refine hg.item.attempt.bind fun s? hs => .pure (Maybe.some fun s hmem => ?_)
      have hjoin : s?.join = some s := Option.mem_toList.1 hmem
      exact hs _ (Option.join_eq_some_iff.1 hjoin) s rfl

end OfC

end Grammar

end CTree
