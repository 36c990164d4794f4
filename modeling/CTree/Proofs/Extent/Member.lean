import CTree.Proofs.Extent.Declaration

/-!
# Members and items that fit

Members of classes, and the items of a translation unit or a namespace.
-/

namespace CTree

open Parse

variable {source : Source}

/-- The texts in the head of a member take one line, and its parameters fit. -/
def MemberHead.Fits (source : Source) : MemberHead → Prop
  | .constructor _ ps => Each (Parameter.AllFit source) ps
  | .destructor _ => True
  | .operator _ symbol ps => source.InLine symbol ∧ Each (Parameter.AllFit source) ps
  | .method _ type name ps => source.InLine type ∧ source.InLine name ∧ Each (Parameter.AllFit source) ps
  | .field _ type name => source.InLine type ∧ source.InLine name

namespace Grammar

namespace Fits

variable {g : Grammar} (hg : g.Fits source)

/-! ### Heads of members -/

theorem destructorHead (owner : String) :
    Yields source (MemberHead.Fits source) (Parse.destructorHead owner) := by
  unfold Parse.destructorHead
  refine .after fun specs => .after fun _ => .after fun name => ?_
  have hrest : Yields source (MemberHead.Fits source) (do
      unless ← check .lparen do
        expected "'(' after destructor name"
      return .destructor specs) := by
    refine .after fun paren => ?_
    split
    · exact .pure trivial
    · exact .after fun _ => .pure trivial
  dsimp only
  split
  · exact .after fun _ => hrest
  · exact hrest

theorem fieldHead : Yields source (MemberHead.Fits source) Parse.fieldHead := by
  unfold Parse.fieldHead
  refine .after fun specs => Source.InLine.typeName.bind fun type htype => ?_
  refine (Source.InLine.declaredName (.name _) (.name _)).bind fun r hr => .after fun _ => .pure ?_
  exact ⟨htype.append hr.2, hr.1⟩

section Members

include hg

theorem constructorHead (owner : String) :
    Yields source (MemberHead.Fits source) (g.constructorHead owner) := by
  unfold Grammar.constructorHead
  refine .after fun specs => .after fun name => .after fun paren => ?_
  have hrest : Yields source (MemberHead.Fits source) (do
      let ps ← g.parameters
      demand TokenKind.followsParameters "not a constructor"
      return .constructor specs ps) :=
    hg.parameters.bind fun ps hps => .after fun _ => .pure hps
  dsimp only
  split
  · exact .after fun _ => hrest
  · exact hrest

theorem operatorHead : Yields source (MemberHead.Fits source) g.operatorHead := by
  have hrest (type : String) : Yields source (MemberHead.Fits source) (do
      skipOver .kwOperator
      let symbol ← operatorSymbol
      let ps ← g.parameters
      return .operator (if type.isEmpty then symbol else type) symbol ps) :=
    .after fun _ => Source.InLine.operatorSymbol.bind fun symbol hsymbol =>
      hg.parameters.bind fun ps hps => .pure ⟨hsymbol, hps⟩
  unfold Grammar.operatorHead
  refine .after fun _ => .after fun conversion => ?_
  dsimp only
  split
  · exact hrest _
  · exact .after fun type => hrest type

theorem methodHead : Yields source (MemberHead.Fits source) g.methodHead := by
  unfold Grammar.methodHead
  refine .after fun specs => Source.InLine.typeName.bind fun type htype => ?_
  refine (Source.InLine.name _).bind fun name hname => .after fun _ => ?_
  exact hg.parameters.bind fun ps hps => .after fun _ => .pure ⟨htype, hname, hps⟩

theorem memberHead (owner : String) :
    Yields source (Maybe (MemberHead.Fits source)) (g.memberHead owner) := by
  unfold Grammar.memberHead
  refine .firstOf fun p hp => ?_
  obtain ⟨head, hhead, rfl⟩ := List.mem_map.1 hp
  simp only [List.mem_cons, List.not_mem_nil, or_false] at hhead
  rcases hhead with rfl | rfl | rfl | rfl | rfl
  · exact (hg.constructorHead owner).leniently
  · exact (destructorHead owner).leniently
  · exact hg.operatorHead.leniently
  · exact hg.methodHead.leniently
  · exact fieldHead.leniently

/-! ### Members -/

theorem fields (specs : Specifiers) (access : Access) {type name : String} (htype : source.InLine type)
    (hname : source.InLine name) :
    Yields source (Each (Decl.AllFit source)) (g.fields specs access type name) := by
  have hinit : Yields source (Maybe (Expr.AllFit source)) g.fieldInit := by
    unfold Grammar.fieldInit
    refine .after fun assigned => ?_
    split
    · exact hg.initializer.map fun value hvalue => Maybe.some hvalue
    · refine .after fun brace => ?_
      split
      · exact hg.bracedList.map fun value hvalue => Maybe.some hvalue
      · exact .pure Maybe.none
  have hfield (r : String × String) (hr : source.InLine r.1 ∧ source.InLine r.2) :
      Yields source (fun f => (Decl.field f).AllFit source) (g.fieldOf specs access r) := by
    unfold Grammar.fieldOf
    refine hg.dimensions.bind fun ds hds => (hg.parseConditional.optionalAfter _).bind fun width? hwidth => ?_
    refine hinit.bind fun init? hinit => .pure (Decl.fits (List.forall_mem_nil _) (.words ?_) ?_)
    · exact Each.cons (.ofAccess _) (Each.cons hr.1 (Each.single hr.2))
    · simp only [Decl.parts, List.forall_mem_append, Node.forall_mem_optional, Node.forall_mem_ofSizes]
      exact ⟨⟨hds, hwidth⟩, hinit⟩
  have hnext : Yields source (fun r : String × String => source.InLine r.1 ∧ source.InLine r.2) (do
      let type ← takeTexts TokenKind.isPointerMark (TypeText.base type)
      return (type, ← Parse.name "in member declaration")) :=
    (Source.InLine.takeTexts _ htype.base).bind fun type htype =>
      (Source.InLine.name _).bind fun name hname => .pure ⟨htype, hname⟩
  unfold Grammar.fields
  refine (Yields.chainOf hfield hnext ⟨htype, hname⟩).bind fun fs hfs => .after fun _ => .pure ?_
  exact List.forall_mem_map.2 hfs

theorem memberRest {owner : String} (howner : source.InLine owner) (bases : List BaseClass)
    (access : Access) {head : MemberHead} (hhead : head.Fits source) :
    Yields source (Each (Decl.AllFit source)) (g.memberRest owner bases access head) := by
  cases head with
  | constructor specs ps =>
    refine (hg.constructorRest access specs.isExplicit howner hhead bases).bind fun c hc => ?_
    exact .pure (Each.single hc)
  | destructor specs =>
    have hname : source.InLine ("~" ++ owner) := .append (.const (by decide)) howner
    exact (hg.destructorRest access specs.isVirtual hname).bind fun d hd => .pure (Each.single hd)
  | operator type symbol ps =>
    refine .after fun q => hg.functionBody.bind fun body? hbody => .pure (Each.single ?_)
    exact Decl.fits_operator hhead.1 hhead.2 hbody
  | method specs type name ps =>
    obtain ⟨htype, hname, hps⟩ := hhead
    refine Source.InLine.functionQualifiers.bind fun q hq => hg.functionBody.bind fun body? hbody => ?_
    exact .pure (Each.single (Decl.fits_method (.returnType hq htype) hname hps hbody))
  | field specs type name => exact hg.fields specs access hhead.1 hhead.2

omit hg in
theorem friend : Yields source (Decl.AllFit source) Parse.friend := by
  unfold Parse.friend
  refine .after fun _ => .after fun start => .after fun v => .after fun _ => ?_
  refine (Source.InLine.textSince start).bind fun text htext => .after fun brace => ?_
  have hfriend : (Decl.friend text).AllFit source := Decl.fits_plain rfl htext rfl
  dsimp only
  split <;> exact .after fun _ => .pure hfriend

/-- A member without a definition of a type. Where a directive stands, it is looked at as such. -/
theorem plainMember {owner : String} (howner : source.InLine owner) (bases : List BaseClass)
    (access : Access) : Yields source (Each (Decl.AllFit source)) (g.plainMember owner bases access) := by
  intro s ds t hrun
  unfold Grammar.plainMember at hrun
  rw [run_bind_ok run_kind] at hrun
  split at hrun
  · exact (Yields.after fun _ => .pure Each.nil) s ds t hrun
  · exact hg.typedefs s ds t hrun
  · exact (usingDeclaration.bind fun d hd => .pure (Each.single hd)) s ds t hrun
  · exact (hg.template.bind fun d hd => .pure (Each.single hd)) s ds t hrun
  · exact (hg.staticAssertion.bind fun d hd => .pure (Each.single hd)) s ds t hrun
  · exact (friend.bind fun d hd => .pure (Each.single hd)) s ds t hrun
  · split at hrun
    · rename_i hdirective
      obtain ⟨d, u, hd, hrest⟩ := exists_of_run_bind hrun
      cases hrest
      exact Each.single (directive hdirective hd)
    · refine ((hg.memberHead owner).bind fun head? hhead => ?_) s ds t hrun
      split
      · exact hg.memberRest howner bases access (hhead _ rfl)
      · exact .after fun _ => .pure Each.nil

theorem member {owner : String} (howner : source.InLine owner) (bases : List BaseClass)
    (access : Access) :
    Yields source (fun r => Each (Decl.AllFit source) r.2) (g.member owner bases access) := by
  unfold Grammar.member
  refine .after fun access? => ?_
  split
  · exact .pure Each.nil
  · refine hg.typeDefinition?.bind fun t? ht => ?_
    split
    · rename_i t
      obtain ⟨hdecl, hkeyword, hname⟩ := ht t rfl
      have hrest : Yields source (Each (Decl.AllFit source)) (g.nestedTypeRest access t) := by
        unfold Grammar.nestedTypeRest
        refine .after fun bare => ?_
        split
        · exact .pure (Each.single hdecl)
        · refine (Source.InLine.takeTexts _ (.ofDefinition hkeyword hname)).bind fun type htype => ?_
          refine (Source.InLine.name _).bind fun name hname => ?_
          exact (hg.fields {} access htype hname).bind fun ds hds => .pure (Each.cons hdecl hds)
      exact hrest.bind fun ds hds => .pure hds
    · exact (hg.plainMember howner bases access).bind fun ds hds => .pure hds

theorem members {owner : String} (howner : source.InLine owner) (bases : List BaseClass)
    (access : Access) : Yields source (Each (Decl.AllFit source)) (g.members owner bases access) := by
  unfold Grammar.members
  refine .rounds (fun round => ?_) _
  unfold Grammar.memberRound
  refine .after fun k => ?_
  dsimp only
  split
  · exact .pure Maybe.none
  · refine .after fun limit => ?_
    split
    · exact .failure fun s => ⟨_, s, rfl⟩
    · refine (hg.member howner bases round.2).attempt.bind fun r? hr => .pure (Maybe.some ?_)
      cases r? with
      | none => exact Each.nil
      | some r => exact hr r rfl

end Members

/-! ### Declarations that begin with a type -/

theorem declarationHead :
    Yields source (fun r : Specifiers × String × DeclarationForm => source.InLine r.2.1)
      Parse.declarationHead := by
  have hformed : Yields source (fun r : String × DeclarationForm => source.InLine r.1) formedType := by
    unfold formedType
    refine Source.InLine.typeName.bind fun type htype => .after fun form? => ?_
    split
    · exact .pure htype
    · exact .unexpected _
  unfold Parse.declarationHead
  refine .after fun specs => .after fun v => ?_
  dsimp only
  split
  · exact hformed.bind fun r hr => .pure hr
  · exact .after fun _ => hformed.bind fun r hr => .pure hr

theorem specialPath : Yields source (fun p : SpecialPath => source.InLine p.text) Parse.specialPath := by
  have hextend {p : SpecialPath} (hp : source.InLine p.text) (isDestructor : Bool) {name : String}
      (hname : source.InLine name) : source.InLine (p.extend isDestructor name).text := by
    refine ((hp.append (.const (by decide))).append ?_).append hname
    split
    · exact .const (by decide)
    · exact .empty
  have hsegment {p : SpecialPath} (hp : source.InLine p.text) :
      Yields source (Maybe fun p : SpecialPath => source.InLine p.text) (specialSegment p) := by
    unfold specialSegment
    split
    · exact .pure Maybe.none
    · refine .after fun colons => ?_
      split
      · refine .after fun tilde => ?_
        split
        · exact (Source.InLine.name _).bind fun name h => .pure (Maybe.some (hextend hp true h))
        · exact (Source.InLine.name _).bind fun name h => .pure (Maybe.some (hextend hp false h))
      · exact .pure Maybe.none
  unfold Parse.specialPath
  refine .after fun _ => (Source.InLine.name _).bind fun first hfirst => ?_
  refine (Yields.iterate (fun p hp => hsegment hp) hfirst).bind fun path hpath => .after fun paren => ?_
  split
  · exact .pure hpath
  · exact .unexpected _

section Items

include hg

theorem declaration? : Yields source (Maybe (Stmt.AllFit source)) g.declaration? := by
  unfold Grammar.declaration?
  refine declarationHead.speculate.bind fun head? hhead => ?_
  split
  · exact .pure Maybe.none
  · exact (hg.freeOperator _).bind fun o ho => .pure (Maybe.some (Stmt.fits_decl ho))
  · exact (hg.functionOrVariable _ (hhead _ rfl)).map fun s hs => Maybe.some hs
  · refine (hg.variableDecls _ (hhead _ rfl)).bind fun vs hvs => .pure ?_
    exact Maybe.some (Stmt.fits_ofVariables hvs)

theorem special? : Yields source (Maybe (Decl.AllFit source)) g.special? := by
  have hrest {path : SpecialPath} (hpath : source.InLine path.text) :
      Yields source (Decl.AllFit source) (g.specialRest path) := by
    unfold Grammar.specialRest
    split
    · exact (hg.destructorRest _ _ hpath).bind fun d hd => .pure hd
    · refine hg.parameters.leniently.bind fun ps hps => ?_
      exact (hg.constructorRest _ _ hpath hps _).bind fun c hc => .pure hc
  unfold Grammar.special?
  refine .after fun cpp => .after fun here => ?_
  split
  · exact .pure Maybe.none
  · refine specialPath.speculate.bind fun path? hpath => ?_
    split
    · exact .pure Maybe.none
    · exact (hrest (hpath _ rfl)).bind fun d hd => .pure (Maybe.some hd)

theorem definitionRest {t : TypeDefinition} (hdecl : t.decl.AllFit source)
    (hkeyword : source.InLine t.keyword) (hname : source.InLine t.name) :
    Yields source (Stmt.AllFit source) (g.definitionRest t) := by
  have hmarks : Yields source source.InLine (definitionMarks t.type) := by
    unfold definitionMarks
    refine .iterate (fun type htype => .after fun k => ?_) (.ofDefinition hkeyword hname)
    split
    · exact Source.InLine.advance.bind fun t ht => .pure (Maybe.some (htype.append ht))
    · exact Source.InLine.advance.bind fun t ht => .pure (Maybe.some (htype.append ht))
    · refine Source.InLine.advance.bind fun t ht => .pure (Maybe.some ?_)
      exact (htype.append (.const (by decide))).append ht
    · exact .pure Maybe.none
  unfold Grammar.definitionRest
  refine .after fun bare => ?_
  split
  · exact .pure (Stmt.fits_decl hdecl)
  · refine .after fun atEnd => ?_
    split
    · exact .after fun e => .after fun _ => .pure (Stmt.fits_decl hdecl)
    · refine hmarks.bind fun type htype => (hg.variableDecls {} htype).bind fun vs hvs => .pure ?_
      exact Stmt.fits_block (Each.cons (Stmt.fits_decl hdecl) (List.forall_mem_map.2 hvs))

theorem namespaceDeclaration : Yields source (Decl.AllFit source) g.namespaceDeclaration := by
  have hname : Yields source source.InLine namespaceName := by
    unfold namespaceName
    refine .after fun named => ?_
    split
    · exact Source.InLine.qualifiedName
    · exact .pure .empty
  unfold Grammar.namespaceDeclaration Grammar.namespaceRest
  refine .after fun _ => hname.bind fun name hname => .after fun assigned => ?_
  split
  · refine Source.InLine.qualifiedName.bind fun target htarget => .after fun _ => .pure ?_
    exact Decl.fits_usingAlias htarget hname
  · refine .after fun _ => hg.parseItems.bind fun body hbody => .after fun _ => .pure ?_
    exact Decl.fits (List.forall_mem_nil _) hname (List.forall_mem_map.2 hbody)

theorem linkage : Yields source (Stmt.AllFit source) g.linkage := by
  unfold Grammar.linkage
  refine .after fun _ => .after fun _ => .after fun several => ?_
  split
  · exact hg.parseItems.bind fun body hbody => .after fun _ => .pure (Stmt.fits_block hbody)
  · refine hg.parseItem.bind fun s? hs => .pure ?_
    cases s? with
    | none => exact Stmt.fits_block Each.nil
    | some s => exact hs s rfl

theorem namedDeclaration? : Yields source (Maybe (Stmt.AllFit source)) g.namedDeclaration? := by
  have hdecl {p : Parse Decl} (h : Yields source (Decl.AllFit source) p) :
      Yields source (Maybe (Stmt.AllFit source)) (do return some (.decl (← p))) :=
    h.bind fun d hd => .pure (Maybe.some (Stmt.fits_decl hd))
  unfold Grammar.namedDeclaration?
  refine hg.typeDefinition?.bind fun t? ht => ?_
  split
  · obtain ⟨h, hkeyword, hname⟩ := ht _ rfl
    exact (hg.definitionRest h hkeyword hname).map fun s hs => Maybe.some hs
  · intro s s? t hrun
    rw [run_bind_ok run_kind, run_bind_ok (run_kindAhead 1)] at hrun
    split at hrun
    · exact hdecl hg.namespaceDeclaration s s? t hrun
    · exact (Yields.after fun _ => hdecl hg.namespaceDeclaration) s s? t hrun
    · exact hdecl hg.template s s? t hrun
    · exact (hg.typedefs.bind fun ds hds => .pure (Maybe.some (Stmt.fits_ofDecls hds))) s s? t hrun
    · exact hdecl usingDeclaration s s? t hrun
    · exact (hg.linkage.map fun s hs => Maybe.some hs) s s? t hrun
    · exact hdecl hg.staticAssertion s s? t hrun
    · split at hrun
      · rename_i hdirective
        obtain ⟨d, u, hd, hrest⟩ := exists_of_run_bind hrun
        cases hrest
        exact Maybe.some (Stmt.fits_decl (directive hdirective hd))
      · cases hrun
        exact Maybe.none

theorem item : Yields source (Maybe (Stmt.AllFit source)) g.item := by
  unfold Grammar.item
  refine hg.namedDeclaration?.bind fun s? hs => ?_
  split
  · exact .pure hs
  · refine hg.special?.bind fun d? hd => ?_
    split
    · exact .pure (Maybe.some (Stmt.fits_decl (hd _ rfl)))
    · refine hg.declaration?.bind fun s? hs => ?_
      split
      · exact .pure hs
      · exact hg.parseStatement

theorem items (inNamespace : Bool) : Yields source (Each (Stmt.AllFit source)) (g.items inNamespace) := by
  unfold Grammar.items
  refine .rounds (fun round => ?_) 0
  unfold Grammar.itemRound
  refine .after fun k => ?_
  split
  · exact .pure Maybe.none
  · split
    · exact .pure Maybe.none
    · exact .after fun _ => .pure (Maybe.some Each.nil)
  · refine .after fun limit => ?_
    dsimp only
    split
    · exact .after fun e => .after fun _ => .pure Maybe.none
    · refine hg.item.attempt.bind fun s? hs => .pure (Maybe.some fun s hmem => ?_)
      have hjoin : s?.join = some s := Option.mem_toList.1 hmem
      exact hs _ (Option.join_eq_some_iff.1 hjoin) s rfl

end Items

end Fits

end Grammar

end CTree
