import CTree.Proofs.Tree.Declarator

/-!
# Sound definitions of types, synonyms and templates

A type is made known before anything else of it is read, and a name is never forgotten, so what a
declaration introduces is known wherever the declaration ends up in a tree.
-/

namespace CTree

open Parse

/-! ### Names and their template arguments -/

/-- Where no template arguments begin, nothing is cut off. -/
theorem Rule.IsWord.untilArguments_append {tag : String} (h : IsWord tag) (cs : List Char)
    (hcs : cs.takeWhile (· != '<') = []) :
    TypeText.untilArguments (String.ofList (tag.toList ++ cs)) = tag := by
  have hall : ∀ c ∈ tag.toList, (c != '<') = true := fun c hc => bne_iff_ne.2 (h.ne_angle c hc)
  have htake : (tag.toList ++ cs).takeWhile (· != '<') = tag.toList := by
    rw [List.takeWhile_append_of_pos hall, hcs, List.append_nil]
  rw [TypeText.untilArguments, String.toList_ofList, htake, String.ofList_toList]

theorem Rule.IsWord.untilArguments_self {tag : String} (h : IsWord tag) :
    TypeText.untilArguments tag = tag := by
  have hcut := h.untilArguments_append [] rfl
  rwa [List.append_nil, String.ofList_toList] at hcut

theorem Rule.IsWord.untilArguments_template {tag : String} (h : IsWord tag)
    (arguments : List String) : TypeText.untilArguments (templateText tag arguments) = tag := by
  have htext : templateText tag arguments = String.ofList
      (tag.toList ++ '<' :: (String.intercalate ", " arguments ++ ">").toList) := by
    apply String.toList_inj.1
    simp [templateText, String.append_assoc]
  rw [htext]
  exact h.untilArguments_append _ rfl

/-- Where a class is only declared, no bases follow. -/
theorem Parse.baseClasses_of_semicolon {source : Source} {s t : ParseState} {key : ClassKey}
    {bases : List BaseClass} (hkind : (source.view s).kind 0 = .semicolon)
    (hrun : (baseClasses key).run source s = (.ok bases, t)) : bases = [] := by
  have haccept : (accept .colon).run source s = (.ok false, s) := by
    unfold accept
    rw [run_bind_ok (run_check _), hkind]
    rfl
  unfold baseClasses at hrun
  rw [run_bind_ok haccept] at hrun
  cases hrun
  rfl

namespace Grammar

namespace Sound

open Lockstep

variable {source : Source} {known : KnownTypes} {room : Nat} {g : Grammar}

/-- A tag is a word, and it is known. -/
theorem tag (hwords : source.NamesAreWords) (keyword : String) : Gives source known room
    (fun tag => tag ≠ "" → Rule.IsWord tag ∧ tag ∈ known.names) (tag keyword) := by
  unfold Parse.tag
  refine (Gives.nameOrNone hwords).bind fun tag => ?_
  split
  · rename_i hempty
    refine .pure fun _ hne => ?_
    exact (hne (String.isEmpty_iff.1 hempty)).elim
  · refine (Gives.register tag).bind fun _ => .after (Lockstep.register _) fun _ => ?_
    exact .pure fun hknown hword hne => ⟨hword hne, hknown hne⟩

/-- The name of a class is known without its template arguments. -/
theorem className (hwords : source.NamesAreWords) (keyword : String) : Gives source known room
    (fun name => name ≠ "" → TypeText.untilArguments name ∈ known.names) (className keyword) := by
  unfold Parse.className
  refine (tag hwords keyword).bind fun tag => ?_
  refine .look (fun _ => rfl) fun cpp => .look (fun _ => rfl) fun angle => ?_
  split
  · rename_i hangle
    have hne : tag ≠ "" := by
      rintro rfl
      simp at hangle
    refine .after templateArguments fun arguments => .pure fun htag _ => ?_
    obtain ⟨hword, hknown⟩ := htag hne
    rwa [hword.untilArguments_template]
  · refine .pure fun htag hne => ?_
    obtain ⟨hword, hknown⟩ := htag hne
    rwa [hword.untilArguments_self]

section Definitions

variable (hg : g.Sound source known)
include hg

/-! ### Classes and enumerations -/

/-- The body of a class is one construct deeper than the class. -/
theorem classType : Gives source known room
    (fun c => (Decl.classType c).SoundAnywhere known room) g.classType := by
  unfold Grammar.classType
  refine .after advanceAnywhere fun t => (className hg.words _).bind fun name => ?_
  refine .after (acceptAnywhere .kwFinal) fun _ => .look (fun _ => rfl) fun k => ?_
  have hbody : Gives source known room
      (fun c => (name ≠ "" → TypeText.untilArguments name ∈ known.names) →
        (Decl.classType c).SoundAnywhere known room) (do
          let key := ClassKey.ofKind t.kind
          let bases ← baseClasses key
          Parse.skipOver .lbrace "to start class body"
          let members ← g.parse (.members (TypeText.plain name) bases key.defaultAccess)
          Parse.closeBrace "to close class body"
          return ClassDecl.ofKey key name bases members false) := by
    refine .after (Lockstep.baseClasses _) fun bases => ?_
    refine .after (skipOverAnywhere .lbrace _) fun _ => ?_
    refine (hg.parseMembers _ _ _).bind fun ds => .after (closeBrace _) fun _ => .pure ?_
    rintro ⟨inner, hlt, hds⟩ hname
    exact (Decl.sound_classType hname hlt hds).anywhere rfl rfl
  split
  · exact hbody
  · exact hbody
  · refine .pure fun hname => Decl.Sound.anywhere ?_ rfl rfl
    exact Decl.sound_declared hname (fun _ => rfl) (.inl rfl)

theorem enumerators : Gives source known room (Each (Enumerator.Sound known room)) g.enumerators := by
  have henumerator : Gives source known room (Enumerator.Sound known room) g.enumerator := by
    unfold Grammar.enumerator
    refine .after (Lockstep.name _) fun name => ?_
    refine (hg.expression.optionalAfter .assign).bind fun v => ?_
    exact .pure fun hv => Enumerator.sound_iff.2 hv
  unfold Grammar.enumerators
  refine .after (acceptAnywhere .lbrace) fun braces => ?_
  split
  · refine (Gives.commaList _ henumerator).bind fun es => ?_
    exact .after (closeBrace _) fun _ => .pure id
  · exact .pure Each.nil

theorem enumType : Gives source known room
    (fun e => (Decl.enumType e).SoundAnywhere known room) g.enumType := by
  unfold Grammar.enumType
  refine .after (skipOverAnywhere .kwEnum _) fun _ => .after scopeMark fun isScoped => ?_
  refine (tag hg.words _).bind fun name => ?_
  refine .after (optionalAfter .colon (leniently typeName) nofun) fun underlying? => ?_
  refine hg.enumerators.bind fun es => .pure fun hes hname => Decl.Sound.anywhere ?_ rfl rfl
  exact Decl.sound_enumType.2 ⟨fun hne => (hname hne).2, hes⟩

theorem typeDefinition? : Gives source known room
    (Maybe fun t => t.decl.SoundAnywhere known room) g.typeDefinition? := by
  unfold Grammar.typeDefinition?
  refine .look (fun _ => rfl) fun atClass => ?_
  split
  · exact hg.classType.bind fun c => .pure fun hc => Maybe.some hc
  · refine .look (fun _ => rfl) fun v => ?_
    split
    · exact hg.enumType.bind fun e => .pure fun he => Maybe.some he
    · exact .pure Maybe.none

/-! ### Synonyms -/

omit hg in
/-- The name of a declarator of a `typedef` is a word. -/
theorem synonymDeclarator (hwords : source.NamesAreWords) :
    Gives source known room (fun d => Rule.IsWord d.name) synonymDeclarator := by
  unfold Parse.synonymDeclarator
  refine .after (takeTexts _ _) fun pointers => .after atFunctionPointer fun pointer => ?_
  split
  · have hpointer : Gives source known room (fun r => Rule.IsWord r.1)
        (functionPointer (Parse.name "in function pointer typedef")) := by
      unfold Parse.functionPointer
      refine .after skipAnywhere fun _ => .after skipAnywhere fun _ => ?_
      refine (Gives.name hwords _).bind fun name => .after (skipOverAnywhere .rparen _) fun _ => ?_
      refine .look (fun _ => rfl) fun start => .after (skipBalanced _ _ (by decide)) fun _ => ?_
      exact .after textSince fun text => .pure id
    exact hpointer.bind fun r => .pure id
  · refine (Gives.name hwords _).bind fun name => .after (bracketTexts _) fun suffix => ?_
    exact .pure id

omit hg in
/-- A name that is given to a type is known. -/
theorem synonymOf (type : String) (definition? : Option Decl) (d : SynonymDeclarator) :
    Gives source known room (fun decl => Maybe (Decl.SoundAnywhere known room) definition? →
      Rule.IsWord d.name → decl.SoundAnywhere known room) (synonymOf type definition? d) := by
  unfold Parse.synonymOf
  refine (Gives.register d.name).bind fun _ => .pure fun hknown hdefinition hword => ?_
  refine Decl.Sound.anywhere (Decl.sound_typedef.2 ⟨hknown hword.ne_empty, ?_⟩) rfl rfl
  exact fun decl hdecl => (hdefinition decl hdecl).2

theorem typedefs : Gives source known room (Each (Decl.SoundAnywhere known room)) g.typedefs := by
  have htarget : Gives source known room (fun r => Maybe (Decl.SoundAnywhere known room) r.2)
      g.synonymTarget := by
    unfold Grammar.synonymTarget
    refine hg.typeDefinition?.bind fun t? => ?_
    split
    · rename_i t
      exact .pure fun ht => Maybe.some (ht t rfl)
    · refine .after (leniently (.bind specifiers fun _ => typeName)) fun type => ?_
      exact .pure fun _ => Maybe.none
  have hmore : ∀ type, Gives source known room (Each (Decl.SoundAnywhere known room))
      (moreSynonyms type) := by
    intro type
    unfold Parse.moreSynonyms
    refine .after (acceptAnywhere .comma) fun more => ?_
    split
    · refine .separated ((synonymDeclarator hg.words).bind fun d => ?_)
      exact (synonymOf type none d).mono fun decl hdecl hword => hdecl Maybe.none hword
    · exact .pure Each.nil
  unfold Grammar.typedefs
  refine .after (skipOverAnywhere .kwTypedef _) fun _ => htarget.bind fun target => ?_
  refine (synonymDeclarator hg.words).bind fun d => (synonymOf _ _ d).bind fun first => ?_
  refine (hmore _).bind fun rest => .after (skipOverAnywhere .semicolon _) fun _ => ?_
  exact .pure fun hrest hfirst hword hdefinition => Each.cons (hfirst hdefinition hword) hrest

omit hg in
theorem usingDeclaration :
    Gives source known room (Decl.SoundAnywhere known room) usingDeclaration := by
  have hatom : ∀ {d : Decl}, d.isAtom = true → d.isMember = false → d.isOutside = false →
      Gives source known room (Decl.SoundAnywhere known room) (pure d) :=
    fun h hmember houtside => .pure ((Decl.sound_of_isAtom h).anywhere hmember houtside)
  unfold Parse.usingDeclaration
  refine .after (skipOverAnywhere .kwUsing _) fun _ => ?_
  refine .after (acceptAnywhere .kwNamespace) fun whole => ?_
  dsimp only
  split
  · refine .after qualifiedName fun target => .after (skipOverAnywhere .semicolon _) fun _ => ?_
    exact hatom rfl rfl rfl
  · refine .look (fun _ => rfl) fun named => .look (fun _ => rfl) fun assigned => ?_
    split
    · refine .after advanceAnywhere fun t => .after skipAnywhere fun _ => ?_
      refine .after (leniently typeName) fun type => ?_
      refine .after (skipOverAnywhere .semicolon _) fun _ => ?_
      exact .after (register _) fun _ => hatom rfl rfl rfl
    · refine .after (acceptAnywhere .kwTypename) fun _ => .after qualifiedName fun path => ?_
      exact .after (skipOverAnywhere .semicolon _) fun _ => hatom rfl rfl rfl

/-! ### Templates -/

omit hg in
/-- Of the class that a head shows, only the name and the bases are read. -/
theorem templateClass (hwords : source.NamesAreWords) :
    Gives source known room (Decl.SoundHead known room) templateClass := by
  have hrest : ∀ key name, Gives source known room (fun d => (name ≠ "" → name ∈ known.names) →
      Rule.IsWord name → d.SoundHead known room) (do
        let isForward ← Parse.check .semicolon
        return Decl.classType (.ofKey key name (← Parse.baseClasses key) [] isForward)) := by
    intro key name
    refine ⟨?_, fun {s d u} _ hrun _ hknown hword => ?_⟩
    · refine Lockstep.keeps (m := never) (.test fun isForward => ?_)
      exact .bind (Lockstep.baseClasses key) fun bases => .pure _
    · rw [run_bind_ok (run_check _)] at hrun
      obtain ⟨bases, t, hbases, hlast⟩ := exists_of_run_bind hrun
      cases hlast
      have hcut : TypeText.untilArguments name ∈ known.names := by
        rw [hword.untilArguments_self]
        exact hknown hword.ne_empty
      refine ⟨rfl, Decl.sound_declared (fun _ => hcut) (fun hforward => ?_) (.inr rfl)⟩
      exact baseClasses_of_semicolon (beq_iff_eq.1 hforward) hbases
  unfold Parse.templateClass
  refine .after advanceAnywhere fun t => (Gives.name hwords _).bind fun name => ?_
  refine (Gives.register name).bind fun _ => .look (fun _ => rfl) fun angle => ?_
  dsimp only
  split
  · exact .after templateArguments fun _ => hrest _ _
  · exact hrest _ _

theorem templateHead : Gives source known room (Decl.SoundHead known room) g.templateHead := by
  unfold Grammar.templateHead
  refine .look (fun _ => rfl) fun k => ?_
  split
  · exact templateClass hg.words
  · exact templateClass hg.words
  · exact templateClass hg.words
  · unfold Parse.templateUsing
    refine .after skipAnywhere fun _ => .after (Lockstep.name _) fun name => ?_
    refine .after (skipOverAnywhere .assign _) fun _ => .look (fun _ => rfl) fun start => ?_
    refine .after (skipWhile _) fun _ => .after (register _) fun _ => ?_
    refine .after textSince fun type => ?_
    have halias : (Decl.usingAlias type name).Sound known room := Decl.sound_of_isAtom rfl
    exact .pure ⟨trivial, halias.elsewhere rfl⟩
  · unfold Grammar.templateFunction
    refine .after specifiers fun specs => .after typeName fun type => ?_
    refine .after qualifiedName fun name => hg.parameters.bind fun ps => ?_
    refine .after functionQualifiers fun q => .pure fun hps => ⟨rfl, ?_⟩
    have hfunction : (Decl.function (.assemble specs type name ps q none)).Sound known room :=
      Decl.sound_function.2 ⟨hps, Maybe.none⟩
    exact hfunction.elsewhere rfl

theorem template : Gives source known room (Decl.SoundAnywhere known room) g.template := by
  unfold Grammar.template
  refine .after skipAnywhere fun _ => .after templateParameters fun ps => ?_
  refine (Gives.rereading headText.keeps hg.templateHead.leniently.speculate).bind fun r => ?_
  refine .look (fun _ => rfl) fun brace => ?_
  have hdone : ∀ {ps : List TemplateParameter}, Maybe (Decl.SoundHead known room) r.2 →
      (Decl.template ps r.1 r.2).SoundAnywhere known room :=
    fun h => Decl.Sound.anywhere (Decl.sound_template h) rfl rfl
  dsimp only
  split
  · refine .after (skipBalanced _ _ (by decide)) fun _ => ?_
    refine .after (acceptAnywhere .semicolon) fun _ => ?_
    exact .pure hdone
  · exact .after (skipOverAnywhere .semicolon _) fun _ => .pure hdone

/-! ### Assertions and directives -/

theorem staticAssertion :
    Gives source known room (Decl.SoundAnywhere known room) g.staticAssertion := by
  unfold Grammar.staticAssertion
  refine .after (skipOverAnywhere .kwStaticAssert _) fun _ => ?_
  refine .after (skipOverAnywhere .lparen _) fun _ => ?_
  refine hg.expression.bind fun condition => .after Lockstep.assertionMessage fun message? => ?_
  refine .after (skipOverAnywhere .rparen _) fun _ => ?_
  refine .after (skipOverAnywhere .semicolon _) fun _ => ?_
  exact .pure fun h => (Decl.sound_staticAssert.2 h).anywhere rfl rfl

omit hg in
theorem directive : Gives source known room (Decl.SoundAnywhere known room) directive where
  keeps := (Lockstep.directive source.takes_nothing).keeps
  value {s d t} _ hrun _ := by
    unfold Parse.directive at hrun
    rw [run_bind_ok run_advance] at hrun
    have hatom : ∀ name value, (Decl.directive name value).SoundAnywhere known room :=
      fun name value => (Decl.sound_of_isAtom rfl).anywhere rfl rfl
    split at hrun
    · cases hrun
      exact hatom _ _
    · rw [run_bind_ok run_position] at hrun
      obtain ⟨_, _, -, hrun⟩ := exists_of_run_bind hrun
      obtain ⟨_, _, -, hrun⟩ := exists_of_run_bind hrun
      obtain ⟨_, _, -, hrun⟩ := exists_of_run_bind hrun
      cases hrun
      exact hatom _ _

end Definitions

end Sound

end Grammar

end CTree
