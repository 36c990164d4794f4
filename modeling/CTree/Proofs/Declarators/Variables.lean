import CTree.Proofs.Declarators.Core
import CTree.Proofs.Resumption.Assignment
import Mathlib.Data.List.DropRight

/-!
# The types of the declarators of a declaration

In `int *a, &b;` every name has a type of its own: what all declarators start from, and the marks before the
name. The parser keeps the first of these types as a text, and takes the marks at its end off again for
the later names. That goes wrong in one case: if there are qualifiers among the marks of the first name,
the marks before the last qualifier stay, and the later names get them as well.
-/

namespace CTree

open Parse Lexeme

variable {source : Source} {s : ParseState} {g : Grammar} {known : KnownTypes}

/-! ### What is written -/

/-- A declarator of a variable: the marks before a name, and the name. -/
structure Declarator where
  marks : List TokenKind
  name : String
  deriving DecidableEq, Repr

namespace Declarator

/-- The declarator as it is written. -/
def lexemes (d : Declarator) : List Lexeme :=
  d.marks.map spelled ++ [Lexeme.name d.name]

/-- Declarators as they are written after another one. -/
def tailLexemes (ds : List Declarator) : List Lexeme :=
  ds.flatMap fun d => spelled .comma :: d.lexemes

/-- The variable that is declared, where the given lexemes stand before the marks. -/
def variableFrom (base : List Lexeme) (d : Declarator) : VarDecl :=
  ⟨joined (base ++ d.marks.map spelled), d.name, none, none, []⟩

/-- What stays for the later declarators: the marks up to the last qualifier. -/
def kept (d : Declarator) : List TokenKind :=
  d.marks.rdropWhile TokenKind.isVariableMark

end Declarator

/-- A declaration of variables without initializers, with the type names known before it. What its
declarators start from is the core of a type, perhaps after qualifiers; it does not begin with the one
name that is read as a specifier. -/
structure VariableList (known : KnownTypes) where
  qualifiers : List TokenKind
  core : List Lexeme
  first : Declarator
  rest : List Declarator
  isQualifier : ∀ k ∈ qualifiers, View.isQualifier k = true
  isCore : IsCore known core
  unspecific : (qualifiers.map spelled ++ core).head? ≠ some (Lexeme.name "thread_local")
  isSuffix : ∀ k ∈ first.marks, isTypeSuffix k = true
  isMark : ∀ d ∈ rest, ∀ k ∈ d.marks, k.isVariableMark = true

namespace VariableList

variable (l : VariableList known)

/-- What all declarators start from. -/
def base : List Lexeme :=
  l.qualifiers.map spelled ++ l.core

/-- The declaration as it is written. -/
def lexemes : List Lexeme :=
  l.base ++ (l.first.lexemes ++ (Declarator.tailLexemes l.rest ++ [spelled .semicolon]))

/-- The variables that are read. The later ones start from what is kept of the first type. -/
def found : List VarDecl :=
  l.first.variableFrom l.base :: l.rest.map (·.variableFrom (l.base ++ l.first.kept.map spelled))

/-- The variables that are meant: each starts from the same type. -/
def meant : List VarDecl :=
  (l.first :: l.rest).map (·.variableFrom l.base)

/-- The types are those that are meant if the first name has no qualifiers among its marks. -/
theorem found_eq_meant (h : ∀ k ∈ l.first.marks, k.isVariableMark = true) :
    l.found = l.meant := by
  have hkept : l.first.kept = [] := List.rdropWhile_eq_nil_iff.2 h
  rw [found, hkept, List.map_nil, List.append_nil]
  rfl

end VariableList

/-! ### Reading the variables -/

/-- The kinds that may stand after the name of a variable that has nothing more to it. -/
def TokenKind.endsDeclarator (k : TokenKind) : Bool :=
  k == .comma || k == .semicolon

theorem TokenKind.ne_of_endsDeclarator {k k' : TokenKind} (h : k.endsDeclarator = true)
    (h' : k'.endsDeclarator = false) : k ≠ k' := by
  rintro rfl
  rw [h] at h'
  cases h'

namespace Consumes

variable {w : Lexeme} {ws : List Lexeme} {text type : String}

/-- A variable without sizes and without a value. -/
theorem variableOf (hsees : source.Sees s.cursor.position (Lexeme.name text :: w :: ws))
    (hw : w.kind.endsDeclarator = true) :
    Consumes source s 1 (g.variableOf none type) ⟨type, text, none, none, []⟩ := by
  have hk : (source.view (s.after 1)).kind 0 = w.kind := hsees.next.kind
  have hne {k : TokenKind} (h : k.endsDeclarator = false) : (source.view (s.after 1)).kind 0 ≠ k := by
    rw [hk]
    exact TokenKind.ne_of_endsDeclarator hw h
  have hdimensions : g.dimensions.run source (s.after 1) = (.ok [], s.after 1) := by
    unfold Grammar.dimensions
    rw [collect, run_bind_ok run_view, collectFor, bind_assoc, run_bind_ok (run_accept_of_ne (hne rfl))]
    rfl
  have hinit : (g.variableInit type).run source (s.after 1) = (.ok none, s.after 1) := by
    unfold Grammar.variableInit
    rw [run_bind_ok (run_accept_of_ne (hne rfl)), if_neg Bool.false_ne_true, run_bind_ok run_isCpp,
      run_bind_ok (run_check _), beq_false_of_ne (hne rfl), Bool.and_false,
      if_neg Bool.false_ne_true, run_bind_ok (run_accept_of_ne (hne rfl))]
    rfl
  have hcolons : (source.view s).kind 1 ≠ .colonColon := hne rfl
  exact (qualifiedName hsees hcolons).andLast (look hdimensions (look hinit (.pure _)))

/-- The marks of a later declarator are added to the text of the type. -/
theorem takeTexts {base : List Lexeme} {v : Lexeme} {ks : List TokenKind} (hv : v.kind ≠ .comma)
    (hks : ∀ k ∈ ks, k.isVariableMark = true)
    (hsees : source.Sees s.cursor.position (ks.map spelled ++ Lexeme.name text :: ws)) :
    Consumes source s (ks.map spelled).length
      (Parse.takeTexts TokenKind.isVariableMark (joined (base ++ [v])))
      (joined (base ++ v :: ks.map spelled)) := by
  -- Each round takes one mark, and the name ends the loop.
  have hloop (i : Nat) (hi : ks.length < i) (text' : String) :
      Consumes source s ks.length (iterateFor (fun text => do
        if TokenKind.isVariableMark (← kind) then return some (text ++ (← Parse.advance).text)
        else return none) i text') (text' ++ String.join (ks.map TokenKind.spelling)) := by
    induction ks generalizing s i text' with
    | nil =>
      obtain ⟨i, rfl⟩ : ∃ j, i = j + 1 := ⟨i - 1, by omega⟩
      rw [iterateFor, bind_assoc, List.map_nil, String.join_nil, String.append_empty]
      refine look run_kind ?_
      rw [show (source.view s).kind 0 = .identifier from hsees.kind]
      exact .pure text'
    | cons k ks ih =>
      obtain ⟨i, rfl⟩ : ∃ j, i = j + 1 := ⟨i - 1, by omega⟩
      have hk : (source.view s).kind 0 = k := hsees.kind
      have hmark := hks k List.mem_cons_self
      have heof : (source.view s).kind 0 ≠ .eof := by
        rintro h
        rw [← hk, h] at hmark
        cases hmark
      rw [iterateFor, bind_assoc, List.length_cons, Nat.add_comm, List.map_cons, String.join_cons,
        ← String.append_assoc]
      refine look run_kind ?_
      rw [hk, hmark, if_pos rfl, bind_assoc]
      refine (advance heof).bind ?_
      rw [show ((source.view s).token 0).text = k.spelling from hsees.text]
      exact ih (fun k' hk' => hks k' (List.mem_cons_of_mem _ hk')) hsees.next i
        (by rw [List.length_cons] at hi; omega) _
  refine .iterate (Source.sees_append.1 hsees).1 fun i hi => ?_
  rw [List.length_map] at hi ⊢
  rw [joined_append_marks hv hks]
  exact hloop i hi _

/-- The first variable has the given type, and each later one starts from the same text. -/
theorem chainFor {base : List Lexeme} {v : Lexeme} {ds : List Declarator} (hv : v.kind ≠ .comma)
    (hds : ∀ d ∈ ds, ∀ k ∈ d.marks, k.isVariableMark = true)
    (hsees : source.Sees s.cursor.position
      (Lexeme.name text :: (Declarator.tailLexemes ds ++ spelled .semicolon :: ws)))
    (i : Nat) (hi : ds.length < i) :
    Consumes source s (1 + (Declarator.tailLexemes ds).length)
      (Parse.chainFor (g.variableOf none)
        (Parse.takeTexts TokenKind.isVariableMark (joined (base ++ [v]))) i type)
      (⟨type, text, none, none, []⟩ :: ds.map (·.variableFrom (base ++ [v]))) := by
  induction ds generalizing s text type i with
  | nil =>
    obtain ⟨i, rfl⟩ : ∃ j, i = j + 1 := ⟨i - 1, by omega⟩
    rw [Parse.chainFor]
    have hother : (source.view (s.after 1)).kind 0 ≠ .comma := by
      rw [hsees.next.kind]
      decide
    exact (variableOf hsees rfl).andLast (look (run_accept_of_ne hother) (.pure _))
  | cons d ds ih =>
    obtain ⟨i, rfl⟩ : ∃ j, i = j + 1 := ⟨i - 1, by omega⟩
    have htail : Declarator.tailLexemes (d :: ds) =
        spelled .comma :: (d.marks.map spelled ++ Lexeme.name d.name :: Declarator.tailLexemes ds) := by
      simp [Declarator.tailLexemes, Declarator.lexemes]
    rw [htail, List.cons_append, List.append_assoc, List.cons_append] at hsees
    have hmarks := hsees.next.next
    have hrest := @ih _ d.name (joined (base ++ v :: d.marks.map spelled))
      (fun d' hd' => hds d' (List.mem_cons_of_mem _ hd')) (hmarks.after _) i
      (by rw [List.length_cons] at hi; omega)
    have hlength : 1 + (Declarator.tailLexemes (d :: ds)).length =
        1 + (1 + ((d.marks.map spelled).length + (1 + (Declarator.tailLexemes ds).length))) := by
      rw [htail, List.length_cons, List.length_append, List.length_cons]
      omega
    rw [Parse.chainFor, hlength]
    refine (variableOf hsees rfl).bind ((accept hsees.next.kind (by decide)).bind ?_)
    rw [if_pos rfl]
    refine (takeTexts hv (hds d List.mem_cons_self) hmarks).bind (hrest.andLast ?_)
    rw [List.map_cons, Declarator.variableFrom, List.append_assoc, List.singleton_append]
    exact .pure _

/-- The variables of a declaration after its type, and the `;`. -/
theorem variableDecls {base : List Lexeme} {v : Lexeme} {ds : List Declarator} (hv : v.kind ≠ .comma)
    (hbase : TypeText.base type = joined (base ++ [v]))
    (hds : ∀ d ∈ ds, ∀ k ∈ d.marks, k.isVariableMark = true)
    (hsees : source.Sees s.cursor.position
      (Lexeme.name text :: (Declarator.tailLexemes ds ++ spelled .semicolon :: ws))) :
    Consumes source s (1 + (Declarator.tailLexemes ds).length + 1) (g.variableDecls {} type)
      (⟨type, text, none, none, []⟩ :: ds.map (·.variableFrom (base ++ [v]))) := by
  have hlength (ds : List Declarator) : ds.length ≤ (Declarator.tailLexemes ds).length := by
    induction ds with
    | nil => exact Nat.le_refl _
    | cons d ds ih =>
      simp only [Declarator.tailLexemes, List.flatMap_cons, List.length_append, List.length_cons] at ih ⊢
      omega
  have hchain : Consumes source s (1 + (Declarator.tailLexemes ds).length)
      (Parse.chain (g.variableOf none)
        (Parse.takeTexts TokenKind.isVariableMark (joined (base ++ [v]))) type)
      (⟨type, text, none, none, []⟩ :: ds.map (·.variableFrom (base ++ [v]))) := by
    have hdeclarators : source.Sees s.cursor.position
        (Lexeme.name text :: Declarator.tailLexemes ds) := (Source.sees_append.1 hsees).1
    refine .chain hdeclarators fun i hi => chainFor hv hds hsees i ?_
    have := hlength ds
    rw [List.length_cons] at hi
    omega
  have hsemicolon : (source.view (s.after (1 + (Declarator.tailLexemes ds).length))).kind 0 =
      .semicolon := by
    rw [Nat.add_comm]
    exact (hsees.after (Lexeme.name text :: Declarator.tailLexemes ds)).kind
  unfold Grammar.variableDecls
  rw [hbase]
  exact hchain.bind ((skipOver hsemicolon (by decide)).andLast (.pure _))

end Consumes

/-! ### Reading the declaration -/

/-- A name that neither `::` nor `(` follows is that of a variable. -/
theorem View.declarationForm?_of_variable {v : View} (h0 : v.kind 0 = .identifier)
    (hcolons : v.kind 1 ≠ .colonColon) (hparen : v.kind 1 ≠ .lparen) (limit : Nat) :
    v.declarationForm? limit = some .variable := by
  have hoperator : v.atOperatorName = false :=
    atOperatorName_eq_false (by simp [h0]) (by simp [hcolons])
  have hsegments : v.pastSegments 1 = 1 := by
    unfold pastSegments
    cases v.remaining with
    | zero => rfl
    | succ fuel => exact if_neg (by simp [hcolons])
  simp [declarationForm?, hoperator, shape, h0, hsegments, hparen]

/-- Of a name that is not known nothing is declared. -/
theorem Grammar.run_declaration_of_unknown {text : String} {ws : List Lexeme}
    (hsees : source.Sees s.cursor.position (Lexeme.name text :: ws)) (hlocal : text ≠ "thread_local")
    (hlenient : s.lenient = false) (hknown : s.cursor.known.contains text = false)
    (hnext : (source.view s).kind 1 ≠ .colonColon) : g.declaration?.run source s = (.ok none, s) := by
  have hspecifiers : specifiers.run source s = (.ok {}, s) :=
    run_specifiers_of_sees hsees rfl fun h => hlocal (congrArg Lexeme.text h)
  have hstarts : (source.view s).startsType = false := by
    rw [View.startsType_of_sees hsees, hlenient, hknown, beq_false_of_ne hnext]
    exact Bool.and_false _
  have hhead : Refuses source s declarationHead := by
    refine .look hspecifiers (.look run_view ?_)
    rw [hstarts]
    exact (Refuses.expected _).bind
  unfold declaration?
  rw [run_bind_ok hhead.speculate]
  rfl

/-- What stands after the name of a declarator ends it. -/
theorem Declarator.endsDeclarator_of_sees {ds : List Declarator} {n : Nat}
    (hsees : source.Sees n (tailLexemes ds ++ [spelled .semicolon])) :
    (source.kindAt n).endsDeclarator = true := by
  cases ds with
  | nil => rw [hsees.kindAt]; rfl
  | cons d ds => rw [hsees.kindAt]; rfl

namespace VariableList

/-- A declaration as it is written, with the parts that are read one after the other. -/
theorem lexemes_eq (l : VariableList known) : l.lexemes =
    l.base ++ l.first.marks.map spelled ++
      Lexeme.name l.first.name :: (Declarator.tailLexemes l.rest ++ [spelled .semicolon]) := by
  simp [lexemes, Declarator.lexemes]

/-- The first lexeme is a qualifier, a builtin type or a name, and no specifier. -/
theorem head (l : VariableList known) : ∃ w rest, l.lexemes = w :: rest ∧
    w.kind.beginsBase = true ∧ w ≠ Lexeme.name "thread_local" := by
  obtain ⟨v, rest, hcore, -, hv⟩ := l.isCore.head
  have hunspecific := l.unspecific
  have hqualifier := l.isQualifier
  rw [lexemes, base]
  cases hq : l.qualifiers with
  | nil =>
    rw [hq, hcore] at hunspecific
    exact ⟨v, _, by rw [hcore]; rfl, hv, fun h => hunspecific (congrArg some h)⟩
  | cons k ks =>
    rw [hq] at hqualifier
    have hk := hqualifier k List.mem_cons_self
    refine ⟨spelled k, _, rfl, ?_, fun h => ?_⟩
    · rw [TokenKind.beginsBase, show (spelled k).kind = k from rfl, hk]
      rfl
    · rw [show k = .identifier from congrArg Lexeme.kind h] at hk
      cases hk

end VariableList

variable {l : VariableList s.cursor.known} {ws : List Lexeme}

/-- A type is seen to begin where variables are declared. -/
theorem VariableList.startsType (hsees : source.Sees s.cursor.position l.lexemes) :
    (source.view s).startsType = true := by
  obtain ⟨v, rest, hcore, hv, -⟩ := l.isCore.head
  rw [l.lexemes_eq, base, List.append_assoc, List.append_assoc] at hsees
  have hplace : (source.view s).corePlace = (l.qualifiers.map spelled).length := by
    have hqualifiers : ∀ w ∈ l.qualifiers.map spelled, View.isQualifier w.kind = true := by
      intro w hw
      obtain ⟨k, hk, rfl⟩ := List.mem_map.1 hw
      exact l.isQualifier k hk
    rw [View.corePlace, View.past_of_sees (Source.sees_append.1 hsees).1 hqualifiers, Nat.zero_add]
    rw [hcore] at hsees
    rwa [Nat.add_zero, hsees.kindAfter]
  have hsees := (Source.sees_append.1 hsees).2
  have hisCore := l.isCore
  cases hcase : l.core with
  | nil => rw [hcase] at hcore; cases hcore
  | cons w ws =>
    rw [hcase] at hsees hisCore
    cases hisCore with
    | @builtin k ks h =>
      refine View.startsType_of_keyword (k := k) ?_ (.inr (h k List.mem_cons_self))
      rw [hplace]
      exact hsees.kindAt
    | @named text hword hknown =>
      have hkind : (source.view s).kind (source.view s).corePlace = .identifier := by
        rw [hplace]
        exact hsees.kindAt
      have htext : ((source.view s).token (source.view s).corePlace).text = text := by
        rw [hplace]
        exact hsees.text
      have hisKnown : (source.view s).isKnown text = true := hknown
      rw [View.startsType_of_name hkind, htext, hisKnown, Bool.or_true, Bool.true_or]

namespace Consumes

/-- The head of a declaration: no specifiers, the first type, and no sign of a function. -/
theorem declarationHead (hsees : source.Sees s.cursor.position l.lexemes) :
    Consumes source s (l.base ++ l.first.marks.map spelled).length Parse.declarationHead
      ({}, joined (l.base ++ l.first.marks.map spelled), .variable) := by
  obtain ⟨w, rest, hw, hbegins, hname⟩ := l.head
  have hspecifiers : specifiers.run source s = (.ok {}, s) :=
    run_specifiers_of_sees (hw ▸ hsees) (TokenKind.introduces_of_beginsBase hbegins) hname
  refine look hspecifiers (look run_view ?_)
  rw [VariableList.startsType hsees, if_pos rfl]
  rw [l.lexemes_eq] at hsees
  have htype : Consumes source s (l.base ++ l.first.marks.map spelled).length Parse.typeName
      (joined (l.base ++ l.first.marks.map spelled)) :=
    typeName l.isQualifier l.isCore l.isSuffix rfl (by rwa [List.append_assoc] at hsees)
  have hnext := hsees.after (l.base ++ l.first.marks.map spelled)
  have hends := Declarator.endsDeclarator_of_sees hnext.next
  have hform := View.declarationForm?_of_variable (v := source.view (s.after _)) hnext.kind
    (TokenKind.ne_of_endsDeclarator hends rfl) (TokenKind.ne_of_endsDeclarator hends rfl)
    source.settings.maxLookahead
  have hformed : Consumes source s (l.base ++ l.first.marks.map spelled).length Parse.formedType
      (joined (l.base ++ l.first.marks.map spelled), .variable) := by
    refine htype.andLast (look (run_lookAhead _) ?_)
    rw [hform]
    exact .pure _
  exact hformed.andLast (.pure _)

end Consumes

/-- A qualifier is no mark and ends in none. -/
theorem Lexeme.isSolid_of_qualifier {k : TokenKind} (h : View.isQualifier k = true) :
    (spelled k).IsSolid := by
  cases k <;> first | (cases h; done) | exact ⟨by decide, _, rfl, rfl⟩

/-- What is kept of the first type does not end in a mark, and only marks are taken off. -/
theorem VariableList.exists_kept (l : VariableList known) : ∃ (rest : List Lexeme) (w : Lexeme)
    (ks : List TokenKind), w.IsSolid ∧ (∀ k ∈ ks, k.isVariableMark = true) ∧
      l.base ++ l.first.kept.map spelled = rest ++ [w] ∧
      l.base ++ l.first.marks.map spelled = rest ++ w :: ks.map spelled := by
  let dropped := l.first.marks.rtakeWhile TokenKind.isVariableMark
  have hmarks : l.first.marks = l.first.kept ++ dropped := List.rdropWhile_append_rtakeWhile.symm
  have hdropped : ∀ k ∈ dropped, k.isVariableMark = true := fun k hk => List.mem_rtakeWhile_imp hk
  obtain ⟨rest, w, hlast, hw⟩ : ∃ rest w, l.base ++ l.first.kept.map spelled = rest ++ [w] ∧
      w.IsSolid := by
    rcases List.eq_nil_or_concat l.first.kept with hnil | ⟨ks, k, hconcat⟩
    · obtain ⟨rest, w, hcore, hw⟩ := l.isCore.last
      exact ⟨l.qualifiers.map spelled ++ rest, w, by simp [base, hnil, hcore], hw⟩
    · have hk : ¬ k.isVariableMark = true := by
        have hnot : ∀ h : l.first.kept ≠ [], ¬ (l.first.kept.getLast h).isVariableMark = true :=
          List.rdropWhile_last_not TokenKind.isVariableMark l.first.marks
        rw [hconcat] at hnot
        simpa using hnot
      have hsuffix : isTypeSuffix k = true := l.isSuffix k (by simp [hmarks, hconcat])
      refine ⟨l.base ++ ks.map spelled, spelled k, by simp [hconcat], isSolid_of_qualifier ?_⟩
      cases k <;> first | rfl | (cases hsuffix; done) | exact absurd rfl hk
  refine ⟨rest, w, dropped, hw, hdropped, hlast, ?_⟩
  rw [hmarks, List.map_append, ← List.append_assoc, hlast, List.append_assoc, List.singleton_append]

/-- The variables of a declaration are read, each with its type. -/
theorem Grammar.run_declaration_of_variableList (hsees : source.Sees s.cursor.position l.lexemes) :
    g.declaration?.run source s = (.ok (some (.ofVariables l.found)), s.after l.lexemes.length) := by
  have hhead := Consumes.declarationHead hsees
  obtain ⟨rest, w, ks, hsolid, hks, hkept, hmarks⟩ := l.exists_kept
  have hbase : TypeText.base (joined (l.base ++ l.first.marks.map spelled)) = joined (rest ++ [w]) := by
    rw [hmarks, TypeText.base_joined hsolid hks]
  rw [l.lexemes_eq] at hsees ⊢
  have hvariables := Consumes.variableDecls (g := g) hsolid.ne_comma hbase l.isMark
    (hsees.after (l.base ++ l.first.marks.map spelled))
  rw [← hkept] at hvariables
  have hlength (ws ws' : List Lexeme) (v : Lexeme) : (ws ++ v :: (ws' ++ [spelled .semicolon])).length =
      ws.length + (1 + ws'.length + 1) := by
    simp only [List.length_append, List.length_cons, List.length_nil]
    omega
  rw [hlength]
  unfold declaration?
  exact hhead.speculate.bind (hvariables.andLast (.pure _))

/-- What follows a name that begins a declaration of variables. -/
theorem VariableList.followsCore_of_name (hsees : source.Sees s.cursor.position l.lexemes)
    (hk : (source.view s).kind 0 = .identifier) : ((source.view s).kind 1).followsCore = true := by
  have hisCore := l.isCore
  have hsuffix := l.isSuffix
  have hqualifier := l.isQualifier
  rw [l.lexemes_eq, base] at hsees
  cases hq : l.qualifiers with
  | cons k ks =>
    rw [hq] at hsees hqualifier
    have hqk := hqualifier k List.mem_cons_self
    rw [← show (source.view s).kind 0 = k from hsees.kind, hk] at hqk
    cases hqk
  | nil =>
    rw [hq] at hsees
    generalize l.core = core at hisCore hsees
    cases hisCore with
    | @builtin k ks h =>
      have hbuiltin := h k List.mem_cons_self
      rw [← show (source.view s).kind 0 = k from hsees.kind, hk] at hbuiltin
      cases hbuiltin
    | named =>
      have hnext : (source.view s).kind 1 = source.kindAt (s.after 1).cursor.position := rfl
      cases hm : l.first.marks with
      | nil =>
        rw [hm] at hsees
        rw [hnext, hsees.next.kindAt]
        rfl
      | cons k ks =>
        rw [hm] at hsees hsuffix
        rw [hnext, hsees.next.kindAt, TokenKind.followsCore, show (spelled k).kind = k from rfl,
          hsuffix k List.mem_cons_self]
        rfl

/-! ### Statements and items -/

namespace Grammar

variable {r : Option Stmt} {t : ParseState}

/-- Where a statement has no keyword of its own, and is no label, a declaration is looked for, and then an
expression. -/
theorem run_statement_of_base (hk : ((source.view s).kind 0).beginsBase = true)
    (hlabel : (source.view s).kind 0 = .identifier → (source.view s).kind 1 ≠ .colon)
    (h : g.declaration?.run source s = (.ok r, t)) : g.statement.run source s =
      r.elim ((some <$> g.expressionStatement : Parse (Option Stmt)).run source t)
        fun stmt => (.ok (some stmt), t) := by
  have hnamed : g.namedDeclaration?.run source s = (.ok none, s) :=
    run_namedDeclaration_eq_none (TokenKind.introduces_of_beginsBase hk)
  have hplain : g.statement.run source s =
      (some <$> g.plainStatement : Parse (Option Stmt)).run source s := by
    unfold statement
    rw [run_bind_ok run_kind]
    generalize (source.view s).kind 0 = k at hk hlabel
    cases k <;> first
      | (cases hk; done)
      | rfl
      | rw [run_bind_ok (run_checkAhead 1 _), beq_false_of_ne (hlabel rfl)]; rfl
  rw [hplain, map_eq_bind]
  unfold plainStatement
  rw [bind_assoc, run_bind_ok hnamed]
  simp only [bind_assoc]
  rw [run_bind_ok h]
  cases r <;> rfl

/-- An item without a keyword of its own is a declaration or a statement, if no constructor or
destructor begins there. -/
theorem run_item_of_base (hk : ((source.view s).kind 0).beginsBase = true)
    (hscope : (source.view s).kind 0 = .identifier → (source.view s).kind 1 ≠ .colonColon)
    (h : g.declaration?.run source s = (.ok r, t)) : g.item.run source s =
      r.elim ((g.parse .statement).run source t) fun stmt => (.ok (some stmt), t) := by
  have hnamed : g.namedDeclaration?.run source s = (.ok none, s) :=
    run_namedDeclaration_eq_none (TokenKind.introduces_of_beginsBase hk)
  have hspecial : g.special?.run source s = (.ok none, s) :=
    run_special_eq_none (TokenKind.introduces_of_beginsBase hk) hscope
  unfold item
  rw [run_bind_ok hnamed, run_bind_ok hspecial, run_bind_ok h]
  cases r <;> rfl

end Grammar

/-- A statement that declares variables without initializers is read as such, and so is such an item
of a source, whatever the dialect: the first type is what stands before the first name, and each later
one is what is kept of it and the marks before the name. If the marks of the first name hold no
qualifier, every type is the common beginning and the marks before the name. -/
theorem Grammar.run_statement_of_variableList (g : Grammar) (source : Source) (s : ParseState)
    (l : VariableList s.cursor.known) (hsees : source.Sees s.cursor.position l.lexemes) :
    g.statement.run source s =
        (.ok (some (.ofVariables l.found)), s.after l.lexemes.length) ∧
      g.item.run source s = (.ok (some (.ofVariables l.found)), s.after l.lexemes.length) ∧
      ((∀ k ∈ l.first.marks, k.isVariableMark = true) → l.found = l.meant) := by
  have hdeclaration := run_declaration_of_variableList (g := g) hsees
  have hk : ((source.view s).kind 0).beginsBase = true := by
    obtain ⟨w, rest, hw, hbegins, -⟩ := l.head
    have hwsees := hsees
    rw [hw] at hwsees
    rwa [hwsees.kind]
  have hfollows {k : TokenKind} (h : k.followsCore = false)
      (hname : (source.view s).kind 0 = .identifier) : (source.view s).kind 1 ≠ k := by
    rintro rfl
    rw [VariableList.followsCore_of_name hsees hname] at h
    cases h
  exact ⟨run_statement_of_base hk (hfollows rfl) hdeclaration,
    run_item_of_base hk (hfollows rfl) hdeclaration, l.found_eq_meant⟩

/-- A known type after a qualifier, a pointer and a reference. -/
theorem Grammar.run_statement_of_variableList_known :
    let source := (Session.start {} "const T *a, &&b;".toList).source
    let s : ParseState := { cursor := { known := ⟨["T"]⟩ } }
    (Grammar.ofDepth 0).statement.run source s =
      (.ok (some (.block [.var ⟨"const T*", "a", none, none, []⟩,
        .var ⟨"const T&&", "b", none, none, []⟩])), s.after 8) := by
  intro source s
  let l : VariableList s.cursor.known :=
    { qualifiers := [.kwConst], core := [Lexeme.name "T"], first := ⟨[.star], "a"⟩,
      rest := [⟨[.andAnd], "b"⟩], isQualifier := by decide,
      isCore := .named ⟨'T', [], rfl, rfl, rfl⟩ (by decide), unspecific := by decide,
      isSuffix := by decide, isMark := by decide }
  have hsees : source.Sees ([] : List Lexeme).length l.lexemes :=
    Source.sees_of_map (by decide +kernel)
  have hfound : l.found = [⟨"const T*", "a", none, none, []⟩, ⟨"const T&&", "b", none, none, []⟩] := by
    rfl
  have hrun := (run_statement_of_variableList (Grammar.ofDepth 0) source s l hsees).1
  rwa [hfound] at hrun

/-- The types of the variables that a statement declares. -/
def Stmt.variableTypes : Stmt → List String
  | .var v => [v.type]
  | .block ss => ss.filterMap fun
    | .var v => some v.type
    | _ => none
  | _ => []

/-- The pointer and the qualifier before the first name stay for the second. -/
theorem Grammar.run_statement_of_variableList_qualified :
    ¬ ∀ (g : Grammar) (source : Source) (s : ParseState) (l : VariableList s.cursor.known),
      source.Sees s.cursor.position l.lexemes →
        (g.statement.run source s).1.toOption = some (some (.ofVariables l.meant)) := by
  intro h
  let source := (Session.start { dialect := .c } "int * const a, b;".toList).source
  let l : VariableList {} :=
    { qualifiers := [], core := [spelled .kwInt], first := ⟨[.star, .kwConst], "a"⟩,
      rest := [⟨[], "b"⟩], isQualifier := by decide, isCore := @IsCore.builtin {} .kwInt [] (by decide),
      unspecific := by decide, isSuffix := by decide, isMark := by decide }
  have hread : ((Grammar.ofDepth 0).statement.run source {}).1.toOption.map
      (·.map Stmt.variableTypes) = some (some ["int* const", "int* const"]) := by decide +kernel
  have hsees : source.Sees ([] : List Lexeme).length l.lexemes :=
    Source.sees_of_map (by decide +kernel)
  rw [h (Grammar.ofDepth 0) source {} l hsees] at hread
  exact absurd hread (by decide)

end CTree
