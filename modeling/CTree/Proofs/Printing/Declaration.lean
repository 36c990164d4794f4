import CTree.Proofs.Printing.Value

/-!
# Reading declarations

Every statement is tried as a declaration first. Where an expression of C stands, there is none; where
`int` and a name stand, the lexemes after them tell a variable from a function.
-/

namespace CTree

open Lexeme

variable {source : Source} {d : Nat} {ws : List Lexeme} {w w' : Lexeme} {q : TokenKind → Prop}

/-! ### No keyword of a declaration -/

/-- The keywords and directives that tell at once which declaration begins, and the specifiers. -/
def TokenKind.introduces : TokenKind → Bool
  | .kwClass | .kwStruct | .kwUnion | .kwEnum | .kwNamespace | .kwTemplate | .kwTypedef | .kwUsing
  | .kwStaticAssert | .kwStatic | .kwExtern | .kwRegister | .kwInline | .kwConstexpr | .kwVirtual
  | .kwExplicit | .kwMutable => true
  | k => k.isDirective

/-- The kinds that a statement without a keyword of its own begins with. -/
def TokenKind.beginsPlain (k : TokenKind) : Bool :=
  k.beginsExpression || k == .kwInt

theorem TokenKind.introduces_eq_false {k : TokenKind} (h : k.beginsPlain) : k.introduces = false := by
  cases k <;> first | rfl | cases h

namespace View

variable {v : View}

theorem atClass_eq_false (h : (v.kind 0).introduces = false) (limit : Nat) :
    v.atClass limit = false := by
  unfold atClass
  generalize v.kind 0 = k at h
  cases k <;> first | rfl | cases h

theorem atEnum_eq_false (h : (v.kind 0).introduces = false) : v.atEnum = false := by
  have hne : v.kind 0 ≠ .kwEnum := by
    intro hk
    rw [hk] at h
    cases h
  exact if_pos (bne_iff_ne.2 hne)

theorem specifier?_eq_none (h : (v.kind 0).introduces = false)
    (hname : (v.token 0).lexeme ≠ Lexeme.name "thread_local") (s : Specifiers) :
    v.specifier? s = none := by
  have htext : v.kind 0 = .identifier → ((v.token 0).text == "thread_local") = false := by
    intro hk
    refine beq_false_of_ne fun ht => hname ?_
    rw [Token.lexeme, ht, show (v.token 0).kind = .identifier from hk]
    rfl
  unfold specifier?
  generalize v.kind 0 = k at h htext
  cases k <;> first | rfl | exact if_neg (by rw [htext rfl]; decide) | cases h

end View

section Looks

variable {s : ParseState} {g : Grammar}

theorem Parse.run_specifiers_eq_none (h : ((source.view s).kind 0).introduces = false)
    (hname : ((source.view s).token 0).lexeme ≠ Lexeme.name "thread_local") :
    specifiers.run source s = (.ok {}, s) := by
  unfold specifiers
  rw [iterate, run_bind_ok run_view, iterateFor, bind_assoc, run_bind_ok run_view,
    View.specifier?_eq_none h hname]
  rfl

/-- A lexeme that begins no specifier. -/
theorem Parse.run_specifiers_of_sees {w : Lexeme} {ws : List Lexeme}
    (hsees : source.Sees s.cursor.position (w :: ws)) (h : w.kind.introduces = false)
    (hname : w ≠ Lexeme.name "thread_local") : specifiers.run source s = (.ok {}, s) := by
  have hk : (source.view s).kind 0 = w.kind := hsees.kindAt
  have hlexeme : ((source.view s).token 0).lexeme = w := hsees.2.1
  exact run_specifiers_eq_none (by rwa [hk]) (by rwa [hlexeme])

theorem Parse.run_specifiers_of_plain (h : ((source.view s).kind 0).beginsPlain)
    (hname : ((source.view s).token 0).lexeme ≠ Lexeme.name "thread_local") :
    specifiers.run source s = (.ok {}, s) :=
  run_specifiers_eq_none (TokenKind.introduces_eq_false h) hname

/-- No definition of a type and no declaration with a keyword of its own is read. -/
theorem Grammar.run_namedDeclaration_eq_none (h : ((source.view s).kind 0).introduces = false) :
    g.namedDeclaration?.run source s = (.ok none, s) := by
  have htype : g.typeDefinition?.run source s = (.ok none, s) := by
    unfold typeDefinition?
    rw [Parse.run_bind_ok (Parse.run_lookAhead _), View.atClass_eq_false h,
      if_neg Bool.false_ne_true, Parse.run_bind_ok Parse.run_view, View.atEnum_eq_false h]
    rfl
  unfold namedDeclaration?
  rw [Parse.run_bind_ok htype, Parse.run_bind_ok Parse.run_kind,
    Parse.run_bind_ok (Parse.run_kindAhead 1)]
  generalize (source.view s).kind 0 = k at h
  generalize (source.view s).kind 1 = k'
  cases k <;> first | rfl | cases h

theorem Grammar.run_namedDeclaration_of_plain (h : ((source.view s).kind 0).beginsPlain) :
    g.namedDeclaration?.run source s = (.ok none, s) :=
  run_namedDeclaration_eq_none (TokenKind.introduces_eq_false h)

/-- No constructor or destructor outside of its class is read. -/
theorem Grammar.run_special_eq_none (h : ((source.view s).kind 0).introduces = false)
    (hscope : (source.view s).kind 0 = .identifier → (source.view s).kind 1 ≠ .colonColon) :
    g.special?.run source s = (.ok none, s) := by
  have hspecial : Parse.atSpecial.run source s = (.ok false, s) := by
    unfold Parse.atSpecial
    rw [Parse.run_bind_ok Parse.run_kind]
    generalize (source.view s).kind 0 = k at h hscope
    cases k <;> first
      | rfl
      | (cases h; done)
      | exact (Parse.run_checkAhead 1 _).trans (by rw [beq_false_of_ne (hscope rfl)])
  unfold special?
  rw [Parse.run_bind_ok Parse.run_isCpp, Parse.run_bind_ok hspecial, Bool.not_false, Bool.or_true]
  rfl

/-- No declaration is read where an expression stands: no type begins there, so the attempt to read one
    fails where it started. -/
theorem Grammar.run_declaration_of_expression (hs : Ready source d s)
    (h : ((source.view s).kind 0).beginsExpression)
    (hname : ((source.view s).token 0).lexeme ≠ Lexeme.name "thread_local") :
    g.declaration?.run source s = (.ok none, s) := by
  have hplain : ((source.view s).kind 0).beginsPlain := by
    rw [TokenKind.beginsPlain, h, Bool.true_or]
  have hhead : Parse.declarationHead.run source s =
      (Parse.expected "type name" : Parse (Specifiers × String × DeclarationForm)).run source s := by
    unfold Parse.declarationHead
    rw [Parse.run_bind_ok (Parse.run_specifiers_of_plain hplain hname),
      Parse.run_bind_ok Parse.run_view, hs.startsType h]
    rfl
  have hnone : (Parse.speculate Parse.declarationHead).run source s = (.ok none, s) := by
    rw [Parse.run_expected] at hhead
    rw [Parse.run_speculate_error hhead]
    simp [Failure.isFatal, Cause.isFatal, ParseState.backTo, ParseState.atPosition, Cursor.reset]
  unfold declaration?
  rw [Parse.run_bind_ok hnone]
  rfl

end Looks

namespace ReadsBefore

variable {α β : Type} {p : Parse α} {x : α} {y : β}

theorem namedDeclaration {g : Grammar} {f : Option Stmt → Parse β} (hw : w.kind.beginsPlain)
    (hf : ReadsBefore source d (f none) q (w :: ws) y) :
    ReadsBefore source d (g.namedDeclaration? >>= f) q (w :: ws) y := by
  refine see (fun s hs hsees => ?_) hf
  refine Grammar.run_namedDeclaration_of_plain ?_
  rwa [show (source.view s).kind 0 = w.kind from hsees.kindAt]

theorem declaration {g : Grammar} {f : Option Stmt → Parse β} (hw : w.kind.beginsExpression)
    (hname : BeginsNoSpecifier (w :: ws)) (hf : ReadsBefore source d (f none) q (w :: ws) y) :
    ReadsBefore source d (g.declaration? >>= f) q (w :: ws) y := by
  refine see (fun s hs hsees => ?_) hf
  refine Grammar.run_declaration_of_expression hs ?_ ?_
  · rwa [show (source.view s).kind 0 = w.kind from hsees.kindAt]
  · rw [show ((source.view s).token 0).lexeme = w from hsees.2.1]
    exact fun h => hname (congrArg some h)

/-! ### The type -/

theorem skipWhile {p : TokenKind → Bool} (h : ∀ w ∈ ws, p w.kind ∧ w.kind ≠ .eof) :
    ReadsBefore source d (Parse.skipWhile p) (fun k => p k = false) ws () := by
  refine iterate fun n hn => ?_
  induction ws generalizing n with
  | nil =>
    obtain ⟨n, rfl⟩ : ∃ n', n = n' + 1 := ⟨n - 1, by omega⟩
    rw [Parse.iterateFor, bind_assoc]
    refine .kindAfter fun k hk => ?_
    rw [hk]
    exact .pure ()
  | cons w ws ih =>
    obtain ⟨n, rfl⟩ : ∃ n', n = n' + 1 := ⟨n - 1, by omega⟩
    obtain ⟨⟨hw, hne⟩, hws⟩ := List.forall_mem_cons.1 h
    rw [List.length_cons] at hn
    rw [Parse.iterateFor, bind_assoc]
    refine .kind ?_
    rw [hw, if_pos rfl, bind_assoc]
    exact .skip hne (ih hws n (by omega))

/-- The text of what a parser took, if that is one lexeme. -/
theorem textSince (hp : ReadsBefore source d p q [w] x) :
    ReadsBefore source d
      (Parse.position >>= fun start => p >>= fun _ => Parse.textSince start) q [w] w.text := by
  intro s hs hsees hnext
  have hlt := hsees.1
  have hbetween : source.stream.between s.cursor.position (s.cursor.position + 1) =
      [source.stream.get s.cursor.position] := by
    rw [TokenStream.get_of_lt _ hlt]
    simp [TokenStream.between, List.take_one, List.head?_drop, hlt]
  rw [Parse.run_bind_ok Parse.run_position, Parse.run_bind_ok (hp s hs hsees hnext),
    Parse.run_textSince, List.length_singleton, ParseState.position_after, hbetween, ← hsees.text]
  simp [Token.join, Token.joinAfter]

theorem typeName :
    ReadsBefore source d Parse.typeName (· = .identifier) [spelled .kwInt] "int" := by
  have hnone (p : TokenKind → Bool) (k : TokenKind) (hp : p k = false) :
      ReadsBefore source d (Parse.skipWhile p) (· = k) [] () :=
    (skipWhile (List.forall_mem_nil _)).mono (by rintro _ rfl; exact hp)
  have hbare : ReadsBefore source d Parse.bareCore (· = .identifier) [spelled .kwInt] () := by
    unfold Parse.bareCore
    refine .kind ((skipWhile (p := TokenKind.isBuiltinType) ?_).mono ?_)
    · exact List.forall_mem_singleton.2 ⟨rfl, by decide⟩
    · rintro _ rfl
      rfl
  have hcore : ReadsBefore source d Parse.typeCore (· = .identifier) [spelled .kwInt] () := by
    unfold Parse.typeCore
    refine (hnone View.isQualifier .kwInt rfl).bind rfl ?_
    exact hbare.andLast (hnone View.isQualifier .identifier rfl)
  have htaken := hcore.andLast (f := fun _ => Parse.skipWhile Parse.isTypeSuffix)
    (hnone Parse.isTypeSuffix .identifier rfl)
  have htext := textSince htaken
  simp only [bind_assoc] at htext
  exact htext

end ReadsBefore

/-! ### Variables and functions -/

/-- A type is read, and what the lexemes after it show it to be the type of. -/
theorem Parse.run_declarationHead {s : ParseState} {text : String} {form : DeclarationForm}
    (hs : Ready source d s)
    (hsees : source.Sees s.cursor.position (spelled .kwInt :: Lexeme.name text :: ws))
    (hform : (source.view (s.after 1)).declarationForm? source.settings.maxLookahead = some form) :
    declarationHead.run source s = (.ok ({}, "int", form), s.after 1) := by
  have hkind : (source.view s).kind 0 = .kwInt := hsees.kindAt
  have hplain : ((source.view s).kind 0).beginsPlain := by rw [hkind]; rfl
  have hname : ((source.view s).token 0).lexeme ≠ Lexeme.name "thread_local" := by
    intro h
    cases hsees.2.1.symm.trans h
  have hpast : (source.view s).past View.isQualifier 0 = 0 := by
    unfold View.past
    cases (source.view s).remaining with
    | zero => rfl
    | succ fuel => exact if_neg (by rw [hkind]; decide)
  have hstarts : (source.view s).startsType 0 = true := by
    unfold View.startsType
    simp only [hpast, show ((source.view s).token 0).kind = .kwInt from hkind]
    rfl
  have htype : typeName.run source s = (.ok "int", s.after 1) :=
    ReadsBefore.typeName s hs ⟨hsees.1, hsees.2.1, trivial⟩ hsees.2.2.kindAt
  have hformed : formedType.run source s = (.ok ("int", form), s.after 1) := by
    unfold formedType
    rw [run_bind_ok htype, run_bind_ok (run_lookAhead _), hform]
    rfl
  unfold declarationHead
  rw [run_bind_ok (run_specifiers_of_plain hplain hname), run_bind_ok run_view, hstarts,
    if_pos rfl]
  exact run_bind_ok hformed

namespace View

variable {v : View}

/-- A name with no parenthesis after it is that of a variable. -/
theorem declarationForm?_variable (hcpp : v.isCpp = false) (h0 : v.kind 0 = .identifier)
    (h1 : v.kind 1 ≠ .lparen) (limit : Nat) : v.declarationForm? limit = some .variable := by
  simp [declarationForm?, shape, hcpp, h0, h1]

/-- A name with parentheses and a brace after it is that of a function. -/
theorem declarationForm?_function (hcpp : v.isCpp = false) (h0 : v.kind 0 = .identifier)
    (h1 : v.kind 1 = .lparen) (h2 : v.kind 2 = .rparen) (h3 : v.kind 3 = .lbrace) {limit : Nat}
    (hlimit : 2 ≤ limit) : v.declarationForm? limit = some .function := by
  obtain ⟨n, rfl⟩ : ∃ n, limit = n + 2 := ⟨limit - 2, by omega⟩
  have hclose : v.matchingParen (n + 2) 1 = some 2 := by
    simp [matchingParen, closingFrom, h1, h2]
  simp [declarationForm?, shape, hcpp, h0, h1, hclose, h3]

end View

section Variables

variable {text : String} {init? : Option Expr}

/-- No sizes in brackets stand before a token that is no bracket. -/
theorem ReadsBefore.dimensions {g : Grammar} (hq : ¬ q .lbracket) :
    ReadsBefore source d g.dimensions q [] [] := by
  refine .collect fun n hn => ?_
  obtain ⟨n, rfl⟩ : ∃ n', n = n' + 1 := ⟨n - 1, by omega⟩
  rw [Parse.collectFor, bind_assoc]
  exact .acceptAfter hq (.pure [])

theorem ReadsBefore.variableInit (hinit : ∀ e ∈ init?, e.IsValue)
    (hd : (Expr.initLexemes init?).length ≤ d) :
    ReadsBefore source d ((Grammar.ofDepth d).variableInit "int") (· = .semicolon)
      (Expr.initLexemes init?) init? := by
  unfold Grammar.variableInit
  cases init? with
  | none =>
    refine .acceptAfter (by decide) (.isCpp ?_)
    refine .checkAfter (by decide) (.acceptAfter (by decide) (.pure none))
  | some e =>
    rw [Expr.initLexemes, List.length_cons] at hd
    have hvalue : Reads source d (Grammar.ofDepth d).initializer 1 (e.lexemesAt 1) e :=
      (hinit e rfl).isArgument.initializer (by omega)
    refine .accept rfl (by decide) ((hvalue.mono ?_).andLast (.pure (some e)))
    rintro _ rfl n hn
    cases hn

theorem before_initLexemes (hassign : q .assign) (hsemicolon : q .semicolon) :
    Before q (· = .semicolon) (Expr.initLexemes init?) := by
  cases init? with
  | none =>
    rintro _ rfl
    exact hsemicolon
  | some e => exact hassign

theorem ReadsBefore.variableOf (hinit : ∀ e ∈ init?, e.IsValue)
    (hd : (Expr.initLexemes init?).length ≤ d) :
    ReadsBefore source d ((Grammar.ofDepth d).variableOf none "int") (· = .semicolon)
      (Lexeme.name text :: Expr.initLexemes init?) ⟨"int", text, init?, none, []⟩ := by
  unfold Grammar.variableOf
  refine Reads.qualifiedName.bind (before_initLexemes ?_ ?_) ?_
  · intro n hn
    cases hn
    decide
  · intro n hn
    cases hn
  · refine (dimensions (q := (· ≠ .lbracket)) fun h => h rfl).bind ?_ ?_
    · exact before_initLexemes (by decide) (by decide)
    · exact (variableInit hinit hd).andLast (.pure _)

/-- A variable is read up to the `;` after it. -/
theorem ReadsBefore.variableDeclaration (hinit : ∀ e ∈ init?, e.IsValue)
    (hd : (Expr.initLexemes init?).length ≤ d) :
    ReadsBefore source d (Grammar.ofDepth d).declaration? q
      (Stmt.var ⟨"int", text, init?, none, []⟩).lexemes
      (some (.var ⟨"int", text, init?, none, []⟩)) := by
  have hrest : ReadsBefore source d ((Grammar.ofDepth d).variableDecls {} "int") q
      (Lexeme.name text :: (Expr.initLexemes init? ++ [spelled .semicolon]))
      [⟨"int", text, init?, none, []⟩] := by
    have hchain : ReadsBefore source d (Parse.chain ((Grammar.ofDepth d).variableOf none)
        (Parse.takeTexts TokenKind.isVariableMark (TypeText.base "int")) "int") (· = .semicolon)
        (Lexeme.name text :: Expr.initLexemes init?) [⟨"int", text, init?, none, []⟩] := by
      refine .chain fun n hn => ?_
      obtain ⟨n, rfl⟩ : ∃ n', n = n' + 1 := ⟨n - 1, by omega⟩
      exact (variableOf hinit hd).andLast (.acceptAfter (by decide) (.pure _))
    unfold Grammar.variableDecls
    exact hchain.bind rfl (.skipOver rfl (by decide) (.pure _))
  have hnext : ∃ w rest, Expr.initLexemes init? ++ [spelled .semicolon] = w :: rest ∧
      w.kind ≠ .lparen := by
    cases init? with
    | none => exact ⟨_, _, rfl, by decide⟩
    | some e => exact ⟨_, _, rfl, by decide⟩
  obtain ⟨w, rest, hw, hparen⟩ := hnext
  unfold Grammar.declaration?
  show ReadsBefore source d _ q ([spelled .kwInt] ++ Lexeme.name text ::
    (Expr.initLexemes init? ++ [spelled .semicolon])) _
  refine bindAhead (x := some (({} : Specifiers), "int", DeclarationForm.variable))
    (fun s hs hsees => ?_) (hrest.andLast (.pure _))
  refine Parse.run_speculate_ok (Parse.run_declarationHead hs hsees ?_)
  have hname := hsees.2.2
  rw [hw] at hname
  have hcpp : (source.view (s.after 1)).isCpp = false := hs.isCpp
  have hsecond : (source.view (s.after 1)).kind 1 = w.kind := hname.2.2.kindAt
  exact View.declarationForm?_variable hcpp hname.kindAt (by rwa [hsecond]) _

end Variables

end CTree
