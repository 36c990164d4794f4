import CTree.Proofs.Declarators.Values
import CTree.Proofs.Declarators.Variables
import CTree.Proofs.Items

/-!
# Names in parentheses after the name of a declaration

`T x(a, b);` declares a function if `a` and `b` are types, and a variable that starts with a call otherwise.
The parser tries parameters first, and then arguments. As parameters the names are read up to the first one
that is not the name of a type; nothing is left of that when they are read as arguments.
-/

namespace CTree

open Parse Lexeme

variable {source : Source} {s : ParseState} {g : Grammar} {n d : Nat} {w : Lexeme} {ws : List Lexeme}
  {text type name : String} {texts : List String}

/-! ### Names as parameters -/

/-- Where a type has to be known, a single name is accepted as one if it is. -/
theorem View.accepts_of_word (hword : Rule.IsWord text) (hlenient : s.lenient = false) :
    (source.view s).accepts ⟨text, text⟩ = s.cursor.known.contains text := by
  have hisKnown : (source.view s).isKnown text = s.cursor.known.contains text := rfl
  have hview : (source.view s).lenient = false := hlenient
  simp [accepts, hisKnown, hview, hword.isQualified_eq_false]

/-- A known name is read as a parameter. -/
theorem ReadsEntry.parameter (hword : Rule.IsWord text) (hlocal : text ≠ "thread_local")
    (hlenient : s.lenient = false) : ReadsEntry source s g.parameter (fun text => [Lexeme.name text])
      .rparen s.cursor.known.contains (fun type => ⟨type, "", none⟩) text := by
  intro n w ws hsees hw
  have hk : (source.view (s.after n)).kind 0 = .identifier := hsees.kind
  have hne {k : TokenKind} (h : k.endsEntry .rparen = false) :
      (source.view ((s.after n).after 1)).kind 0 ≠ k := by
    rw [hsees.next.kind]
    exact TokenKind.ne_of_endsEntry hw h
  have hstart : (source.view (s.after n)).kind 0 ≠ .ellipsis := by
    rw [hk]
    decide
  have hspecifiers : specifiers.run source (s.after n) = (.ok {}, s.after n) :=
    run_specifiers_of_sees hsees rfl fun h => hlocal (congrArg Lexeme.text h)
  have hsuffix : isTypeSuffix w.kind = false := by
    generalize w.kind = k at hw
    cases k <;> first | rfl | cases hw
  have htype : ConsumesIf (s.cursor.known.contains text) source (s.after n) 1 Parse.typeName text := by
    have h := ConsumesIf.typeName hsees hsuffix (TokenKind.ne_of_endsEntry hw rfl)
      (TokenKind.ne_of_endsEntry hw rfl)
    rwa [View.accepts_of_word (s := s.after n) hword hlenient] at h
  have hname : (declaredName nameOrNone nameOrNone).run source ((s.after n).after 1) =
      (.ok ("", ""), (s.after n).after 1) := by
    unfold declaredName atFunctionPointer nameOrNone
    simp only [bind_assoc]
    rw [run_bind_ok (run_check _), beq_false_of_ne (hne rfl), run_bind_ok (run_checkAhead _ _)]
    simp only [Bool.false_and, pure_bind, if_neg Bool.false_ne_true]
    rw [run_bind_ok (run_check _), beq_false_of_ne (hne rfl)]
    rfl
  have hbrackets : Consumes source ((s.after n).after 1) 0 (bracketTexts text) text := by
    refine .stop ?_
    rw [run_bind_ok (run_check _), beq_false_of_ne (hne rfl)]
    rfl
  have hdefault : Consumes source ((s.after n).after 1) 0
      (optionalAfter .assign g.expression) none :=
    Consumes.look (run_accept_of_ne (hne rfl)) (.pure none)
  refine .look (run_accept_of_ne hstart) (.look hspecifiers (htype.andLast ?_))
  refine .look (run_accept_of_ne (hne rfl)) (.look hname ?_)
  simp only [if_neg Bool.false_ne_true, String.append_empty]
  exact .look hbrackets (.look hdefault (.pure _))

/-- Names are read as parameters if all of them are known. -/
theorem ConsumesIf.parameters (hwords : ∀ text ∈ texts, Rule.IsWord text ∧ text ≠ "thread_local")
    (hlenient : s.lenient = false) (hsees : source.Sees s.cursor.position
      (spelled .lparen :: (names texts ++ spelled .rparen :: ws))) :
    ConsumesIf (texts.all s.cursor.known.contains) source s (1 + ((names texts).length + 1)) g.parameters
      (texts.map fun type => ⟨type, "", none⟩) := by
  have hclose : (source.view ((s.after 1).after (names texts).length)).kind 0 = .rparen :=
    (hsees.next.after _).kind
  refine .after (.skipOver hsees.kind (by decide)) ?_
  cases texts with
  | nil => exact .of_consumes ((Consumes.accept hclose (by decide)).andLast (.pure _))
  | cons text texts =>
    have hk : (source.view (s.after 1)).kind 0 = .identifier := hsees.next.kind
    have hne {k : TokenKind} (h : TokenKind.identifier ≠ k) : (source.view (s.after 1)).kind 0 ≠ k := by
      rwa [hk]
    have hlist := ConsumesIf.separated (s := s.after 1) (fun text' htext' =>
      ReadsEntry.parameter (g := g) (hwords text' htext').1 (hwords text' htext').2 hlenient)
      (by decide) rfl hsees.next
    refine .look (run_accept_of_ne (hne (by decide))) (.look (run_check _) ?_)
    rw [beq_false_of_ne (hne (by decide))]
    refine .look (run_checkAhead _ _) ?_
    exact hlist.followed ((Consumes.skipOver hclose (by decide)).andLast (.pure _))

/-! ### The head of the declaration -/

/-- Where no other parenthesis comes first, the next `)` closes the one that is open. -/
theorem View.closingFrom_of_sees {fuel : Nat}
    (hsees : source.Sees (s.cursor.position + n) (ws ++ [spelled .rparen]))
    (hws : ∀ w ∈ ws, w.kind = .identifier ∨ w.kind = .comma) (hfuel : ws.length < fuel) :
    (source.view s).closingFrom fuel n 1 = some (n + ws.length) := by
  induction ws generalizing n fuel with
  | nil =>
    obtain ⟨fuel, rfl⟩ : ∃ i, fuel = i + 1 := ⟨fuel - 1, by rw [List.length_nil] at hfuel; omega⟩
    have hclose : (source.view s).kind n = .rparen := hsees.kindAt
    rw [closingFrom, hclose]
    rfl
  | cons w ws ih =>
    rw [List.length_cons] at hfuel
    obtain ⟨fuel, rfl⟩ : ∃ i, fuel = i + 1 := ⟨fuel - 1, by omega⟩
    have hk : (source.view s).kind n = w.kind := hsees.kindAt
    have hrest := ih (n := n + 1) hsees.2.2 (fun v hv => hws v (List.mem_cons_of_mem _ hv))
      (Nat.lt_of_succ_lt_succ hfuel)
    rw [closingFrom, hk, List.length_cons, Nat.add_comm ws.length, ← Nat.add_assoc]
    rcases hws w List.mem_cons_self with h | h <;>
    · rw [h]
      exact hrest

/-- A name with names in parentheses and a `;` after it may be that of a function. -/
theorem View.declarationForm?_of_names {limit : Nat} (hlimit : (names texts).length + 2 ≤ limit)
    (hsees : source.Sees s.cursor.position (Lexeme.name text :: spelled .lparen ::
      (names texts ++ [spelled .rparen, spelled .semicolon]))) :
    (source.view s).declarationForm? limit = some .function := by
  obtain ⟨limit, rfl⟩ : ∃ i, limit = i + 1 := ⟨limit - 1, by omega⟩
  have hopen : (source.view s).kind 1 = .lparen := hsees.2.2.kindAt
  have hgroup : source.Sees (s.cursor.position + 2) (names texts ++ [spelled .rparen]) := by
    have hnext : source.Sees (s.cursor.position + 2)
        (names texts ++ [spelled .rparen] ++ [spelled .semicolon]) := by
      rw [List.append_assoc]
      exact hsees.2.2.2.2
    exact (Source.sees_append.1 hnext).1
  have hclose : (source.view s).matchingParen (limit + 1) 1 = some (2 + (names texts).length) := by
    rw [matchingParen, hopen, beq_self_eq_true, if_pos rfl, closingFrom, hopen]
    exact closingFrom_of_sees hgroup (fun w hw => kind_of_mem_names hw) (by omega)
  refine declarationForm?_of_group hsees.kindAt hopen hclose (.inr ?_)
  have hend := (Source.sees_append.1 hsees.2.2.2.2).2.2.2.kindAt
  have hplace : s.cursor.position + 1 + 1 + (names texts).length + 1 =
      s.cursor.position + (2 + (names texts).length + 1) := by omega
  rwa [hplace] at hend

/-- A name of a type, another name, and names in parentheses, up to the `;`. -/
def nameDeclaration (type name : String) (texts : List String) : List Lexeme :=
  Lexeme.name type :: Lexeme.name name :: spelled .lparen ::
    (names texts ++ [spelled .rparen, spelled .semicolon])

/-- The function whose parameters have the names as types. -/
def FunctionDecl.ofNames (type name : String) (texts : List String) : FunctionDecl where
  returnType := type
  name
  parameters := texts.map fun type => ⟨type, "", none⟩
  body? := none
  isStatic := false
  isInline := false
  isVirtual := false
  isOverride := false
  isConst := false

/-- The variable that starts with a call of its type with the names. -/
def VarDecl.ofNames (type name : String) (texts : List String) : VarDecl where
  type
  name
  init? := some (.call (.identifier type) (texts.map .identifier))
  storage? := none
  dimensions := []

/-- What is declared: a function if all of the names are known. -/
def Stmt.ofNames (known : KnownTypes) (type name : String) (texts : List String) : Stmt :=
  if texts.all known.contains then .decl (.function (.ofNames type name texts))
  else .var (.ofNames type name texts)

/-! ### Reading the declaration -/

section Reading

variable (hword : Rule.IsWord type) (hlocal : type ≠ "thread_local")
  (hknown : s.cursor.known.contains type = true)
  (hsees : source.Sees s.cursor.position (nameDeclaration type name texts))

include hsees hword hlocal hknown

/-- The head of the declaration shows a function. -/
theorem Consumes.namesHead
    (hlimit : (names texts).length + 2 ≤ source.settings.maxLookahead) :
    Consumes source s 1 Parse.declarationHead ({}, type, .function) := by
  have hspecifiers : specifiers.run source s = (.ok {}, s) :=
    run_specifiers_of_sees hsees rfl fun h => hlocal (congrArg Lexeme.text h)
  have hstarts : (source.view s).startsType = true := by
    rw [View.startsType_of_sees hsees, hknown, Bool.or_true, Bool.true_or]
  have htype : Consumes source s 1 Parse.typeName type := by
    have h := Consumes.typeName (List.forall_mem_nil _) (.named hword hknown) (List.forall_mem_nil _)
      rfl hsees
    exact joined_name type ▸ h
  have hform : (source.view (s.after 1)).declarationForm? source.settings.maxLookahead =
      some .function := View.declarationForm?_of_names hlimit hsees.next
  have hformed : Consumes source s 1 formedType (type, .function) := by
    refine htype.andLast (.look (run_lookAhead _) ?_)
    rw [hform]
    exact .pure _
  refine .look hspecifiers (.look run_view ?_)
  rw [hstarts, if_pos rfl]
  exact hformed.andLast (.pure _)

end Reading

/-- After its parameters a function without a body has its `;`. -/
theorem Consumes.functionRest {parameters : List Parameter} {specs : Specifiers}
    (hk : (source.view s).kind 0 = .semicolon) :
    Consumes source s 1 (g.functionRest specs type name parameters)
      (.assemble specs type name parameters {} none) := by
  have hqualifiers : Consumes source s 0 functionQualifiers {} := by
    refine .stop ?_
    unfold functionQualifier
    rw [run_bind_ok run_kind, hk]
    show (view >>= _).run source s = _
    rw [run_bind_ok run_view, View.functionQualifier?, hk]
    rfl
  have hbody : Consumes source s 1 g.functionBody none := by
    refine .look (run_check _) ?_
    rw [hk]
    exact (skipOver hk (by decide)).andLast (.pure none)
  exact .look hqualifiers (hbody.andLast (.pure _))

/-- Names in parentheses, up to the `;`, as arguments. -/
theorem Consumes.directArguments (hroom : source.HasRoom s d 1)
    (hnull : ∀ text ∈ texts, text ≠ "NULL") (hsees : source.Sees s.cursor.position
      (spelled .lparen :: (names texts ++ [spelled .rparen, spelled .semicolon]))) :
    Consumes source s (1 + ((names texts).length + 1 + 1)) (Grammar.ofDepth d).directArguments
      (texts.map .identifier) := by
  have hvalues : Consumes source (s.after 1) ((names texts).length + 1)
      ((Grammar.ofDepth d).arguments .rparen) (texts.map .identifier) :=
    arguments (s := s.after 1) ⟨hroom.grammar, hroom.depth⟩ hnull hsees.next
  have hend : (source.view ((s.after 1).after ((names texts).length + 1))).kind 0 = .semicolon := by
    have h := ((hsees.next.after (names texts)).next).kind
    rwa [ParseState.after_after] at h
  exact (skipOver hsees.kind (by decide)).bind
    (hvalues.bind ((skipOver hend (by decide)).andLast (.pure _)))

/-- The parentheses hold parameters if all names are known, and arguments otherwise. -/
theorem Consumes.functionOrVariable (hroom : source.HasRoom s d 1)
    (hbase : TypeText.base type = type)
    (hwords : ∀ text ∈ texts, Rule.IsWord text ∧ text ≠ "NULL" ∧ text ≠ "thread_local")
    (hsees : source.Sees s.cursor.position (Lexeme.name name :: spelled .lparen ::
      (names texts ++ [spelled .rparen, spelled .semicolon]))) :
    Consumes source s (1 + (1 + ((names texts).length + 1 + 1)))
      ((Grammar.ofDepth d).functionOrVariable {} type)
      (.ofNames s.cursor.known type name texts) := by
  have hcolons : (source.view s).kind 1 ≠ .colonColon := by
    rw [show (source.view s).kind 1 = .lparen from hsees.next.kind]
    decide
  have hparameters : ConsumesIf (texts.all s.cursor.known.contains) source (s.after 1)
      (1 + ((names texts).length + 1)) (strictly (Grammar.ofDepth d).parameters)
      (texts.map fun type => ⟨type, "", none⟩) := by
    have hgroup : source.Sees (s.after 1).cursor.position
        (spelled .lparen :: (names texts ++ spelled .rparen :: [spelled .semicolon])) := hsees.next
    exact .withLeniency (.parameters (s := { s.after 1 with lenient := false })
      (fun text htext => ⟨(hwords text htext).1, (hwords text htext).2.2⟩) rfl hgroup)
  refine (qualifiedName hsees hcolons).bind ?_
  have hattempt := hparameters.speculate
  rw [Stmt.ofNames]
  cases hall : texts.all s.cursor.known.contains with
  | true =>
    have hend : (source.view ((s.after 1).after (1 + ((names texts).length + 1)))).kind 0 = .semicolon := by
      have h := ((hsees.next.next.after (names texts)).next).kind
      rwa [ParseState.after_after, ParseState.after_after] at h
    rw [hall, if_pos rfl] at hattempt
    exact Consumes.bind (m := 1) hattempt ((functionRest hend).andLast (.pure _))
  | false =>
    rw [hall, if_neg Bool.false_ne_true] at hattempt
    have harguments := directArguments (s := s.after 1) ⟨hroom.grammar, hroom.depth⟩
      (fun text htext => (hwords text htext).2.1) hsees.next
    refine .look hattempt (harguments.speculate.andLast ?_)
    rw [hbase]
    exact .pure _

end CTree
