import CTree.Proofs.Classes.Fields
import CTree.Proofs.Classes.Heads

/-!
# Access of members

Labels, fields `int n;` and classes of the same form in the body of a class. A label holds for what comes
after it in its own body: a class inside begins with the access that its keyword gives, and what its labels
say is over at its brace.
-/

namespace CTree

open Parse Lexeme

variable {source : Source} {s t : ParseState} {g : Grammar} {d n round : Nat} {owner : String}
  {bases : List BaseClass} {access : Access} {ws : List Lexeme}

/-! ### What is written -/

/-- The body of a class as it is written, part by part. -/
inductive ClassBody
  | done
  | label (access : Access) (rest : ClassBody)
  | field (name : String) (rest : ClassBody)
  | nested (head : ClassHead) (body rest : ClassBody)

/-- A class as it is written. -/
structure WrittenClass where
  head : ClassHead
  body : ClassBody

/-- The access after labels of a body: that of the last one, or the one that the keyword gives. -/
def ClassKey.accessAfter (key : ClassKey) (labels : List Access) : Access :=
  labels.getLast?.getD key.defaultAccess

theorem ClassKey.accessAfter_concat (key : ClassKey) (labels : List Access) (access : Access) :
    key.accessAfter (labels ++ [access]) = access := by
  simp [accessAfter]

namespace ClassBody

/-- The body as it is written, without its braces. -/
def lexemes : ClassBody → List Lexeme
  | done => []
  | label a rest => spelled a.kind :: spelled .colon :: rest.lexemes
  | field text rest => fieldLexemes text ++ rest.lexemes
  | nested head body rest => head.lexemes ++ spelled .lbrace ::
      (body.lexemes ++ spelled .rbrace :: spelled .semicolon :: rest.lexemes)

/-- The members of the body of a class with the keyword, where the given labels come before it. -/
def members (key : ClassKey) : List Access → ClassBody → List Decl
  | _, done => []
  | labels, label a rest => rest.members key (labels ++ [a])
  | labels, field text rest =>
    .field (.ofInt text (key.accessAfter labels)) :: rest.members key labels
  | labels, nested head body rest =>
    .classType (.ofKey head.key head.name head.bases (body.members head.key []) false) ::
      rest.members key labels

/-- How many parts the body has, those of classes inside not counted. -/
def length : ClassBody → Nat
  | done => 0
  | label _ rest | field _ rest | nested _ _ rest => rest.length + 1

/-- How deep classes are nested in the body. -/
def height : ClassBody → Nat
  | done => 0
  | label _ rest | field _ rest => rest.height
  | nested _ body rest => max (body.height + 1) rest.height

/-- The classes in the body, at any depth. -/
def classes : ClassBody → List WrittenClass
  | done => []
  | label _ rest | field _ rest => rest.classes
  | nested head body rest => ⟨head, body⟩ :: (body.classes ++ rest.classes)

end ClassBody

namespace WrittenClass

/-- The class as it is written. -/
def lexemes (c : WrittenClass) : List Lexeme :=
  c.head.lexemes ++ spelled .lbrace :: (c.body.lexemes ++ [spelled .rbrace])

/-- The class that is declared. -/
def decl (c : WrittenClass) : ClassDecl :=
  .ofKey c.head.key c.head.name c.head.bases (c.body.members c.head.key []) false

/-- The class and those inside, at any depth. -/
def classes (c : WrittenClass) : List WrittenClass :=
  c :: c.body.classes

/-- The head of the class is read, and its body has no more parts than the loop over members takes. -/
def Fits (source : Source) (c : WrittenClass) : Prop :=
  (c.head.IsPlain ∨ c.head.IsRead source) ∧ c.body.length ≤ source.settings.maxIterations

end WrittenClass

/-- A class inside a body has a `;` after it. -/
theorem ClassBody.lexemes_nested (c : WrittenClass) (rest : ClassBody) :
    (nested c.head c.body rest).lexemes = c.lexemes ++ spelled .semicolon :: rest.lexemes := by
  simp [lexemes, WrittenClass.lexemes]

theorem WrittenClass.Fits.isRead {c : WrittenClass} (h : c.Fits source) : c.head.IsRead source :=
  h.1.elim ClassHead.IsPlain.isRead id

/-! ### Members -/

/-- A label gives its access to what follows. -/
theorem Consumes.label (before : Access)
    (hsees : source.Sees s.cursor.position (spelled access.kind :: spelled .colon :: ws)) :
    Consumes source s 2 (g.member owner bases before) (access, []) := by
  have hk : (source.view s).kind 0 = access.kind := hsees.kind
  have hcolon : (source.view (s.after 1)).kind 0 = .colon := hsees.next.kind
  have hnext : (source.view s).kind 1 = .colon := hcolon
  have hlabel : Consumes source s 2 Grammar.accessLabel (some access) := by
    refine .look (run_checkAhead _ _) ?_
    rw [hnext, beq_self_eq_true, if_pos rfl]
    refine .look run_kind ?_
    rw [hk, Access.ofKind?_kind]
    refine .bind (n := 1) (m := 1) (skip ?_) ((skip ?_).andLast (.pure _))
    · rw [hk]
      cases access <;> decide
    · rw [hcolon]
      decide
  exact hlabel.andLast (.pure _)

/-- Where a class is seen, a name or a brace follows the keyword. -/
theorem View.kind_one_of_atClass {v : View} {limit : Nat} (h : v.atClass limit = true) :
    v.kind 1 = .lbrace ∨ v.kind 1 = .identifier := by
  unfold atClass at h
  split at h
  case h_4 => cases h
  all_goals
    split at h
    case h_1 hk => exact .inl hk
    case h_2 hk => exact .inr hk
    case h_3 => cases h

section Definition

variable {c : WrittenClass} (hread : c.head.IsRead source)
  (hmembers : ∀ t, s.Learnt (c.head.lexemes.length + 1) t → ∀ ws,
    source.Sees t.cursor.position (c.body.lexemes ++ spelled .rbrace :: ws) →
      Learns source t c.body.lexemes.length
        (g.parse (.members (TypeText.plain c.head.name) c.head.bases c.head.key.defaultAccess))
        (c.body.members c.head.key []))
  (hsees : source.Sees s.cursor.position (c.lexemes ++ ws))

include hread hmembers hsees

/-- A class is read as the definition of a type if its members are read. -/
theorem Learns.typeDefinition : Learns source s c.lexemes.length g.typeDefinition?
    (some ⟨c.decl.key.word, c.decl.name, .classType c.decl⟩) := by
  have hhead : source.Sees s.cursor.position
      (c.head.lexemes ++ spelled .lbrace :: (c.body.lexemes ++ spelled .rbrace :: ws)) := by
    simpa [WrittenClass.lexemes] using hsees
  have hopen : source.Sees s.cursor.position
      ((c.head.lexemes ++ [spelled .lbrace]) ++ (c.body.lexemes ++ spelled .rbrace :: ws)) := by
    simpa using hhead
  have hbrace : source.kindAt
      (s.cursor.position + (c.head.lexemes.length + 1 + c.body.lexemes.length)) = .rbrace := by
    have h := (Source.sees_append.1 hopen).2.kindAfter
    rwa [List.length_append, List.length_singleton, Nat.add_assoc] at h
  have hclass := Learns.classType (g := g) hread hhead (fun t hlearnt => by
    refine hmembers t hlearnt ws ?_
    have hlength : (c.head.lexemes ++ [spelled .lbrace]).length = c.head.lexemes.length + 1 := by simp
    exact (hlength ▸ hlearnt).sees _ hopen) hbrace
  have hlength : c.lexemes.length = c.head.lexemes.length + 1 + c.body.lexemes.length + 1 := by
    simp [WrittenClass.lexemes]
    omega
  refine .look (run_lookAhead _) ?_
  rw [(hread s _ hhead).1, hlength]
  exact hclass.andLast fun t _ => .pure _

/-- A class inside a body keeps the access of the body. -/
theorem Learns.nested (hend : source.kindAt (s.cursor.position + c.lexemes.length) = .semicolon) :
    Learns source s (c.lexemes.length + 1) (g.member owner bases access)
      (access, [.classType c.decl]) := by
  have hhead : source.Sees s.cursor.position
      (c.head.lexemes ++ spelled .lbrace :: (c.body.lexemes ++ spelled .rbrace :: ws)) := by
    simpa [WrittenClass.lexemes] using hsees
  have hlabel : Grammar.accessLabel.run source s = (.ok none, s) := by
    unfold Grammar.accessLabel
    rw [run_bind_ok (run_checkAhead _ _)]
    rcases View.kind_one_of_atClass (hread s _ hhead).1 with h | h <;>
    · rw [h]
      rfl
  refine .look hlabel ((Learns.typeDefinition hread hmembers hsees).bind fun t hlearnt => ?_)
  have hk : (source.view t).kind 0 = .semicolon := by
    show source.kindAt t.cursor.position = _
    rwa [hlearnt.position]
  refine .of_consumes (Consumes.andLast ((Consumes.accept hk (by decide)).andLast ?_) (.pure _))
  exact .pure _

end Definition

/-! ### The loop over members -/

/-- A member that takes a token is a round of the loop; the next one starts from the access that it leaves. -/
theorem Learns.members_cons {m fuel : Nat} {k : TokenKind} {access' : Access} {found others : List Decl}
    (hk : (source.view s).kind 0 = k) (hgoes : (k == .rbrace || k == .eof) = false)
    (hround : round < source.settings.maxIterations) (hn : 0 < n)
    (h : Learns source s n (g.member owner bases access) (access', found))
    (hrest : ∀ t, s.Learnt n t →
      Learns source t m (roundsFor (g.memberRound owner bases) fuel (round + 1, access')) others) :
    Learns source s (n + m) (roundsFor (g.memberRound owner bases) (fuel + 1) (round, access))
      (found ++ others) := by
  have hfirst : Learns source s n (g.memberRound owner bases (round, access))
      (some (found, round + 1, access')) := by
    refine .look run_kind ?_
    rw [hk, hgoes]
    refine .look run_settings ?_
    rw [if_neg (Nat.not_le_of_lt hround)]
    exact (h.attempt hn).andLast fun t _ => .pure _
  rw [roundsFor]
  exact hfirst.bind fun t hlearnt => (hrest t hlearnt).andLast fun u _ => .pure _

/-- From any place in a class, the rest of its body is read up to the brace. The labels before the place
count, those inside classes do not. -/
def ClassBody.IsRead (source : Source) (b : ClassBody) : Prop :=
  ∀ (s : ParseState) (d round fuel : Nat) (owner : String) (bases : List BaseClass) (key : ClassKey)
    (labels : List Access) (ws : List Lexeme), source.HasRoom s d b.height →
      round + b.length ≤ source.settings.maxIterations → b.lexemes.length < fuel →
      source.Sees s.cursor.position (b.lexemes ++ spelled .rbrace :: ws) →
      Learns source s b.lexemes.length
        (roundsFor ((Grammar.ofDepth d).memberRound owner bases) fuel (round, key.accessAfter labels))
        (b.members key labels)

/-- The members of a class are read if its body is. -/
theorem Learns.members {c : WrittenClass} (hbody : c.body.IsRead source)
    (hlength : c.body.length ≤ source.settings.maxIterations)
    (hroom : source.HasRoom s (d + 1) (c.body.height + 1))
    (hsees : source.Sees s.cursor.position (c.body.lexemes ++ spelled .rbrace :: ws)) :
    Learns source s c.body.lexemes.length
      ((Grammar.ofDepth (d + 1)).parse
        (.members (TypeText.plain c.head.name) c.head.bases c.head.key.defaultAccess))
      (c.body.members c.head.key []) := by
  refine .parse hroom fun s' hposition hroom' => ?_
  rw [← hposition] at hsees
  have hfuel := Source.Sees.length_le_remaining (n := 0) (Source.sees_append.1 hsees).1
  exact .look run_view (hbody s' d 0 _ _ _ c.head.key [] ws hroom' (by omega) (by omega) hsees)

namespace ClassBody.IsRead

theorem done : IsRead source .done := by
  intro s d round fuel owner bases key labels ws _ _ hfuel hsees
  obtain ⟨fuel, rfl⟩ : ∃ i, fuel = i + 1 := ⟨fuel - 1, by omega⟩
  have hend : ((Grammar.ofDepth d).memberRound owner bases (round, key.accessAfter labels)).run source s =
      (.ok none, s) := by
    unfold Grammar.memberRound
    rw [run_bind_ok run_kind, show (source.view s).kind 0 = .rbrace from hsees.kind]
    rfl
  rw [roundsFor]
  exact .look hend (.pure _)

theorem label {rest : ClassBody} (h : rest.IsRead source) : IsRead source (.label access rest) := by
  intro s d round fuel owner bases key labels ws hroom hround hfuel hsees
  obtain ⟨fuel, rfl⟩ : ∃ i, fuel = i + 1 := ⟨fuel - 1, by omega⟩
  have hlength : (ClassBody.label access rest).lexemes.length = 2 + rest.lexemes.length := by
    rw [lexemes, List.length_cons, List.length_cons]
    omega
  rw [length] at hround
  rw [hlength] at hfuel ⊢
  refine .members_cons hsees.kind (by cases access <;> rfl) (by omega) (by decide)
    (.of_consumes (Consumes.label _ hsees)) fun t hlearnt => ?_
  have hrest := h t d (round + 1) fuel owner bases key (labels ++ [access]) ws (hlearnt.hasRoom hroom)
    (by omega) (by omega) (hlearnt.sees [spelled access.kind, spelled .colon] hsees)
  rwa [key.accessAfter_concat] at hrest

theorem field {text : String} {rest : ClassBody} (h : rest.IsRead source) :
    IsRead source (.field text rest) := by
  intro s d round fuel owner bases key labels ws hroom hround hfuel hsees
  obtain ⟨fuel, rfl⟩ : ∃ i, fuel = i + 1 := ⟨fuel - 1, by omega⟩
  have hlength : (ClassBody.field text rest).lexemes.length = 3 + rest.lexemes.length :=
    List.length_append
  rw [length] at hround
  rw [hlength] at hfuel ⊢
  rw [lexemes, List.append_assoc] at hsees
  refine .members_cons hsees.kind rfl (by omega) (by decide)
    (.of_consumes (Consumes.intField hsees)) fun t hlearnt => ?_
  exact h t d (round + 1) fuel owner bases key labels ws (hlearnt.hasRoom hroom) (by omega) (by omega)
    (hlearnt.sees (fieldLexemes text) hsees)

theorem nested {c : WrittenClass} {rest : ClassBody} (hfits : c.Fits source)
    (hbody : c.body.IsRead source) (h : rest.IsRead source) :
    IsRead source (.nested c.head c.body rest) := by
  intro s d round fuel owner bases key labels ws hroom hround hfuel hsees
  obtain ⟨fuel, rfl⟩ : ∃ i, fuel = i + 1 := ⟨fuel - 1, by omega⟩
  have hgrammar := hroom.grammar
  have hdepth := hroom.depth
  rw [height] at hgrammar hdepth
  obtain ⟨d, rfl⟩ : ∃ i, d = i + 1 := ⟨d - 1, by omega⟩
  have hinside : source.HasRoom s (d + 1) (c.body.height + 1) := ⟨by omega, by omega⟩
  have hafter : source.HasRoom s (d + 1) rest.height := ⟨by omega, by omega⟩
  have hlength : (ClassBody.nested c.head c.body rest).lexemes.length =
      (c.lexemes.length + 1) + rest.lexemes.length := by
    rw [lexemes_nested, List.length_append, List.length_cons]
    omega
  rw [length] at hround
  rw [hlength] at hfuel ⊢
  rw [lexemes_nested, List.append_assoc] at hsees
  have hrest : source.Sees s.cursor.position
      ((c.lexemes ++ [spelled .semicolon]) ++ (rest.lexemes ++ spelled .rbrace :: ws)) := by
    simpa using hsees
  have hclass : Learns source s (c.lexemes.length + 1)
      ((Grammar.ofDepth (d + 1)).member owner bases (key.accessAfter labels))
      (key.accessAfter labels, [.classType c.decl]) :=
    Learns.nested hfits.isRead
      (fun t hlearnt ws => Learns.members hbody hfits.2 (hlearnt.hasRoom hinside)) hsees hsees.kindAfter
  refine .members_cons (k := c.head.key.kind) hsees.kind (by cases c.head.key <;> rfl) (by omega)
    (Nat.zero_lt_succ c.lexemes.length) hclass fun t hlearnt => ?_
  refine h t (d + 1) (round + 1) fuel owner bases key labels ws (hlearnt.hasRoom hafter) (by omega)
    (by omega) ?_
  have hlength' : (c.lexemes ++ [spelled .semicolon]).length = c.lexemes.length + 1 := by simp
  exact ParseState.Learnt.sees _ (by rwa [hlength']) hrest

end ClassBody.IsRead

/-- A body is read if the classes inside are. -/
theorem ClassBody.isRead (b : ClassBody) (hclasses : ∀ c ∈ b.classes, c.Fits source) :
    b.IsRead source := by
  induction b with
  | done => exact .done
  | label a rest ih => exact .label (ih hclasses)
  | field text rest ih => exact .field (ih hclasses)
  | nested head body rest ihbody ihrest =>
    refine .nested (c := ⟨head, body⟩) (hclasses _ List.mem_cons_self) (ihbody fun c hc => hclasses c ?_)
      (ihrest fun c hc => hclasses c ?_) <;>
    simp [classes, hc]

/-! ### The class as an item -/

/-- A definition of a type and the `;` after it are an item. -/
theorem Learns.item {c : ClassDecl} (h : Learns source s n g.typeDefinition?
      (some ⟨c.key.word, c.name, .classType c⟩))
    (hend : source.kindAt (s.cursor.position + n) = .semicolon) :
    Learns source s (n + 1) g.item (some (.decl (.classType c))) := by
  have hrest (t : ParseState) (hlearnt : s.Learnt n t) :
      Learns source t 1 (g.definitionRest ⟨c.key.word, c.name, .classType c⟩)
        (.decl (.classType c)) := by
    have hk : (source.view t).kind 0 = .semicolon := by
      show source.kindAt t.cursor.position = _
      rwa [hlearnt.position]
    exact .of_consumes ((Consumes.accept hk (by decide)).andLast (.pure _))
  have hnamed : Learns source s (n + 1) g.namedDeclaration? (some (.decl (.classType c))) :=
    h.bind fun t hlearnt => (hrest t hlearnt).andLast fun u _ => .pure _
  exact hnamed.andLast fun t _ => .pure _

/-- A class whose body holds labels, fields `int n;` and classes of the same form, and the `;` after it, are read
as one item. Its members are the fields and the classes inside, in the order of the source. A field has the
access of the last label before it in its own body, or the one that the keyword of this body gives if there is
none. Nothing is reported, and nothing else is found if the source ends there. -/
theorem Grammar.run_item_of_class (source : Source) (s : ParseState) (d : Nat) (c : WrittenClass)
    (hfits : ∀ c' ∈ c.classes, c'.Fits source) (hroom : source.HasRoom s d (c.body.height + 1))
    (hsees : source.Sees s.cursor.position (c.lexemes ++ [spelled .semicolon])) :
    ∃ t, (Grammar.ofDepth d).item.run source s = (.ok (some (.decl (.classType c.decl))), t) ∧
      s.Learnt (c.lexemes.length + 1) t ∧
      (0 < source.settings.maxIterations →
        source.kindAt (s.cursor.position + (c.lexemes.length + 1)) = .eof →
        ((Grammar.ofDepth d).items false).run source s = (.ok [.decl (.classType c.decl)], t)) := by
  have hgrammar := hroom.grammar
  obtain ⟨d, rfl⟩ : ∃ i, d = i + 1 := ⟨d - 1, by omega⟩
  have hfitsSelf : c.Fits source := hfits c List.mem_cons_self
  have hbody : c.body.IsRead source :=
    c.body.isRead fun c' hc' => hfits c' (List.mem_cons_of_mem _ hc')
  have hdefinition := Learns.typeDefinition (g := Grammar.ofDepth (d + 1)) hfitsSelf.isRead
    (fun t hlearnt ws => Learns.members hbody hfitsSelf.2 (hlearnt.hasRoom hroom)) hsees
  obtain ⟨t, hrun, hlearnt⟩ := Learns.item hdefinition hsees.kindAfter
  refine ⟨t, hrun, hlearnt, fun hiterations hend => ?_⟩
  have hk : (source.view s).kind 0 = c.head.key.kind := hsees.kind
  refine run_items_of_item hiterations (by rw [hk]; cases c.head.key <;> decide)
    (by rw [hk]; cases c.head.key <;> decide) hrun (by rw [hlearnt.position]; omega) ?_
  show source.kindAt t.cursor.position = _
  rwa [hlearnt.position]

/-- A class with a class inside that has labels of its own. -/
theorem Grammar.run_item_of_class_nested :
    let text := "class A final : public B { int a; public: struct { int b; private: int c; }; int d; };"
    let source := (Session.start {} text.toList).source
    let inner : ClassDecl := .ofKey .structKey "" []
      [.field (.ofInt "b" .publicAccess), .field (.ofInt "c" .privateAccess)] false
    ∃ t, ((Grammar.ofDepth 2).items false).run source {} =
      (.ok [.decl (.classType (.ofKey .classKey "A" [⟨"B", .publicAccess, false⟩]
        [.field (.ofInt "a" .privateAccess), .classType inner, .field (.ofInt "d" .publicAccess)]
        false))], t) ∧ t.diagnostics = #[] := by
  intro text source inner
  let body : ClassBody := .field "a" (.label .publicAccess
    (.nested (.anonymous .structKey) (.field "b" (.label .privateAccess (.field "c" .done)))
      (.field "d" .done)))
  let c : WrittenClass :=
    ⟨.named .classKey "A" true [⟨[.access .publicAccess], "B"⟩], body⟩
  have hfits : ∀ c' ∈ c.classes, c'.Fits source := by
    have hinside : (WrittenClass.mk (.anonymous .structKey)
        (.field "b" (.label .privateAccess (.field "c" .done)))).Fits source :=
      ⟨.inl (.anonymous _), by decide⟩
    simp only [WrittenClass.classes, c, body, ClassBody.classes, List.append_nil, List.forall_mem_cons]
    exact ⟨⟨.inl (.named ..), by decide⟩, hinside, List.forall_mem_nil _⟩
  have htokens : source.stream.body.toList.map Token.lexeme =
      ([] : List Lexeme) ++ (c.lexemes ++ [spelled .semicolon]) := by decide +kernel
  have hsees := Source.sees_of_map htokens
  have hend : source.kindAt 29 = .eof := Source.kindAt_of_map htokens
  obtain ⟨t, -, hlearnt, hitems⟩ := run_item_of_class source {} 2 c hfits ⟨by decide, by decide⟩ hsees
  exact ⟨t, hitems (by decide) hend, hlearnt.diagnostics⟩

/-- A body with more parts than the loop over members takes is not read. -/
theorem Grammar.run_item_of_class_exhausted :
    ¬ ∀ (source : Source) (s : ParseState) (d : Nat) (c : WrittenClass),
      (∀ c' ∈ c.classes, c'.head.IsPlain) → source.HasRoom s d (c.body.height + 1) →
      source.Sees s.cursor.position (c.lexemes ++ [spelled .semicolon]) →
        ((Grammar.ofDepth d).item.run source s).1.toOption = some (some (.decl (.classType c.decl))) := by
  intro h
  let source := (Session.start { maxIterations := 1 } "class A { int a; int b; };".toList).source
  let c : WrittenClass :=
    ⟨.named .classKey "A" false [], .field "a" (.field "b" .done)⟩
  have hread : ((Grammar.ofDepth 1).item.run source {}).1.toOption.isNone = true := by decide +kernel
  have hplain : ∀ c' ∈ c.classes, c'.head.IsPlain := by
    simp only [WrittenClass.classes, c, ClassBody.classes, List.forall_mem_cons]
    exact ⟨.named .., List.forall_mem_nil _⟩
  have hsees : source.Sees ([] : List Lexeme).length (c.lexemes ++ [spelled .semicolon]) :=
    Source.sees_of_map (by decide +kernel)
  rw [h source {} 1 c hplain ⟨by decide, by decide⟩ hsees] at hread
  cases hread

end CTree
