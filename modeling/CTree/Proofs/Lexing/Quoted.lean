import CTree.Proofs.Cut

/-!
# Where a quoted literal ends

The characters between two quotes are units: a character of its own, or a backslash with what it
takes. No unit is the start of another, so a text falls into units in one way, and with it is fixed
which quote ends a literal. `tokenize_quoted` says that of every literal of a text, and that a
literal without its closing quote is one that is reported.
-/

namespace CTree

/-! ### Units -/

namespace Quote

variable {quote quote' : Char} {kind : TokenKind} {fault fault' : LexFault}

theorem ne_backslash (h : Quote quote kind fault) : quote ≠ '\\' := by
  cases h <;> decide

/-- The kind of a literal tells its quote and what is wrong with it when it is left open. -/
theorem unique (h : Quote quote kind fault) (h' : Quote quote' kind fault') :
    quote' = quote ∧ fault' = fault := by
  cases h <;> cases h' <;> exact ⟨rfl, rfl⟩

end Quote

namespace QuotedBody

variable {quote c : Char} {first body rest last : List Char}

theorem tail (hslash : c ≠ '\\') (h : QuotedBody quote (c :: rest)) : QuotedBody quote rest := by
  cases h with
  | escaped => exact (hslash rfl).elim
  | plain _ _ _ h => exact h

/-- What comes after some units is made of units if the whole is. -/
theorem of_append (hfirst : QuotedBody quote first) (h : QuotedBody quote (first ++ rest)) :
    QuotedBody quote rest := by
  induction hfirst with
  | nil => exact h
  | escaped _ ih =>
    cases h with
    | escaped h => exact ih h
    | plain hslash => exact (hslash rfl).elim
  | plain hslash _ _ _ ih => exact ih (h.tail hslash)

/-- A quote begins no unit. -/
theorem not_cons_quote (hquote : quote ≠ '\\') : ¬ QuotedBody quote (quote :: rest) := by
  intro h
  cases h with
  | escaped => exact hquote rfl
  | plain _ _ hne => exact hne rfl

/-- A backslash alone is no unit. -/
theorem not_backslash : ¬ QuotedBody quote ['\\'] := by
  intro h
  cases h with
  | plain hslash => exact hslash rfl

/-- A quote that stands after some units of a text, where all but the last character are units, is
that last character. -/
theorem eq_nil_of_quote (hquote : quote ≠ '\\') (hbody : QuotedBody quote body)
    (hfirst : QuotedBody quote first) (h : body ++ [c] = first ++ quote :: last) :
    last = [] ∧ c = quote := by
  rcases List.eq_nil_or_concat last with rfl | ⟨last, d, rfl⟩
  · exact ⟨rfl, List.singleton_inj.1 (List.append_inj' h rfl).2⟩
  · rw [List.concat_eq_append, ← List.cons_append, ← List.append_assoc] at h
    rw [(List.append_inj' h rfl).1] at hbody
    exact (not_cons_quote hquote (hfirst.of_append hbody)).elim

end QuotedBody

/-! ### Literals of a text -/

/-- No rule reads a literal in quotes. -/
theorem Rule.not_quote_of_mem_table {dialect : Dialect} {rule : Rule} {quote : Char}
    {fault : LexFault} (h : rule ∈ table dialect) : ¬ Quote quote rule.kind fault := by
  have hall : (table dialect).all
      (fun rule => rule.kind != .stringLiteral && rule.kind != .charLiteral) = true := by
    cases dialect <;> decide
  have hne := List.all_eq_true.1 hall rule h
  intro hquote
  generalize rule.kind = kind at hne hquote
  cases hquote <;> exact Bool.false_ne_true hne

/-- A literal in quotes has both of its quotes, or it is left open, and that is its fault. -/
theorem PieceAt.quoted {dialect : Dialect} {w rest : List Char} {quote : Char} {kind : TokenKind}
    {fault : LexFault} {fault? : Option LexFault} (hquote : Quote quote kind fault)
    (h : PieceAt dialect w rest (some kind) fault?) :
    (∃ body, QuotedBody quote body ∧ w = quote :: (body ++ [quote]) ∧ fault? = none) ∨
      ∃ body, OpenBody quote body rest ∧ w = quote :: body ∧ fault? = some fault := by
  cases h with
  | literal hquote' hbody =>
    obtain ⟨rfl, rfl⟩ := hquote.unique hquote'
    exact .inl ⟨_, hbody, rfl, rfl⟩
  | openLiteral hquote' hopen =>
    obtain ⟨rfl, rfl⟩ := hquote.unique hquote'
    exact .inr ⟨_, hopen, rfl, rfl⟩
  | lexeme _ hlexeme =>
    obtain ⟨rule, hmem, rfl, -⟩ := Rule.mem_of_firstLexeme hlexeme
    exact (Rule.not_quote_of_mem_table hmem hquote).elim

/-- An open literal is reported at the position of the token. -/
def Token.IsLeftOpen (t : Token) (errors : List LexError) : Prop :=
  ⟨.unterminatedString, t.offset⟩ ∈ errors ∨ ⟨.unterminatedCharacter, t.offset⟩ ∈ errors

theorem Quote.isLeftOpen {quote : Char} {kind : TokenKind} {fault : LexFault} {t : Token}
    {errors : List LexError} (h : Quote quote kind fault) (he : ⟨fault, t.offset⟩ ∈ errors) :
    t.IsLeftOpen errors := by
  cases h with
  | string => exact .inl he
  | character => exact .inr he

/-- The literal that stands before `rest` begins with its quote and ends where it has to. -/
theorem exists_quoted_of_mem_tokenize {dialect : Dialect} {text : List Char} {t : Token}
    {quote : Char} {kind : TokenKind} {fault : LexFault} (hquote : Quote quote kind fault)
    (ht : t ∈ (tokenize dialect text).tokens) (hkind : t.kind = kind) :
    ∃ pre rest body, text = pre ++ (t.text.toList ++ rest) ∧ t.offset = Text.byteLength pre ∧
      t.text.toList = quote :: body ∧
      ((∃ cs, QuotedBody quote cs ∧ body = cs ++ [quote]) ∧
          ¬ t.IsLeftOpen (tokenize dialect text).errors ∨
        OpenBody quote body rest ∧ ⟨fault, t.offset⟩ ∈ (tokenize dialect text).errors) := by
  have hend : t.kind ≠ .eof := by
    rw [hkind]
    cases hquote <;> decide
  obtain ⟨pre, w, rest, fault?, htext, heq, hpiece, hfault⟩ :=
    (cut_tokenize dialect text).exists_pieceAt_fault ht hend
  have hw : t.text.toList = w := by rw [heq, String.toList_ofList]
  have hoffset : t.offset = Text.byteLength pre := by rw [heq, Nat.zero_add]
  rw [hkind] at hpiece
  rcases hpiece.quoted hquote with ⟨cs, hcs, rfl, rfl⟩ | ⟨body, hopen, rfl, rfl⟩
  · refine ⟨pre, rest, cs ++ [quote], by rw [hw, htext], hoffset, hw, .inl ⟨⟨cs, hcs, rfl⟩, ?_⟩⟩
    rintro (he | he)
    · exact nomatch (hfault _).1 he
    · exact nomatch (hfault _).1 he
  · exact ⟨pre, rest, body, by rw [hw, htext], hoffset, hw, .inr ⟨hopen, (hfault _).2 rfl⟩⟩

/-- A literal in quotes is its quote and units after it, and it ends with the quote just if no open
literal is reported at its position. If one is, then as one of its kind, and its line ends after
the units, or the text ends with a backslash that has nothing to take. So a quote that no backslash
takes ends the literal, and one that a backslash takes never does. -/
theorem tokenize_quoted {dialect : Dialect} {text : List Char} {t : Token} {quote : Char}
    {kind : TokenKind} {fault : LexFault} (hquote : Quote quote kind fault)
    (ht : t ∈ (tokenize dialect text).tokens) (hkind : t.kind = kind) :
    let errors := (tokenize dialect text).errors
    (∃ pre rest body, text = pre ++ (t.text.toList ++ rest) ∧ t.offset = Text.byteLength pre ∧
      t.text.toList = quote :: body ∧
      ((∃ cs, QuotedBody quote cs ∧ body = cs ++ [quote]) ↔ ¬ t.IsLeftOpen errors) ∧
      (t.IsLeftOpen errors → ⟨fault, t.offset⟩ ∈ errors ∧ OpenBody quote body rest)) ∧
    (∀ first last, QuotedBody quote first → t.text.toList = quote :: (first ++ quote :: last) →
      last = [] ∧ ¬ t.IsLeftOpen errors) ∧
    ∀ first, QuotedBody quote first → t.text.toList = quote :: (first ++ ['\\', quote]) →
      t.IsLeftOpen errors := by
  intro errors
  have hslash := hquote.ne_backslash
  obtain ⟨pre, rest, body, htext, hoffset, hw, hends⟩ :=
    exists_quoted_of_mem_tokenize hquote ht hkind
  -- Units and a quote after them are no units, also with a last backslash.
  have hclosed (first last : List Char) (hfirst : QuotedBody quote first)
      (hbody : body = first ++ quote :: last) : last = [] ∧ ¬ t.IsLeftOpen errors := by
    rcases hends with ⟨⟨cs, hcs, rfl⟩, hreported⟩ | ⟨⟨hcs, -⟩ | ⟨cs, hcs, rfl, -⟩, -⟩
    · exact ⟨(hcs.eq_nil_of_quote hslash hfirst hbody).1, hreported⟩
    · rw [hbody] at hcs
      exact (QuotedBody.not_cons_quote hslash (hfirst.of_append hcs)).elim
    · exact (hslash (hcs.eq_nil_of_quote hslash hfirst hbody).2.symm).elim
  have hopen (hopen : t.IsLeftOpen errors) : ⟨fault, t.offset⟩ ∈ errors ∧ OpenBody quote body rest := by
    rcases hends with ⟨-, hreported⟩ | ⟨hbody, hfault⟩
    · exact (hreported hopen).elim
    · exact ⟨hfault, hbody⟩
  refine ⟨⟨pre, rest, body, htext, hoffset, hw, ⟨?_, ?_⟩, hopen⟩, ?_, ?_⟩
  · rintro ⟨cs, hcs, hbody⟩
    exact (hclosed cs [] hcs hbody).2
  · intro hreported
    rcases hends with ⟨hbody, -⟩ | ⟨-, hfault⟩
    · exact hbody
    · exact (hreported (hquote.isLeftOpen hfault)).elim
  · intro first last hfirst hliteral
    rw [hw] at hliteral
    exact hclosed first last hfirst (List.cons.inj hliteral).2
  · intro first hfirst hliteral
    rw [hw] at hliteral
    have hbody : body = (first ++ ['\\']) ++ [quote] := by
      rw [List.append_assoc]
      exact (List.cons.inj hliteral).2
    rcases hends with ⟨⟨cs, hcs, hcs'⟩, -⟩ | ⟨-, hfault⟩
    · rw [hcs'] at hbody
      rw [(List.append_inj' hbody rfl).1] at hcs
      exact (QuotedBody.not_backslash (hfirst.of_append hcs)).elim
    · exact hquote.isLeftOpen hfault

/-- The second quote of `"a\"` is taken by the backslash before it, so the end of the line leaves the
literal open. -/
theorem tokenize_quoted_escaped :
    let text := "\"a\\\"\nb".toList
    let t : Token := ⟨.stringLiteral, "\"a\\\"", 0⟩
    Quote '"' t.kind .unterminatedString ∧ t ∈ (tokenize .c text).tokens ∧
    QuotedBody '"' ['a'] ∧ t.text.toList = '"' :: (['a'] ++ ['\\', '"']) ∧
    t.IsLeftOpen (tokenize .c text).errors ∧
    ⟨.unterminatedString, 0⟩ ∈ (tokenize .c text).errors := by
  have hmem : (⟨.stringLiteral, "\"a\\\"", 0⟩ : Token) ∈
      (tokenize .c "\"a\\\"\nb".toList).tokens := by
    decide +kernel
  have hunit : QuotedBody '"' ['a'] := .plain (by decide) (by decide) (by decide) .nil
  obtain ⟨⟨pre, rest, body, -, -, -, -, hreported⟩, -, hescaped⟩ := tokenize_quoted .string hmem rfl
  have hopen := hescaped ['a'] hunit rfl
  exact ⟨.string, hmem, hunit, rfl, hopen, (hreported hopen).1⟩

end CTree
