import CTree.Proofs.Rereading.Again

/-!
# Lexemes that cling to what follows

`Lexeme.Clings` lists all that can keep a lexeme from being read where it is written: a longer operator or the
opening of a comment stands there, a directive goes on as a word or with a path, or an integer goes on as a
real literal. For a lexeme of a text without faults the list is complete, and nothing on it is read as that
lexeme.
-/

namespace CTree

namespace Text

variable {c : Char}

/-- No blank belongs to a word. -/
theorem isWordChar_of_isBlank (h : isBlank c = true) : isWordChar c = false := by
  rw [Bool.eq_false_iff]
  intro hword
  unfold isWordChar at hword
  split at hword
  · rw [Rule.isBlank_of_isAsciiWord hword] at h
    cases h
  · have hdisjoint : blankRanges.all (fun b => wordRanges.toList.all fun r =>
        decide (b.2 < r.1) || decide (r.2 < b.1)) = true := by
      decide +kernel
    rw [← Array.any_toList] at hword
    obtain ⟨b, hb, hbc⟩ := List.any_eq_true.1 h
    obtain ⟨r, hr, hrc⟩ := List.any_eq_true.1 hword
    have hbr := List.all_eq_true.1 (List.all_eq_true.1 hdisjoint b hb) r hr
    simp only [Bool.and_eq_true, Bool.or_eq_true, decide_eq_true_eq] at hbc hrc hbr
    omega

/-- No word of another script begins here. -/
def StartsPlain (text : List Char) : Prop :=
  ∀ c ∈ text.head?, isWordChar c = true → isAsciiWord c = true

end Text

/-! ### Lexemes of texts without faults -/

namespace Rule

variable {dialect : Dialect} {c : Char} {cs : List Char} {r : Rule}

/-- Operators begin with no character of a word. -/
theorem mark_head {k : TokenKind} (hk : k ∈ spelledKinds dialect) (hmark : k.isMark = true)
    (h : k.spelling.toList = c :: cs) : Text.isWordChar c = false := by
  have hall : (spelledKinds dialect).all (fun k => !k.isMark ||
      k.spelling.toList.head?.all (!Text.isWordChar ·)) = true := by
    cases dialect <;> decide +kernel
  have hfirst := List.all_eq_true.1 hall k hk
  simpa [hmark, h] using hfirst

/-- Lexemes begin with no character of another script. -/
theorem InTable.isAsciiWord_head (hr : InTable dialect r) (h : r.Reads (c :: cs))
    (hword : Text.isWordChar c = true) : Text.isAsciiWord c = true := by
  have hpoint : c ≠ '.' := by
    rintro rfl
    exact absurd hword (by decide)
  rcases lead_cases c with ⟨rfl, -⟩ | ⟨hname, -⟩ | ⟨hdigit, -⟩ | hmark
  · exact absurd hword (by decide)
  · exact isAsciiWord_of_isNameStart hname
  · exact isAsciiWord_of_isDigit hdigit
  · obtain ⟨k, hk, hkind, rfl⟩ := hr.of_mark ((hr.lead_eq h hpoint).trans hmark)
    obtain ⟨m, hm⟩ := h
    obtain ⟨d, ds, hd, -⟩ := lead_of_spelled hk
    obtain ⟨v, hv⟩ := ((spelled_reader_of_isMark hkind).1 hm).1
    rw [hd] at hv
    obtain rfl : d = c := (List.cons.inj hv).1
    exact absurd hword (by rw [mark_head hk hkind hd]; decide)

end Rule

/-- A piece without a fault begins with no character of another script. -/
theorem PieceAt.startsPlain {dialect : Dialect} {w rest : List Char} {kind? : Option TokenKind}
    (h : PieceAt dialect w rest kind? none) : Text.StartsPlain (w ++ rest) := by
  intro c hc hword
  have hmark {x : Char} {cs : List Char} (hx : Text.isWordChar x = false) (hcs : (x :: cs).head? = some c) :
      Text.isAsciiWord c = true := by
    obtain rfl := Option.some.inj hcs
    exact (Bool.false_ne_true (hx.symm.trans hword)).elim
  cases h with
  | blank hblank => exact hmark (Text.isWordChar_of_isBlank hblank) hc
  | lineComment => exact hmark (by decide) hc
  | blockComment => exact hmark (by decide) hc
  | literal hquote => cases hquote <;> exact hmark (by decide) hc
  | lexeme _ hlexeme =>
    obtain ⟨cs, hcs⟩ := List.head?_eq_some_iff.1 hc
    rw [hcs] at hlexeme
    obtain ⟨rule, hmem, -, hread⟩ := Rule.mem_of_firstLexeme hlexeme
    exact (Rule.inTable_of_mem hmem).isAsciiWord_head ⟨_, hread⟩ hword

/-- A lexeme that stands somewhere in a text where nothing is wrong with it or right after it. -/
def Lexeme.Stands (dialect : Dialect) (w : Lexeme) : Prop :=
  ∃ rest, PieceAt dialect w.text.toList rest (some w.kind) none ∧ Text.StartsPlain rest

namespace Cut

variable {dialect : Dialect} {start : Nat} {text : List Char} {tokens : List Token}
  {errors : List LexError}

/-- A text that begins without a fault begins with no character of another script. -/
theorem startsPlain (h : Cut dialect start text tokens errors) (hclean : ∀ e ∈ errors, e.offset ≠ start) :
    Text.StartsPlain text := by
  cases h with
  | done => exact fun c hc => nomatch hc
  | @piece start w rest kind? fault? tokens errors hpiece hrest =>
    cases fault? with
    | none => exact hpiece.startsPlain
    | some fault => exact (hclean ⟨fault, start⟩ (List.mem_append_left _ List.mem_cons_self) rfl).elim

/-- A token stands in its text, if nothing is wrong there and where it ends. -/
theorem stands (h : Cut dialect start text tokens errors) {t : Token} (ht : t ∈ tokens)
    (hend : t.kind ≠ .eof) (hclean : ∀ e ∈ errors, e.offset ≠ t.offset ∧ e.offset ≠ t.stop) :
    t.lexeme.Stands dialect := by
  induction h with
  | done =>
    obtain rfl := List.mem_singleton.1 ht
    exact (hend rfl).elim
  | @piece start w rest kind? fault? tokens errors hpiece hrest ih =>
    have hclean' : ∀ e ∈ errors, e.offset ≠ t.offset ∧ e.offset ≠ t.stop := fun e he =>
      hclean e (List.mem_append_right _ he)
    rcases List.mem_append.1 ht with ht | ht
    · obtain ⟨kind, rfl, rfl⟩ := Option.map_eq_some_iff.1 (Option.mem_toList.1 ht)
      have hstop : start + Text.byteLength w = Token.stop ⟨kind, String.ofList w, start⟩ := by
        rw [Token.stop, String.toList_ofList]
      refine ⟨rest, ?_, hrest.startsPlain fun e he => hstop ▸ (hclean' e he).2⟩
      rw [Token.lexeme, String.toList_ofList]
      cases fault? with
      | none => exact hpiece
      | some fault =>
        exact ((hclean ⟨fault, start⟩ (List.mem_append_left _ List.mem_cons_self)).1 rfl).elim
    · exact ih ht hclean'

end Cut

/-! ### What keeps a lexeme from being read -/

/-- Where a lexeme of the given kind and text is written before `rest`, something else is read. -/
def Clings (dialect : Dialect) (kind : TokenKind) (w rest : List Char) : Prop :=
  -- a longer operator
  kind.isMark = true ∧ Rule.Grows dialect kind rest ∨
  -- a comment
  kind = .slash ∧ (rest.head? = some '/' ∨ rest.head? = some '*') ∨
  -- a directive with a longer word, or with a path
  kind.isDirective = true ∧ kind ≠ .includeDirective ∧
    (rest.head?.any Text.isAsciiWord = true ∨ w = Rule.includeWord ∧ Rule.HasPath dialect rest) ∨
  -- a real literal
  kind = .intLiteral ∧ w.all Rule.isDigit = true ∧ Rule.startsFraction rest = true

section Clings

variable {dialect : Dialect} {kind : TokenKind} {w rest rest' : List Char} {c : Char} {n : Nat}

namespace Rule

/-- A word ends where its lexeme does. -/
theorem not_isAsciiWord_of_word (hw : w.length = n + 1)
    (h : firstLexeme (w ++ rest) (table dialect) = some (kind, n)) (hkind : Lead.ofKind kind = .word) :
    ∀ c ∈ rest.head?, Text.isAsciiWord c = false := by
  rcases name_or_keyword_of_lead hkind with rfl | hkeyword
  · exact not_isAsciiWord_of_firstLexeme hw h
  · intro c hc
    obtain ⟨-, -, hend⟩ := spelled_of_firstLexeme hw h (.inl hkeyword)
    rw [Bool.eq_false_iff]
    intro hword
    exact Bool.false_ne_true ((hend hkeyword c hc).symm.trans (isWordChar_of_isAsciiWord hword))

/-- A slash of its own is the operator. -/
theorem eq_slash_of_firstLexeme (h : firstLexeme (['/'] ++ rest) (table dialect) = some (kind, 0)) :
    kind = .slash := by
  obtain ⟨rule, hmem, rfl, hread⟩ := mem_of_firstLexeme h
  have hlead := (inTable_of_mem hmem).lead_eq ⟨0, hread⟩ (by decide)
  obtain ⟨k, hk, hmark, rfl⟩ := (inTable_of_mem hmem).of_mark (hlead.trans (by decide))
  obtain ⟨-, htext, -⟩ := spelled_of_firstLexeme rfl h (.inr hmark)
  exact eq_of_spelling_eq hk (by cases dialect <;> decide) (String.toList_inj.1 htext.symm)

end Rule

theorem Text.isWordChar_eq_false (hplain : Text.StartsPlain rest)
    (h : ∀ c ∈ rest.head?, Text.isAsciiWord c = false) : ∀ c ∈ rest.head?, Text.isWordChar c = false :=
  fun c hc => Bool.eq_false_iff.2 fun hword =>
    Bool.false_ne_true ((h c hc).symm.trans (hplain c hc hword))

/-- Words and numbers are kept apart by blanks. -/
theorem Rule.InTable.isWordy {rule : Rule} (hin : Rule.InTable dialect rule)
    (hlead : Rule.Lead.ofKind rule.kind = .word ∨ Rule.Lead.ofKind rule.kind = .digit) :
    rule.kind.isWordy = true := by
  rcases hlead with hword | hdigit
  · rcases name_or_keyword_of_lead hword with hname | hkeyword
    · rw [hname]
      rfl
    · exact Bool.or_eq_true_iff.2 (.inl hkeyword)
  · rcases hin.of_digit hdigit with rfl | rfl | rfl | rfl
    · rfl
    · rfl
    · cases dialect <;> rfl
    · rfl

/-- What was read once is read again where nothing clings. -/
theorem Rule.firstLexeme_again_of_not_clings
    (h : firstLexeme (w ++ rest) (Rule.table dialect) = some (kind, n)) (hw : w.length = n + 1)
    (hplain : Text.StartsPlain rest) (hplain' : Text.StartsPlain rest')
    (hwordy : kind.isWordy = true → ∀ c ∈ rest'.head?, Text.isWordChar c = false)
    (hclings : ¬ Clings dialect kind w rest') :
    firstLexeme (w ++ rest') (Rule.table dialect) = some (kind, n) := by
  obtain ⟨rule, hmem, rfl, hread⟩ := mem_of_firstLexeme h
  have hin := inTable_of_mem hmem
  rw [← hw] at hread
  cases hkind : Lead.ofKind rule.kind with
  | hash =>
    have hdirective : rule.kind.isDirective = true := isDirective_of_lead hkind
    by_cases hpath : rule.kind = .includeDirective
    · rw [hpath] at h ⊢
      exact firstLexeme_again_path h hw rest'
    · obtain ⟨-, -, -, -, hrest⟩ := exists_of_directive hin hkind hpath hread
      refine firstLexeme_again_directive h hw hkind hpath (Text.isWordChar_eq_false hplain hrest)
        (Text.isWordChar_eq_false hplain' fun c hc => Bool.eq_false_iff.2 fun hword => ?_) fun hinclude => ?_
      · exact hclings (.inr (.inr (.inl ⟨hdirective, hpath, .inl (by rw [hc]; exact hword)⟩)))
      · exact hclings (.inr (.inr (.inl ⟨hdirective, hpath, .inr hinclude⟩)))
  | word =>
    have hrest := Text.isWordChar_eq_false hplain (not_isAsciiWord_of_word hw h hkind)
    exact firstLexeme_again_word h hw hkind hrest (hwordy (hin.isWordy (.inl hkind)))
  | digit =>
    exact firstLexeme_again_number h hw hkind (hwordy (hin.isWordy (.inr hkind))) fun hreal =>
      hclings (.inr (.inr (.inr hreal)))
  | mark =>
    obtain ⟨k, -, hmark, rfl⟩ := hin.of_mark hkind
    exact firstLexeme_again_mark h hw hmark fun hgrows => hclings (.inl ⟨hmark, hgrows⟩)

/-- A piece without a fault is such a piece again where nothing clings. -/
theorem PieceAt.again (h : PieceAt dialect w rest (some kind) none) (hplain : Text.StartsPlain rest)
    (hplain' : Text.StartsPlain rest')
    (hwordy : kind.isWordy = true → ∀ c ∈ rest'.head?, Text.isWordChar c = false)
    (hclings : ¬ Clings dialect kind w rest') : PieceAt dialect w rest' (some kind) none := by
  cases h with
  | literal hquote hbody => exact .literal hquote hbody
  | @lexeme w rest kind n hstarts hlexeme hlength =>
    refine .lexeme ?_ (Rule.firstLexeme_again_of_not_clings hlexeme hlength hplain hplain' hwordy hclings)
      hlength
    obtain ⟨c, cs, hcs, hblank, hstring, hchar, hcomment⟩ := hstarts
    obtain ⟨d, u, rfl⟩ := List.exists_cons_of_length_eq_add_one hlength
    obtain ⟨rfl, rfl⟩ := List.cons.inj hcs
    refine ⟨d, u ++ rest', rfl, hblank, hstring, hchar, fun hslash => ?_⟩
    cases u with
    | cons x u => exact hcomment hslash
    | nil =>
      subst hslash
      obtain rfl : n = 0 := by simpa using hlength
      have hkind := Rule.eq_slash_of_firstLexeme hlexeme
      constructor
      · exact fun hhead => hclings (.inr (.inl ⟨hkind, .inl hhead⟩))
      · exact fun hhead => hclings (.inr (.inl ⟨hkind, .inr hhead⟩))

/-- What needs no blank before it begins with no character of a word. -/
theorem PieceAt.isWordChar_head (h : PieceAt dialect w rest (some kind) none)
    (hwordy : kind.isWordy = false) : ∀ c ∈ w.head?, Text.isWordChar c = false := by
  cases h with
  | literal hquote => cases hquote <;> cases hwordy
  | @lexeme w rest kind n _ hlexeme hlength =>
    obtain ⟨rule, hmem, rfl, hread⟩ := Rule.mem_of_firstLexeme hlexeme
    have hin := Rule.inTable_of_mem hmem
    obtain ⟨c, u, rfl⟩ := List.exists_cons_of_length_eq_add_one hlength
    rintro _ ⟨⟩
    obtain ⟨_, _, hcons, hlead⟩ := hin.lead ⟨n, hread⟩
    cases hcons
    rcases hlead with hlead | ⟨hfloat, -⟩
    · rcases Rule.lead_cases c with ⟨rfl, -⟩ | ⟨-, hc⟩ | ⟨-, hc⟩ | hc
      · decide
      · exact absurd (hin.isWordy (.inl (hlead.symm.trans hc))) (by rw [hwordy]; decide)
      · exact absurd (hin.isWordy (.inr (hlead.symm.trans hc))) (by rw [hwordy]; decide)
      · obtain ⟨k, hk, hmark, rfl⟩ := hin.of_mark (hlead.symm.trans hc)
        obtain ⟨-, htext, -⟩ := Rule.spelled_of_firstLexeme hlength hlexeme (.inr hmark)
        exact Rule.mark_head hk hmark htext.symm
    · rw [hfloat] at hwordy
      cases hwordy

/-! ### What clings is not read -/

theorem Rule.reads_of_hasPath (h : Rule.HasPath dialect rest) :
    ∃ rule ∈ Rule.table dialect, rule.kind = .includeDirective ∧ rule.Reads (Rule.includeWord ++ rest) := by
  obtain ⟨rule, hmem, hread⟩ := List.any_eq_true.1 h
  obtain ⟨n, hn⟩ := Option.isSome_iff_exists.1 hread
  refine ⟨rule, ?_, ?_, ?_⟩
  · rw [table_eq]
    exact List.mem_append_left _ hmem
  · simp only [includes, List.mem_cons, List.not_mem_nil, or_false] at hmem
    rcases hmem with rfl | rfl <;> rfl
  · simp only [includes, List.mem_cons, List.not_mem_nil, or_false] at hmem
    rcases hmem with rfl | rfl <;>
    · obtain ⟨m, k, hm, -, rfl⟩ := Reader.sequence_cons_eq_some_iff.1 hn
      obtain rfl := Option.some.inj ((text_append includeWord rest).symm.trans hm)
      exact ⟨_, hn.trans (congrArg some (Nat.add_comm 8 k))⟩

theorem Rule.eq_includeDirective_of_rank (h : Rule.rank kind = 0) : kind = .includeDirective := by
  unfold rank at h
  split at h
  any_goals cases h
  · rfl
  · split at h <;> cases h

theorem Rule.realOf_mem_table (dialect : Dialect) : Rule.realOf dialect ∈ Rule.table dialect := by
  simp [table_eq]

/-- Digits and a fraction are read as a real literal. -/
theorem Rule.reads_realOf (hw : w.all Rule.isDigit = true) (hne : w ≠ [])
    (hrest : Rule.startsFraction rest = true) : (Rule.realOf dialect).Reads (w ++ rest) := by
  obtain ⟨d, ds, rfl, hd⟩ : ∃ d ds, rest = '.' :: d :: ds ∧ isDigit d = true := by
    unfold startsFraction at hrest
    split at hrest
    · exact ⟨_, _, rfl, hrest⟩
    · cases hrest
  have hrun : ((w ++ '.' :: d :: ds).takeWhile isDigit).length = w.length :=
    congrArg List.length (Reader.takeWhile_append_of_head hw (by rintro _ ⟨⟩; rfl))
  have hpos : 0 < w.length := List.length_pos_iff.2 hne
  have hdigits : 0 < ((d :: ds).takeWhile isDigit).length := by
    rw [List.takeWhile_cons_of_pos hd, List.length_cons]
    exact Nat.succ_pos _
  -- After the digits of the fraction all parts may be left out.
  have hreads (r : Reader) (rs : List Reader) (hr : r (w ++ '.' :: d :: ds) = some w.length)
      (hrs : ∀ cs, ∃ n, Reader.sequence rs cs = some n) :
      ∃ m, Reader.sequence (r :: Reader.one (· == '.') :: Reader.run1 isDigit :: rs)
        (w ++ '.' :: d :: ds) = some (m + 1) := by
    obtain ⟨n, hn⟩ := hrs ((d :: ds).drop ((d :: ds).takeWhile isDigit).length)
    have hpoint : Reader.one (· == '.') ('.' :: d :: ds) = some 1 := rfl
    rw [sequence_cons hr, List.drop_left, sequence_cons hpoint, List.drop_one, List.tail_cons,
      sequence_cons (Reader.run1_eq_some_iff.2 ⟨rfl, hdigits⟩), hn]
    exact ⟨_ + _ - 1, congrArg some (Nat.sub_add_cancel (Nat.le_add_right_of_le hpos)).symm⟩
  have hmark (cs : List Char) : ∃ n, Reader.sequence [floatMark] cs = some n := by
    rw [Reader.sequence_singleton]
    exact ⟨_, rfl⟩
  cases dialect with
  | c => exact hreads _ _ (Reader.run1_eq_some_iff.2 ⟨hrun, hpos⟩) hmark
  | cpp =>
    refine hreads _ [Reader.optional exponent, floatMark] (congrArg some hrun) fun cs => ?_
    obtain ⟨n, hn⟩ := hmark (cs.drop ((exponent cs).getD 0))
    exact ⟨_, (sequence_cons (r := Reader.optional exponent) rfl _).trans (congrArg _ hn)⟩

/-- Where something clings to a lexeme, it is not read. -/
theorem PieceAt.not_clings (h : PieceAt dialect w rest (some kind) none) : ¬ Clings dialect kind w rest := by
  cases h with
  | literal hquote =>
    cases hquote <;> rintro (⟨h, -⟩ | ⟨h, -⟩ | ⟨h, -⟩ | ⟨h, -⟩) <;> cases h
  | @lexeme w rest kind n hstarts hlexeme hlength =>
    rintro (⟨hmark, k, hk, hkmark, hne, hshort, v, hv⟩ | ⟨rfl, hhead⟩ | ⟨hdirective, hpath, hmore⟩ |
      ⟨rfl, hdigits, hfraction⟩)
    · obtain ⟨-, rfl, -⟩ := Rule.spelled_of_firstLexeme hlength hlexeme (.inr hmark)
      rw [← hv] at hlexeme
      have hword : k.isKeyword = true → ∀ c ∈ v.head?, Text.isWordChar c = false := fun hkeyword =>
        (Bool.false_ne_true ((Rule.isKeyword_eq_false hkmark).symm.trans hkeyword)).elim
      rcases Rule.eq_or_mayPrecede_of_spelled hlexeme hk hword with heq | hbefore
      · exact hne heq
      · exact hbefore.2 hmark hkmark hshort
    · obtain ⟨-, rfl, -⟩ := Rule.spelled_of_firstLexeme hlength hlexeme (.inr rfl)
      obtain ⟨c, cs, hcs, -, -, -, hcomment⟩ := hstarts
      obtain ⟨rfl, rfl⟩ := List.cons.inj hcs
      exact hhead.elim (hcomment rfl).1 (hcomment rfl).2
    · have hlead : Rule.Lead.ofKind kind = .hash := if_pos hdirective
      obtain ⟨rule, hmem, rfl, hread⟩ := Rule.mem_of_firstLexeme hlexeme
      rw [← hlength] at hread
      obtain ⟨-, -, -, -, hrest⟩ := Rule.exists_of_directive (Rule.inTable_of_mem hmem) hlead hpath hread
      rcases hmore with hmore | ⟨rfl, hmore⟩
      · cases rest with
        | nil => cases hmore
        | cons c rest => exact Bool.false_ne_true ((hrest c rfl).symm.trans hmore)
      · obtain ⟨r, hr, hkind, hreads⟩ := Rule.reads_of_hasPath hmore
        have hrank := Rule.rank_le_of_firstLexeme hlexeme hr hreads
        rw [hkind] at hrank
        exact hpath (Rule.eq_includeDirective_of_rank (Nat.le_zero.1 hrank))
    · have hne : w ≠ [] := by
        rintro rfl
        cases hlength
      have hrank := Rule.rank_le_of_firstLexeme hlexeme (Rule.realOf_mem_table dialect)
        (Rule.reads_realOf hdigits hne hfraction)
      exact absurd hrank (by cases dialect <;> decide)

end Clings

end CTree
