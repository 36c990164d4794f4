import CTree.Proofs.Rereading.Lead

/-!
# A lexeme is read again

Before a text that goes on with no character of a word, the lexeme that was read once is read again, but for
four things: a longer operator, a comment, the path of `#include`, and the fraction of a number.
-/

namespace CTree

namespace Rule

open Reader

variable {c : Char} {cs w rest rest' : List Char} {k kind : TokenKind} {dialect : Dialect}
  {rule r : Rule} {n m : Nat}

/-! ### Words -/

/-- A word that has to end is read where it stands and ends. -/
theorem wholeWord_eq_some_iff {t : List Char} : Reader.sequence [text t, wordEnd] cs = some n ↔
    ∃ rest, cs = t ++ rest ∧ n = t.length ∧ ∀ c ∈ rest.head?, Text.isWordChar c = false := by
  rw [sequence_cons_eq_some_iff]
  constructor
  · rintro ⟨m, k, hm, hk, rfl⟩
    obtain ⟨hbegins, hlength⟩ := Option.ite_none_right_eq_some.1 hm
    obtain ⟨rest, rfl⟩ := List.isPrefixOf_iff_prefix.1 hbegins
    obtain rfl := Option.some.inj hlength
    rw [sequence_singleton, List.drop_left] at hk
    obtain ⟨rfl, hrest⟩ := wordEnd_eq_some_iff.1 hk
    exact ⟨rest, rfl, rfl, hrest⟩
  · rintro ⟨rest, rfl, rfl, hrest⟩
    refine ⟨t.length, 0, text_append t rest, ?_, rfl⟩
    rw [sequence_singleton, List.drop_left]
    exact wordEnd_eq_some_iff.2 ⟨rfl, hrest⟩

/-- Of a text that is a word up to a place where words end, only the whole word is read as one that has to
end. -/
theorem eq_of_wholeWord {t : List Char} (ht : t.tail.all Text.isAsciiWord = true) (hne : t ≠ [])
    (hw : w.tail.all Text.isAsciiWord = true) (hrest : ∀ c ∈ rest.head?, Text.isWordChar c = false)
    (h : Reader.sequence [text t, wordEnd] (w ++ rest) = some n) (hwne : w ≠ []) : t = w := by
  obtain ⟨v, hv, -, hend⟩ := wholeWord_eq_some_iff.1 h
  have hword {x : Char} {a : List Char} (ha : a.tail.all Text.isAsciiWord = true) {b u : List Char}
      (hb : b ≠ []) (hab : a = b ++ x :: u) : Text.isWordChar x = true := by
    obtain ⟨y, b, rfl⟩ := List.exists_cons_of_ne_nil hb
    subst hab
    exact isWordChar_of_isAsciiWord (List.all_eq_true.1 ha x (by simp))
  rcases List.append_eq_append_iff.1 hv with ⟨u, hu, hrestu⟩ | ⟨u, hu, hvu⟩
  · cases u with
    | nil => rw [hu, List.append_nil]
    | cons x u => exact absurd (hrest x (by rw [hrestu]; rfl)) (by rw [hword ht hwne hu]; decide)
  · cases u with
    | nil => rw [hu, List.append_nil]
    | cons x u => exact absurd (hend x (by rw [hvu]; rfl)) (by rw [hword hw hne hu]; decide)

theorem spelled_reader_of_isKeyword (h : k.isKeyword = true) :
    (spelled k).reader = Reader.sequence [text k.spelling.toList, wordEnd] := by
  simp only [spelled, h, if_true]

theorem all_isAsciiWord_of_isKeyword (hk : k ∈ spelledKinds dialect) (h : k.isKeyword = true) :
    k.spelling.toList.all Text.isAsciiWord = true ∧ k.spelling.toList ≠ [] := by
  have hall : ∀ k ∈ spelledKinds dialect, k.isKeyword = true →
      k.spelling.toList.all Text.isAsciiWord = true ∧ k.spelling.toList ≠ [] := by
    cases dialect <;> decide +kernel
  exact hall k hk h

theorem all_tail {p : Char → Bool} (h : cs.all p = true) : cs.tail.all p = true :=
  List.all_eq_true.2 fun _ hx => List.all_eq_true.1 h _ (List.mem_of_mem_tail hx)

/-- A rule for a word that has to end reads the same where the text before that place is a word. -/
theorem wholeWord_again {t : List Char} (ht : t.tail.all Text.isAsciiWord = true) (htne : t ≠ [])
    (hw : w.tail.all Text.isAsciiWord = true) (hwne : w ≠ [])
    (hrest : ∀ c ∈ rest.head?, Text.isWordChar c = false)
    (hrest' : ∀ c ∈ rest'.head?, Text.isWordChar c = false)
    (h : Reader.sequence [text t, wordEnd] (w ++ rest') = some n) :
    Reader.sequence [text t, wordEnd] (w ++ rest) = some n := by
  obtain rfl := eq_of_wholeWord ht htne hw hrest' h hwne
  obtain ⟨-, -, hlength, -⟩ := wholeWord_eq_some_iff.1 h
  exact wholeWord_eq_some_iff.2 ⟨rest, rfl, hlength, hrest⟩

theorem reads_identifier_iff : identifier.Reads (c :: cs) ↔ isNameStart c = true := by
  constructor
  · rintro ⟨m, h⟩
    obtain ⟨c', cs', hcons, hc⟩ := head_of_one h
    cases hcons
    exact hc
  · intro hc
    exact ⟨(cs.takeWhile Text.isAsciiWord).length, by
      rw [show identifier.reader = name from rfl, name_cons, if_pos hc, Nat.add_comm]⟩

/-- What is read of a keyword or a name is a word. -/
theorem all_isAsciiWord_of_word (hin : InTable dialect rule) (hkind : Lead.ofKind rule.kind = .word)
    (h : rule.reader (w ++ rest) = some w.length) : w.all Text.isAsciiWord = true := by
  rcases hin.of_word hkind with ⟨k, hk, hkeyword, rfl⟩ | rfl
  · rw [spelled_reader_of_isKeyword hkeyword] at h
    obtain ⟨v, hv, hlength, -⟩ := wholeWord_eq_some_iff.1 h
    obtain ⟨rfl, -⟩ := List.append_inj hv hlength
    exact (all_isAsciiWord_of_isKeyword hk hkeyword).1
  · cases w with
    | nil => rfl
    | cons c w =>
      have hread : name (c :: (w ++ rest)) = some (w.length + 1) := h
      rw [name_cons] at hread
      obtain ⟨hc, hlength⟩ := Option.ite_none_right_eq_some.1 hread
      have hrun : ((w ++ rest).takeWhile Text.isAsciiWord).length = w.length := by
        have hsum := Option.some.inj hlength
        omega
      rw [List.all_cons, isAsciiWord_of_isNameStart hc, (all_of_length_takeWhile hrun).1]
      rfl

/-- Keywords and names are read again wherever words end. -/
theorem firstLexeme_again_word (h : firstLexeme (w ++ rest) (table dialect) = some (kind, n))
    (hw : w.length = n + 1) (hkind : Lead.ofKind kind = .word)
    (hrest : ∀ c ∈ rest.head?, Text.isWordChar c = false)
    (hrest' : ∀ c ∈ rest'.head?, Text.isWordChar c = false) :
    firstLexeme (w ++ rest') (table dialect) = some (kind, n) := by
  refine firstLexeme_again h hw fun rule hin hrule hread =>
    ⟨hin.settles w rest rest' hread hrest', fun r hr _ _ hreads => ?_⟩
  subst hrule
  obtain ⟨c, u, rfl⟩ := List.exists_cons_of_length_eq_add_one hw
  have hword := all_isAsciiWord_of_word hin hkind hread
  have hlead : Lead.ofChar c = .word := by
    obtain ⟨c', u', hcons, hlead⟩ := hin.lead ⟨n, by rw [hread, hw]⟩
    cases hcons
    rcases hlead with hlead | ⟨hfloat, -⟩
    · exact hlead.trans hkind
    · rw [hfloat] at hkind
      exact absurd hkind (by decide)
  have hpoint : c ≠ '.' := by
    rintro rfl
    exact absurd hlead (by decide)
  rcases hr.of_word ((hr.lead_eq hreads hpoint).trans hlead) with ⟨k, hk, hkeyword, rfl⟩ | rfl
  · obtain ⟨m, hm⟩ := hreads
    obtain ⟨hall, hne⟩ := all_isAsciiWord_of_isKeyword hk hkeyword
    rw [spelled_reader_of_isKeyword hkeyword] at hm
    refine ⟨m, ?_⟩
    rw [spelled_reader_of_isKeyword hkeyword]
    exact wholeWord_again (all_tail hall) hne (all_tail hword) (List.cons_ne_nil c u) hrest hrest' hm
  · exact reads_identifier_iff.2 (reads_identifier_iff.1 hreads)

/-! ### Operators -/

/-- A longer operator of the dialect stands where an operator is written. -/
def Grows (dialect : Dialect) (k : TokenKind) (rest : List Char) : Prop :=
  ∃ k' ∈ spelledKinds dialect, k'.isMark = true ∧ k' ≠ k ∧ k.spelling.toList <+: k'.spelling.toList ∧
    k'.spelling.toList <+: k.spelling.toList ++ rest

theorem ofKind_of_isMark (h : k.isMark = true) : Lead.ofKind k = .mark := by
  have hname : k ≠ .identifier := by
    rintro rfl
    cases h
  have hmark := h
  simp only [TokenKind.isMark, Bool.and_eq_true, Bool.not_eq_true'] at h
  simp [Lead.ofKind, h.1.2, h.2, hname, hmark]

theorem isKeyword_eq_false (h : k.isMark = true) : k.isKeyword = false := by
  simp only [TokenKind.isMark, Bool.and_eq_true, Bool.not_eq_true'] at h
  exact h.1.2

theorem spelled_reader_of_isMark (h : k.isMark = true) :
    (spelled k).reader cs = some n ↔ k.spelling.toList <+: cs ∧ n = k.spelling.toList.length := by
  rw [spelled_reader_eq_some_iff]
  constructor
  · rintro ⟨rest, rfl, hlength, -⟩
    exact ⟨List.prefix_append .., hlength⟩
  · rintro ⟨⟨rest, rfl⟩, hlength⟩
    exact ⟨rest, rfl, hlength, fun hkeyword =>
      (Bool.false_ne_true ((isKeyword_eq_false h).symm.trans hkeyword)).elim⟩

theorem rank_of_isMark (h : k.isMark = true) : rank k = 2 := by
  unfold rank
  split
  any_goals cases h
  simp only [TokenKind.isMark, Bool.and_eq_true, Bool.not_eq_true'] at h
  rw [h.2]
  rfl

/-- Operators are read again where no longer operator stands. -/
theorem firstLexeme_again_mark (h : firstLexeme (w ++ rest) (table dialect) = some (kind, n))
    (hw : w.length = n + 1) (hkind : kind.isMark = true) (hgrows : ¬ Grows dialect kind rest') :
    firstLexeme (w ++ rest') (table dialect) = some (kind, n) := by
  obtain ⟨hk, rfl, -⟩ := spelled_of_firstLexeme hw h (.inr hkind)
  refine firstLexeme_again h hw fun rule hin hrule hread => ⟨?_, fun r hr hprecede hrank hreads => ?_⟩
  · obtain ⟨k, -, -, rfl⟩ := hin.of_mark (hrule ▸ ofKind_of_isMark hkind)
    obtain rfl : k = kind := hrule
    exact (spelled_reader_of_isMark hkind).2 ⟨List.prefix_append .., rfl⟩
  obtain ⟨c, u, hc, hlead⟩ := lead_of_spelled hk
  obtain ⟨c', cs', hcons, hlead'⟩ := hr.lead hreads
  rw [hc] at hcons
  cases hcons
  rcases hlead' with hlead' | ⟨hfloat, -⟩
  · obtain ⟨k', hk', hmark, rfl⟩ :=
      hr.of_mark (hlead'.symm.trans (hlead.trans (ofKind_of_isMark hkind)))
    obtain ⟨m, hm⟩ := hreads
    obtain ⟨hbegins, -⟩ := (spelled_reader_of_isMark hmark).1 hm
    have hshorter : ¬ k'.spelling.toList <+: kind.spelling.toList := hprecede.2 hmark hkind
    refine (hgrows ⟨k', hk', hmark, ?_, ?_, hbegins⟩).elim
    · rintro rfl
      exact hshorter (List.prefix_refl _)
    · exact (List.prefix_or_prefix_of_prefix (List.prefix_append ..) hbegins).resolve_right hshorter
  · rw [hfloat] at hrank
    exact absurd hrank (by rw [rank_of_isMark hkind]; decide)

/-! ### Directives -/

/-- The spelling of `#include`. -/
def includeWord : List Char :=
  "#include".toList

/-- A path stands after `#include`. -/
def HasPath (dialect : Dialect) (rest : List Char) : Prop :=
  (includes (includeBlank dialect)).any (fun r => (r.reader (includeWord ++ rest)).isSome) = true

/-- After `#include` and blanks stands the mark that opens the path. -/
theorem of_includePath {blank : Char → Bool} {opening closing : Char}
    (h : includePath blank opening closing cs = some n) :
    ∃ rest, cs = includeWord ++ rest ∧ (rest.dropWhile blank).head? = some opening := by
  obtain ⟨rest, rfl⟩ := prefix_of_text h
  refine ⟨rest, rfl, ?_⟩
  obtain ⟨m, k, hm, hk, -⟩ := sequence_cons_eq_some_iff.1 h
  obtain rfl : includeWord.length = m := Option.some.inj ((text_append includeWord rest).symm.trans hm)
  rw [show "#include".toList = includeWord from rfl, List.drop_left] at hk
  obtain ⟨m, l, hm, hl, -⟩ := sequence_cons_eq_some_iff.1 hk
  obtain rfl : (rest.takeWhile blank).length = m := Option.some.inj hm
  have hdrop : rest.drop (rest.takeWhile blank).length = rest.dropWhile blank :=
    calc rest.drop (rest.takeWhile blank).length
        = (rest.takeWhile blank ++ rest.dropWhile blank).drop (rest.takeWhile blank).length := by
          rw [List.takeWhile_append_dropWhile]
      _ = rest.dropWhile blank := List.drop_left
  obtain ⟨c, cs, hcs, hc⟩ := head_of_one hl
  rw [← hdrop, hcs, List.head?_cons, beq_iff_eq.1 hc]

theorem isBlank_of_isAsciiWord (h : Text.isAsciiWord c = true) : Text.isBlank c = false :=
  Bool.eq_false_iff.2 fun hblank => Bool.false_ne_true ((isAsciiWord_of_isBlank hblank).symm.trans h)

theorem includeBlank_of_isAsciiWord (h : Text.isAsciiWord c = true) : includeBlank dialect c = false := by
  cases dialect with
  | c =>
    refine beq_false_of_ne ?_
    rintro rfl
    cases h
  | cpp => exact isBlank_of_isAsciiWord h

/-- The words of directives are words after their mark, and none is a beginning of `#include` or goes on from
it. -/
theorem directive_spelling (hk : k ∈ directiveKinds dialect) :
    k.spelling.toList.tail.all Text.isAsciiWord = true ∧ k.spelling.toList.tail ≠ [] ∧
      ¬ k.spelling.toList <+: includeWord ∧ ¬ includeWord <+: k.spelling.toList := by
  cases dialect <;> revert k <;> decide

theorem reads_otherDirective_iff : otherDirective.Reads cs ↔
    ∃ c cs', cs = '#' :: c :: cs' ∧ isNameStart c = true := by
  constructor
  · rintro ⟨m, h⟩
    obtain ⟨k, l, hk, hl, -⟩ := sequence_cons_eq_some_iff.1 h
    obtain ⟨c, cs, rfl, hc⟩ := head_of_one h
    obtain rfl := beq_iff_eq.1 hc
    obtain rfl : 1 = k := Option.some.inj hk
    rw [sequence_singleton, List.drop_one, List.tail_cons] at hl
    obtain ⟨c, cs, rfl, hc⟩ := head_of_one hl
    exact ⟨c, cs, rfl, hc⟩
  · rintro ⟨c, cs, rfl, hc⟩
    refine ⟨(cs.takeWhile Text.isAsciiWord).length + 1, ?_⟩
    refine sequence_cons_eq_some_iff.2 ⟨1, _, rfl, ?_, Nat.add_comm ..⟩
    rw [sequence_singleton, List.drop_one, List.tail_cons, name_cons, if_pos hc, Nat.add_comm]

/-- What is read of a directive without a path is a word after its mark. -/
theorem exists_of_directive (hin : InTable dialect rule) (hkind : Lead.ofKind rule.kind = .hash)
    (hne : rule.kind ≠ .includeDirective) (h : rule.reader (w ++ rest) = some w.length) :
    ∃ c u, w = '#' :: c :: u ∧ (c :: u).all Text.isAsciiWord = true ∧
      ∀ c ∈ rest.head?, Text.isAsciiWord c = false := by
  rcases hin.of_hash hkind with ⟨opening, closing, -, rfl⟩ | ⟨k, hk, rfl⟩ | rfl
  · exact (hne rfl).elim
  · obtain ⟨v, hv, hlength, hend⟩ := wholeWord_eq_some_iff.1 h
    obtain ⟨rfl, rfl⟩ := List.append_inj hv hlength
    obtain ⟨hall, htail, -, -⟩ := directive_spelling hk
    obtain ⟨u, hu⟩ := List.head?_eq_some_iff.1 (lead_of_directive hk).2
    rw [hu, List.tail_cons] at hall htail
    obtain ⟨c, u, rfl⟩ := List.exists_cons_of_ne_nil htail
    refine ⟨c, u, hu, hall, fun x hx => Bool.eq_false_iff.2 fun hword => ?_⟩
    exact Bool.false_ne_true ((hend x hx).symm.trans (isWordChar_of_isAsciiWord hword))
  · obtain ⟨k, l, hk, hl, hlength⟩ := sequence_cons_eq_some_iff.1 h
    rw [sequence_singleton] at hl
    cases w with
    | nil =>
      have hk0 : k = 0 := by
        rw [List.length_nil] at hlength
        omega
      obtain ⟨c, cs, hcs, -⟩ := head_of_one h
      rw [hcs, hk0] at hk
      simp [one] at hk
    | cons x w =>
      obtain ⟨c, cs, hcons, hc⟩ := head_of_one h
      cases hcons
      obtain rfl := beq_iff_eq.1 hc
      obtain rfl : 1 = k := Option.some.inj hk
      obtain rfl : w.length = l := by
        rw [List.length_cons] at hlength
        omega
      rw [List.cons_append, List.drop_one, List.tail_cons] at hl
      cases w with
      | nil =>
        obtain ⟨c, cs, hcs, hc⟩ := head_of_one hl
        rw [hcs, name_cons, if_pos hc] at hl
        simp at hl
      | cons c w =>
        have hin : InTable dialect Rule.identifier := .identifier
        have hword := all_isAsciiWord_of_word hin rfl hl
        exact ⟨c, w, rfl, hword, not_isAsciiWord_of_name rfl hl⟩

/-- Where words end after a directive, a path can only stand after the word `#include` itself. -/
theorem eq_includeWord_of_includePath {opening closing : Char} (hw : w.tail.all Text.isAsciiWord = true)
    (hwne : w ≠ []) (hrest : ∀ c ∈ rest.head?, Text.isWordChar c = false)
    (hopening : Text.isAsciiWord opening = false)
    (h : includePath (includeBlank dialect) opening closing (w ++ rest) = some n) : w = includeWord := by
  obtain ⟨c, u, rfl⟩ := List.exists_cons_of_ne_nil hwne
  obtain ⟨v, hv, hhead⟩ := of_includePath h
  rcases List.append_eq_append_iff.1 hv with ⟨a, ha, hresta⟩ | ⟨a, ha, hva⟩
  · cases a with
    | nil => rw [ha, List.append_nil]
    | cons x a =>
      have hinclude : includeWord.tail.all Text.isAsciiWord = true := by decide
      have hx : x ∈ includeWord.tail := by
        rw [ha]
        exact List.mem_append_right _ List.mem_cons_self
      have hword := isWordChar_of_isAsciiWord (List.all_eq_true.1 hinclude x hx)
      exact (Bool.false_ne_true ((hrest x (by rw [hresta]; rfl)).symm.trans hword)).elim
  · cases a with
    | nil => rw [ha, List.append_nil]
    | cons x a =>
      have hx : x ∈ u := by
        have hu : u = includeWord.tail ++ x :: a := (List.cons.inj ha).2
        rw [hu]
        exact List.mem_append_right _ List.mem_cons_self
      have hword : Text.isAsciiWord x = true := List.all_eq_true.1 hw x hx
      rw [hva, List.cons_append, List.dropWhile_cons_of_neg
        (by rw [includeBlank_of_isAsciiWord hword]; exact Bool.false_ne_true)] at hhead
      obtain rfl := Option.some.inj hhead
      exact (Bool.false_ne_true (hopening.symm.trans hword)).elim

/-- The marks that open paths. -/
theorem isAsciiWord_opening {opening closing : Char}
    (h : opening = '<' ∧ closing = '>' ∨ opening = '"' ∧ closing = '"') :
    Text.isAsciiWord opening = false := by
  rcases h with ⟨rfl, -⟩ | ⟨rfl, -⟩ <;> decide

/-- Directives are read again wherever words end, but `#include` only if no path comes after it. -/
theorem firstLexeme_again_directive (h : firstLexeme (w ++ rest) (table dialect) = some (kind, n))
    (hw : w.length = n + 1) (hkind : Lead.ofKind kind = .hash) (hne : kind ≠ .includeDirective)
    (hrest : ∀ c ∈ rest.head?, Text.isWordChar c = false)
    (hrest' : ∀ c ∈ rest'.head?, Text.isWordChar c = false)
    (hpath : ¬ (w = includeWord ∧ HasPath dialect rest')) :
    firstLexeme (w ++ rest') (table dialect) = some (kind, n) := by
  refine firstLexeme_again h hw fun rule hin hrule hread =>
    ⟨hin.settles w rest rest' hread hrest', fun r hr _ _ hreads => ?_⟩
  subst hrule
  obtain ⟨c, u, rfl, hword, -⟩ := exists_of_directive hin hkind hne hread
  rcases hr.of_hash (hr.lead_eq hreads (by decide)) with ⟨opening, closing, hmarks, rfl⟩ | ⟨k, hk, rfl⟩ | rfl
  · obtain ⟨m, hm⟩ := hreads
    have heq := eq_includeWord_of_includePath (w := '#' :: c :: u) hword (List.cons_ne_nil _ _) hrest'
      (isAsciiWord_opening hmarks) hm
    refine (hpath ⟨heq, ?_⟩).elim
    have hmem : (⟨.includeDirective, includePath (includeBlank dialect) opening closing⟩ : Rule) ∈
        includes (includeBlank dialect) := by
      rcases hmarks with ⟨rfl, rfl⟩ | ⟨rfl, rfl⟩ <;> simp [includes]
    refine List.any_eq_true.2 ⟨_, hmem, ?_⟩
    rw [heq] at hm
    exact Option.isSome_iff_exists.2 ⟨_, hm⟩
  · obtain ⟨m, hm⟩ := hreads
    obtain ⟨hall, htail, -⟩ := directive_spelling hk
    have hne : k.spelling.toList ≠ [] := fun h => htail (by rw [h]; rfl)
    exact ⟨m, wholeWord_again hall hne hword (List.cons_ne_nil _ _) hrest hrest' hm⟩
  · obtain ⟨d, ds, hcons, hd⟩ := reads_otherDirective_iff.1 hreads
    cases hcons
    exact reads_otherDirective_iff.2 ⟨c, u ++ rest, rfl, hd⟩

/-- `#include` with its path is read again before every text. -/
theorem firstLexeme_again_path (h : firstLexeme (w ++ rest) (table dialect) = some (.includeDirective, n))
    (hw : w.length = n + 1) (rest' : List Char) :
    firstLexeme (w ++ rest') (table dialect) = some (.includeDirective, n) := by
  refine firstLexeme_again h hw fun rule hin hrule hread => ?_
  have hhash : Lead.ofKind rule.kind = .hash := by rw [hrule]; rfl
  rcases hin.of_hash hhash with ⟨opening, closing, hmarks, rfl⟩ | ⟨k, hk, rfl⟩ | rfl
  · have hread' := settles_includePath _ _ _ (fun _ => false) w rest rest' hread fun _ _ => rfl
    obtain ⟨v, hv, -⟩ := of_includePath hread
    obtain ⟨v', hv', hhead⟩ := of_includePath hread'
    refine ⟨hread', fun r hr _ _ hreads => ?_⟩
    rw [hv'] at hreads
    rcases hr.of_hash (hr.lead_eq hreads (by decide)) with
      ⟨opening', closing', hmarks', rfl⟩ | ⟨k, hk, rfl⟩ | rfl
    · obtain ⟨m, hm⟩ := hreads
      obtain ⟨v'', hv'', hhead'⟩ := of_includePath hm
      obtain rfl := List.append_cancel_left hv''
      obtain rfl : opening = opening' := Option.some.inj (hhead.symm.trans hhead')
      obtain rfl : closing = closing' := by
        rcases hmarks with ⟨rfl, rfl⟩ | ⟨rfl, rfl⟩ <;> rcases hmarks' with ⟨h, rfl⟩ | ⟨h, rfl⟩ <;>
          first | rfl | exact absurd h (by decide)
      exact ⟨n, by rw [hread, hw]⟩
    · obtain ⟨m, hm⟩ := hreads
      obtain ⟨-, -, hnot, hnot'⟩ := directive_spelling hk
      rcases List.prefix_or_prefix_of_prefix (prefix_of_text hm) (List.prefix_append includeWord v') with
        hbegins | hbegins
      · exact (hnot hbegins).elim
      · exact (hnot' hbegins).elim
    · rw [hv]
      exact reads_otherDirective_iff.2 ⟨'i', _, rfl, rfl⟩
  · obtain rfl : k = .includeDirective := hrule
    exact absurd hk (by cases dialect <;> decide)
  · exact absurd hrule (by decide)

/-! ### Numbers -/

/-- A text goes on as the fraction of a real literal. -/
def startsFraction : List Char → Bool
  | '.' :: d :: _ => isDigit d
  | _ => false

theorem head_of_fraction (h : startsFraction (c :: cs) = true) : c = '.' := by
  unfold startsFraction at h
  split at h
  · rename_i heq
    exact (List.cons.inj heq).1
  · cases h

/-- Digits are read with a suffix where a digit stands. -/
theorem exists_digits {p q : Char → Bool} (hc : p c = true) (cs : List Char) :
    ∃ m, Reader.sequence [run1 p, run q] (c :: cs) = some (m + 1) := by
  have hpos : 0 < ((c :: cs).takeWhile p).length := by
    rw [List.takeWhile_cons_of_pos hc, List.length_cons]
    exact Nat.succ_pos _
  rw [sequence_cons (run1_eq_some_iff.2 ⟨rfl, hpos⟩), sequence_singleton]
  exact ⟨_ + _ - 1, congrArg some (Nat.sub_add_cancel (Nat.le_add_right_of_le hpos)).symm⟩

/-- What is read as digits of a class with a suffix has at least one digit. -/
theorem exists_of_digits {p : Char → Bool}
    (h : sequence [run1 p, run isIntSuffix] (w ++ rest) = some w.length) :
    ∃ digits suffix, w = digits ++ suffix ∧ digits ≠ [] ∧ digits.all p = true ∧
      suffix.all isIntSuffix = true := by
  obtain ⟨digits, suffix, rfl, hdigits, hsuffix⟩ := exists_append_of_sequence h
  obtain ⟨hlength, hpos⟩ := run1_eq_some_iff.1 hdigits
  rw [sequence_singleton] at hsuffix
  exact ⟨digits, suffix, rfl, List.ne_nil_of_length_pos hpos, (all_of_length_takeWhile hlength).1,
    (all_of_length_takeWhile (Option.some.inj hsuffix)).1⟩

theorem reads_decimal_iff : decimal.Reads (c :: cs) ↔ isDigit c = true := by
  constructor
  · rintro ⟨m, h⟩
    obtain ⟨c', cs', hcons, hc⟩ := head_of_run1 h
    cases hcons
    exact hc
  · exact fun hc => exists_digits hc cs

theorem reads_octal_iff : octal.Reads cs ↔ ∃ x cs', cs = '0' :: x :: cs' ∧ isOctalDigit x = true := by
  constructor
  · rintro ⟨m, h⟩
    obtain ⟨c, cs, rfl, hc⟩ := head_of_one h
    obtain rfl := beq_iff_eq.1 hc
    obtain ⟨k, l, hk, hl, -⟩ := sequence_cons_eq_some_iff.1 h
    obtain rfl : 1 = k := Option.some.inj hk
    obtain ⟨x, cs', hcs, hx⟩ := head_of_run1 hl
    rw [List.drop_one, List.tail_cons] at hcs
    exact ⟨x, cs', by rw [hcs], hx⟩
  · rintro ⟨x, cs, rfl, hx⟩
    obtain ⟨m, hm⟩ := exists_digits (q := isIntSuffix) hx cs
    exact ⟨m + 1, sequence_cons_eq_some_iff.2 ⟨1, m + 1, rfl, hm, Nat.add_comm ..⟩⟩

theorem of_reads_hexadecimal (h : hexadecimal.Reads cs) :
    ∃ x cs', cs = '0' :: x :: cs' ∧ (x = 'x' ∨ x = 'X') := by
  obtain ⟨m, h⟩ := h
  obtain ⟨c, cs, rfl, hc⟩ := head_of_one h
  obtain rfl := beq_iff_eq.1 hc
  obtain ⟨k, l, hk, hl, -⟩ := sequence_cons_eq_some_iff.1 h
  obtain rfl : 1 = k := Option.some.inj hk
  obtain ⟨x, cs', hcs, hx⟩ := head_of_one hl
  rw [List.drop_one, List.tail_cons] at hcs
  exact ⟨x, cs', by rw [hcs], by simpa using hx⟩

/-- A real literal has digits, a point and another digit. -/
theorem of_reads_realOf (h : (realOf dialect).Reads cs) :
    ∃ ds rest, cs = ds ++ rest ∧ ds.all isDigit = true ∧ startsFraction rest = true := by
  obtain ⟨m, h⟩ := h
  have hfraction {rs : List Reader} {j : Nat}
      (hj : Reader.sequence (one (· == '.') :: run1 isDigit :: rs) (cs.dropWhile isDigit) = some j) :
      startsFraction (cs.dropWhile isDigit) = true := by
    obtain ⟨c, cs', hcs, hc⟩ := head_of_one hj
    obtain rfl := beq_iff_eq.1 hc
    obtain ⟨k, l, hk, hl, -⟩ := sequence_cons_eq_some_iff.1 hj
    rw [hcs] at hk hl ⊢
    obtain rfl : 1 = k := Option.some.inj hk
    obtain ⟨d, ds, hds, hd⟩ := head_of_run1 hl
    rw [List.drop_one, List.tail_cons] at hds
    rw [hds]
    exact hd
  have hdrop : cs.drop (cs.takeWhile isDigit).length = cs.dropWhile isDigit :=
    calc cs.drop (cs.takeWhile isDigit).length
        = (cs.takeWhile isDigit ++ cs.dropWhile isDigit).drop (cs.takeWhile isDigit).length := by
          rw [List.takeWhile_append_dropWhile]
      _ = cs.dropWhile isDigit := List.drop_left
  refine ⟨cs.takeWhile isDigit, cs.dropWhile isDigit, List.takeWhile_append_dropWhile.symm,
    List.all_takeWhile, ?_⟩
  cases dialect with
  | c =>
    obtain ⟨k, l, hk, hl, -⟩ := sequence_cons_eq_some_iff.1 h
    rw [← (run1_eq_some_iff.1 hk).1, hdrop] at hl
    exact hfraction hl
  | cpp =>
    obtain ⟨k, l, hk, hl, -⟩ := sequence_cons_eq_some_iff.1 h
    rw [← Option.some.inj hk, hdrop] at hl
    exact hfraction hl

/-- What is read of a decimal integer are digits and a suffix. -/
theorem all_of_decimal (h : decimal.reader (w ++ rest) = some w.length) :
    w.all (fun c => isDigit c || isIntSuffix c) = true := by
  obtain ⟨digits, suffix, rfl, -, hdigits, hsuffix⟩ := exists_of_digits h
  rw [List.all_append, Bool.and_eq_true, List.all_eq_true, List.all_eq_true]
  refine ⟨fun c hc => ?_, fun c hc => ?_⟩
  · rw [List.all_eq_true.1 hdigits c hc, Bool.true_or]
  · rw [List.all_eq_true.1 hsuffix c hc, Bool.or_true]

/-- No number has the letter of a hexadecimal one in the second place. -/
theorem second_of_number {x : Char} {u : List Char} (hc : isDigit c = true)
    (hrule : rule = octal ∨ rule = realOf dialect ∨ rule = decimal)
    (h : rule.reader (c :: x :: u ++ rest) = some (c :: x :: u).length) : x ≠ 'x' ∧ x ≠ 'X' := by
  have hletter (p : Char → Bool) (hx : p x = true) (hp : p 'x' = false ∧ p 'X' = false) :
      x ≠ 'x' ∧ x ≠ 'X' := by
    constructor
    · rintro rfl
      exact Bool.false_ne_true (hp.1.symm.trans hx)
    · rintro rfl
      exact Bool.false_ne_true (hp.2.symm.trans hx)
  rcases hrule with rfl | rfl | rfl
  · obtain ⟨x', cs, hcons, hx⟩ := reads_octal_iff.1 ⟨_, h⟩
    cases hcons
    exact hletter isOctalDigit hx (by decide)
  · obtain ⟨ds, tail, hsplit, hds, htail⟩ := of_reads_realOf ⟨_, h⟩
    match ds, hsplit with
    | [], hsplit =>
      obtain rfl : c :: x :: (u ++ rest) = tail := hsplit
      rw [head_of_fraction htail] at hc
      cases hc
    | [_], hsplit =>
      obtain rfl : x :: (u ++ rest) = tail := (List.cons.inj hsplit).2
      rw [head_of_fraction htail]
      decide
    | _ :: d :: ds, hsplit =>
      obtain rfl : x = d := (List.cons.inj (List.cons.inj hsplit).2).1
      rw [List.all_cons, List.all_cons, Bool.and_eq_true, Bool.and_eq_true] at hds
      exact hletter isDigit hds.2.1 (by decide)
  · have hall := all_of_decimal h
    rw [List.all_cons, List.all_cons, Bool.and_eq_true, Bool.and_eq_true] at hall
    exact hletter (fun c => isDigit c || isIntSuffix c) hall.2.1 (by decide)

/-- A real literal that begins with an integer goes on after it as a fraction. -/
theorem fraction_of_reads (hw : w.all (fun c => isDigit c || isIntSuffix c) = true)
    (hrest : ∀ c ∈ rest.head?, Text.isWordChar c = false) (h : (realOf dialect).Reads (w ++ rest)) :
    w.all isDigit = true ∧ startsFraction rest = true := by
  obtain ⟨ds, tail, hsplit, hds, htail⟩ := of_reads_realOf h
  rcases List.append_eq_append_iff.1 hsplit with ⟨a, rfl, rfl⟩ | ⟨a, rfl, rfl⟩
  · rw [List.all_append, Bool.and_eq_true] at hds
    cases a with
    | nil => exact ⟨hds.1, htail⟩
    | cons x a =>
      have hx : isDigit x = true := List.all_eq_true.1 hds.2 x List.mem_cons_self
      exact (Bool.false_ne_true ((hrest x rfl).symm.trans (isWordClass_digit x hx))).elim
  · cases a with
    | nil => exact ⟨by rwa [List.append_nil], htail⟩
    | cons x a =>
      obtain rfl := head_of_fraction htail
      have hx := List.all_eq_true.1 hw '.' (List.mem_append_right _ List.mem_cons_self)
      exact absurd hx (by decide)

theorem isDigit_of_lead (h : Lead.ofChar c = .digit) : isDigit c = true := by
  rcases lead_cases c with ⟨-, hc⟩ | ⟨-, hc⟩ | ⟨hdigit, -⟩ | hc
  · exact absurd (hc.symm.trans h) (by decide)
  · exact absurd (hc.symm.trans h) (by decide)
  · exact hdigit
  · exact absurd (hc.symm.trans h) (by decide)

/-- A point is an operator, also where a real literal could begin with it. -/
theorem ne_point_of_firstLexeme (h : firstLexeme (c :: cs) (table dialect) = some (kind, n))
    (hkind : Lead.ofKind kind = .digit) : c ≠ '.' := by
  rintro rfl
  have hdot : (spelled .dot).Reads ('.' :: cs) :=
    ⟨0, (spelled_reader_of_isMark rfl).2 ⟨⟨cs, rfl⟩, rfl⟩⟩
  have hmem : spelled .dot ∈ table dialect := spelled_mem_table (by cases dialect <;> decide)
  have hrank : rank kind ≤ 2 := rank_le_of_firstLexeme h hmem hdot
  obtain ⟨rule, hrule, rfl, hread⟩ := mem_of_firstLexeme h
  rcases (inTable_of_mem hrule).of_digit hkind with rfl | rfl | rfl | rfl
  · exact absurd hrank (by decide)
  · exact absurd hrank (by decide)
  · exact absurd hrank (by cases dialect <;> decide)
  · exact absurd hrank (by decide)

/-- Numbers are read again wherever words end, but decimal digits only if no fraction comes after them. -/
theorem firstLexeme_again_number (h : firstLexeme (w ++ rest) (table dialect) = some (kind, n))
    (hw : w.length = n + 1) (hkind : Lead.ofKind kind = .digit)
    (hrest' : ∀ c ∈ rest'.head?, Text.isWordChar c = false)
    (hfraction : ¬ (kind = .intLiteral ∧ w.all isDigit = true ∧ startsFraction rest' = true)) :
    firstLexeme (w ++ rest') (table dialect) = some (kind, n) := by
  obtain ⟨c, u, rfl⟩ := List.exists_cons_of_length_eq_add_one hw
  have hpoint : c ≠ '.' := ne_point_of_firstLexeme h hkind
  refine firstLexeme_again h hw fun rule hin hrule hread =>
    ⟨hin.settles _ rest rest' hread hrest', fun r hr _ hrank hreads => ?_⟩
  subst hrule
  have hself : rule.Reads (c :: u ++ rest) := ⟨n, by rw [hread, hw]⟩
  have hlead : Lead.ofChar c = .digit := (hin.lead_eq hself hpoint).symm.trans hkind
  have hc : isDigit c = true := isDigit_of_lead hlead
  -- The second character is the same before both texts, or there is none and the word ends there.
  rcases hr.of_digit ((hr.lead_eq hreads hpoint).trans hlead) with rfl | rfl | rfl | rfl
  · obtain ⟨x, cs, hcons, hx⟩ := of_reads_hexadecimal hreads
    rcases hin.of_digit hkind with rfl | hrule
    · exact hself
    cases u with
    | nil =>
      obtain rfl : rest' = x :: cs := (List.cons.inj hcons).2
      have hword := hrest' x rfl
      rcases hx with rfl | rfl <;> exact absurd hword (by decide)
    | cons y u =>
      obtain rfl : y = x := (List.cons.inj (List.cons.inj hcons).2).1
      obtain ⟨hlower, hupper⟩ := second_of_number hc hrule hread
      exact (hx.elim hlower hupper).elim
  · obtain ⟨x, cs, hcons, hx⟩ := reads_octal_iff.1 hreads
    cases u with
    | nil =>
      obtain rfl : rest' = x :: cs := (List.cons.inj hcons).2
      have hword := isWordClass_octalDigit x hx
      exact (Bool.false_ne_true ((hrest' x rfl).symm.trans hword)).elim
    | cons y u =>
      obtain rfl : y = x := (List.cons.inj (List.cons.inj hcons).2).1
      obtain rfl : c = '0' := (List.cons.inj hcons).1
      exact reads_octal_iff.2 ⟨y, u ++ rest, rfl, hx⟩
  · have hreal : (realOf dialect).kind = .floatLiteral := by cases dialect <;> rfl
    rw [hreal] at hrank
    rcases hin.of_digit hkind with rfl | rfl | rfl | rfl
    · exact absurd hrank (by decide)
    · exact absurd hrank (by decide)
    · exact hself
    · exact (hfraction ⟨rfl, fraction_of_reads (all_of_decimal hread) hrest' hreads⟩).elim
  · exact reads_decimal_iff.2 hc

end Rule

end CTree
