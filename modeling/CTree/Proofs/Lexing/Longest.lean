import CTree.Proofs.Cut
import CTree.Proofs.Printing.Scan
import Mathlib.Data.List.Nodup

/-!
# The first rule reads the longest lexeme

The rules of a dialect are tried in order, and the first one that reads something decides. This gives
the longest lexeme where it has to, because of two things: no operator stands in the table before one
that it is a beginning of, and a keyword is read only where its word ends, all other words being left
to the rule for names, which comes last.
-/

namespace CTree

/-- The kinds of operators and separators. -/
def TokenKind.isMark (k : TokenKind) : Bool :=
  k.spelling?.isSome && !k.isKeyword && !k.isDirective

namespace Rule

open Reader

/-- The keywords, operators and separators of a dialect. -/
def spelledKinds : Dialect → List TokenKind
  | .c => spelledC
  | .cpp => spelledCpp

/-- Rules of the kinds `k` and `k'` may stand in this order: names come after all else, and operators
after all that they are a beginning of. -/
def MayPrecede (k k' : TokenKind) : Prop :=
  k ≠ .identifier ∧
    (k.isMark = true → k'.isMark = true → ¬ k.spelling.toList <+: k'.spelling.toList)

instance : DecidableRel MayPrecede := fun _ _ => inferInstanceAs (Decidable (_ ∧ _))

theorem table_pairwise (dialect : Dialect) :
    (table dialect).Pairwise fun rule rule' => MayPrecede rule.kind rule'.kind := by
  have hkinds : ((table dialect).map Rule.kind).Pairwise MayPrecede := by
    cases dialect <;> decide +kernel
  exact List.pairwise_map.1 hkinds

/-! ### Which rule decides -/

section FirstLexeme

variable {dialect : Dialect} {rules : List Rule} {rule : Rule} {cs : List Char} {kind k : TokenKind}
  {n m : Nat}

/-- The rule that decides is the first one that reads at least one character. -/
theorem exists_split_of_firstLexeme (h : firstLexeme cs rules = some (kind, n)) :
    ∃ before rule after, rules = before ++ rule :: after ∧ rule.kind = kind ∧
      rule.reader cs = some (n + 1) ∧ ∀ r ∈ before, ∀ m, r.reader cs ≠ some (m + 1) := by
  induction rules with
  | nil => cases h
  | cons rule rules ih =>
    unfold firstLexeme at h
    split at h
    · rename_i m hm
      cases h
      exact ⟨[], rule, rules, rfl, rfl, hm, fun r hr => nomatch hr⟩
    · rename_i hnone
      obtain ⟨before, rule', after, rfl, hkind, hread, hbefore⟩ := ih h
      refine ⟨rule :: before, rule', after, rfl, hkind, hread, fun r hr => ?_⟩
      rcases List.mem_cons.1 hr with rfl | hr
      · exact hnone
      · exact hbefore r hr

/-- Whatever else could have been read is read by a rule that comes later. -/
theorem eq_or_mayPrecede (h : firstLexeme cs (table dialect) = some (kind, n))
    (hmem : rule ∈ table dialect) (hread : rule.reader cs = some (m + 1)) :
    rule.kind = kind ∨ MayPrecede kind rule.kind := by
  obtain ⟨before, first, after, htable, rfl, -, hbefore⟩ := exists_split_of_firstLexeme h
  have hpairwise := table_pairwise dialect
  rw [htable] at hmem hpairwise
  rcases List.mem_append.1 hmem with hmem | hmem
  · exact (hbefore rule hmem m hread).elim
  · rcases List.mem_cons.1 hmem with rfl | hmem
    · exact .inl rfl
    · have hafter := (List.pairwise_cons.1 (List.pairwise_append.1 hpairwise).2.1).1
      exact .inr (hafter rule hmem)

/-- A kind with one spelling is read where that spelling stands, and a keyword only if its word ends
there. -/
theorem spelled_reader_eq_some_iff : (spelled k).reader cs = some m ↔
    ∃ rest, cs = k.spelling.toList ++ rest ∧ m = k.spelling.toList.length ∧
      (k.isKeyword = true → ∀ c ∈ rest.head?, Text.isWordChar c = false) := by
  have hend (rest : List Char) : Reader.sequence (if k.isKeyword then [wordEnd] else []) rest =
      if k.isKeyword = true → ∀ c ∈ rest.head?, Text.isWordChar c = false then some 0 else none := by
    cases k.isKeyword with
    | false => rfl
    | true =>
      cases rest with
      | nil => simp [Reader.sequence, wordEnd]
      | cons c rest => by_cases hc : Text.isWordChar c = true <;> simp [Reader.sequence, wordEnd, hc]
  show Reader.sequence (text k.spelling.toList :: _) cs = some m ↔ _
  by_cases hleading : k.spelling.toList <+: cs
  · obtain ⟨rest, rfl⟩ := hleading
    rw [sequence_cons (text_append ..), List.drop_left, hend]
    constructor
    · intro hread
      split at hread
      · rename_i hword
        cases hread
        exact ⟨rest, rfl, rfl, hword⟩
      · cases hread
    · rintro ⟨rest', hrest, rfl, hword⟩
      obtain rfl := List.append_cancel_left hrest
      rw [if_pos hword]
      rfl
  · have htext : text k.spelling.toList cs = none :=
      if_neg fun h => hleading (List.isPrefixOf_iff_prefix.1 h)
    rw [sequence_cons_none htext]
    constructor
    · intro hread
      cases hread
    · rintro ⟨rest, rfl, -, -⟩
      exact (hleading (List.prefix_append ..)).elim

/-- Only the rules for kinds with one spelling give keywords and operators. -/
theorem eq_spelled_of_mem (hmem : rule ∈ table dialect)
    (hkind : rule.kind.isKeyword = true ∨ rule.kind.isMark = true) :
    rule.kind ∈ spelledKinds dialect ∧ rule = spelled rule.kind := by
  have hother {rules : List Rule} (h : rule ∈ rules)
      (hrules : rules.all (fun r => !(r.kind.isKeyword || r.kind.isMark)) = true) : False := by
    have hnone := List.all_eq_true.1 hrules rule h
    rw [Bool.not_eq_true', Bool.or_eq_false_iff] at hnone
    rcases hkind with hkind | hkind
    · exact Bool.false_ne_true (hnone.1.symm.trans hkind)
    · exact Bool.false_ne_true (hnone.2.symm.trans hkind)
  have hspelled {ks : List TokenKind} (h : rule ∈ ks.map spelled) :
      rule.kind ∈ ks ∧ rule = spelled rule.kind := by
    obtain ⟨k, hk, rfl⟩ := List.mem_map.1 h
    exact ⟨hk, rfl⟩
  cases dialect with
  | c =>
    simp only [table, tableC, List.mem_append, or_assoc] at hmem
    rcases hmem with h | h | h | h
    · exact (hother h (by decide)).elim
    · exact (hother h (by decide)).elim
    · exact hspelled h
    · exact (hother h (by decide)).elim
  | cpp =>
    simp only [table, tableCpp, List.mem_append, or_assoc] at hmem
    rcases hmem with h | h | h | h
    · exact (hother h (by decide)).elim
    · exact (hother h (by decide)).elim
    · exact hspelled h
    · exact (hother h (by decide)).elim

theorem spelled_mem_table (hk : k ∈ spelledKinds dialect) : spelled k ∈ table dialect := by
  cases dialect with
  | c => exact List.mem_append_left _ (List.mem_append_right _ (List.mem_map_of_mem hk))
  | cpp => exact List.mem_append_left _ (List.mem_append_right _ (List.mem_map_of_mem hk))

theorem spelling_length_pos (hk : k ∈ spelledKinds dialect) : 0 < k.spelling.toList.length := by
  have hall : (spelledKinds dialect).all (fun k => 0 < k.spelling.toList.length) = true := by
    cases dialect <;> decide +kernel
  exact of_decide_eq_true (List.all_eq_true.1 hall k hk)

theorem eq_of_spelling_eq (hk : k ∈ spelledKinds dialect) (hkind : kind ∈ spelledKinds dialect)
    (h : k.spelling = kind.spelling) : k = kind := by
  have hnodup : ((spelledKinds dialect).map TokenKind.spelling).Nodup := by
    cases dialect <;> decide +kernel
  exact List.inj_on_of_nodup_map hnodup hk hkind h

/-- Where the spelling of a keyword or an operator stands and may be read, nothing is read by a rule that
comes later. -/
theorem eq_or_mayPrecede_of_spelled {rest : List Char}
    (h : firstLexeme (k.spelling.toList ++ rest) (table dialect) = some (kind, n))
    (hk : k ∈ spelledKinds dialect)
    (hword : k.isKeyword = true → ∀ c ∈ rest.head?, Text.isWordChar c = false) :
    k = kind ∨ MayPrecede kind k := by
  obtain ⟨m, hm⟩ := Nat.exists_eq_succ_of_ne_zero (Nat.ne_of_gt (spelling_length_pos hk))
  have hread : (spelled k).reader (k.spelling.toList ++ rest) = some (m + 1) :=
    spelled_reader_eq_some_iff.2 ⟨rest, rfl, hm.symm, hword⟩
  exact eq_or_mayPrecede h (spelled_mem_table hk) hread

/-- What is read of a keyword or an operator is its spelling. A keyword is read at the end of a word
only. -/
theorem spelled_of_firstLexeme {w rest : List Char} (hw : w.length = n + 1)
    (h : firstLexeme (w ++ rest) (table dialect) = some (kind, n))
    (hkind : kind.isKeyword = true ∨ kind.isMark = true) :
    kind ∈ spelledKinds dialect ∧ w = kind.spelling.toList ∧
      (kind.isKeyword = true → ∀ c ∈ rest.head?, Text.isWordChar c = false) := by
  obtain ⟨rule, hmem, rfl, hread⟩ := mem_of_firstLexeme h
  obtain ⟨hk, hrule⟩ := eq_spelled_of_mem hmem hkind
  rw [hrule] at hread
  obtain ⟨rest', hrest, hlength, hword⟩ := spelled_reader_eq_some_iff.1 hread
  obtain ⟨rfl, rfl⟩ := List.append_inj hrest (hw.trans hlength)
  exact ⟨hk, rfl, hword⟩

/-- What is read of a name goes on as long as the word does. -/
theorem not_isAsciiWord_of_name {w rest : List Char} (hw : w.length = n + 1)
    (h : name (w ++ rest) = some (n + 1)) : ∀ c ∈ rest.head?, Text.isAsciiWord c = false := by
  obtain ⟨c, cs, rfl⟩ := List.exists_cons_of_length_eq_add_one hw
  rw [List.cons_append, name_cons] at h
  obtain ⟨-, hread⟩ := Option.ite_none_right_eq_some.1 h
  have hlength : ((cs ++ rest).takeWhile Text.isAsciiWord).length = cs.length := by
    have hsum := Option.some.inj hread
    rw [List.length_cons] at hw
    omega
  have htake : (cs ++ rest).takeWhile Text.isAsciiWord = cs :=
    List.prefix_iff_eq_take.1 (List.takeWhile_prefix _) |>.trans (by rw [hlength, List.take_left])
  have hcs : ∀ x ∈ cs, Text.isAsciiWord x = true := by
    rw [← htake]
    exact List.all_eq_true.1 List.all_takeWhile
  rw [List.takeWhile_append_of_pos hcs] at htake
  intro d hd
  obtain ⟨ds, rfl⟩ := List.head?_eq_some_iff.1 hd
  rw [Bool.eq_false_iff]
  intro hword
  simp [hword] at htake

/-- A name ends where its word does. -/
theorem not_isAsciiWord_of_firstLexeme {w rest : List Char} (hw : w.length = n + 1)
    (h : firstLexeme (w ++ rest) (table dialect) = some (.identifier, n)) :
    ∀ c ∈ rest.head?, Text.isAsciiWord c = false := by
  obtain ⟨rule, hmem, hkind, hread⟩ := mem_of_firstLexeme h
  obtain rfl := eq_identifier_of_mem hmem hkind
  exact not_isAsciiWord_of_name hw hread

end FirstLexeme

end Rule

/-! ### Tokens -/

/-- The kinds of literals in quotes are neither names nor keywords nor operators, and they alone are
read by no rule. -/
theorem PieceAt.firstLexeme {dialect : Dialect} {w rest : List Char} {kind : TokenKind}
    {fault? : Option LexFault} (h : PieceAt dialect w rest (some kind) fault?)
    (hstring : kind ≠ .stringLiteral) (hchar : kind ≠ .charLiteral) :
    ∃ n, firstLexeme (w ++ rest) (Rule.table dialect) = some (kind, n) ∧ w.length = n + 1 := by
  cases h with
  | literal hquote => cases hquote <;> contradiction
  | openLiteral hquote => cases hquote <;> contradiction
  | lexeme _ hlexeme hlength => exact ⟨_, hlexeme, hlength⟩

/-- Where a token that was read by a rule stands in its text, and what comes after it. -/
theorem exists_firstLexeme_of_mem_tokenize {dialect : Dialect} {text : List Char} {t : Token}
    (ht : t ∈ (tokenize dialect text).tokens) (hend : t.kind ≠ .eof)
    (hstring : t.kind ≠ .stringLiteral) (hchar : t.kind ≠ .charLiteral) :
    ∃ rest n, Text.after t.offset text = t.text.toList ++ rest ∧ Text.after t.stop text = rest ∧
      firstLexeme (t.text.toList ++ rest) (Rule.table dialect) = some (t.kind, n) ∧
      t.text.toList.length = n + 1 := by
  obtain ⟨pre, w, rest, fault?, rfl, heq, hpiece⟩ := (cut_tokenize dialect text).exists_pieceAt ht hend
  obtain ⟨n, hlexeme, hlength⟩ := hpiece.firstLexeme hstring hchar
  have hw : t.text.toList = w := by rw [heq, String.toList_ofList]
  have hoffset : t.offset = Text.byteLength pre := by rw [heq, Nat.zero_add]
  rw [Token.stop, hw, hoffset]
  refine ⟨rest, n, Text.after_append .., ?_, hlexeme, hlength⟩
  rw [← Text.byteLength_append, ← List.append_assoc, Text.after_append]

/-- The rules are tried in order, but what they read is the longest where it matters. A name or a
keyword ends where its word does, and it is a keyword just if it has the spelling of one and no word
character of any script comes after it. No operator is read where a longer one stands. -/
theorem tokenize_longest {dialect : Dialect} {text : List Char} {t : Token}
    (ht : t ∈ (tokenize dialect text).tokens) :
    (t.kind = .identifier ∨ t.kind.isKeyword = true →
      (∀ c ∈ (Text.after t.stop text).head?, Text.isAsciiWord c = false) ∧
      ∀ k : TokenKind, k.isKeyword = true →
        (t.kind = k ↔ k ∈ Rule.spelledKinds dialect ∧ t.text = k.spelling ∧
          ∀ c ∈ (Text.after t.stop text).head?, Text.isWordChar c = false)) ∧
    (t.kind.isMark = true →
      t.kind ∈ Rule.spelledKinds dialect ∧ t.text = t.kind.spelling ∧
      ∀ k ∈ Rule.spelledKinds dialect, k.isMark = true → t.text.toList <+: k.spelling.toList →
        t.text ≠ k.spelling → ¬ k.spelling.toList <+: Text.after t.offset text) := by
  have hread (hkind : t.kind = .identifier ∨ t.kind.isKeyword = true ∨ t.kind.isMark = true) := by
    have hne {k : TokenKind} (hk : ¬ (k = .identifier ∨ k.isKeyword = true ∨ k.isMark = true)) :
        t.kind ≠ k := by
      rintro rfl
      exact hk hkind
    exact exists_firstLexeme_of_mem_tokenize ht (hne (by decide)) (hne (by decide)) (hne (by decide))
  constructor
  · intro hkind
    obtain ⟨rest, n, -, hstop, hlexeme, hlength⟩ := hread (hkind.imp_right .inl)
    rw [hstop]
    constructor
    · intro c hc
      rcases hkind with hname | hkeyword
      · rw [hname] at hlexeme
        exact Rule.not_isAsciiWord_of_firstLexeme hlength hlexeme c hc
      · obtain ⟨-, -, hend⟩ := Rule.spelled_of_firstLexeme hlength hlexeme (.inl hkeyword)
        rw [Bool.eq_false_iff]
        intro hword
        exact Bool.false_ne_true ((hend hkeyword c hc).symm.trans (Rule.isWordChar_of_isAsciiWord hword))
    · intro k hk
      constructor
      · rintro rfl
        obtain ⟨hmem, htext, hend⟩ := Rule.spelled_of_firstLexeme hlength hlexeme (.inl hk)
        exact ⟨hmem, String.toList_inj.1 htext, hend hk⟩
      · rintro ⟨hmem, htext, hend⟩
        rw [htext] at hlexeme
        -- The rule for `k` reads the token, so that of the token is this one or comes before it.
        rcases Rule.eq_or_mayPrecede_of_spelled hlexeme hmem fun _ => hend with heq | hbefore
        · exact heq.symm
        · rcases hkind with hname | hkeyword
          · exact (hbefore.1 hname).elim
          · rw [← htext] at hlexeme
            obtain ⟨hmem', htext', -⟩ := Rule.spelled_of_firstLexeme hlength hlexeme (.inl hkeyword)
            exact Rule.eq_of_spelling_eq hmem' hmem ((String.toList_inj.1 htext').symm.trans htext)
  · intro hmark
    obtain ⟨rest, n, hafter, -, hlexeme, hlength⟩ := hread (.inr (.inr hmark))
    obtain ⟨hmem, htext, -⟩ := Rule.spelled_of_firstLexeme hlength hlexeme (.inr hmark)
    refine ⟨hmem, String.toList_inj.1 htext, fun k hk hkmark hleading hne hlonger => ?_⟩
    rw [hafter] at hlonger
    obtain ⟨rest', hrest'⟩ := hlonger
    rw [← hrest'] at hlexeme
    have hkeyword : k.isKeyword = true → ∀ c ∈ rest'.head?, Text.isWordChar c = false := by
      intro hkeyword
      simp [TokenKind.isMark, hkeyword] at hkmark
    rcases Rule.eq_or_mayPrecede_of_spelled hlexeme hk hkeyword with rfl | hbefore
    · exact hne (String.toList_inj.1 htext)
    · rw [htext] at hleading
      exact hbefore.2 hmark hkmark hleading

/-- In `x <- y` the operator is `<` alone: none of the longer ones that it begins stands there. -/
theorem tokenize_longest_lt :
    let text := "x <- y".toList
    let t : Token := ⟨.lt, "<", 2⟩
    t ∈ (tokenize .c text).tokens ∧
    (t.kind = .identifier ∨ t.kind.isKeyword = true →
      (∀ c ∈ (Text.after t.stop text).head?, Text.isAsciiWord c = false) ∧
      ∀ k : TokenKind, k.isKeyword = true →
        (t.kind = k ↔ k ∈ Rule.spelledKinds .c ∧ t.text = k.spelling ∧
          ∀ c ∈ (Text.after t.stop text).head?, Text.isWordChar c = false)) ∧
    (t.kind.isMark = true →
      t.kind ∈ Rule.spelledKinds .c ∧ t.text = t.kind.spelling ∧
      ∀ k ∈ Rule.spelledKinds .c, k.isMark = true → t.text.toList <+: k.spelling.toList →
        t.text ≠ k.spelling → ¬ k.spelling.toList <+: Text.after t.offset text) := by
  have hmem : (⟨.lt, "<", 2⟩ : Token) ∈ (tokenize .c "x <- y".toList).tokens := by
    decide +kernel
  exact ⟨hmem, tokenize_longest hmem⟩

end CTree
