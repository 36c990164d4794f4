import CTree.Proofs.Cut
import CTree.Proofs.Printing.Decimal
import CTree.Proofs.Printing.Lexeme

/-!
# Cutting lines of lexemes

A blank ends a keyword or an operator, a name and an integer alike: what a rule of C reads of them
does not depend on what comes after the blank. So a line of lexemes is cut into the lexemes that it
was made of.
-/

namespace CTree

variable {c : Char} {cs w rest : List Char} {k : TokenKind}

/-! ### The first rule that reads something -/

section FirstLexeme

variable {rules rules' : List Rule}

theorem firstLexeme_cons_none {r : Rule} (h : r.reader cs = none) :
    firstLexeme cs (r :: rules) = firstLexeme cs rules := by
  simp only [firstLexeme, h]

theorem firstLexeme_cons_some {r : Rule} {n : Nat} (h : r.reader cs = some (n + 1)) :
    firstLexeme cs (r :: rules) = some (r.kind, n) := by
  simp only [firstLexeme, h]

theorem firstLexeme_append_none (h : ∀ r ∈ rules, r.reader cs = none) :
    firstLexeme cs (rules ++ rules') = firstLexeme cs rules' := by
  induction rules with
  | nil => rfl
  | cons r rules ih =>
    rw [List.cons_append, firstLexeme_cons_none (h r List.mem_cons_self)]
    exact ih fun r hr => h r (List.mem_cons_of_mem _ hr)

theorem firstLexeme_append_some {x : TokenKind × Nat} (h : firstLexeme cs rules = some x) :
    firstLexeme cs (rules ++ rules') = some x := by
  induction rules with
  | nil => cases h
  | cons r rules ih =>
    simp only [List.cons_append, firstLexeme] at h ⊢
    split at h
    · exact h
    · exact ih h

theorem firstLexeme_congr {ds : List Char} (h : ∀ r ∈ rules, r.reader cs = r.reader ds) :
    firstLexeme cs rules = firstLexeme ds rules := by
  induction rules with
  | nil => rfl
  | cons r rules ih =>
    simp only [firstLexeme, h r List.mem_cons_self]
    rw [ih fun r hr => h r (List.mem_cons_of_mem _ hr)]

end FirstLexeme

/-- Whether neither a blank, a comment, a quoted literal nor a directive begins here. -/
def startsLexeme : List Char → Bool
  | [] => false
  | c :: cs => !Text.isBlank c && !(['"', '\'', '#'].contains c) &&
      !(c == '/' && (cs.head? == some '/' || cs.head? == some '*'))

/-! ### Keywords and operators -/

namespace Rule

open Reader

theorem isPrefixOf_blank {t w : List Char} (ht : ' ' ∉ t) (rest : List Char) :
    t.isPrefixOf (w ++ ' ' :: rest) = t.isPrefixOf w := by
  induction t generalizing w with
  | nil => simp
  | cons x t ih =>
    have hx : x ≠ ' ' := fun h => ht (h ▸ List.mem_cons_self)
    cases w with
    | nil => simp [List.isPrefixOf, hx]
    | cons y w => simp [List.isPrefixOf, ih fun h => ht (List.mem_cons_of_mem _ h)]

theorem text_append (t v : List Char) : text t (t ++ v) = some t.length :=
  if_pos (List.isPrefixOf_iff_prefix.2 (List.prefix_append t v))

theorem sequence_cons {r : Reader} {m : Nat} (h : r cs = some m) (rs : List Reader) :
    Reader.sequence (r :: rs) cs = (Reader.sequence rs (cs.drop m)).map (m + ·) := by
  simp only [Reader.sequence, h, Option.bind_eq_bind, Option.bind_some]
  cases Reader.sequence rs (cs.drop m) <;> rfl

theorem sequence_cons_none {r : Reader} (h : r cs = none) (rs : List Reader) :
    Reader.sequence (r :: rs) cs = none := by
  simp only [Reader.sequence, h, Option.bind_eq_bind, Option.bind_none]

/-- The place after a word, or after its beginning, is the end of the word unless the word goes
    on. -/
theorem wordEnd_blank (v rest : List Char) : wordEnd (v ++ ' ' :: rest) =
    if v.head?.any Text.isWordChar then none else some 0 := by
  cases v with
  | nil => rfl
  | cons x v => rfl

/-- Where the spelling of a kind stands, its rule reads it, unless a keyword goes on as a word. -/
theorem spelled_reader_append (v rest : List Char) :
    (spelled k).reader (k.spelling.toList ++ (v ++ ' ' :: rest)) =
      if k.isKeyword && v.head?.any Text.isWordChar then none
      else some k.spelling.toList.length := by
  show Reader.sequence (text k.spelling.toList :: _) _ = _
  rw [sequence_cons (text_append ..), List.drop_left]
  cases k.isKeyword with
  | false => rfl
  | true =>
    simp only [if_true, Reader.sequence, wordEnd_blank, Bool.true_and]
    split <;> rfl

theorem spelled_reader_none (h : ' ' ∉ k.spelling.toList) (hw : ¬ k.spelling.toList <+: w) :
    (spelled k).reader (w ++ ' ' :: rest) = none := by
  refine sequence_cons_none ?_ _
  rw [text, isPrefixOf_blank h]
  exact if_neg fun hp => hw (List.isPrefixOf_iff_prefix.1 hp)

/-- A spelling starts a lexeme that is no number, and no blank stands in it. -/
theorem spelling_shape : ∀ k ∈ spelledC, startsLexeme k.spelling.toList ∧
    k.spelling.toList.head?.all (! isDigit ·) ∧ ' ' ∉ k.spelling.toList := by
  decide

theorem spelling_blank (hk : k ∈ spelledC) : ' ' ∉ k.spelling.toList :=
  (spelling_shape k hk).2.2

theorem spelling_ne_nil (hk : k ∈ spelledC) : k.spelling.toList ≠ [] := by
  have hstart := (spelling_shape k hk).1
  intro hnil
  rw [hnil] at hstart
  cases hstart

theorem directives_none (hc : c ≠ '#') :
    ∀ r ∈ includes (· == ' ') ++ [directive .defineDirective, otherDirective],
      r.reader (c :: cs) = none := by
  have hinclude : "#include".toList = '#' :: "include".toList := rfl
  have hdefine : TokenKind.defineDirective.spelling.toList = '#' :: "define".toList := rfl
  simp [includes, includePath, directive, otherDirective, Reader.sequence, text, one, hinclude, hdefine,
    hc.symm, hc]

/-- The rules of the kinds with one spelling do not look past a blank. -/
theorem spelled_reader_blank (hk : k ∈ spelledC) (w rest : List Char) :
    (spelled k).reader (w ++ ' ' :: rest) = (spelled k).reader (w ++ [' ']) := by
  by_cases hw : k.spelling.toList <+: w
  · obtain ⟨v, rfl⟩ := hw
    rw [List.append_assoc, List.append_assoc, spelled_reader_append, spelled_reader_append]
  · rw [spelled_reader_none (spelling_blank hk) hw, spelled_reader_none (spelling_blank hk) hw]

theorem firstLexeme_tableC {x : TokenKind × Nat} (hc : c ≠ '#')
    (h : firstLexeme (c :: cs) (spelledC.map spelled) = some x) :
    firstLexeme (c :: cs) tableC = some x := by
  unfold tableC
  rw [List.append_assoc, List.append_assoc, ← List.append_assoc (includes _),
    firstLexeme_append_none (directives_none hc)]
  exact firstLexeme_append_some h

theorem firstLexeme_tableC_of_none (hc : c ≠ '#')
    (h : ∀ k ∈ spelledC, (spelled k).reader (c :: cs) = none) : firstLexeme (c :: cs) tableC =
      firstLexeme (c :: cs) [hexadecimal, octal, real, decimal, identifier] := by
  unfold tableC
  rw [List.append_assoc, List.append_assoc, ← List.append_assoc (includes _),
    firstLexeme_append_none (directives_none hc), firstLexeme_append_none]
  intro r hr
  obtain ⟨k, hk, rfl⟩ := List.mem_map.1 hr
  exact h k hk

/-- Each spelling of C is read as its own kind. -/
theorem firstLexeme_spelled (hk : k ∈ spelledC) (rest : List Char) :
    firstLexeme (k.spelling.toList ++ ' ' :: rest) (spelledC.map spelled) =
      some (k, k.spelling.toList.length - 1) := by
  have hread : ∀ k ∈ spelledC, firstLexeme (k.spelling.toList ++ [' ']) (spelledC.map spelled) =
      some (k, k.spelling.toList.length - 1) := by decide +kernel
  rw [← hread k hk]
  refine firstLexeme_congr fun r hr => ?_
  obtain ⟨k', hk', rfl⟩ := List.mem_map.1 hr
  exact spelled_reader_blank hk' _ rest

/-! ### Names and integers -/

theorem toNat_of_isAlpha (h : c.isAlpha) :
    65 ≤ c.toNat ∧ c.toNat ≤ 90 ∨ 97 ≤ c.toNat ∧ c.toNat ≤ 122 := by
  have hcase : (c.isUpper || c.isLower) = true := h
  rcases Bool.or_eq_true_iff.1 hcase with hupper | hlower
  · exact .inl (of_decide_eq_true hupper)
  · have hrange : (decide (97 ≤ c.toNat) && decide (c.toNat ≤ 122)) = true := hlower
    exact .inr (by simpa only [Bool.and_eq_true, decide_eq_true_eq] using hrange)

theorem toNat_of_isDigit (h : c.isDigit) : 48 ≤ c.toNat ∧ c.toNat ≤ 57 := by
  have hrange : (decide (48 ≤ c.toNat) && decide (c.toNat ≤ 57)) = true := h
  simpa only [Bool.and_eq_true, decide_eq_true_eq] using hrange

theorem toNat_of_isAsciiWord (h : Text.isAsciiWord c) :
    48 ≤ c.toNat ∧ c.toNat ≤ 57 ∨ 65 ≤ c.toNat ∧ c.toNat ≤ 95 ∨ 97 ≤ c.toNat ∧ c.toNat ≤ 122 := by
  simp only [Text.isAsciiWord, Char.isAlphanum, Bool.or_eq_true, beq_iff_eq] at h
  rcases h with (h | h) | rfl
  · have hletter := toNat_of_isAlpha h
    omega
  · have hdigit := toNat_of_isDigit h
    omega
  · decide

theorem isWordChar_of_isAsciiWord (h : Text.isAsciiWord c) : Text.isWordChar c := by
  have hrange := toNat_of_isAsciiWord h
  rw [Text.isWordChar, if_pos (by omega)]
  exact h

theorem takeWhile_append_blank {p : Char → Bool} (hw : w.all p) (hp : p ' ' = false)
    (rest : List Char) : (w ++ ' ' :: rest).takeWhile p = w := by
  rw [List.takeWhile_append_of_pos fun x hx => List.all_eq_true.1 hw x hx, List.takeWhile_cons,
    if_neg (by simp [hp]), List.append_nil]

/-- A kind whose spelling begins like a name is a keyword. -/
theorem isKeyword_of_cons (h : k.spelling.toList = c :: cs) (hc : isNameStart c) :
    k.isKeyword := by
  simp only [TokenKind.isKeyword, h]
  exact hc

/-- No keyword and no operator is read where another word stands. -/
theorem spelled_reader_word (hk : k ∈ spelledC) (hc : isNameStart c)
    (hcs : cs.all Text.isAsciiWord) (hne : k.spelling.toList ≠ c :: cs) :
    (spelled k).reader (c :: (cs ++ ' ' :: rest)) = none := by
  rw [← List.cons_append]
  by_cases hw : k.spelling.toList <+: c :: cs
  · obtain ⟨v, hv⟩ := hw
    rw [← hv, List.append_assoc, spelled_reader_append]
    obtain ⟨x, xs, hx⟩ := List.exists_cons_of_ne_nil (spelling_ne_nil hk)
    rw [hx, List.cons_append, List.cons.injEq] at hv
    obtain ⟨rfl, rfl⟩ := hv
    cases v with
    | nil => exact (hne (by rw [hx, List.append_nil])).elim
    | cons y v =>
      have hy : Text.isWordChar y := by
        refine isWordChar_of_isAsciiWord (List.all_eq_true.1 hcs y ?_)
        exact List.mem_append_right _ List.mem_cons_self
      rw [if_pos]
      simp [isKeyword_of_cons hx hc, hy]
  · exact spelled_reader_none (spelling_blank hk) hw

/-- No keyword and no operator is read where a digit stands. -/
theorem spelled_reader_digit (hk : k ∈ spelledC) (hc : isDigit c) :
    (spelled k).reader (c :: cs) = none := by
  obtain ⟨x, xs, hx⟩ := List.exists_cons_of_ne_nil (spelling_ne_nil hk)
  have hdigit := (spelling_shape k hk).2.1
  have hne : x ≠ c := by
    rintro rfl
    simp [hx, hc] at hdigit
  refine sequence_cons_none ?_ _
  rw [hx, text, List.isPrefixOf, beq_false_of_ne hne, Bool.false_and]
  rfl

theorem one_none {p : Char → Bool} (h : p c = false) (cs : List Char) : one p (c :: cs) = none :=
  if_neg (by simp [h])

theorem run1_none {p : Char → Bool} (h : p c = false) (cs : List Char) :
    run1 p (c :: cs) = none := by
  rw [run1, List.takeWhile_cons, if_neg (by simp [h])]
  rfl

theorem run1_append_blank {p : Char → Bool} (hc : p c) (hcs : cs.all p) (hp : p ' ' = false)
    (rest : List Char) : run1 p (c :: (cs ++ ' ' :: rest)) = some (cs.length + 1) := by
  rw [run1, List.takeWhile_cons, if_pos hc, takeWhile_append_blank hcs hp]
  rfl

theorem isDigit_of_isNameStart (h : isNameStart c) : isDigit c = false := by
  rw [Bool.eq_false_iff]
  intro hdigit
  have hrange := toNat_of_isDigit hdigit
  simp only [isNameStart, Bool.or_eq_true, beq_iff_eq] at h
  rcases h with h | rfl
  · have hletter := toNat_of_isAlpha h
    omega
  · revert hrange
    decide

/-- A name that is no keyword is read as a name. -/
theorem firstLexeme_name (hc : isNameStart c) (hcs : cs.all Text.isAsciiWord)
    (hne : ∀ k ∈ spelledC, k.spelling.toList ≠ c :: cs) (rest : List Char) :
    firstLexeme (c :: (cs ++ ' ' :: rest)) tableC = some (.identifier, cs.length) := by
  have hmark : c ≠ '#' := by
    rintro rfl
    cases hc
  have hdigit : isDigit c = false := isDigit_of_isNameStart hc
  have hzero : one (· == '0') (c :: (cs ++ ' ' :: rest)) = none := by
    refine one_none (p := (· == '0')) (beq_false_of_ne ?_) _
    rintro rfl
    cases hdigit
  rw [firstLexeme_tableC_of_none hmark fun k hk => spelled_reader_word hk hc hcs (hne k hk),
    firstLexeme_cons_none (sequence_cons_none hzero _),
    firstLexeme_cons_none (sequence_cons_none hzero _),
    firstLexeme_cons_none (sequence_cons_none (run1_none hdigit _) _),
    firstLexeme_cons_none (sequence_cons_none (run1_none hdigit _) _)]
  refine firstLexeme_cons_some ?_
  show Reader.sequence [one isNameStart, run Text.isAsciiWord] _ = _
  rw [sequence_cons (if_pos hc), List.drop_one, List.tail_cons, sequence_cons rfl,
    takeWhile_append_blank hcs rfl, Nat.add_comm]
  simp [Reader.sequence, Nat.add_comm]

/-- A run of digits is read as an integer, if it does not begin with a zero or is a zero alone. -/
theorem firstLexeme_decimal (hc : isDigit c) (hcs : cs.all isDigit) (hzero : c = '0' → cs = [])
    (rest : List Char) :
    firstLexeme (c :: (cs ++ ' ' :: rest)) tableC = some (.intLiteral, cs.length) := by
  have hmark : c ≠ '#' := by
    rintro rfl
    cases hc
  have hdigits := run1_append_blank hc hcs rfl rest
  have hdrop : (c :: (cs ++ ' ' :: rest)).drop (cs.length + 1) = ' ' :: rest := by
    rw [List.drop_succ_cons, List.drop_left]
  -- A zero alone is no prefix of another base: a blank comes after it.
  have hstart (r : Reader) (rs : List Reader) (hr : r (' ' :: rest) = none) :
      Reader.sequence (one (· == '0') :: r :: rs) (c :: (cs ++ ' ' :: rest)) = none := by
    by_cases h0 : c = '0'
    · obtain rfl := hzero h0
      rw [sequence_cons (if_pos (beq_iff_eq.2 h0)), List.drop_one, List.tail_cons,
        List.nil_append, sequence_cons_none hr]
      rfl
    · exact sequence_cons_none (one_none (p := (· == '0')) (beq_false_of_ne h0) _) _
  rw [firstLexeme_tableC_of_none hmark fun k hk => spelled_reader_digit hk hc,
    firstLexeme_cons_none (hstart _ _ rfl), firstLexeme_cons_none (hstart _ _ rfl)]
  have hreal : real.reader (c :: (cs ++ ' ' :: rest)) = none := by
    show Reader.sequence (run1 isDigit :: one (· == '.') :: _) _ = none
    rw [sequence_cons hdigits, hdrop, sequence_cons_none rfl]
    rfl
  rw [firstLexeme_cons_none hreal]
  refine firstLexeme_cons_some ?_
  show Reader.sequence [run1 isDigit, run isIntSuffix] _ = _
  rw [sequence_cons hdigits, hdrop]
  rfl

end Rule

/-! ### Pieces -/

theorem startsLexeme_append_blank (h : startsLexeme w) (rest : List Char) :
    startsLexeme (w ++ ' ' :: rest) := by
  match w, h with
  | [c], h =>
    simp [startsLexeme] at h ⊢
    exact ⟨h.1, h.2⟩
  | c :: x :: cs, h => exact h

/-- No piece of another form begins where a lexeme of C other than a directive may begin. -/
theorem startsLexeme_spec (h : startsLexeme cs) : Text.StartsLexeme cs := by
  cases cs with
  | nil => cases h
  | cons c cs =>
    simp only [startsLexeme, Bool.and_eq_true, Bool.not_eq_true', List.contains_cons,
      Bool.or_eq_false_iff, beq_eq_false_iff_ne, Bool.and_eq_false_iff] at h
    obtain ⟨⟨hblank, hstring, hchar, -⟩, hcomment⟩ := h
    refine ⟨c, cs, rfl, hblank, hstring, hchar, fun hc => ?_⟩
    exact hcomment.resolve_left fun hne => hne hc

theorem firstPiece_eq {x : TokenKind × Nat} (hstart : startsLexeme (c :: cs))
    (h : firstLexeme (c :: cs) Rule.tableC = some x) :
    firstPiece .c c cs = (.lexeme x.1, x.2) :=
  firstPiece_of_startsLexeme (startsLexeme_spec hstart) h

theorem startsLexeme_word (h : Text.isAsciiWord c) (cs : List Char) : startsLexeme (c :: cs) := by
  have hrange := Rule.toNat_of_isAsciiWord h
  have hblank : Text.isBlank c = false := by
    simp [Text.isBlank, Text.blankRanges]
    omega
  -- The marks that begin other pieces stand before the digits.
  have hne (x : Char) (hx : x.toNat < 48) : c ≠ x := by
    rintro rfl
    omega
  simp [startsLexeme, hblank, hne '"' (by decide), hne '\'' (by decide), hne '#' (by decide),
    hne '/' (by decide)]

/-- Every lexeme of C is a piece of its own where a blank comes after it. -/
def Lexeme.Scans (w : Lexeme) : Prop :=
  ∃ c cs, w.text.toList = c :: cs ∧
    ∀ rest, firstPiece .c c (cs ++ ' ' :: rest) = (.lexeme w.kind, cs.length)

theorem Lexeme.scans_spelled (hk : k ∈ Rule.spelledC) : (spelled k).Scans := by
  have hk' := (Rule.spelling_shape k hk).1
  obtain ⟨c, cs, hc⟩ := List.exists_cons_of_ne_nil (Rule.spelling_ne_nil hk)
  refine ⟨c, cs, hc, fun rest => ?_⟩
  have hfirst := Rule.firstLexeme_spelled hk rest
  rw [hc] at hk' hfirst
  have hmark : c ≠ '#' := by
    rintro rfl
    simp [startsLexeme] at hk'
  exact firstPiece_eq (startsLexeme_append_blank hk' rest) (Rule.firstLexeme_tableC hmark hfirst)

theorem Lexeme.scans_name {text : String} (h : Rule.isName text) : (name text).Scans := by
  unfold Rule.isName at h
  split at h
  · cases h
  · rename_i c cs hc
    simp only [Bool.and_eq_true, Bool.not_eq_true', List.any_eq_false, beq_iff_eq] at h
    obtain ⟨⟨hstart, hcs⟩, hne⟩ := h
    refine ⟨c, cs, hc, fun rest => ?_⟩
    have hword : Text.isAsciiWord c := by
      simp [Rule.isNameStart, Text.isAsciiWord, Char.isAlphanum] at hstart ⊢
      grind
    refine firstPiece_eq (x := (.identifier, cs.length)) (startsLexeme_word hword _) ?_
    refine Rule.firstLexeme_name hstart hcs (fun k hk hspelling => hne k hk ?_) rest
    rw [← hc] at hspelling
    exact String.toList_inj.1 hspelling

theorem Lexeme.scans_decimal (n : Nat) : (decimal n).Scans := by
  obtain ⟨c, cs, hc, hdigit, hcs, hzero⟩ := exists_repr n
  refine ⟨c, cs, hc, fun rest => ?_⟩
  have hword : Text.isAsciiWord c := by
    simp [Rule.isDigit, Text.isAsciiWord, Char.isAlphanum] at hdigit ⊢
    grind
  refine firstPiece_eq (x := (.intLiteral, cs.length)) (startsLexeme_word hword _) ?_
  exact Rule.firstLexeme_decimal hdigit hcs hzero rest

/-! ### Texts -/

namespace Lexeme

variable {ws : List Lexeme}

/-- The text of lexemes, each with a blank after it. -/
def spaced (ws : List Lexeme) : List Char :=
  ws.flatMap fun w => w.text.toList ++ [' ']

/-- A text is cut into the given lexemes and the end of the text, and nothing is wrong with it. -/
def Written (ws : List Lexeme) (text : List Char) : Prop :=
  (tokenize .c text).tokens.dropLast.map Token.lexeme = ws ∧ (tokenize .c text).errors = []

theorem spaced_cons (w : Lexeme) (ws : List Lexeme) :
    spaced (w :: ws) = w.text.toList ++ ' ' :: spaced ws := by
  simp [spaced]

end Lexeme

section Spaced

variable {ws : List Lexeme}

theorem pieces_cons {dialect : Dialect} {kind : PieceKind} {n : Nat}
    (h : firstPiece dialect c cs = (kind, n)) :
    pieces dialect (c :: cs) = ⟨kind, c :: cs.take n⟩ :: pieces dialect (cs.drop n) := by
  rw [pieces, h]

/-- The pieces of lexemes with blanks between them: each lexeme and the blank after it. -/
def spacedPieces (ws : List Lexeme) : List Piece :=
  ws.flatMap fun w => [⟨.lexeme w.kind, w.text.toList⟩, ⟨.blank, [' ']⟩]

theorem pieces_spaced (h : ∀ w ∈ ws, w.Scans) (rest : List Char) :
    pieces .c (Lexeme.spaced ws ++ rest) = spacedPieces ws ++ pieces .c rest := by
  induction ws with
  | nil => rfl
  | cons w ws ih =>
    obtain ⟨c, cs, hc, hfirst⟩ := h w List.mem_cons_self
    have hblank : firstPiece .c ' ' (Lexeme.spaced ws ++ rest) = (.blank, 0) := if_pos rfl
    rw [Lexeme.spaced_cons, hc, List.cons_append, List.cons_append, List.append_assoc,
      List.cons_append, pieces_cons (hfirst _), List.drop_left, List.take_left, pieces_cons hblank,
      List.drop_zero, List.take_zero, ih fun w hw => h w (List.mem_cons_of_mem _ hw)]
    simp only [spacedPieces, List.flatMap_cons, hc, List.cons_append, List.nil_append]

/-- The tokens among these pieces are the lexemes. None of the pieces is at fault. -/
theorem locate_spacedPieces (ws : List Lexeme) (ps : List Piece) (offset : Nat) : ∃ offset',
    ((Piece.locate offset (spacedPieces ws ++ ps)).filterMap fun (o, p) => p.token? o).map
        Token.lexeme =
      ws ++ ((Piece.locate offset' ps).filterMap fun (o, p) => p.token? o).map Token.lexeme ∧
    ((Piece.locate offset (spacedPieces ws ++ ps)).filterMap fun (o, p) => p.error? o) =
      (Piece.locate offset' ps).filterMap fun (o, p) => p.error? o := by
  induction ws generalizing offset with
  | nil => exact ⟨offset, rfl, rfl⟩
  | cons w ws ih =>
    obtain ⟨offset', htokens, herrors⟩ :=
      ih (offset + Text.byteLength w.text.toList + Text.byteLength [' '])
    have hw : Token.lexeme ⟨w.kind, String.ofList w.text.toList, offset⟩ = w := by
      rw [Token.lexeme, String.ofList_toList]
    exact ⟨offset', congr (congrArg List.cons hw) htokens, herrors⟩

/-- Lexemes of C with blanks between them are cut into themselves, and so is what follows them. -/
theorem Lexeme.written_append {rest : List Char} {ps : List Piece} {ws' : List Lexeme}
    (h : ∀ w ∈ ws, w.Scans) (hrest : pieces .c rest = ps)
    (htokens : ∀ offset,
      ((Piece.locate offset ps).filterMap fun (o, p) => p.token? o).map Token.lexeme = ws')
    (herrors : ∀ offset, ((Piece.locate offset ps).filterMap fun (o, p) => p.error? o) = []) :
    Written (ws ++ ws') (spaced ws ++ rest) := by
  obtain ⟨offset, hws, hfaults⟩ := locate_spacedPieces ws ps 0
  simp only [Written, tokenize, pieces_spaced h, hrest, List.dropLast_concat]
  rw [hws, hfaults, htokens, herrors]
  exact ⟨rfl, rfl⟩

theorem pieces_nil : pieces .c [] = [] := by
  rw [pieces]

theorem Lexeme.written_spaced (h : ∀ w ∈ ws, w.Scans) : Written ws (spaced ws) := by
  have hwritten : Written (ws ++ []) (spaced ws ++ []) :=
    written_append h pieces_nil (fun _ => rfl) (fun _ => rfl)
  rwa [List.append_nil, List.append_nil] at hwritten

theorem Lexeme.written_line (h : ∀ w ∈ ws, w.Scans) :
    Written (ws ++ [spelled .semicolon]) (line ws) := by
  have hfirst : firstPiece .c ';' [] = (.lexeme .semicolon, 0) := by decide
  have hsemicolon : pieces .c [';'] = [⟨.lexeme .semicolon, [';']⟩] := by
    rw [pieces, hfirst]
    exact congrArg (_ :: ·) pieces_nil
  exact written_append h hsemicolon (fun _ => rfl) (fun _ => rfl)

end Spaced

end CTree
