import CTree.Proofs.Cut
import CTree.Proofs.Printing.Scan

/-!
# Cutting a text line by line

No rule looks past the end of a line, but for an `#include` of C++ that still looks for its path, and
nothing else goes on in the next line but what was left open. So a text can be cut at any line feed:
the pieces of the whole are those of the two parts, and so are the tokens and the errors, those of the
second part as many bytes further on as the first part and the line feed take.
-/

namespace CTree

/-! ### Readers that stop at the end of a line -/

namespace Reader

/-- What is read of a text does not depend on what comes after a line feed at its end. -/
def StopsAtLine (r : Reader) : Prop :=
  ∀ cs rest, r (cs ++ '\n' :: rest) = r cs

variable {p : Char → Bool} {cs : List Char}

theorem takeWhile_line (hp : p '\n' = false) (cs rest : List Char) :
    (cs ++ '\n' :: rest).takeWhile p = cs.takeWhile p := by
  induction cs with
  | nil => simp [hp]
  | cons c cs ih =>
    rw [List.cons_append, List.takeWhile_cons, List.takeWhile_cons, ih]

theorem isPrefixOf_line {w : List Char} (hw : '\n' ∉ w) (cs rest : List Char) :
    w.isPrefixOf (cs ++ '\n' :: rest) = w.isPrefixOf cs := by
  induction w generalizing cs with
  | nil => simp
  | cons x w ih =>
    have hx : x ≠ '\n' := fun h => hw (h ▸ List.mem_cons_self)
    cases cs with
    | nil => simp [List.isPrefixOf, hx]
    | cons c cs => simp [List.isPrefixOf, ih fun h => hw (List.mem_cons_of_mem _ h)]

theorem stops_text {w : List Char} (hw : '\n' ∉ w) : (text w).StopsAtLine := by
  intro cs rest
  rw [text, isPrefixOf_line hw, text]

theorem stops_one (hp : p '\n' = false) : (one p).StopsAtLine := by
  intro cs rest
  cases cs with
  | nil => simp [one, hp]
  | cons c cs => rfl

theorem stops_run (hp : p '\n' = false) : (run p).StopsAtLine := by
  intro cs rest
  rw [run, takeWhile_line hp, run]

theorem stops_run1 (hp : p '\n' = false) : (run1 p).StopsAtLine := by
  intro cs rest
  rw [run1, takeWhile_line hp, run1]

theorem stops_optional {r : Reader} (hr : r.StopsAtLine) : (optional r).StopsAtLine := by
  intro cs rest
  rw [optional, hr, optional]

theorem stops_wordEnd : wordEnd.StopsAtLine := by
  intro cs rest
  cases cs with
  | nil => rfl
  | cons c cs => rfl

/-- A sequence stops where its first part does and the others do after that. -/
theorem sequence_line {r : Reader} {rs : List Reader} {rest : List Char} (hfits : r.Fits)
    (hr : r (cs ++ '\n' :: rest) = r cs)
    (hrs : ∀ m, r cs = some m → sequence rs (cs.drop m ++ '\n' :: rest) = sequence rs (cs.drop m)) :
    sequence (r :: rs) (cs ++ '\n' :: rest) = sequence (r :: rs) cs := by
  rcases hm : r cs with _ | m
  · rw [Rule.sequence_cons_none hm, Rule.sequence_cons_none (hr.trans hm)]
  · have hdrop : (cs ++ '\n' :: rest).drop m = cs.drop m ++ '\n' :: rest :=
      List.drop_append_of_le_length (hfits cs m hm)
    rw [Rule.sequence_cons hm, Rule.sequence_cons (hr.trans hm), hdrop, hrs m hm]

theorem stops_sequence {rs : List Reader} (h : ∀ r ∈ rs, r.Fits ∧ r.StopsAtLine) :
    (sequence rs).StopsAtLine := by
  induction rs with
  | nil => exact fun cs rest => rfl
  | cons r rs ih =>
    intro cs rest
    obtain ⟨hfits, hr⟩ := h r List.mem_cons_self
    have hrs := ih fun r hr => h r (List.mem_cons_of_mem _ hr)
    exact sequence_line hfits (hr cs rest) fun m _ => hrs (cs.drop m) rest

end Reader

namespace Rule

open Reader

theorem lineFeed_not_mem_spelling (k : TokenKind) : '\n' ∉ k.spelling.toList := by
  cases k <;> decide

theorem stops_name : name.StopsAtLine :=
  stops_sequence (by simp [fits_one, fits_run, stops_one, stops_run, isNameStart, Text.isAsciiWord])

theorem stops_spelled (k : TokenKind) : (spelled k).reader.StopsAtLine := by
  refine stops_sequence fun r hr => ?_
  rcases List.mem_cons.1 hr with rfl | hr
  · exact ⟨fits_text _, stops_text (lineFeed_not_mem_spelling k)⟩
  · split at hr
    · rw [List.mem_singleton.1 hr]
      exact ⟨fits_wordEnd, stops_wordEnd⟩
    · cases hr

theorem stops_directive (k : TokenKind) : (directive k).reader.StopsAtLine :=
  stops_sequence (by
    simp [fits_text, fits_wordEnd, stops_text (lineFeed_not_mem_spelling k), stops_wordEnd])

theorem stops_otherDirective : otherDirective.reader.StopsAtLine :=
  stops_sequence (by simp [fits_one, fits_name, stops_one, stops_name])

/-- The path of an `#include` and its marks stand in one line. -/
theorem stops_path {opening closing : Char} (ho : opening ≠ '\n') (hc : closing ≠ '\n') :
    (sequence [one (· == opening), run1 fun c => c != closing && c != '\n',
      one (· == closing)]).StopsAtLine :=
  stops_sequence (by simp [fits_one, fits_run1, stops_one, stops_run1, ho.symm, hc.symm])

/-- A text that ends in an `#include` which has not found its path: only blanks come after it. -/
def IsOpenInclude (cs : List Char) : Prop :=
  ∃ blanks, cs = "#include".toList ++ blanks ∧ blanks.all Text.isBlank = true

/-- Blanks that go on to the end of a text may go on after it. Any others end in the text. -/
theorem run_line {p : Char → Bool} {cs : List Char} (h : cs.all p ≠ true) (rest : List Char) :
    run p (cs ++ '\n' :: rest) = run p cs := by
  have hlength : (cs.takeWhile p).length ≠ cs.length := by
    intro hlength
    have heq : cs.takeWhile p = cs := (List.takeWhile_prefix p).eq_of_length hlength
    exact h (heq ▸ List.all_takeWhile)
  rw [run, List.takeWhile_append, if_neg hlength, run]

theorem includePath_line {opening closing : Char} (ho : opening ≠ '\n') (hc : closing ≠ '\n')
    {cs : List Char} (hcs : ¬ IsOpenInclude cs) (rest : List Char) :
    includePath Text.isBlank opening closing (cs ++ '\n' :: rest) =
      includePath Text.isBlank opening closing cs := by
  refine sequence_line (fits_text _) (stops_text (by decide) cs rest) fun m hm => ?_
  obtain ⟨hleading, hm⟩ := Option.ite_none_right_eq_some.1 hm
  cases hm
  obtain ⟨tail, rfl⟩ := List.isPrefixOf_iff_prefix.1 hleading
  rw [List.drop_left]
  have htail : tail.all Text.isBlank ≠ true := fun hall => hcs ⟨tail, rfl, hall⟩
  exact sequence_line (fits_run _) (run_line htail rest) fun n _ => stops_path ho hc _ rest

theorem stops_last {rule : Rule} (h : rule ∈ [hexadecimal, octal, real, realWithExponent, decimal,
    identifier]) : rule.reader.StopsAtLine := by
  have hdigits : (run1 isDigit).StopsAtLine := stops_run1 rfl
  have hsuffix : (run isIntSuffix).StopsAtLine := stops_run rfl
  have hmark : floatMark.StopsAtLine := stops_optional (stops_one rfl)
  have hexponent : exponent.StopsAtLine :=
    stops_sequence (by simp [fits_one, fits_optional, fits_run1, stops_one, stops_optional, hdigits])
  simp only [List.mem_cons, List.not_mem_nil, or_false] at h
  rcases h with rfl | rfl | rfl | rfl | rfl | rfl
  · have hhexadecimal : (run1 isHexDigit).StopsAtLine := stops_run1 rfl
    exact stops_sequence (by
      simp [fits_one, fits_run1, fits_run, stops_one, hhexadecimal, hsuffix])
  · have hoctal : (run1 isOctalDigit).StopsAtLine := stops_run1 rfl
    exact stops_sequence (by simp [fits_one, fits_run1, fits_run, stops_one, hoctal, hsuffix])
  · exact stops_sequence (by simp [fits_one, fits_run1, fits_floatMark, stops_one, hdigits, hmark])
  · have hwhole : (run isDigit).StopsAtLine := stops_run rfl
    exact stops_sequence (by
      simp [fits_one, fits_run, fits_run1, fits_optional, fits_exponent, fits_floatMark, stops_one,
        stops_optional, hwhole, hdigits, hexponent, hmark])
  · exact stops_sequence (by simp [fits_run1, fits_run, hdigits, hsuffix])
  · exact stops_name

/-- No rule looks past a line feed, but for the path of an `#include` in C++. -/
theorem reader_line {dialect : Dialect} {rule : Rule} (h : rule ∈ table dialect) {cs : List Char}
    (hcs : dialect = .cpp → ¬ IsOpenInclude cs) (rest : List Char) :
    rule.reader (cs ++ '\n' :: rest) = rule.reader cs := by
  have hspelled (ks : List TokenKind) (h : rule ∈ ks.map spelled) : rule.reader.StopsAtLine := by
    obtain ⟨k, -, rfl⟩ := List.mem_map.1 h
    exact stops_spelled k
  have hlast {rules : List Rule} (h : rule ∈ rules) (hrules : rules ⊆ [hexadecimal, octal, real,
      realWithExponent, decimal, identifier]) := stops_last (hrules h)
  cases dialect with
  | c =>
    simp only [table, tableC, List.mem_append, or_assoc] at h
    rcases h with h | h | h | h
    · have hpath {opening closing : Char} (ho : opening ≠ '\n') (hc : closing ≠ '\n') :
          (includePath (· == ' ') opening closing).StopsAtLine :=
        stops_sequence (by
          simp [fits_text, fits_run, fits_one, fits_run1, stops_text, stops_run, stops_one, stops_run1,
            ho.symm, hc.symm])
      simp only [includes, List.mem_cons, List.not_mem_nil, or_false] at h
      rcases h with rfl | rfl <;> exact hpath (by decide) (by decide) cs rest
    · simp only [List.mem_cons, List.not_mem_nil, or_false] at h
      rcases h with rfl | rfl
      · exact stops_directive _ cs rest
      · exact stops_otherDirective cs rest
    · exact hspelled _ h cs rest
    · exact hlast h (by simp) cs rest
  | cpp =>
    simp only [table, tableCpp, List.mem_append, or_assoc] at h
    rcases h with h | h | h | h
    · simp only [includes, List.mem_cons, List.not_mem_nil, or_false] at h
      rcases h with rfl | rfl <;> exact includePath_line (by decide) (by decide) (hcs rfl) rest
    · simp only [List.mem_cons, List.not_mem_nil, or_false] at h
      rcases h with rfl | rfl | rfl | rfl | rfl | rfl
      iterate 5 exact stops_directive _ cs rest
      exact stops_otherDirective cs rest
    · exact hspelled _ h cs rest
    · exact hlast h (by simp) cs rest

theorem firstLexeme_line {dialect : Dialect} {cs : List Char}
    (hcs : dialect = .cpp → ¬ IsOpenInclude cs) (rest : List Char) :
    firstLexeme (cs ++ '\n' :: rest) (table dialect) = firstLexeme cs (table dialect) :=
  firstLexeme_congr fun _ hrule => reader_line hrule hcs rest

end Rule

/-! ### Pieces -/

section Tails

variable {quote : Char} {cs : List Char} {n : Nat}

theorem quotedTail_cons {c : Char} (hc : c ≠ '\\') (cs : List Char) : quotedTail quote (c :: cs) =
    if c = '\n' then (0, false) else if c = quote then (1, true)
    else ((quotedTail quote cs).1 + 1, (quotedTail quote cs).2) := by
  rw [quotedTail]
  · exact fun h => (hc h).elim
  · exact fun _ _ h => (hc h).elim

/-- What is neither a backslash at the end nor one before a character is none. -/
theorem ne_backslash {c : Char} {cs : List Char} (hlast : c = '\\' → cs = [] → False)
    (hescape : ∀ d ds, c = '\\' → cs = d :: ds → False) : c ≠ '\\' := by
  intro hc
  cases cs with
  | nil => exact hlast hc rfl
  | cons d cs => exact hescape d cs hc rfl

/-- A literal that is closed stays as it is, whatever comes after it. -/
theorem quotedTail_append (h : quotedTail quote cs = (n, true)) (rest : List Char) :
    quotedTail quote (cs ++ rest) = (n, true) ∧ n ≤ cs.length := by
  fun_induction quotedTail quote cs generalizing n with
  | case1 => cases h
  | case2 => cases h
  | case3 c cs m closed hrec ih =>
    cases h
    obtain ⟨happend, hle⟩ := ih hrec
    rw [List.cons_append, List.cons_append, quotedTail, happend]
    exact ⟨rfl, Nat.add_le_add_right hle 2⟩
  | case4 => cases h
  | case5 cs hlast hescape hline =>
    cases h
    have hslash : quote ≠ '\\' := ne_backslash hlast hescape
    rw [List.cons_append, quotedTail_cons hslash, if_neg hline, if_pos rfl]
    exact ⟨rfl, Nat.le_add_left 1 _⟩
  | case6 c cs hlast hescape hline hquote m closed hrec ih =>
    cases h
    obtain ⟨happend, hle⟩ := ih hrec
    have hslash : c ≠ '\\' := ne_backslash hlast hescape
    rw [List.cons_append, quotedTail_cons hslash, if_neg hline, if_neg hquote, happend]
    exact ⟨rfl, Nat.add_le_add_right hle 1⟩

/-- A comment that is closed stays as it is, whatever comes after it. -/
theorem commentTail_append (h : commentTail cs = (n, true)) (rest : List Char) :
    commentTail (cs ++ rest) = (n, true) ∧ n ≤ cs.length := by
  fun_induction commentTail cs generalizing n with
  | case1 => cases h
  | case2 cs =>
    cases h
    exact ⟨rfl, Nat.le_add_left 2 _⟩
  | case3 c cs hne m closed hrec ih =>
    cases h
    obtain ⟨happend, hle⟩ := ih hrec
    have hend : ∀ ds, c = '*' → cs ++ rest = '/' :: ds → False := by
      intro ds hc hcs
      cases cs with
      | nil => cases hrec
      | cons d cs => exact hne cs hc (congrArg (· :: cs) (List.cons.inj hcs).1)
    rw [List.cons_append, commentTail, happend]
    · exact ⟨rfl, Nat.add_le_add_right hle 1⟩
    · exact hend

end Tails

/-- Whether the text ended before the piece did. -/
def PieceKind.isOpen : PieceKind → Bool
  | .comment closed | .quoted _ closed => !closed
  | _ => false

section Pieces

variable {dialect : Dialect} {c : Char} {cs : List Char} {kind : PieceKind} {n : Nat}

theorem head?_line {x : Char} (hx : x ≠ '\n') (cs rest : List Char) :
    ((cs ++ '\n' :: rest).head? == some x) = (cs.head? == some x) := by
  cases cs with
  | nil => exact beq_false_of_ne fun h => hx (Option.some.inj h).symm
  | cons c cs => rfl

/-- A quoted literal that is closed is the same where another line comes after the text. -/
theorem quoted_line {quote : Char} {literal : TokenKind}
    (h : (PieceKind.quoted literal (quotedTail quote cs).2, (quotedTail quote cs).1) = (kind, n))
    (hclosed : kind.isOpen = false) (rest : List Char) :
    (PieceKind.quoted literal (quotedTail quote (cs ++ '\n' :: rest)).2,
      (quotedTail quote (cs ++ '\n' :: rest)).1) = (kind, n) ∧ n ≤ cs.length := by
  rcases htail : quotedTail quote cs with ⟨m, closed⟩
  rw [htail] at h
  cases h
  obtain rfl : closed = true := by simpa [PieceKind.isOpen] using hclosed
  obtain ⟨happend, hle⟩ := quotedTail_append htail ('\n' :: rest)
  rw [happend]
  exact ⟨rfl, hle⟩

/-- So is a comment that is closed. -/
theorem comment_line
    (h : (PieceKind.comment (commentTail cs).2, (commentTail cs).1 + 1) = (kind, n))
    (hclosed : kind.isOpen = false) (rest : List Char) :
    (PieceKind.comment (commentTail (cs ++ '\n' :: rest)).2,
      (commentTail (cs ++ '\n' :: rest)).1 + 1) = (kind, n) ∧ n ≤ cs.length + 1 := by
  rcases htail : commentTail cs with ⟨m, closed⟩
  rw [htail] at h
  cases h
  obtain rfl : closed = true := by simpa [PieceKind.isOpen] using hclosed
  obtain ⟨happend, hle⟩ := commentTail_append htail ('\n' :: rest)
  rw [happend]
  exact ⟨rfl, Nat.add_le_add_right hle 1⟩

/-- The first piece of a text is the same where another line comes after the text, unless it is left
open or looks for the path of an `#include`. -/
theorem firstPiece_line (h : firstPiece dialect c cs = (kind, n)) (hclosed : kind.isOpen = false)
    (hinclude : dialect = .cpp → ¬ Rule.IsOpenInclude (c :: cs)) (rest : List Char) :
    firstPiece dialect c (cs ++ '\n' :: rest) = (kind, n) ∧ n ≤ cs.length := by
  unfold firstPiece at h ⊢
  rw [head?_line (by decide), head?_line (by decide)]
  split at h
  · rename_i hblank
    cases h
    exact ⟨if_pos hblank, Nat.zero_le _⟩
  rename_i hblank
  rw [if_neg hblank]
  split at h
  · rename_i hline
    cases h
    rw [if_pos hline, Reader.takeWhile_line (p := (· != '\n')) rfl]
    exact ⟨rfl, (List.takeWhile_sublist _).length_le⟩
  rename_i hline
  rw [if_neg hline]
  split at h
  · rename_i hblock
    rw [if_pos hblock]
    obtain ⟨-, hhead⟩ : c = '/' ∧ cs.head? = some '*' := by simpa using hblock
    obtain ⟨cs, rfl⟩ := List.head?_eq_some_iff.1 hhead
    exact comment_line h hclosed rest
  rename_i hblock
  rw [if_neg hblock]
  split at h
  · rename_i hquote
    rw [if_pos hquote]
    exact quoted_line h hclosed rest
  rename_i hstring
  rw [if_neg hstring]
  split at h
  · rename_i hquote
    rw [if_pos hquote]
    exact quoted_line h hclosed rest
  rename_i hchar
  rw [if_neg hchar, ← List.cons_append, Rule.firstLexeme_line hinclude]
  split at h
  · rename_i lexeme m hlexeme
    cases h
    have hlength := length_of_firstLexeme hlexeme
    simp only [List.length_cons, List.length_take] at hlength
    exact ⟨rfl, by omega⟩
  · cases h
    exact ⟨rfl, Nat.zero_le _⟩

/-- The kind and the text of the token that a piece is, if it is one. -/
def Piece.lexeme? (p : Piece) : Option Lexeme :=
  p.tokenKind?.map (⟨·, String.ofList p.text⟩)

/-- An `#include` for which no rule has found a path. -/
def Lexeme.bareInclude : Lexeme :=
  ⟨.otherDirective, "#include"⟩

theorem isAsciiWord_of_isBlank (h : Text.isBlank c = true) : Text.isAsciiWord c = false := by
  rw [Bool.eq_false_iff]
  intro hword
  have hrange := Rule.toNat_of_isAsciiWord hword
  simp [Text.isBlank, Text.blankRanges] at h
  omega

/-- Blanks hold no token. -/
theorem lexemes_blanks {blanks : List Char} (h : blanks.all Text.isBlank = true) :
    (pieces dialect blanks).filterMap Piece.lexeme? = [] := by
  induction blanks with
  | nil => rw [pieces, List.filterMap_nil]
  | cons c cs ih =>
    rw [List.all_cons, Bool.and_eq_true] at h
    have hfirst : firstPiece dialect c cs = (.blank, 0) := if_pos h.1
    rw [pieces_cons hfirst]
    exact ih h.2

open Reader Rule in
/-- Where no path comes, `#include` is read as a directive like any other. -/
theorem firstLexeme_openInclude {blanks : List Char} (h : blanks.all Text.isBlank = true) :
    firstLexeme ("#include".toList ++ blanks) (table .cpp) = some (.otherDirective, 7) := by
  have hpath (opening closing : Char) :
      includePath Text.isBlank opening closing ("#include".toList ++ blanks) = none := by
    have hblanks : (blanks ++ []).takeWhile Text.isBlank = blanks ++ [] :=
      List.takeWhile_append_of_pos (List.all_eq_true.1 h)
    rw [List.append_nil] at hblanks
    rw [includePath, sequence_cons (text_append ..), List.drop_left, sequence_cons rfl, hblanks,
      List.drop_length]
    rfl
  have hname : name ("include".toList ++ blanks) = some 7 := by
    have hword : blanks.takeWhile Text.isAsciiWord = [] := by
      cases blanks with
      | nil => rfl
      | cons c cs =>
        rw [List.all_cons, Bool.and_eq_true] at h
        exact List.takeWhile_cons_of_neg (by simp [isAsciiWord_of_isBlank h.1])
    have hletters : "nclude".toList.all Text.isAsciiWord = true := by decide
    show Reader.sequence [one isNameStart, run Text.isAsciiWord] ('i' :: ("nclude".toList ++ blanks)) = _
    rw [sequence_cons (m := 1) rfl, List.drop_one, List.tail_cons, sequence_cons rfl,
      List.takeWhile_append_of_pos (List.all_eq_true.1 hletters), hword]
    rfl
  have hother : otherDirective.reader ("#include".toList ++ blanks) = some 8 := by
    show Reader.sequence [one (· == '#'), name] ('#' :: ("include".toList ++ blanks)) = _
    rw [sequence_cons (m := 1) rfl, List.drop_one, List.tail_cons, sequence_cons hname]
    rfl
  unfold table tableCpp
  refine firstLexeme_append_some (firstLexeme_append_some ?_)
  rw [includes, List.cons_append, List.cons_append, List.nil_append,
    firstLexeme_cons_none (hpath '<' '>'), firstLexeme_cons_none (hpath '"' '"')]
  iterate 5 rw [firstLexeme_cons_none rfl]
  exact firstLexeme_cons_some hother

/-- The last token of a text that ends in an `#include` without a path is that `#include`. -/
theorem lexemes_openInclude {cs : List Char} (h : Rule.IsOpenInclude cs) :
    (pieces .cpp cs).filterMap Piece.lexeme? = [Lexeme.bareInclude] := by
  obtain ⟨blanks, rfl, hblanks⟩ := h
  have hlexeme : firstLexeme ('#' :: ("include".toList ++ blanks)) (Rule.table .cpp) =
      some (.otherDirective, 7) := firstLexeme_openInclude hblanks
  have hfirst : firstPiece .cpp '#' ("include".toList ++ blanks) =
      (.lexeme .otherDirective, 7) :=
    firstPiece_of_startsLexeme ⟨'#', _, rfl, by decide, by decide, by decide, nofun⟩ hlexeme
  show (pieces .cpp ('#' :: ("include".toList ++ blanks))).filterMap Piece.lexeme? = _
  have htake : ("include".toList ++ blanks).take 7 = "include".toList := rfl
  have hdrop : ("include".toList ++ blanks).drop 7 = blanks := rfl
  rw [pieces_cons hfirst, htake, hdrop, List.filterMap_cons, lexemes_blanks hblanks]
  rfl

/-- Where a line ends, the pieces of a text end, unless one is left open there or looks for the path of
an `#include`. -/
theorem pieces_line {a : List Char} (hclosed : ∀ p ∈ pieces dialect a, p.kind.isOpen = false)
    (hinclude : dialect = .cpp →
      ((pieces dialect a).filterMap Piece.lexeme?).getLast? ≠ some Lexeme.bareInclude)
    (b : List Char) : pieces dialect (a ++ '\n' :: b) =
      pieces dialect a ++ ⟨.blank, ['\n']⟩ :: pieces dialect b := by
  fun_induction pieces dialect a with
  | case1 => exact pieces_cons (if_pos (by decide))
  | case2 c cs kind n hfirst ih =>
    have hopen : dialect = .cpp → ¬ Rule.IsOpenInclude (c :: cs) := by
      rintro rfl hopen
      have hlexemes := lexemes_openInclude hopen
      rw [pieces_cons hfirst] at hlexemes
      refine hinclude rfl ?_
      rw [hlexemes]
      rfl
    obtain ⟨hline, hle⟩ := firstPiece_line hfirst (hclosed _ List.mem_cons_self) hopen b
    rw [List.cons_append, pieces_cons hline, List.take_append_of_le_length hle,
      List.drop_append_of_le_length hle, List.cons_append]
    refine congrArg (_ :: ·) (ih (fun p hp => hclosed p (List.mem_cons_of_mem _ hp)) ?_)
    intro hdialect hlast
    refine hinclude hdialect ?_
    rw [List.filterMap_cons]
    split
    · exact hlast
    · rw [List.getLast?_cons, hlast]
      rfl

end Pieces

/-! ### Tokens and errors -/

/-- The token where so many bytes more stand before it. -/
def Token.shift (n : Nat) (t : Token) : Token :=
  { t with offset := t.offset + n }

/-- The error where so many bytes more stand before it. -/
def LexError.shift (n : Nat) (e : LexError) : LexError :=
  { e with offset := e.offset + n }

/-- Whether something is left open at the end of its line or of the text. -/
def LexFault.isUnterminated : LexFault → Bool
  | .unknownCharacter _ => false
  | .unterminatedString | .unterminatedCharacter | .unterminatedComment => true

theorem flatMap_text_pieces (dialect : Dialect) (text : List Char) :
    (pieces dialect text).flatMap Piece.text = text := by
  fun_induction pieces dialect text with
  | case1 => rfl
  | case2 c cs kind n hfirst ih =>
    rw [List.flatMap_cons, ih, List.cons_append, List.take_append_drop]

namespace Piece

theorem locate_append (start : Nat) (ps qs : List Piece) : locate start (ps ++ qs) =
    locate start ps ++ locate (start + Text.byteLength (ps.flatMap Piece.text)) qs := by
  induction ps generalizing start with
  | nil => rfl
  | cons p ps ih =>
    rw [List.cons_append, locate, ih, locate, List.flatMap_cons, Text.byteLength_append, Nat.add_assoc]
    rfl

theorem locate_add (n start : Nat) (ps : List Piece) :
    locate (start + n) ps = (locate start ps).map fun (offset, p) => (offset + n, p) := by
  induction ps generalizing start with
  | nil => rfl
  | cons p ps ih =>
    rw [locate, locate, List.map_cons, ← ih, Nat.add_right_comm]

theorem exists_mem_locate {p : Piece} {ps : List Piece} (h : p ∈ ps) (start : Nat) :
    ∃ offset, (offset, p) ∈ locate start ps := by
  induction ps generalizing start with
  | nil => cases h
  | cons q ps ih =>
    rcases List.mem_cons.1 h with rfl | h
    · exact ⟨start, List.mem_cons_self⟩
    · obtain ⟨offset, hmem⟩ := ih h (start + Text.byteLength q.text)
      exact ⟨offset, List.mem_cons_of_mem _ hmem⟩

/-- What pieces give of which each keeps its place is shifted where the pieces are. -/
theorem filterMap_locate_add {α : Type} (f : Nat → Piece → Option α) (g : α → α) {n : Nat}
    (h : ∀ offset p, f (offset + n) p = (f offset p).map g) (start : Nat) (ps : List Piece) :
    (locate (start + n) ps).filterMap (fun (offset, p) => f offset p) =
      ((locate start ps).filterMap fun (offset, p) => f offset p).map g := by
  rw [locate_add, List.filterMap_map, List.map_filterMap]
  exact congrArg (List.filterMap · _) (funext fun x => h x.1 x.2)

theorem lexemes_locate (start : Nat) (ps : List Piece) :
    ((locate start ps).filterMap fun (offset, p) => p.token? offset).map Token.lexeme =
      ps.filterMap Piece.lexeme? := by
  induction ps generalizing start with
  | nil => rfl
  | cons p ps ih =>
    rw [filterMap_locate_cons fun offset p => p.token? offset, List.map_append, ih, List.filterMap_cons]
    unfold token? lexeme?
    cases p.tokenKind? <;> rfl

/-- What is left open is reported as unterminated. -/
theorem exists_fault_of_isOpen {p : Piece} (h : p.kind.isOpen = true) :
    ∃ fault, p.fault? = some fault ∧ fault.isUnterminated = true := by
  obtain ⟨kind, text⟩ := p
  cases kind with
  | comment closed =>
    obtain rfl : closed = false := by simpa [PieceKind.isOpen] using h
    exact ⟨_, rfl, rfl⟩
  | quoted kind closed =>
    obtain rfl : closed = false := by simpa [PieceKind.isOpen] using h
    cases kind <;> exact ⟨_, rfl, rfl⟩
  | blank | lexeme | unknown => cases h

end Piece

section Tokens

variable {dialect : Dialect} {a : List Char}

theorem isOpen_eq_false_of_tokenize
    (h : ∀ e ∈ (tokenize dialect a).errors, e.fault.isUnterminated = false) :
    ∀ p ∈ pieces dialect a, p.kind.isOpen = false := by
  intro p hp
  rw [Bool.eq_false_iff]
  intro hopen
  obtain ⟨fault, hfault, hunterminated⟩ := Piece.exists_fault_of_isOpen hopen
  obtain ⟨offset, hmem⟩ := Piece.exists_mem_locate hp 0
  have herror : (⟨fault, offset⟩ : LexError) ∈ (tokenize dialect a).errors :=
    List.mem_filterMap.2 ⟨(offset, p), hmem, by simp [Piece.error?, hfault]⟩
  exact Bool.false_ne_true ((h _ herror).symm.trans hunterminated)

/-- What the pieces of both parts give, those of the second part with the shift. -/
theorem filterMap_locate_line {α : Type} {f : Nat → Piece → Option α} {g : α → α} {b : List Char}
    (hpieces : pieces dialect (a ++ '\n' :: b) =
      pieces dialect a ++ ⟨.blank, ['\n']⟩ :: pieces dialect b)
    (hblank : ∀ offset, f offset ⟨.blank, ['\n']⟩ = none)
    (hshift : ∀ offset p, f (offset + (Text.byteLength a + 1)) p = (f offset p).map g) :
    (Piece.locate 0 (pieces dialect (a ++ '\n' :: b))).filterMap (fun (offset, p) => f offset p) =
      (Piece.locate 0 (pieces dialect a)).filterMap (fun (offset, p) => f offset p) ++
        ((Piece.locate 0 (pieces dialect b)).filterMap fun (offset, p) => f offset p).map g := by
  rw [hpieces, Piece.locate_append, flatMap_text_pieces, List.filterMap_append,
    Piece.filterMap_locate_cons f, hblank, ← Piece.filterMap_locate_add f g hshift, Nat.add_assoc]
  rfl

/-- A text can be cut at a line feed, if nothing before it is left open and, in C++, the last token
before it is no `#include` that still looks for its path. -/
theorem tokenize_lines (b : List Char)
    (hclosed : ∀ e ∈ (tokenize dialect a).errors, e.fault.isUnterminated = false)
    (hinclude : dialect = .cpp →
      ∀ t ∈ (tokenize dialect a).tokens.dropLast.getLast?, t.lexeme ≠ Lexeme.bareInclude) :
    (tokenize dialect (a ++ '\n' :: b)).tokens = (tokenize dialect a).tokens.dropLast ++
      (tokenize dialect b).tokens.map (Token.shift (Text.byteLength a + 1)) ∧
    (tokenize dialect (a ++ '\n' :: b)).errors = (tokenize dialect a).errors ++
      (tokenize dialect b).errors.map (LexError.shift (Text.byteLength a + 1)) := by
  have hlast : dialect = .cpp →
      ((pieces dialect a).filterMap Piece.lexeme?).getLast? ≠ some Lexeme.bareInclude := by
    intro hdialect hbare
    rw [← Piece.lexemes_locate 0, List.getLast?_map] at hbare
    obtain ⟨t, ht, hlexeme⟩ := Option.map_eq_some_iff.1 hbare
    refine hinclude hdialect t ?_ hlexeme
    rw [tokenize, List.dropLast_concat]
    exact ht
  have hpieces := pieces_line (isOpen_eq_false_of_tokenize hclosed) hlast b
  have hbytes : Text.byteLength (a ++ '\n' :: b) = Text.byteLength b + (Text.byteLength a + 1) := by
    rw [Text.byteLength_append, Text.byteLength_cons, show '\n'.utf8Size = 1 from rfl]
    omega
  constructor
  · have htokens := filterMap_locate_line (f := fun offset p => p.token? offset)
      (g := Token.shift (Text.byteLength a + 1)) hpieces (fun _ => rfl) fun offset p => by
        unfold Piece.token?
        cases p.tokenKind? <;> rfl
    rw [tokenize, tokenize, tokenize, List.dropLast_concat, htokens, hbytes, List.map_append,
      List.append_assoc]
    rfl
  · exact filterMap_locate_line (f := fun offset p => p.error? offset) hpieces (fun _ => rfl)
      fun offset p => by
        unfold Piece.error?
        cases p.fault? <;> rfl

/-- The line comment and the path end with the first line here, and the unknown character is reported
where it stands in the whole. -/
theorem tokenize_lines_include :
    let a := "#include <v> // \"".toList
    let b := "x @".toList
    (∀ e ∈ (tokenize .cpp a).errors, e.fault.isUnterminated = false) ∧
    (Dialect.cpp = .cpp →
      ∀ t ∈ (tokenize .cpp a).tokens.dropLast.getLast?, t.lexeme ≠ Lexeme.bareInclude) ∧
    (tokenize .cpp (a ++ '\n' :: b)).tokens = (tokenize .cpp a).tokens.dropLast ++
      (tokenize .cpp b).tokens.map (Token.shift (Text.byteLength a + 1)) ∧
    (tokenize .cpp (a ++ '\n' :: b)).errors = (tokenize .cpp a).errors ++
      (tokenize .cpp b).errors.map (LexError.shift (Text.byteLength a + 1)) := by
  have hclosed : ∀ e ∈ (tokenize .cpp "#include <v> // \"".toList).errors,
      e.fault.isUnterminated = false := by decide +kernel
  have hinclude : Dialect.cpp = .cpp →
      ∀ t ∈ (tokenize .cpp "#include <v> // \"".toList).tokens.dropLast.getLast?,
        t.lexeme ≠ Lexeme.bareInclude := by decide +kernel
  exact ⟨hclosed, hinclude, tokenize_lines "x @".toList hclosed hinclude⟩

end Tokens

end CTree
