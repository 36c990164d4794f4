import CTree.Proofs.Words

/-!
# Nothing is lost or invented when a text is cut

`PieceAt` says what may stand at one place of a text, and `Cut` what the tokens and the errors of a
text are when it is a sequence of such pieces. Neither mentions the functions that do the cutting.
What `tokenize` gives is such a cut, and from the cut alone it follows that tokens have the texts
that stand at their positions, and that they stand in order without meeting each other.
-/

namespace CTree

/-! ### What stands in a text -/

/-- A quote, the kind of the literals that it opens, and what is wrong with one left open. -/
inductive Quote : Char → TokenKind → LexFault → Prop
  | string : Quote '"' .stringLiteral .unterminatedString
  | character : Quote '\'' .charLiteral .unterminatedCharacter

/-- What may stand between two quotes: a backslash takes any character with it. -/
inductive QuotedBody (quote : Char) : List Char → Prop
  | nil : QuotedBody quote []
  | escaped {c cs} : QuotedBody quote cs → QuotedBody quote ('\\' :: c :: cs)
  | plain {c cs} : c ≠ '\\' → c ≠ '\n' → c ≠ quote → QuotedBody quote cs → QuotedBody quote (c :: cs)

/-- A line ends here: by a line feed, or because the text does. -/
def Text.EndsLine (rest : List Char) : Prop :=
  ∀ c ∈ rest.head?, c = '\n'

/-- What stands after the quote of a literal that is left open: its line ends, or the text ends
with a backslash that has nothing to take. -/
def OpenBody (quote : Char) (body rest : List Char) : Prop :=
  QuotedBody quote body ∧ Text.EndsLine rest ∨
    ∃ cs, QuotedBody quote cs ∧ body = cs ++ ['\\'] ∧ rest = []

/-- No blank, comment or quoted literal begins here. -/
def Text.StartsLexeme (text : List Char) : Prop :=
  ∃ c cs, text = c :: cs ∧ Text.isBlank c = false ∧ c ≠ '"' ∧ c ≠ '\'' ∧
    (c = '/' → cs.head? ≠ some '/' ∧ cs.head? ≠ some '*')

/-- `PieceAt dialect w rest kind? fault?` says that `w` is a piece of a text when `rest` comes after
it, of which kind its token is, if it is one, and what is wrong with it, if anything is. -/
inductive PieceAt (dialect : Dialect) :
    List Char → List Char → Option TokenKind → Option LexFault → Prop
  | blank {c rest} : Text.isBlank c = true → PieceAt dialect [c] rest none none
  | lineComment {cs rest} : '\n' ∉ cs → Text.EndsLine rest →
      PieceAt dialect ('/' :: '/' :: cs) rest none none
  | blockComment {cs rest} : ¬ ['*', '/'] <:+: cs →
      PieceAt dialect ('/' :: '*' :: (cs ++ ['*', '/'])) rest none none
  | openComment {cs} : ¬ ['*', '/'] <:+: cs →
      PieceAt dialect ('/' :: '*' :: cs) [] none (some .unterminatedComment)
  | literal {quote kind fault body rest} : Quote quote kind fault → QuotedBody quote body →
      PieceAt dialect (quote :: (body ++ [quote])) rest (some kind) none
  | openLiteral {quote kind fault body rest} : Quote quote kind fault →
      OpenBody quote body rest → PieceAt dialect (quote :: body) rest (some kind) (some fault)
  | lexeme {w rest kind n} : Text.StartsLexeme (w ++ rest) →
      firstLexeme (w ++ rest) (Rule.table dialect) = some (kind, n) → w.length = n + 1 →
      PieceAt dialect w rest (some kind) none
  | unknown {c rest} : Text.StartsLexeme (c :: rest) →
      firstLexeme (c :: rest) (Rule.table dialect) = none →
      PieceAt dialect [c] rest none (some (.unknownCharacter c))

/-- `Cut dialect start text tokens errors` says that a text whose first byte has the position
`start` is a sequence of pieces, that `tokens` are the tokens among them and the end of the text,
and that `errors` are their faults, each at the start of its piece. -/
inductive Cut (dialect : Dialect) : Nat → List Char → List Token → List LexError → Prop
  | done {start} : Cut dialect start [] [⟨.eof, "", start⟩] []
  | piece {start w rest kind? fault? tokens errors} : PieceAt dialect w rest kind? fault? →
      Cut dialect (start + Text.byteLength w) rest tokens errors →
      Cut dialect start (w ++ rest)
        ((kind?.map fun kind => ⟨kind, String.ofList w, start⟩).toList ++ tokens)
        ((fault?.map fun fault => ⟨fault, start⟩).toList ++ errors)

/-! ### Readers stay within their text -/

namespace Reader

/-- A reader never counts more characters than there are. -/
def Fits (r : Reader) : Prop :=
  ∀ cs n, r cs = some n → n ≤ cs.length

theorem fits_text (w : List Char) : (text w).Fits := by
  intro cs n h
  unfold text at h
  split at h
  · rename_i hprefix
    cases h
    exact (List.isPrefixOf_iff_prefix.1 hprefix).length_le
  · cases h

theorem fits_one (p : Char → Bool) : (one p).Fits := by
  intro cs n h
  cases cs with
  | nil => cases h
  | cons c cs =>
    by_cases hc : p c = true
    · obtain rfl : 1 = n := by simpa [one, hc] using h
      exact Nat.le_add_left 1 cs.length
    · simp [one, hc] at h

theorem fits_run (p : Char → Bool) : (run p).Fits := by
  intro cs n h
  cases h
  exact (List.takeWhile_sublist p).length_le

theorem fits_run1 (p : Char → Bool) : (run1 p).Fits := by
  intro cs n h
  have hle : (cs.takeWhile p).length ≤ cs.length := (List.takeWhile_sublist p).length_le
  unfold run1 at h
  split at h
  · cases h
  · cases h
    omega

theorem fits_optional {r : Reader} (hr : r.Fits) : (optional r).Fits := by
  intro cs n h
  cases h
  cases hread : r cs with
  | none => exact Nat.zero_le _
  | some m => exact hr cs m hread

theorem fits_wordEnd : wordEnd.Fits := by
  intro cs n h
  have hn : n = 0 := by
    cases cs with
    | nil => exact (Option.some.inj h).symm
    | cons c cs => simpa [wordEnd, eq_comm] using (Option.ite_none_left_eq_some.1 h).2
  omega

theorem fits_sequence {rs : List Reader} (h : ∀ r ∈ rs, r.Fits) : (sequence rs).Fits := by
  induction rs with
  | nil =>
    intro cs n hread
    cases hread
    exact Nat.zero_le _
  | cons r rs ih =>
    intro cs n hread
    obtain ⟨m, hm, hread⟩ := Option.bind_eq_some_iff.1 hread
    obtain ⟨k, hk, hsum⟩ := Option.bind_eq_some_iff.1 hread
    cases hsum
    have hfirst : m ≤ cs.length := h r List.mem_cons_self cs m hm
    have hrest := ih (fun r hr => h r (List.mem_cons_of_mem _ hr)) _ k hk
    rw [List.length_drop] at hrest
    omega

end Reader

namespace Rule

open Reader

theorem fits_name : name.Fits :=
  fits_sequence (by simp [fits_one, fits_run])

theorem fits_spelled (k : TokenKind) : (spelled k).reader.Fits := by
  refine fits_sequence fun r hr => ?_
  rcases List.mem_cons.1 hr with rfl | hr
  · exact fits_text _
  · split at hr
    · rw [List.mem_singleton.1 hr]
      exact fits_wordEnd
    · cases hr

theorem fits_includePath (blank : Char → Bool) (opening closing : Char) :
    (includePath blank opening closing).Fits :=
  fits_sequence (by simp [fits_text, fits_run, fits_one, fits_run1])

theorem fits_directive (k : TokenKind) : (directive k).reader.Fits :=
  fits_sequence (by simp [fits_text, fits_wordEnd])

theorem fits_otherDirective : otherDirective.reader.Fits :=
  fits_sequence (by simp [fits_one, fits_name])

theorem fits_floatMark : floatMark.Fits :=
  fits_optional (fits_one _)

theorem fits_exponent : exponent.Fits :=
  fits_sequence (by simp [fits_one, fits_optional, fits_run1])

/-- The rules for numbers and names, which end both tables. -/
theorem fits_last {rule : Rule} (h : rule ∈ [hexadecimal, octal, real, realWithExponent, decimal,
    identifier]) : rule.reader.Fits := by
  simp only [List.mem_cons, List.not_mem_nil, or_false] at h
  rcases h with rfl | rfl | rfl | rfl | rfl | rfl
  · exact fits_sequence (by simp [fits_one, fits_run1, fits_run])
  · exact fits_sequence (by simp [fits_one, fits_run1, fits_run])
  · exact fits_sequence (by simp [fits_one, fits_run1, fits_floatMark])
  · exact fits_sequence
      (by simp [fits_one, fits_run, fits_run1, fits_optional, fits_exponent, fits_floatMark])
  · exact fits_sequence (by simp [fits_run1, fits_run])
  · exact fits_name

theorem fits_of_mem_table {dialect : Dialect} {rule : Rule} (h : rule ∈ table dialect) :
    rule.reader.Fits := by
  have hincludes (blank : Char → Bool) (h : rule ∈ includes blank) : rule.reader.Fits := by
    simp only [includes, List.mem_cons, List.not_mem_nil, or_false] at h
    rcases h with rfl | rfl <;> exact fits_includePath _ _ _
  have hspelled (ks : List TokenKind) (h : rule ∈ ks.map spelled) : rule.reader.Fits := by
    obtain ⟨k, -, rfl⟩ := List.mem_map.1 h
    exact fits_spelled k
  have hlast {rules : List Rule} (h : rule ∈ rules) (hrules : rules ⊆ [hexadecimal, octal, real,
      realWithExponent, decimal, identifier]) := hrules h
  cases dialect with
  | c =>
    simp only [table, tableC, List.mem_append, or_assoc] at h
    rcases h with h | h | h | h
    · exact hincludes _ h
    · simp only [List.mem_cons, List.not_mem_nil, or_false] at h
      rcases h with rfl | rfl
      · exact fits_directive _
      · exact fits_otherDirective
    · exact hspelled _ h
    · exact fits_last (hlast h (by simp))
  | cpp =>
    simp only [table, tableCpp, List.mem_append, or_assoc] at h
    rcases h with h | h | h | h
    · exact hincludes _ h
    · simp only [List.mem_cons, List.not_mem_nil, or_false] at h
      rcases h with rfl | rfl | rfl | rfl | rfl | rfl
      iterate 5 exact fits_directive _
      exact fits_otherDirective
    · exact hspelled _ h
    · exact fits_last (hlast h (by simp))

/-- The end of a text is no kind that a rule reads. -/
theorem ne_eof_of_mem_table {dialect : Dialect} {rule : Rule} (h : rule ∈ table dialect) :
    rule.kind ≠ .eof := by
  have hall : (table dialect).all (·.kind != .eof) = true := by
    cases dialect <;> decide
  exact bne_iff_ne.1 (List.all_eq_true.1 hall rule h)

end Rule

/-! ### One piece -/

section Tails

variable {quote : Char} {cs : List Char} {n : Nat}

/-- A literal that is closed has a body and its closing quote. -/
theorem quotedTail_closed (h : quotedTail quote cs = (n, true)) :
    ∃ body, QuotedBody quote body ∧ cs.take n = body ++ [quote] := by
  fun_induction quotedTail quote cs generalizing n with
  | case1 => cases h
  | case2 => cases h
  | case3 c cs m closed hrec ih =>
    cases h
    obtain ⟨body, hbody, htake⟩ := ih hrec
    exact ⟨_, .escaped hbody, congrArg ('\\' :: c :: ·) htake⟩
  | case4 => cases h
  | case5 =>
    cases h
    exact ⟨[], .nil, rfl⟩
  | case6 c cs hlast hescape hline hquote m closed hrec ih =>
    cases h
    obtain ⟨body, hbody, htake⟩ := ih hrec
    have hslash : c ≠ '\\' := by
      intro hc
      cases cs with
      | nil => exact hlast hc rfl
      | cons d cs => exact hescape d cs hc rfl
    exact ⟨_, .plain hslash hline hquote hbody, congrArg (c :: ·) htake⟩

/-- What an open literal takes is a body of a literal, up to where its line or the text ends. -/
theorem quotedTail_open (h : quotedTail quote cs = (n, false)) :
    OpenBody quote (cs.take n) (cs.drop n) := by
  fun_induction quotedTail quote cs generalizing n with
  | case1 =>
    cases h
    exact .inl ⟨.nil, by simp [Text.EndsLine]⟩
  | case2 =>
    cases h
    exact .inr ⟨[], .nil, rfl, rfl⟩
  | case3 c cs m closed hrec ih =>
    cases h
    rcases ih hrec with ⟨hbody, hends⟩ | ⟨body, hbody, htake, hdrop⟩
    · exact .inl ⟨.escaped hbody, hends⟩
    · exact .inr ⟨_, .escaped hbody, congrArg ('\\' :: c :: ·) htake, hdrop⟩
  | case4 =>
    cases h
    exact .inl ⟨.nil, by simp [Text.EndsLine]⟩
  | case5 => cases h
  | case6 c cs hlast hescape hline hquote m closed hrec ih =>
    cases h
    have hslash : c ≠ '\\' := by
      intro hc
      cases cs with
      | nil => exact hlast hc rfl
      | cons d cs => exact hescape d cs hc rfl
    rcases ih hrec with ⟨hbody, hends⟩ | ⟨body, hbody, htake, hdrop⟩
    · exact .inl ⟨.plain hslash hline hquote hbody, hends⟩
    · exact .inr ⟨_, .plain hslash hline hquote hbody, congrArg (c :: ·) htake, hdrop⟩

/-- No end of a comment begins at a character that is passed over. -/
theorem not_infix_cons {c : Char} {body : List Char} (hbody : ¬ ['*', '/'] <:+: body)
    (hne : ¬ ['*', '/'] <+: c :: body) : ¬ ['*', '/'] <:+: c :: body := by
  intro h
  rcases List.infix_cons_iff.1 h with h | h
  · exact hne h
  · exact hbody h

/-- A comment that is closed ends at the first end of a comment. -/
theorem commentTail_closed (h : commentTail cs = (n, true)) :
    ∃ body, ¬ ['*', '/'] <:+: body ∧ cs.take n = body ++ ['*', '/'] := by
  fun_induction commentTail cs generalizing n with
  | case1 => cases h
  | case2 cs =>
    cases h
    exact ⟨[], by simp, rfl⟩
  | case3 c cs hne m closed hrec ih =>
    cases h
    obtain ⟨body, hbody, htake⟩ := ih hrec
    refine ⟨c :: body, not_infix_cons hbody ?_, congrArg (c :: ·) htake⟩
    rintro ⟨tail, htail⟩
    obtain ⟨hc, hslash⟩ : '*' = c ∧ '/' :: tail = body := by simpa using htail
    have hcs : cs = cs.take m ++ cs.drop m := (List.take_append_drop m cs).symm
    rw [htake, ← hslash] at hcs
    exact hne _ hc.symm hcs

/-- A comment that is left open takes the rest of the text, where no comment ends. -/
theorem commentTail_open (h : commentTail cs = (n, false)) :
    ¬ ['*', '/'] <:+: cs ∧ n = cs.length := by
  fun_induction commentTail cs generalizing n with
  | case1 =>
    cases h
    simp
  | case2 => cases h
  | case3 c cs hne m closed hrec ih =>
    cases h
    obtain ⟨hbody, hlength⟩ := ih hrec
    refine ⟨not_infix_cons hbody ?_, congrArg (· + 1) hlength⟩
    rintro ⟨tail, htail⟩
    obtain ⟨hc, hslash⟩ : '*' = c ∧ '/' :: tail = cs := by simpa using htail
    exact hne tail hc.symm hslash.symm

end Tails

/-- What a comment of one line takes ends before the line feed. -/
theorem lineTail_spec (cs : List Char) :
    '\n' ∉ cs.take (cs.takeWhile (· != '\n')).length ∧
      Text.EndsLine (cs.drop (cs.takeWhile (· != '\n')).length) := by
  induction cs with
  | nil => simp [Text.EndsLine]
  | cons c cs ih =>
    by_cases hc : c = '\n'
    · subst hc
      simp [Text.EndsLine]
    · have hstep : ((c :: cs).takeWhile (· != '\n')).length =
          (cs.takeWhile (· != '\n')).length + 1 := by
        simp [hc]
      rw [hstep, List.take_succ_cons, List.drop_succ_cons]
      refine ⟨?_, ih.2⟩
      rw [List.mem_cons]
      rintro (rfl | hmem)
      · exact hc rfl
      · exact ih.1 hmem

/-- What a rule reads is as long as it says. -/
theorem length_of_firstLexeme {dialect : Dialect} {c : Char} {cs : List Char} {kind : TokenKind}
    {n : Nat} (h : firstLexeme (c :: cs) (Rule.table dialect) = some (kind, n)) :
    (c :: cs.take n).length = n + 1 := by
  obtain ⟨rule, hmem, -, hread⟩ := Rule.mem_of_firstLexeme h
  have hfits := Rule.fits_of_mem_table hmem _ _ hread
  rw [List.length_cons] at hfits
  rw [List.length_cons, List.length_take, Nat.min_eq_left (Nat.le_of_succ_le_succ hfits)]

/-- A quote and what is taken after it are a literal, closed or left open. -/
theorem PieceAt.ofQuotedTail {dialect : Dialect} {quote : Char} {kind : TokenKind} {fault : LexFault}
    {cs : List Char} {n : Nat} {closed : Bool} (hquote : Quote quote kind fault)
    (h : quotedTail quote cs = (n, closed)) :
    PieceAt dialect (quote :: cs.take n) (cs.drop n)
      (Piece.tokenKind? ⟨.quoted kind closed, quote :: cs.take n⟩)
      (Piece.fault? ⟨.quoted kind closed, quote :: cs.take n⟩) := by
  have hopen (h : quotedTail quote cs = (n, false)) :
      PieceAt dialect (quote :: cs.take n) (cs.drop n) (some kind) (some fault) :=
    .openLiteral hquote (quotedTail_open h)
  have hclosed (h : quotedTail quote cs = (n, true)) :
      PieceAt dialect (quote :: cs.take n) (cs.drop n) (some kind) none := by
    obtain ⟨body, hbody, htake⟩ := quotedTail_closed h
    rw [htake]
    exact .literal hquote hbody
  cases closed with
  | true => cases hquote <;> exact hclosed h
  | false => cases hquote <;> exact hopen h

/-- The opening of a comment and what is taken after it are a comment, closed or left open. -/
theorem PieceAt.ofCommentTail {dialect : Dialect} {cs : List Char} {n : Nat} {closed : Bool}
    (h : commentTail cs = (n, closed)) :
    PieceAt dialect ('/' :: '*' :: cs.take n) (cs.drop n) none
      (Piece.fault? ⟨.comment closed, '/' :: '*' :: cs.take n⟩) := by
  cases closed with
  | true =>
    obtain ⟨body, hbody, htake⟩ := commentTail_closed h
    rw [htake]
    exact .blockComment hbody
  | false =>
    obtain ⟨hbody, rfl⟩ := commentTail_open h
    rw [List.take_length, List.drop_length]
    exact .openComment hbody

/-- What a text starts with is a piece of it. -/
theorem firstPiece_spec {dialect : Dialect} {c : Char} {cs : List Char} {kind : PieceKind} {n : Nat}
    (h : firstPiece dialect c cs = (kind, n)) :
    PieceAt dialect (c :: cs.take n) (cs.drop n) (Piece.tokenKind? ⟨kind, c :: cs.take n⟩)
      (Piece.fault? ⟨kind, c :: cs.take n⟩) := by
  unfold firstPiece at h
  split at h
  · rename_i hblank
    cases h
    exact .blank hblank
  rename_i hblank
  split at h
  · rename_i hline
    cases h
    obtain ⟨rfl, hhead⟩ : c = '/' ∧ cs.head? = some '/' := by simpa using hline
    obtain ⟨cs, rfl⟩ := List.head?_eq_some_iff.1 hhead
    exact .lineComment (lineTail_spec cs).1 (lineTail_spec cs).2
  rename_i hline
  split at h
  · rename_i hblock
    obtain ⟨rfl, hhead⟩ : c = '/' ∧ cs.head? = some '*' := by simpa using hblock
    obtain ⟨cs, rfl⟩ := List.head?_eq_some_iff.1 hhead
    cases h
    exact .ofCommentTail rfl
  rename_i hblock
  split at h
  · rename_i hquote
    subst hquote
    cases h
    exact .ofQuotedTail .string rfl
  rename_i hstring
  split at h
  · rename_i hquote
    subst hquote
    cases h
    exact .ofQuotedTail .character rfl
  rename_i hchar
  -- Only lexemes are left, since no piece of another form begins with these characters.
  have hstarts : Text.StartsLexeme (c :: cs) := by
    refine ⟨c, cs, rfl, by simpa using hblank, hstring, hchar, ?_⟩
    intro hc
    simp only [hc, decide_true, Bool.true_and, beq_iff_eq] at hline hblock
    exact ⟨hline, hblock⟩
  split at h
  · rename_i lexeme m hlexeme
    cases h
    have hsplit : c :: cs.take n ++ cs.drop n = c :: cs := by
      rw [List.cons_append, List.take_append_drop]
    exact .lexeme (hsplit ▸ hstarts) (hsplit ▸ hlexeme) (length_of_firstLexeme hlexeme)
  · rename_i hlexeme
    cases h
    exact .unknown hstarts hlexeme

/-- Where no blank, comment or quoted literal begins, the first piece is what the rules read. -/
theorem firstPiece_of_startsLexeme {dialect : Dialect} {c : Char} {cs : List Char} {kind : TokenKind}
    {n : Nat} (hstarts : Text.StartsLexeme (c :: cs))
    (h : firstLexeme (c :: cs) (Rule.table dialect) = some (kind, n)) :
    firstPiece dialect c cs = (.lexeme kind, n) := by
  obtain ⟨_, _, hcs, hblank, hstring, hchar, hcomment⟩ := hstarts
  cases hcs
  have hmark (x : Char) (hx : c = '/' → cs.head? ≠ some x) :
      ¬ (decide (c = '/') && cs.head? == some x) = true := by
    simpa using hx
  unfold firstPiece
  rw [if_neg (by simp [hblank]), if_neg (hmark '/' fun hc => (hcomment hc).1),
    if_neg (hmark '*' fun hc => (hcomment hc).2), if_neg hstring, if_neg hchar, h]

/-! ### The whole text -/

namespace PieceAt

variable {dialect : Dialect} {w rest : List Char} {kind? : Option TokenKind}
  {fault? : Option LexFault}

theorem ne_nil (h : PieceAt dialect w rest kind? fault?) : w ≠ [] := by
  cases h with
  | lexeme _ _ hlength =>
    rintro rfl
    cases hlength
  | _ => exact List.cons_ne_nil _ _

/-- A piece takes at least one byte. -/
theorem byteLength_pos (h : PieceAt dialect w rest kind? fault?) : 0 < Text.byteLength w := by
  obtain ⟨c, cs, rfl⟩ := List.exists_cons_of_ne_nil h.ne_nil
  have hc : 0 < c.utf8Size := c.utf8Size_pos
  rw [Text.byteLength_cons]
  omega

theorem kind_ne_eof {kind : TokenKind} (h : PieceAt dialect w rest (some kind) fault?) :
    kind ≠ .eof := by
  cases h with
  | literal hquote => cases hquote <;> decide
  | openLiteral hquote => cases hquote <;> decide
  | lexeme _ hlexeme =>
    obtain ⟨rule, hmem, hkind, -⟩ := Rule.mem_of_firstLexeme hlexeme
    exact hkind ▸ Rule.ne_eof_of_mem_table hmem

end PieceAt

namespace Piece

variable {α : Type} (f : Nat → Piece → Option α)

/-- What the first piece gives comes before what the others give. -/
theorem filterMap_locate_cons (start : Nat) (p : Piece) (ps : List Piece) :
    (locate start (p :: ps)).filterMap (fun (offset, p) => f offset p) = (f start p).toList ++
      (locate (start + Text.byteLength p.text) ps).filterMap fun (offset, p) => f offset p := by
  rw [locate, List.filterMap_cons]
  dsimp only
  cases f start p <;> rfl

end Piece

/-- The pieces of a text make up a cut of it. -/
theorem cut_pieces (dialect : Dialect) (start : Nat) (text : List Char) :
    Cut dialect start text
      ((Piece.locate start (pieces dialect text)).filterMap (fun (offset, p) => p.token? offset) ++
        [⟨.eof, "", start + Text.byteLength text⟩])
      ((Piece.locate start (pieces dialect text)).filterMap fun (offset, p) => p.error? offset) := by
  fun_induction pieces dialect text generalizing start with
  | case1 => exact .done
  | case2 c cs kind n hfirst ih =>
    have hcut := Cut.piece (firstPiece_spec hfirst) (ih (start + Text.byteLength (c :: cs.take n)))
    have hsplit : c :: cs.take n ++ cs.drop n = c :: cs := by
      rw [List.cons_append, List.take_append_drop]
    rw [Nat.add_assoc, ← Text.byteLength_append, hsplit, ← List.append_assoc] at hcut
    rw [Piece.filterMap_locate_cons fun offset p => p.token? offset,
      Piece.filterMap_locate_cons fun offset p => p.error? offset]
    exact hcut

namespace Text

theorem after_append (pre rest : List Char) : after (byteLength pre) (pre ++ rest) = rest := by
  induction pre with
  | nil => cases rest <;> simp [after]
  | cons c pre ih =>
    have hc : 0 < c.utf8Size := c.utf8Size_pos
    rw [List.cons_append, after, byteLength_cons, if_neg (by omega), Nat.add_sub_cancel_left, ih]

theorem before_append (pre rest : List Char) : before (byteLength pre) (pre ++ rest) = pre := by
  induction pre with
  | nil => cases rest <;> simp [before]
  | cons c pre ih =>
    have hc : 0 < c.utf8Size := c.utf8Size_pos
    rw [List.cons_append, before, byteLength_cons, if_neg (by omega), Nat.add_sub_cancel_left, ih]

/-- What stands between two parts of a text is the slice from the end of the one to the start of
the other. -/
theorem slice_append (pre mid post : List Char) :
    slice (byteLength pre) (byteLength pre + byteLength mid) (pre ++ (mid ++ post)) = mid := by
  rw [slice, Nat.add_sub_cancel_left, after_append, before_append]

end Text

/-- A token stands in a text whose first byte has the position `start`. -/
def Token.StandsIn (t : Token) (start : Nat) (text : List Char) : Prop :=
  ∃ pre post, text = pre ++ (t.text.toList ++ post) ∧ t.offset = start + Text.byteLength pre

namespace Cut

variable {dialect : Dialect} {start : Nat} {text : List Char} {tokens : List Token}
  {errors : List LexError}

/-- The end of the text comes last, and every other token stands in the text. -/
theorem tokens_eq (h : Cut dialect start text tokens errors) :
    ∃ ts, tokens = ts ++ [⟨.eof, "", start + Text.byteLength text⟩] ∧
      ∀ t ∈ ts, t.kind ≠ .eof ∧ t.text ≠ "" ∧ t.StandsIn start text := by
  induction h with
  | done => exact ⟨[], rfl, fun t ht => nomatch ht⟩
  | @piece start w rest kind? fault? tokens errors hpiece _ ih =>
    obtain ⟨ts, rfl, hts⟩ := ih
    refine ⟨(kind?.map fun kind => ⟨kind, String.ofList w, start⟩).toList ++ ts, ?_, ?_⟩
    · rw [List.append_assoc, Text.byteLength_append, Nat.add_assoc]
    intro t ht
    rcases List.mem_append.1 ht with ht | ht
    · obtain ⟨kind, rfl, rfl⟩ := Option.map_eq_some_iff.1 (Option.mem_toList.1 ht)
      refine ⟨hpiece.kind_ne_eof, ?_, [], rest, ?_, rfl⟩
      · intro hempty
        exact hpiece.ne_nil (String.ofList_injective hempty)
      · rw [List.nil_append, String.toList_ofList]
    · obtain ⟨hkind, htext, pre, post, hrest, hoffset⟩ := hts t ht
      refine ⟨hkind, htext, w ++ pre, post, ?_, ?_⟩
      · rw [hrest, List.append_assoc]
      · rw [hoffset, Text.byteLength_append, Nat.add_assoc]

/-- No token begins before the text does. -/
theorem le_offset (h : Cut dialect start text tokens errors) : ∀ t ∈ tokens, start ≤ t.offset := by
  induction h with
  | done =>
    intro t ht
    obtain rfl := List.mem_singleton.1 ht
    exact Nat.le_refl _
  | piece hpiece _ ih =>
    intro t ht
    rcases List.mem_append.1 ht with ht | ht
    · obtain ⟨kind, -, rfl⟩ := Option.map_eq_some_iff.1 (Option.mem_toList.1 ht)
      exact Nat.le_refl _
    · exact Nat.le_of_add_right_le (ih t ht)

/-- A token ends before the next one begins, and it takes at least one byte. -/
theorem tokens_pairwise (h : Cut dialect start text tokens errors) :
    tokens.Pairwise fun t u => t.offset < u.offset ∧ t.stop ≤ u.offset := by
  induction h with
  | done => exact List.pairwise_singleton _ _
  | piece hpiece hrest ih =>
    refine List.pairwise_append.2 ⟨?_, ih, ?_⟩
    · cases ‹Option TokenKind› <;> simp
    intro t ht u hu
    obtain ⟨kind, -, rfl⟩ := Option.map_eq_some_iff.1 (Option.mem_toList.1 ht)
    have hpos := hpiece.byteLength_pos
    have hle := hrest.le_offset u hu
    rw [Token.stop, String.toList_ofList]
    exact ⟨Nat.lt_of_lt_of_le (Nat.lt_add_of_pos_right hpos) hle, hle⟩

/-- No error is about a position before the text. -/
theorem le_error_offset (h : Cut dialect start text tokens errors) :
    ∀ e ∈ errors, start ≤ e.offset := by
  induction h with
  | done => exact fun e he => nomatch he
  | piece hpiece _ ih =>
    intro e he
    rcases List.mem_append.1 he with he | he
    · obtain ⟨fault, -, rfl⟩ := Option.map_eq_some_iff.1 (Option.mem_toList.1 he)
      exact Nat.le_refl _
    · exact Nat.le_of_add_right_le (ih e he)

/-- Every token but the last is a piece of the text, at the place that it has, and the errors at
that place are the fault of the piece. -/
theorem exists_pieceAt_fault (h : Cut dialect start text tokens errors) {t : Token}
    (ht : t ∈ tokens) (hend : t.kind ≠ .eof) : ∃ pre w rest fault?, text = pre ++ (w ++ rest) ∧
      t = ⟨t.kind, String.ofList w, start + Text.byteLength pre⟩ ∧
      PieceAt dialect w rest (some t.kind) fault? ∧
      ∀ fault, ⟨fault, t.offset⟩ ∈ errors ↔ fault? = some fault := by
  induction h with
  | done =>
    obtain rfl := List.mem_singleton.1 ht
    exact (hend rfl).elim
  | @piece start w rest kind? fault? tokens errors hpiece hrest ih =>
    have hpos := hpiece.byteLength_pos
    rcases List.mem_append.1 ht with ht | ht
    · obtain ⟨kind, rfl, rfl⟩ := Option.map_eq_some_iff.1 (Option.mem_toList.1 ht)
      refine ⟨[], w, rest, fault?, rfl, rfl, hpiece, fun fault => ?_⟩
      -- The errors of the rest are about later positions.
      have hlater : (⟨fault, start⟩ : LexError) ∉ errors := fun he =>
        absurd (hrest.le_error_offset _ he) (by dsimp only; omega)
      simp [hlater]
    · obtain ⟨pre, v, rest', fault', rfl, heq, hpiece', hfault⟩ := ih ht
      have hoffset := hrest.le_offset t ht
      refine ⟨w ++ pre, v, rest', fault', (List.append_assoc ..).symm, ?_, hpiece', fun fault => ?_⟩
      · rw [Text.byteLength_append, ← Nat.add_assoc]
        exact heq
      · rw [← hfault, List.mem_append, or_iff_right]
        intro he
        obtain ⟨fault, -, he⟩ := Option.map_eq_some_iff.1 (Option.mem_toList.1 he)
        have hstart : start = t.offset := congrArg LexError.offset he
        omega

/-- Every token but the last is a piece of the text, at the place that it has. -/
theorem exists_pieceAt (h : Cut dialect start text tokens errors) {t : Token} (ht : t ∈ tokens)
    (hend : t.kind ≠ .eof) : ∃ pre w rest fault?, text = pre ++ (w ++ rest) ∧
      t = ⟨t.kind, String.ofList w, start + Text.byteLength pre⟩ ∧
      PieceAt dialect w rest (some t.kind) fault? := by
  obtain ⟨pre, w, rest, fault?, htext, heq, hpiece, -⟩ := h.exists_pieceAt_fault ht hend
  exact ⟨pre, w, rest, fault?, htext, heq, hpiece⟩

/-- Errors are in the order of their positions, and no two are about one position. -/
theorem errors_pairwise (h : Cut dialect start text tokens errors) :
    errors.Pairwise fun e f => e.offset < f.offset := by
  induction h with
  | done => exact .nil
  | piece hpiece hrest ih =>
    refine List.pairwise_append.2 ⟨?_, ih, ?_⟩
    · cases ‹Option LexFault› <;> simp
    intro e he f hf
    obtain ⟨fault, -, rfl⟩ := Option.map_eq_some_iff.1 (Option.mem_toList.1 he)
    exact Nat.lt_of_lt_of_le (Nat.lt_add_of_pos_right hpiece.byteLength_pos)
      (hrest.le_error_offset f hf)

end Cut

theorem Token.StandsIn.eq_slice {t : Token} {text : List Char} (h : t.StandsIn 0 text) :
    t.text.toList = Text.slice t.offset t.stop text := by
  obtain ⟨pre, post, rfl, hoffset⟩ := h
  rw [Nat.zero_add] at hoffset
  rw [Token.stop, hoffset, Text.slice_append]

theorem cut_tokenize (dialect : Dialect) (text : List Char) :
    Cut dialect 0 text (tokenize dialect text).tokens (tokenize dialect text).errors := by
  have hcut := cut_pieces dialect 0 text
  rwa [Nat.zero_add] at hcut

/-- Cutting a text loses nothing and invents nothing. The text is a sequence of tokens, blanks,
comments and unknown characters, and the errors are the faults of these pieces. The tokens are the
slices of the text at their positions, in order and apart from each other, and the one end of the
text comes last. -/
theorem tokenize_lossless (dialect : Dialect) (text : List Char) :
    Cut dialect 0 text (tokenize dialect text).tokens (tokenize dialect text).errors ∧
    (∃ ts, (tokenize dialect text).tokens = ts ++ [⟨.eof, "", Text.byteLength text⟩] ∧
      ∀ t ∈ ts, t.kind ≠ .eof ∧ t.text ≠ "" ∧
        t.text.toList = Text.slice t.offset t.stop text) ∧
    (tokenize dialect text).tokens.Pairwise fun t u => t.offset < u.offset ∧ t.stop ≤ u.offset := by
  have hcut := cut_tokenize dialect text
  obtain ⟨ts, htokens, hts⟩ := hcut.tokens_eq
  refine ⟨hcut, ⟨ts, ?_, ?_⟩, hcut.tokens_pairwise⟩
  · rw [htokens, Nat.zero_add]
  · intro t ht
    obtain ⟨hkind, htext, hstands⟩ := hts t ht
    exact ⟨hkind, htext, hstands.eq_slice⟩

end CTree
