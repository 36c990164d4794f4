import CTree.Proofs.Diagnostics
import CTree.Proofs.Rereading.Again
import CTree.Proofs.TypeNames.Start
import Mathlib.Data.List.DropRight

/-!
# What belongs to a directive

A directive owns the rest of its logical line, that is, of its line and of each line that a backslash joins to
it. Lines are found in the text, and the tokens that belong to the directive are found by their positions:
`run_directive_logicalLine` says that the two agree, and that the value of the directive is the text from the
first of these tokens to the end of the last one.
-/

namespace CTree

/-! ### Logical lines -/

namespace Text

/-- A line that goes on in the next one: without the carriage returns at its end, it ends in a backslash. -/
def GoesOn (line : List Char) : Prop :=
  (line.rdropWhile (· == '\r')).getLast? = some '\\'

/-- At a position of a text stands the line feed of a line that does not go on. -/
def EndsLogicalLine (text : List Char) (position : Nat) : Prop :=
  ∃ pre line post, text = pre ++ (line ++ '\n' :: post) ∧ (∀ c ∈ pre.getLast?, c = '\n') ∧
    '\n' ∉ line ∧ ¬ GoesOn line ∧ position = byteLength (pre ++ line)

/-- Where the logical line of the position `start` ends: at the first line feed from there on of a line that
does not go on, or at the end of the text if there is none. -/
inductive LogicalEnd (text : List Char) (start : Nat) : Nat → Prop
  | lineFeed {stop : Nat} (hle : start ≤ stop) (hends : EndsLogicalLine text stop)
      (first : ∀ p, start ≤ p → p < stop → ¬ EndsLogicalLine text p) : LogicalEnd text start stop
  | text (none : ∀ p, start ≤ p → ¬ EndsLogicalLine text p) : LogicalEnd text start (byteLength text)

variable {text pre rest line : List Char} {c : Char} {start stop : Nat}

theorem goesOn_concat : GoesOn (line ++ [c]) ↔ if c = '\r' then GoesOn line else c = '\\' := by
  unfold GoesOn
  rw [List.rdropWhile_concat]
  by_cases hc : c = '\r'
  · simp [hc]
  · simp [hc]

/-- Whether a line goes on does not depend on the lines before it. -/
theorem goesOn_append (hpre : ∀ c ∈ pre.getLast?, c = '\n') : GoesOn (pre ++ line) ↔ GoesOn line := by
  induction line using List.reverseRecOn with
  | nil =>
    have hnil : ¬ GoesOn [] := by simp [GoesOn]
    rcases List.eq_nil_or_concat pre with rfl | ⟨pre, c, rfl⟩
    · rfl
    · obtain rfl : c = '\n' := hpre c (by simp)
      rw [List.append_nil, List.concat_eq_append, goesOn_concat]
      simp [hnil]
  | append_singleton line c ih => rw [← List.append_assoc, goesOn_concat, goesOn_concat, ih]

theorem LogicalEnd.le_byteLength (h : LogicalEnd text start stop) : stop ≤ byteLength text := by
  cases h with
  | lineFeed _ hends =>
    obtain ⟨pre, line, post, rfl, -, -, -, rfl⟩ := hends
    simp only [byteLength_append]
    omega
  | text => exact Nat.le_refl _

/-- Every text is whole lines and a last line. -/
theorem exists_lastLine (text : List Char) : ∃ pre line, text = pre ++ line ∧
    (∀ c ∈ pre.getLast?, c = '\n') ∧ '\n' ∉ line := by
  induction text using List.reverseRecOn with
  | nil => exact ⟨[], [], rfl, by simp, by simp⟩
  | append_singleton text c ih =>
    by_cases hc : c = '\n'
    · exact ⟨text ++ [c], [], (List.append_nil _).symm, by simp [hc], by simp⟩
    · obtain ⟨pre, line, rfl, hpre, hline⟩ := ih
      exact ⟨pre, line ++ [c], List.append_assoc .., hpre, by simp [hline, Ne.symm hc]⟩

/-- Of two ways to part a text at a character, one comes first, or they are the same. -/
theorem part_cases {a b cs : List Char} {x : Char} (h : a ++ x :: b = pre ++ c :: cs)
    (hle : byteLength pre ≤ byteLength a) : a = pre ∧ x = c ∨ ∃ mid, a = pre ++ c :: mid := by
  rcases List.append_eq_append_iff.1 h with ⟨mid, rfl, hrest⟩ | ⟨mid, rfl, hrest⟩
  · cases mid with
    | nil =>
      rw [List.nil_append] at hrest
      exact .inl ⟨(List.append_nil a).symm, (List.cons.inj hrest).1⟩
    | cons y mid =>
      have hy := y.utf8Size_pos
      rw [byteLength_append, byteLength_cons] at hle
      omega
  · cases mid with
    | nil => exact .inl ⟨List.append_nil pre, (List.cons.inj hrest).1.symm⟩
    | cons y mid => exact .inr ⟨mid, by rw [(List.cons.inj hrest).1]⟩

/-- At a character of a text a logical line ends, or else none does before the next character. -/
theorem endsLogicalLine_cases {cs : List Char} {p : Nat} (hle : byteLength pre ≤ p)
    (h : EndsLogicalLine (pre ++ c :: cs) p) :
    p = byteLength pre ∧ c = '\n' ∧ ¬ GoesOn pre ∨ byteLength (pre ++ [c]) ≤ p := by
  obtain ⟨before, line, post, htext, hbefore, hline, hgoes, rfl⟩ := h
  rw [← List.append_assoc] at htext
  rcases part_cases htext.symm hle with ⟨rfl, rfl⟩ | ⟨mid, hmid⟩
  · exact .inl ⟨rfl, rfl, fun h => hgoes ((goesOn_append hbefore).1 h)⟩
  · right
    rw [hmid]
    simp only [byteLength_append, byteLength_cons, byteLength_nil]
    omega

theorem endsLogicalLine_here (hgoes : ¬ GoesOn pre) (post : List Char) :
    EndsLogicalLine (pre ++ '\n' :: post) (byteLength pre) := by
  obtain ⟨before, line, rfl, hbefore, hline⟩ := exists_lastLine pre
  exact ⟨before, line, post, List.append_assoc .., hbefore, hline,
    fun h => hgoes ((goesOn_append hbefore).2 h), rfl⟩

/-- If no logical line ends at a character, the logical line of that character is that of the next one. -/
theorem LogicalEnd.of_next {cs : List Char} (hc : c = '\n' → GoesOn pre)
    (h : LogicalEnd (pre ++ c :: cs) (byteLength (pre ++ [c])) stop) :
    LogicalEnd (pre ++ c :: cs) (byteLength pre) stop := by
  have hnext {p : Nat} (hp : byteLength pre ≤ p) (hends : EndsLogicalLine (pre ++ c :: cs) p) :
      byteLength (pre ++ [c]) ≤ p := by
    rcases endsLogicalLine_cases hp hends with ⟨-, hfeed, hgoes⟩ | hle
    · exact (hgoes (hc hfeed)).elim
    · exact hle
  cases h with
  | lineFeed hle hends first =>
    refine .lineFeed ?_ hends fun p hp hlt hp' => first p (hnext hp hp') hlt hp'
    rw [byteLength_append] at hle
    omega
  | text none => exact .text fun p hp hp' => none p (hnext hp hp') hp'

/-- The scan for the end of a logical line finds it, if it knows whether the line so far goes on. -/
theorem logicalEnd_logicalEndFrom {escaped : Bool} (hescaped : escaped = true ↔ GoesOn pre)
    (rest : List Char) : LogicalEnd (pre ++ rest) (byteLength pre)
      (logicalEndFrom (byteLength pre) escaped rest) := by
  induction rest generalizing pre escaped with
  | nil =>
    have hnone : ∀ p, byteLength pre ≤ p → ¬ EndsLogicalLine pre p := by
      rintro p hp ⟨before, line, post, htext, -, -, -, rfl⟩
      have hlength := congrArg byteLength htext
      have hfeed := Char.utf8Size_pos '\n'
      simp only [byteLength_append, byteLength_cons] at hlength hp
      omega
    rw [List.append_nil]
    exact .text hnone
  | cons c cs ih =>
    rw [logicalEndFrom]
    by_cases hends : c = '\n' ∧ escaped = false
    · obtain ⟨rfl, rfl⟩ := hends
      have hgoes : ¬ GoesOn pre := fun h => Bool.false_ne_true (hescaped.2 h)
      rw [if_pos (by rfl)]
      exact .lineFeed (Nat.le_refl _) (endsLogicalLine_here hgoes cs) fun p hp hlt =>
        (Nat.not_le_of_lt hlt hp).elim
    · have hescaped' : (if c = '\r' then escaped else c == '\\') = true ↔ GoesOn (pre ++ [c]) := by
        rw [goesOn_concat]
        split
        · exact hescaped
        · exact beq_iff_eq
      have hrest := ih hescaped'
      rw [byteLength_append, byteLength_cons, byteLength_nil, Nat.add_zero, List.append_assoc,
        List.singleton_append] at hrest
      rw [if_neg (by simpa using hends)]
      refine .of_next (fun hfeed => hescaped.1 ?_) ?_
      · simpa using fun h => hends ⟨hfeed, h⟩
      · rwa [byteLength_append, byteLength_cons, byteLength_nil, Nat.add_zero]

/-- The logical line of a character that neither ends a line nor stands at the end of one. -/
theorem logicalEnd_spec {cs : List Char} (hfeed : c ≠ '\n') (hreturn : c ≠ '\r') (hback : c ≠ '\\') :
    LogicalEnd (pre ++ c :: cs) (byteLength pre) (logicalEnd (pre ++ c :: cs) (byteLength pre)) := by
  have hgoes : ¬ GoesOn (pre ++ [c]) := by
    rw [goesOn_concat, if_neg hreturn]
    exact hback
  have hescaped : false = true ↔ GoesOn (pre ++ [c]) := iff_of_false Bool.false_ne_true hgoes
  have hend := logicalEnd_logicalEndFrom hescaped cs
  rw [List.append_assoc, List.singleton_append] at hend
  have hafter : after (byteLength pre) (pre ++ c :: cs) = c :: cs := after_append pre (c :: cs)
  rw [logicalEnd, hafter, logicalEndFrom, if_neg (by simp [hfeed]), if_neg hreturn,
    beq_false_of_ne hback]
  rw [byteLength_append, byteLength_cons, byteLength_nil, Nat.add_zero] at hend
  refine .of_next (fun h => (hfeed h).elim) ?_
  rwa [byteLength_append, byteLength_cons, byteLength_nil, Nat.add_zero]

/-- The backslash joins two lines, whatever carriage returns come after it. -/
example : logicalEnd "#define A(x) \\\r\n  x + 1\nint y;".toList 0 = 23 := by decide

end Text

/-! ### Tokens of a text -/

namespace Text

/-- What goes up to a position ends no later than what goes up to a later position. -/
theorem exists_eq_append {a b c d : List Char} (h : a ++ b = c ++ d)
    (hle : byteLength a ≤ byteLength c) : ∃ mid, c = a ++ mid ∧ b = mid ++ d := by
  rcases List.append_eq_append_iff.1 h with ⟨mid, rfl, rfl⟩ | ⟨mid, rfl, rfl⟩
  · exact ⟨mid, rfl, rfl⟩
  · obtain rfl : mid = [] := by
      by_contra hmid
      obtain ⟨x, mid, rfl⟩ := List.exists_cons_of_ne_nil hmid
      have hx := x.utf8Size_pos
      rw [byteLength_append, byteLength_cons] at hle
      omega
    exact ⟨[], by simp, rfl⟩

end Text

/-- `source.Spans i n value` says that `value` is the text of the source from the start of the first one of the
`n` tokens from the index `i` on to the end of the last one, and empty if there are none. -/
inductive Source.Spans (source : Source) (i : Nat) : Nat → List Char → Prop
  | none : Spans source i 0 []
  | tokens {n : Nat} {pre value post : List Char} (htext : source.text = pre ++ (value ++ post))
      (first : Text.byteLength pre = (source.stream.get i).offset)
      (last : Text.byteLength (pre ++ value) = (source.stream.get (i + n)).stop) :
      Spans source i (n + 1) value

/-- The last token of a run of tokens. -/
theorem TokenStream.getLast?_between (ts : TokenStream) {i n : Nat} (h : i + n < ts.body.size) :
    (ts.between i (i + n + 1)).getLast? = some (ts.get (i + n)) := by
  have hlt : i + n < ts.body.toList.length := h
  rw [between, Array.toList_extract, List.extract_eq_take_drop, ts.get_of_lt h,
    List.getLast?_eq_getElem?, List.length_take, List.length_drop,
    show min (i + n + 1 - i) (ts.body.toList.length - i) - 1 = n by omega,
    List.getElem?_take_of_lt (by omega), List.getElem?_drop, List.getElem?_eq_getElem hlt,
    Array.getElem_toList]

namespace Session

variable {settings : Settings} {text : List Char} {i j : Nat}

/-- The tokens of a session: those that stand in the text, and the end after them. -/
theorem exists_stream_start (settings : Settings) (text : List Char) :
    ∃ ts : List Token, (start settings text).source.stream.body = ts.toArray ∧
      (start settings text).source.stream.last = ⟨.eof, "", Text.byteLength text⟩ ∧
      (tokenize settings.dialect text).tokens = ts ++ [⟨.eof, "", Text.byteLength text⟩] ∧
      ∀ t ∈ ts, t.kind ≠ .eof ∧ t.StandsIn 0 text := by
  obtain ⟨ts, htokens, hts⟩ := (cut_tokenize settings.dialect text).tokens_eq
  rw [Nat.zero_add] at htokens
  refine ⟨ts, ?_, ?_, htokens, fun t ht => ⟨(hts t ht).1, (hts t ht).2.2⟩⟩
  · simp [start, htokens, TokenStream.ofList]
  · simp [start, htokens, TokenStream.ofList]

theorem offset_of_size_le (h : (start settings text).source.stream.body.size ≤ i) :
    ((start settings text).source.stream.get i).offset = Text.byteLength text := by
  obtain ⟨ts, -, hlast, -⟩ := exists_stream_start settings text
  rw [TokenStream.get_of_le _ h, hlast]

/-- Every token but the end stands in the text. -/
theorem standsIn_get (h : i < (start settings text).source.stream.body.size) :
    ((start settings text).source.stream.get i).kind ≠ .eof ∧
      ((start settings text).source.stream.get i).StandsIn 0 text := by
  obtain ⟨ts, hbody, -, -, hts⟩ := exists_stream_start settings text
  rw [TokenStream.get_of_lt _ h]
  exact hts _ (by simp [hbody])

theorem kind_eq_eof_iff : ((start settings text).source.stream.get i).kind = .eof ↔
    (start settings text).source.stream.body.size ≤ i := by
  refine ⟨fun h => Nat.le_of_not_lt fun hi => (standsIn_get hi).1 h, fun h => ?_⟩
  rw [TokenStream.get_of_le _ h]
  exact TokenStream.last_kind _

/-- A token ends before any later one begins. -/
theorem stop_le_offset (hij : i < j) (hi : i < (start settings text).source.stream.body.size) :
    ((start settings text).source.stream.get i).offset <
        ((start settings text).source.stream.get j).offset ∧
      ((start settings text).source.stream.get i).stop ≤
        ((start settings text).source.stream.get j).offset := by
  obtain ⟨ts, hbody, hlast, htokens, -⟩ := exists_stream_start settings text
  have hpairs := (cut_tokenize settings.dialect text).tokens_pairwise
  rw [htokens, List.pairwise_append] at hpairs
  have hi' : i < ts.length := by simpa [hbody] using hi
  rw [TokenStream.get_of_lt _ hi]
  by_cases hj : j < (start settings text).source.stream.body.size
  · have hj' : j < ts.length := by simpa [hbody] using hj
    rw [TokenStream.get_of_lt _ hj]
    simpa [hbody] using List.pairwise_iff_getElem.1 hpairs.1 i j hi' hj' hij
  · rw [TokenStream.get_of_le _ (Nat.le_of_not_lt hj), hlast]
    simpa [hbody] using hpairs.2.2 ts[i] (List.getElem_mem hi') _ (List.mem_singleton_self _)

/-- Tokens begin in the order in which they come. -/
theorem offset_le_offset (hij : i ≤ j) : ((start settings text).source.stream.get i).offset ≤
    ((start settings text).source.stream.get j).offset := by
  by_cases hi : i < (start settings text).source.stream.body.size
  · rcases Nat.eq_or_lt_of_le hij with rfl | hlt
    · exact Nat.le_refl _
    · exact Nat.le_of_lt (stop_le_offset hlt hi).1
  · rw [offset_of_size_le (Nat.le_of_not_lt hi), offset_of_size_le (by omega)]

/-- The exact text of some tokens goes from the start of the first one to the end of the last one. -/
theorem exactText_start {n : Nat} (h : i + n ≤ (start settings text).source.stream.body.size) :
    ∃ value, (start settings text).source.exactText i (i + n) = String.ofList value ∧
      (start settings text).source.Spans i n value := by
  cases n with
  | zero =>
    have hnone : (start settings text).source.stream.between i (i + 0) = [] := by
      simp [TokenStream.between]
    exact ⟨[], by rw [Source.exactText, hnone]; rfl, .none⟩
  | succ n =>
    obtain ⟨-, pre, rest, hfirst, hoffset⟩ := standsIn_get (Nat.lt_of_le_of_lt (Nat.le_add_right i n) h)
    obtain ⟨-, before, post, hlast, hoffset'⟩ := standsIn_get (i := i + n) h
    have hle : ((start settings text).source.stream.get i).offset ≤
        ((start settings text).source.stream.get (i + n)).offset :=
      offset_le_offset (Nat.le_add_right i n)
    rw [Nat.zero_add] at hoffset hoffset'
    rw [hoffset, hoffset'] at hle
    rw [← List.append_assoc] at hlast
    obtain ⟨value, hvalue, -⟩ := Text.exists_eq_append (hfirst.symm.trans hlast)
      (by rw [Text.byteLength_append]; exact Nat.le_add_right_of_le hle)
    have hstop : Text.byteLength (pre ++ value) =
        ((start settings text).source.stream.get (i + n)).stop := by
      rw [← hvalue, Text.byteLength_append, ← hoffset']
      rfl
    rw [hvalue, List.append_assoc] at hlast
    refine ⟨value, ?_, .tokens hlast hoffset.symm hstop⟩
    rw [← Nat.add_assoc, Source.exactText, TokenStream.getLast?_between _ h]
    show String.ofList (Text.slice _ _ text) = _
    rw [hoffset, ← hstop, Text.byteLength_append]
    conv_lhs => rw [hlast, Text.slice_append]

/-- A directive without a path is a word after its mark. -/
theorem exists_of_directive {t : Token} (ht : (start settings text).source.HasToken t)
    (hdirective : t.kind.isDirective = true) (hinclude : t.kind ≠ .includeDirective) :
    ∃ pre c u rest, text = pre ++ ('#' :: c :: u ++ rest) ∧ t.text.toList = '#' :: c :: u ∧ c ≠ '#' ∧
      t.offset = Text.byteLength pre := by
  have heof : t.kind ≠ .eof := fun h => by
    rw [h] at hdirective
    cases hdirective
  obtain ⟨pre, w, rest, fault?, htext, htoken, hpiece⟩ :=
    (cut_tokenize settings.dialect text).exists_pieceAt (hasToken_start ht) heof
  generalize t.kind = kind at htoken hdirective hinclude hpiece
  subst htoken
  cases hpiece with
  | literal hquote => cases hquote <;> cases hdirective
  | openLiteral hquote => cases hquote <;> cases hdirective
  | lexeme _ hlexeme hlength =>
    obtain ⟨rule, hmem, rfl, hread⟩ := Rule.mem_of_firstLexeme hlexeme
    have hlead : Rule.Lead.ofKind rule.kind = .hash := by rw [Rule.Lead.ofKind, if_pos hdirective]
    rw [← hlength] at hread
    obtain ⟨c, u, rfl, hword, -⟩ :=
      Rule.exists_of_directive (Rule.inTable_of_mem hmem) hlead hinclude hread
    refine ⟨pre, c, u, rest, htext, String.toList_ofList, ?_, Nat.zero_add _⟩
    rintro rfl
    cases hword

end Session

namespace Parse

variable {source : Source} {s : ParseState}

/-- A loop that takes one token at a time, as long as they are of some sort, takes all of that sort that come
next. -/
theorem run_iterate_take {step : Parse (Option Unit)} {c : Token → Bool}
    (hstep : ∀ s, step.run source s =
      if (source.view s).kind 0 ≠ .eof ∧ c ((source.view s).token 0) = true
      then (.ok (some ()), s.after 1) else (.ok none, s)) :
    ∃ n, (iterate (fun _ => step) ()).run source s = (.ok (), s.after n) ∧
      (∀ i < n, (source.view s).kind i ≠ .eof ∧ c ((source.view s).token i) = true) ∧
      ¬ ((source.view s).kind n ≠ .eof ∧ c ((source.view s).token n) = true) := by
  -- What holds of the tokens taken so far is not asked again, so the claim is about those from `k` on.
  have hfor (fuel k : Nat) (hfuel : source.stream.size < s.cursor.position + k + fuel) :
      ∃ n, (iterateFor (fun _ => step) fuel ()).run source (s.after k) = (.ok (), s.after n) ∧
        (∀ i, k ≤ i → i < n → (source.view s).kind i ≠ .eof ∧ c ((source.view s).token i) = true) ∧
        ¬ ((source.view s).kind n ≠ .eof ∧ c ((source.view s).token n) = true) := by
    induction fuel generalizing k with
    | zero =>
      have hend : (source.view s).kind k = .eof := by
        refine (Source.kind_of_le ?_ : (source.view (s.after k)).kind 0 = .eof)
        have hsize : source.stream.size = source.stream.body.size + 1 := rfl
        rw [ParseState.position_after]
        omega
      exact ⟨k, rfl, fun i hle hlt => (Nat.not_lt_of_le hle hlt).elim, fun h => h.1 hend⟩
    | succ fuel ih =>
      by_cases hmore : (source.view s).kind k ≠ .eof ∧ c ((source.view s).token k) = true
      · have htake := (hstep (s.after k)).trans (if_pos hmore)
        rw [ParseState.after_after] at htake
        obtain ⟨n, hrun, htaken, hstop⟩ := ih (k + 1) (by omega)
        refine ⟨n, ?_, fun i hle hlt => ?_, hstop⟩
        · rw [iterateFor, run_bind_ok htake]
          exact hrun
        · rcases Nat.eq_or_lt_of_le hle with rfl | hlt'
          · exact hmore
          · exact htaken i hlt' hlt
      · refine ⟨k, ?_, fun i hle hlt => (Nat.not_lt_of_le hle hlt).elim, hmore⟩
        rw [iterateFor, run_bind_ok ((hstep (s.after k)).trans (if_neg hmore))]
        rfl
  have hremaining : (source.view s).remaining = source.stream.size - s.cursor.position := rfl
  obtain ⟨n, hrun, htaken, hstop⟩ := hfor ((source.view s).remaining + 1) 0 (by omega)
  rw [iterate, run_bind_ok run_view]
  exact ⟨n, hrun, fun i hi => htaken i (Nat.zero_le i) hi, hstop⟩

theorem run_peek : peek.run source s = (.ok ((source.view s).token 0), s) := rfl

/-- The tokens that begin before a position are taken up to the first that does not, or to the end. -/
theorem run_skipUntil (stop : Nat) : ∃ n, (skipUntil stop).run source s = (.ok (), s.after n) ∧
    (∀ i < n, (source.view s).kind i ≠ .eof ∧ ((source.view s).token i).offset < stop) ∧
    ((source.view s).kind n = .eof ∨ stop ≤ ((source.view s).token n).offset) := by
  have hstep (s : ParseState) : (do
      if !(← atEnd) && (← peek).offset < stop then
        skip
        return some ()
      else return none : Parse (Option Unit)).run source s =
        if (source.view s).kind 0 ≠ .eof ∧ decide (((source.view s).token 0).offset < stop) = true
        then (.ok (some ()), s.after 1) else (.ok none, s) := by
    rw [run_bind_ok run_atEnd, run_bind_ok run_peek]
    split
    · rename_i hmore
      have hboth := Bool.and_eq_true_iff.1 hmore
      have heof : (source.view s).kind 0 ≠ .eof := by simpa using hboth.1
      rw [run_bind_ok (run_skip_of_token heof), if_pos ⟨heof, hboth.2⟩]
      rfl
    · rename_i hmore
      exact (if_neg fun h => hmore (by simpa using h)).symm
  obtain ⟨n, hrun, htaken, hstop⟩ := run_iterate_take (c := fun t => t.offset < stop) hstep
  refine ⟨n, hrun, fun i hi => ⟨(htaken i hi).1, of_decide_eq_true (htaken i hi).2⟩, ?_⟩
  by_contra h
  rw [not_or, Nat.not_le] at h
  exact hstop ⟨h.1, decide_eq_true h.2⟩

/-- In a session these are all of the tokens from the current one on that begin before the position. -/
theorem run_skipUntil_start {settings : Settings} {text : List Char} {stop : Nat}
    (hs : s.cursor.position ≤ (Session.start settings text).source.stream.body.size)
    (hstop : stop ≤ Text.byteLength text) :
    ∃ n, (skipUntil stop).run (Session.start settings text).source s = (.ok (), s.after n) ∧
      s.cursor.position + n ≤ (Session.start settings text).source.stream.body.size ∧
      ∀ i ≥ s.cursor.position, i < s.cursor.position + n ↔
        ((Session.start settings text).source.stream.get i).offset < stop := by
  obtain ⟨n, hrun, htaken, hleft⟩ :=
    @run_skipUntil (Session.start settings text).source s stop
  have htaken (i : Nat) (hi : s.cursor.position ≤ i) (hin : i < s.cursor.position + n) :
      i < (Session.start settings text).source.stream.body.size ∧
        ((Session.start settings text).source.stream.get i).offset < stop := by
    obtain ⟨k, rfl⟩ := Nat.exists_eq_add_of_le hi
    have htake := htaken k (by omega)
    exact ⟨Nat.lt_of_not_le fun h => htake.1 (Session.kind_eq_eof_iff.2 h), htake.2⟩
  have hbound : s.cursor.position + n ≤ (Session.start settings text).source.stream.body.size := by
    rcases Nat.eq_zero_or_pos n with rfl | hn
    · exact hs
    · have hlast := (htaken (s.cursor.position + (n - 1)) (by omega) (by omega)).1
      omega
  refine ⟨n, hrun, hbound, fun i hi => ⟨fun hin => (htaken i hi hin).2, fun hbefore => ?_⟩⟩
  -- The token where the loop stops does not begin before the position, and so no later one does.
  have hle : stop ≤
      ((Session.start settings text).source.stream.get (s.cursor.position + n)).offset := by
    rcases hleft with hend | hle
    · have hsize := (Session.kind_eq_eof_iff (i := s.cursor.position + n)).1 hend
      rwa [Session.offset_of_size_le hsize]
    · exact hle
  by_contra hin
  have hmono : ((Session.start settings text).source.stream.get (s.cursor.position + n)).offset ≤
      ((Session.start settings text).source.stream.get i).offset := Session.offset_le_offset (by omega)
  exact Nat.not_lt_of_le (Nat.le_trans hle hmono) hbefore

/-- What a directive without a path gives, and which tokens it takes. -/
theorem run_directive_of_skipUntil {t : Token} {n : Nat} (ht : source.stream.get s.cursor.position = t)
    (hdirective : t.kind.isDirective = true) (hinclude : t.kind ≠ .includeDirective)
    (hskip : (skipUntil (Text.logicalEnd source.text t.offset)).run source (s.after 1) =
      (.ok (), (s.after 1).after n)) :
    directive.run source s = (.ok (.directive (String.ofList (t.text.toList.dropWhile (· == '#')))
      (source.exactText (s.cursor.position + 1) (s.cursor.position + 1 + n))), s.after (1 + n)) := by
  have heof : (source.view s).kind 0 ≠ .eof := by
    intro h
    have hkind : t.kind = .eof := ht ▸ h
    rw [hkind] at hdirective
    cases hdirective
  have hadvance : advance.run source s = (.ok t, s.after 1) := by
    rw [run_advance, Source.advance_of_token heof]
    exact congrArg (fun t => (Except.ok t, s.after 1)) ht
  have hlogical : (logicalEnd t).run source (s.after 1) =
    (.ok (Text.logicalEnd source.text t.offset), s.after 1) := rfl
  have htext : (exactTextSince (s.after 1).cursor.position).run source ((s.after 1).after n) =
      (.ok (source.exactText (s.cursor.position + 1) (s.cursor.position + 1 + n)),
        (s.after 1).after n) := rfl
  unfold directive
  rw [run_bind_ok hadvance, if_neg (by simpa using hinclude), run_bind_ok run_position,
    run_bind_ok hlogical, run_bind_ok hskip, run_bind_ok htext, ParseState.after_after]
  rfl

/-- A directive owns its logical line. Where the parser reads a directive without a path, it takes just those of
the tokens after it that begin before the end of its logical line. Its value is the text of these tokens. -/
theorem run_directive_logicalLine {settings : Settings} {text : List Char} {s : ParseState} {t : Token}
    (ht : (Session.start settings text).source.stream.get s.cursor.position = t)
    (hdirective : t.kind.isDirective = true) (hinclude : t.kind ≠ .includeDirective) :
    ∃ stop n name value, Text.LogicalEnd text t.offset stop ∧ t.text.toList = '#' :: name ∧
      directive.run (Session.start settings text).source s =
        (.ok (.directive (String.ofList name) (String.ofList value)), s.after (1 + n)) ∧
      (∀ i > s.cursor.position, i ≤ s.cursor.position + n ↔
        ((Session.start settings text).source.stream.get i).offset < stop) ∧
      (Session.start settings text).source.Spans (s.cursor.position + 1) n value := by
  obtain ⟨pre, c, u, rest, htext, hword, hc, hoffset⟩ :=
    Session.exists_of_directive ⟨_, ht.symm⟩ hdirective hinclude
  have hend : Text.LogicalEnd text t.offset (Text.logicalEnd text t.offset) := by
    rw [hoffset, htext]
    exact Text.logicalEnd_spec (by decide) (by decide) (by decide)
  have hlt : s.cursor.position < (Session.start settings text).source.stream.body.size := by
    refine Nat.lt_of_not_le fun hle => ?_
    rw [← ht, Session.kind_eq_eof_iff.2 hle] at hdirective
    cases hdirective
  obtain ⟨n, hskip, hbound, htaken⟩ := run_skipUntil_start (s := s.after 1) hlt hend.le_byteLength
  obtain ⟨value, hvalue, hspans⟩ := Session.exactText_start hbound
  have hname : t.text.toList.dropWhile (· == '#') = c :: u := by
    rw [hword]
    simp [hc]
  have hrun := run_directive_of_skipUntil ht hdirective hinclude hskip
  rw [hname] at hrun
  refine ⟨_, n, c :: u, value, hend, hword, hvalue ▸ hrun, fun i hi => ?_, hspans⟩
  exact Iff.trans (by rw [ParseState.position_after]; omega) (htaken i hi)

/-- A macro over two lines, and a declaration after it. -/
theorem run_directive_logicalLine_macro :
    let text := "#define A(x) \\\r\n  x + 1\nint y;".toList
    let source := (Session.start {} text).source
    (source.stream.get 0).kind.isDirective = true ∧ (source.stream.get 0).kind ≠ .includeDirective ∧
      ∃ stop n name value, Text.LogicalEnd text (source.stream.get 0).offset stop ∧
        (source.stream.get 0).text.toList = '#' :: name ∧
        directive.run source {} =
          (.ok (.directive (String.ofList name) (String.ofList value)), ParseState.after {} (1 + n)) ∧
        (∀ i > 0, i ≤ 0 + n ↔ (source.stream.get i).offset < stop) ∧ source.Spans 1 n value := by
  intro text source
  have hdirective : (source.stream.get 0).kind.isDirective = true := by decide +kernel
  have hinclude : (source.stream.get 0).kind ≠ .includeDirective := by decide +kernel
  exact ⟨hdirective, hinclude, run_directive_logicalLine rfl hdirective hinclude⟩

end Parse

end CTree
