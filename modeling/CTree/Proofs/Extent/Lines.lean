import CTree.Ast.Label
import CTree.Parse.Statement
import CTree.Proofs.Documents.Number
import CTree.Proofs.Yields

/-!
# Texts of one line

The texts of a tree are put together from those of tokens. If no token takes more than one line, and no
directive more than the line that it begins in, then no text does.
-/

namespace CTree

/-- No token takes more than one line, and what belongs to a directive without a path stands in one line. -/
structure Source.Lined (source : Source) : Prop where
  token (i : Nat) : '\n' ∉ (source.stream.get i).text.toList
  directive (i n : Nat) (hkind : (source.stream.get i).kind.isDirective = true)
    (hinclude : (source.stream.get i).kind ≠ .includeDirective)
    (hline : ∀ k < n, (source.stream.get (i + 1 + k)).kind ≠ .eof ∧
      (source.stream.get (i + 1 + k)).offset < Text.logicalEnd source.text (source.stream.get i).offset) :
    '\n' ∉ (source.exactText (i + 1) (i + 1 + n)).toList

/-- A text that takes one line if the tokens do. -/
def Source.InLine (source : Source) (text : String) : Prop :=
  source.Lined → '\n' ∉ text.toList

namespace Source.InLine

variable {source : Source} {a b : String} {texts : List String}

/-! ### Texts put together -/

theorem const (h : '\n' ∉ a.toList) : source.InLine a :=
  fun _ => h

theorem empty : source.InLine "" :=
  const List.not_mem_nil

theorem append (ha : source.InLine a) (hb : source.InLine b) : source.InLine (a ++ b) := by
  intro hlined
  rw [String.toList_append, List.mem_append]
  exact fun h => h.elim (ha hlined) (hb hlined)

/-- A part of a text takes one line if the text does. -/
theorem part {cs : List Char} (ha : source.InLine a) (h : cs ⊆ a.toList) :
    source.InLine (String.ofList cs) := by
  intro hlined hmem
  rw [String.toList_ofList] at hmem
  exact ha hlined (h hmem)

theorem intercalate (ha : source.InLine a) (h : ∀ text ∈ texts, source.InLine text) :
    source.InLine (String.intercalate a texts) := by
  intro hlined
  rw [String.toList_intercalate]
  induction texts with
  | nil => exact List.not_mem_nil
  | cons text texts ih =>
    obtain ⟨htext, htexts⟩ := List.forall_mem_cons.1 h
    cases texts with
    | nil => simpa using htext hlined
    | cons next texts =>
      rw [List.map_cons, List.map_cons, List.intercalate_cons_cons, List.mem_append, List.mem_append]
      rintro ((hmem | hmem) | hmem)
      · exact htext hlined hmem
      · exact ha hlined hmem
      · exact ih htexts hmem

theorem words (h : ∀ text ∈ texts, source.InLine text) : source.InLine (Label.words texts) :=
  intercalate (const (by decide)) h

theorem ofMarks (h : ∀ c ∈ a.toList, Numeral.isMark c = true) : source.InLine a :=
  const fun hmem => absurd (h _ hmem) (by decide)

theorem int (n : Int) : source.InLine (toString n) :=
  ofMarks (Numeral.marks_toString n)

theorem nat (n : Nat) : source.InLine (toString n) :=
  int (n : Int)

/-- The text of a double in an outline has no exponent, but digits, a point and a sign. -/
theorem real (x : Binary64) : source.InLine x.outlineText := by
  have hdigits (n : Nat) : ∀ c ∈ (toString n).toList, Numeral.isMark c = true :=
    Numeral.marks_toString (n : Int)
  have hzeros (n : Nat) : source.InLine (Layout.zeros n) :=
    ofMarks fun c hc => by
      rw [Layout.zeros, String.toList_ofList] at hc
      rw [(List.mem_replicate.1 hc).2]
      rfl
  have hplain (n : Nat) (point : Int) : source.InLine (Layout.outline.plain (toString n).toList point) := by
    have hpart {cs : List Char} (h : cs ⊆ (toString n).toList) : source.InLine (String.ofList cs) :=
      part (ofMarks (hdigits n)) h
    unfold Layout.plain
    split
    · exact ((const (by decide)).append (hzeros _)).append (hpart (List.Subset.refl _))
    · split
      · exact ((hpart (List.Subset.refl _)).append (hzeros _)).append empty
      · exact ((hpart (List.take_subset _ _)).append (const (by decide))).append (hpart (List.drop_subset _ _))
  unfold Binary64.outlineText
  split
  · unfold Layout.write
    refine append ?_ ?_
    · split <;> exact const (by decide)
    · split
      · exact (const (by decide)).append empty
      · exact hplain _ _
  · split
    · split <;> exact const (by decide)
    · exact const (by decide)

theorem mem_of_mem_trimRight {c : Char} {cs : List Char} (h : c ∈ Text.trimRight cs) : c ∈ cs :=
  List.mem_reverse.1 ((List.dropWhile_sublist _).mem (List.mem_reverse.1 h))

theorem mem_of_mem_trim {c : Char} {cs : List Char} (h : c ∈ Text.trim cs) : c ∈ cs :=
  (List.dropWhile_sublist _).mem (mem_of_mem_trimRight h)

theorem trimEnd (h : source.InLine a) : source.InLine (Label.trimEnd a) :=
  part h fun _ => mem_of_mem_trimRight

theorem base (h : source.InLine a) : source.InLine (TypeText.base a) :=
  part h fun _ hc => List.mem_reverse.1 ((List.dropWhile_sublist _).mem (List.mem_reverse.1 hc))

theorem plain (h : source.InLine a) : source.InLine (TypeText.plain a) :=
  part h fun _ hc => (List.takeWhile_sublist _).mem (mem_of_mem_trim hc)

theorem ofDefinition (ha : source.InLine a) (hb : source.InLine b) :
    source.InLine (TypeText.ofDefinition a b) := by
  refine (ha.append (const (by decide))).append ?_
  split
  · exact const (by decide)
  · exact hb

theorem mem_of_mem_body {c : Char} {cs : List Char} (h : c ∈ Literal.body cs) : c ∈ cs := by
  unfold Literal.body at h
  split at h
  · exact h
  · split at h
    · exact List.mem_cons_of_mem _ ((List.dropLast_sublist _).mem h)
    · exact List.mem_cons_of_mem _ h

/-- What stands between the quotes of a literal. -/
theorem body (h : source.InLine a) : source.InLine (String.ofList (Literal.body a.toList)) :=
  part h fun _ => mem_of_mem_body

theorem includedPath (h : source.InLine a) : source.InLine (CTree.includedPath a) := by
  refine part h fun c hc => ?_
  have hpath : c ∈ Text.trim (a.toList.drop "#include".length) := by
    split at hc
    · rename_i hpath _
      rw [hpath]
      exact List.mem_cons_of_mem _ ((List.dropLast_sublist _).mem hc)
    · exact mem_of_mem_body hc
  exact List.mem_of_mem_drop (mem_of_mem_trim hpath)

/-! ### Closed vocabularies -/

theorem ofUnary (op : UnaryOp) : source.InLine op.symbol :=
  const (by cases op <;> decide)

theorem ofBinary (op : BinaryOp) : source.InLine op.symbol :=
  const (by cases op <;> decide)

theorem ofFixity (fixity : Fixity) : source.InLine fixity.word :=
  const (by cases fixity <;> decide)

theorem ofCast (cast : CastKind) : source.InLine cast.word :=
  const (by cases cast <;> decide)

theorem ofAccess (access : Access) : source.InLine access.word :=
  const (by cases access <;> decide)

theorem ofKey (key : ClassKey) : source.InLine key.word :=
  const (by cases key <;> decide)

/-! ### Texts of tokens -/

theorem token (source : Source) (i : Nat) : source.InLine (source.stream.get i).text :=
  fun hlined => hlined.token i

theorem join {ts : List Token} (h : ∀ t ∈ ts, source.InLine t.text) : source.InLine (Token.join ts) := by
  have hafter (left : TokenKind) (ts : List Token) (h : ∀ t ∈ ts, source.InLine t.text) :
      source.InLine (Token.joinAfter left ts) := by
    induction ts generalizing left with
    | nil => exact empty
    | cons t ts ih =>
      obtain ⟨ht, hts⟩ := List.forall_mem_cons.1 h
      refine (append ?_ ht).append (ih t.kind hts)
      split <;> exact const (by decide)
  cases ts with
  | nil => exact empty
  | cons t ts =>
    obtain ⟨ht, hts⟩ := List.forall_mem_cons.1 h
    exact ht.append (hafter t.kind ts hts)

theorem between (source : Source) (start stop : Nat) :
    source.InLine (Token.join (source.stream.between start stop)) := by
  refine join fun t ht => ?_
  rw [TokenStream.between, Array.toList_extract] at ht
  obtain ⟨i, hi, rfl⟩ := List.mem_iff_getElem.1 (List.mem_of_mem_drop (List.mem_of_mem_take ht))
  have hget : source.stream.body.toList[i] = source.stream.get i := by
    rw [TokenStream.get_of_lt _ hi, Array.getElem_toList]
  rw [hget]
  exact token source i

end Source.InLine

end CTree
