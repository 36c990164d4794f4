import CTree.Proofs.Printing.Reading

/-!
# Two sources with the same head

Two sources may be alike up to a brace and differ after it. A parser that never gets past the brace does
the same on both. `Within` says of an index that it is before the brace or at it, and how many
parentheses are open there; `Confined` says that a parser does the same on both sources from where
it starts, and where it ends.
-/

namespace CTree

open Parse

/-! ### Sources -/

/-- Two sources with the same settings and the same tokens up to a brace, at the same places. -/
structure SameHead where
  left : Source
  right : Source
  /-- The index of the brace. -/
  stop : Nat
  settings : right.settings = left.settings
  get : ∀ i ≤ stop, right.stream.get i = left.stream.get i
  place : ∀ i ≤ stop, Text.place right.text (left.stream.get i).offset =
    Text.place left.text (left.stream.get i).offset
  brace : left.kindAt stop = .lbrace

/-- The kinds that stand between the parentheses of a head, and outside of them. -/
def TokenKind.isFlat : TokenKind → Bool
  | .lparen | .rparen | .lbrace | .rbrace | .lbracket | .rbracket | .semicolon | .eof => false
  | _ => true

/-- The number of open parentheses after a token of the kind, if there are so many before it. -/
def TokenKind.nest (k : TokenKind) (d : Nat) : Nat :=
  match k with
  | .lparen => d + 1
  | .rparen => d - 1
  | _ => d

namespace SameHead

variable {w : SameHead} {d i j : Nat}

/-- From the index on the parentheses that are open there and those that follow are closed before the
    brace, and nothing else in brackets and no `;` stands before it. -/
inductive Within (w : SameHead) : Nat → Nat → Prop
  | brace : Within w 0 w.stop
  | opening {d i : Nat} (hk : w.left.kindAt i = .lparen) (hrest : Within w (d + 1) (i + 1)) :
    Within w d i
  | closing {d i : Nat} (hk : w.left.kindAt i = .rparen) (hrest : Within w d (i + 1)) :
    Within w (d + 1) i
  | flat {d i : Nat} (hk : (w.left.kindAt i).isFlat) (hrest : Within w d (i + 1)) : Within w d i

namespace Within

theorem le (h : w.Within d i) : i ≤ w.stop := by
  induction h with
  | brace => exact Nat.le_refl _
  | opening hk hrest ih => exact Nat.le_of_succ_le ih
  | closing hk hrest ih => exact Nat.le_of_succ_le ih
  | flat hk hrest ih => exact Nat.le_of_succ_le ih

theorem kind (h : w.Within d i) : (w.left.kindAt i).isFlat ∨ w.left.kindAt i = .lparen ∨
    w.left.kindAt i = .rparen ∨ w.left.kindAt i = .lbrace := by
  cases h with
  | brace => exact .inr (.inr (.inr w.brace))
  | opening hk hrest => exact .inr (.inl hk)
  | closing hk hrest => exact .inr (.inr (.inl hk))
  | flat hk hrest => exact .inl hk

/-- What has no place in a head is not the kind of the token. -/
theorem kind_ne (h : w.Within d i) {k : TokenKind}
    (hk : k = .rbrace ∨ k = .lbracket ∨ k = .rbracket ∨ k = .semicolon ∨ k = .eof) :
    w.left.kindAt i ≠ k := by
  rintro rfl
  have hkind := h.kind
  rcases hk with hk | hk | hk | hk | hk
  all_goals
    rw [hk] at hkind
    rcases hkind with hkind | hkind | hkind | hkind <;> cases hkind

/-- A token that is not the brace leads on. -/
theorem next (h : w.Within d i) (hk : w.left.kindAt i ≠ .lbrace) :
    w.Within ((w.left.kindAt i).nest d) (i + 1) := by
  cases h with
  | brace => exact (hk w.brace).elim
  | opening hopen hrest => rwa [hopen]
  | closing hclose hrest => rwa [hclose]
  | flat hflat hrest =>
    generalize w.left.kindAt i = k at hflat
    cases k <;> first | exact hrest | cases hflat

theorem lt (h : w.Within d i) (hk : w.left.kindAt i ≠ .lbrace) : i < w.stop :=
  (h.next hk).le

/-- Inside parentheses there is no brace. -/
theorem ne_lbrace (h : w.Within (d + 1) i) : w.left.kindAt i ≠ .lbrace := by
  cases h with
  | opening hk hrest =>
    rw [hk]
    decide
  | closing hk hrest =>
    rw [hk]
    decide
  | flat hk hrest =>
    intro hbrace
    rw [hbrace] at hk
    cases hk

end Within

/-- The index is at least `i`, and `d` parentheses are open there. -/
structure In (w : SameHead) (d i j : Nat) : Prop where
  within : w.Within d j
  le : i ≤ j

/-- A token of the given kind stands there. -/
structure At (w : SameHead) (d i : Nat) (k : TokenKind) (j : Nat) : Prop extends w.In d i j where
  kind : w.left.kindAt j = k

/-- The token stands before the brace or is the brace. -/
def HasToken (w : SameHead) (t : Token) : Prop :=
  ∃ i ≤ w.stop, t = w.left.stream.get i

/-- What is reported of a token of the head is the same for both sources. -/
theorem ofFailure_eq {f : Failure} {t : Token} (ht : w.HasToken t) (hf : f.offset = t.offset) :
    Diagnostic.ofFailure w.right.text f = Diagnostic.ofFailure w.left.text f := by
  obtain ⟨i, hi, rfl⟩ := ht
  unfold Diagnostic.ofFailure
  rw [hf, w.place i hi]

theorem token_eq {s : ParseState} {n : Nat} (h : s.cursor.position + n ≤ w.stop) :
    (w.right.view s).token n = (w.left.view s).token n :=
  w.get _ h

theorem kind_eq {s : ParseState} {n : Nat} (h : s.cursor.position + n ≤ w.stop) :
    (w.right.view s).kind n = (w.left.view s).kind n :=
  congrArg Token.kind (token_eq h)

/-- What is not the brace stands before it. -/
theorem lt_of_kind_ne {s : ParseState} {n : Nat} (h : s.cursor.position + n ≤ w.stop)
    (hk : (w.left.view s).kind n ≠ .lbrace) : s.cursor.position + n < w.stop := by
  refine Nat.lt_of_le_of_ne h fun hstop => hk ?_
  rw [← w.brace, ← hstop]
  rfl

theorem isCpp_eq {s : ParseState} : (w.right.view s).isCpp = (w.left.view s).isCpp := by
  show (w.right.settings.dialect == .cpp) = (w.left.settings.dialect == .cpp)
  rw [w.settings]

/-- Neither source ends before the brace. -/
theorem stop_lt (w : SameHead) :
    w.stop < w.left.stream.body.size ∧ w.stop < w.right.stream.body.size := by
  have hlt {source : Source} (hk : source.kindAt w.stop = .lbrace) :
      w.stop < source.stream.body.size := by
    refine Nat.lt_of_not_le fun hle => ?_
    rw [Source.kindAt, TokenStream.get_of_le _ hle, source.stream.last_kind] at hk
    cases hk
  refine ⟨hlt w.brace, hlt ?_⟩
  rw [Source.kindAt, w.get _ (Nat.le_refl _)]
  exact w.brace

/-- The tokens between two indices of the head are the same. -/
theorem between_eq (start : Nat) (hj : j ≤ w.stop) :
    w.right.stream.between start j = w.left.stream.between start j := by
  obtain ⟨hleft, hright⟩ := w.stop_lt
  have hbody : w.right.stream.body.extract start j = w.left.stream.body.extract start j := by
    refine Array.ext ?_ fun n hn hn' => ?_
    · rw [Array.size_extract, Array.size_extract]
      omega
    · rw [Array.size_extract] at hn hn'
      have hget := w.get (start + n) (by omega)
      rw [TokenStream.get_of_lt _ (by omega), TokenStream.get_of_lt _ (by omega)] at hget
      rw [Array.getElem_extract, Array.getElem_extract]
      exact hget
  exact congrArg Array.toList hbody

end SameHead

end CTree
