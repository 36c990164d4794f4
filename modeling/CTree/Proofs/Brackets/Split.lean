import CTree.Proofs.Brackets.Stack
import CTree.Proofs.Declarators.Joined
import CTree.Proofs.TypeNames.Angles

/-!
# A closing pair, written as one token or as two

Two sources may differ in nothing but a `>>` in a parameter list, which the other one writes as `> >`. An
index of the one source is an index of the other, but for one more token after the pair; and the text of a
run of tokens is the same in both, wherever it starts and ends, if only not at the pair.
-/

namespace CTree

open Lexeme Parse

/-- The lexemes of a stream in order. -/
def TokenStream.lexemes (ts : TokenStream) : List Lexeme :=
  ts.body.toList.map Token.lexeme

/-- Two sources with the same settings and lexemes, but for a `>>` of the left source that the right one
has as two `>`. The pair stands in the parameter list of a template, and closes two angles that were opened
there. No group is longer than the settings allow. -/
structure SplitAngles where
  left : Source
  right : Source
  /-- The lexemes before the `<` of the list. -/
  before : List Lexeme
  /-- The lexemes of the list before the pair. -/
  inside : List Lexeme
  after : List Lexeme
  /-- The brackets that are open before the pair. -/
  pair : Brackets
  settings : right.settings = left.settings
  left_lexemes : left.stream.lexemes = before ++ spelled .lt :: inside ++ spelled .shr :: after
  right_lexemes :
    right.stream.lexemes = before ++ spelled .lt :: inside ++ spelled .gt :: spelled .gt :: after
  brackets : Brackets.after (inside.map Lexeme.kind) = some pair
  closes : pair.ClosesTwo
  ceiling : right.stream.size ≤ right.settings.maxIterations

/-! ### Lexemes and tokens -/

namespace TokenStream

variable {ts : TokenStream} {i : Nat}

theorem length_lexemes (ts : TokenStream) : ts.lexemes.length = ts.body.size := by
  rw [lexemes, List.length_map, Array.length_toList]

theorem getElem?_lexemes (h : i < ts.body.size) : ts.lexemes[i]? = some (ts.get i).lexeme := by
  rw [lexemes, List.getElem?_map, Array.getElem?_toList, Array.getElem?_eq_getElem h, get_of_lt _ h]
  rfl

theorem getElem?_lexemes_eq_none (h : ts.body.size ≤ i) : ts.lexemes[i]? = none :=
  List.getElem?_eq_none (by rwa [length_lexemes])

theorem lexemes_between (ts : TokenStream) (start stop : Nat) :
    (ts.between start stop).map Token.lexeme = (ts.lexemes.drop start).take (stop - start) := by
  rw [between, Array.toList_extract, List.extract_eq_take_drop, List.map_take, List.map_drop]
  rfl

end TokenStream

/-- The kind of a token is that of its lexeme, and there is no lexeme only at the end. -/
theorem Source.kindAt_eq (source : Source) (i : Nat) :
    source.kindAt i = (source.stream.lexemes[i]?.map Lexeme.kind).getD .eof := by
  rcases Nat.lt_or_ge i source.stream.body.size with hi | hi
  · rw [TokenStream.getElem?_lexemes hi]
    rfl
  · rw [TokenStream.getElem?_lexemes_eq_none hi, Source.kindAt, TokenStream.get_of_le _ hi,
      source.stream.last_kind]
    rfl

theorem Source.lt_of_kindAt {source : Source} {i : Nat} (h : source.kindAt i ≠ .eof) :
    i < source.stream.body.size := by
  refine Nat.lt_of_not_le fun hle => h ?_
  rw [Source.kindAt, TokenStream.get_of_le _ hle, source.stream.last_kind]

namespace SplitAngles

variable (w : SplitAngles) {i j : Nat}

/-- The index of the `<` of the list. -/
def opening : Nat :=
  w.before.length

/-- The index of the pair. -/
def place : Nat :=
  w.before.length + 1 + w.inside.length

/-- The index in the right source of what stands at an index of the left one. -/
def shift (i : Nat) : Nat :=
  if i ≤ w.place then i else i + 1

/-- The state in the right source that corresponds to a state in the left one. -/
def shifted (s : ParseState) : ParseState :=
  s.atPosition (w.shift s.cursor.position)

/-- The lexemes before the pair. -/
def front : List Lexeme :=
  w.before ++ spelled .lt :: w.inside

variable {w}

theorem length_front : w.front.length = w.place := by
  rw [front, List.length_append, List.length_cons, place]
  omega

theorem shift_of_le (h : i ≤ w.place) : w.shift i = i :=
  if_pos h

theorem shift_of_lt (h : w.place < i) : w.shift i = i + 1 :=
  if_neg (Nat.not_le.2 h)

theorem shift_succ (h : i ≠ w.place) : w.shift (i + 1) = w.shift i + 1 := by
  unfold shift
  split <;> split <;> omega

theorem getElem?_shift (h : i ≠ w.place) :
    w.right.stream.lexemes[w.shift i]? = w.left.stream.lexemes[i]? := by
  rw [w.left_lexemes, w.right_lexemes]
  show (w.front ++ _)[_]? = (w.front ++ _)[_]?
  rcases Nat.lt_or_gt_of_ne h with hlt | hgt
  · rw [shift_of_le (Nat.le_of_lt hlt), List.getElem?_append_left (by rwa [length_front]),
      List.getElem?_append_left (by rwa [length_front])]
  · rw [shift_of_lt hgt, List.getElem?_append_right (by rw [length_front]; omega),
      List.getElem?_append_right (by rw [length_front]; omega), length_front]
    obtain ⟨n, rfl⟩ : ∃ n, i = w.place + 1 + n := Nat.exists_eq_add_of_le hgt
    rw [show w.place + 1 + n + 1 - w.place = n + 2 by omega,
      show w.place + 1 + n - w.place = n + 1 by omega]
    rfl

/-- Outside of the pair the kinds are the same. -/
theorem kindAt_shift (h : i ≠ w.place) : w.right.kindAt (w.shift i) = w.left.kindAt i := by
  rw [Source.kindAt_eq, Source.kindAt_eq, getElem?_shift h]

theorem kindAt_opening : w.left.kindAt w.opening = .lt := by
  rw [Source.kindAt_eq, w.left_lexemes, List.append_assoc, opening,
    List.getElem?_append_right (Nat.le_refl _), Nat.sub_self]
  rfl

theorem kindAt_place : w.left.kindAt w.place = .shr := by
  rw [Source.kindAt_eq, w.left_lexemes, ← length_front]
  show (((w.front ++ _)[_]?).map _).getD _ = _
  rw [List.getElem?_append_right (Nat.le_refl _), Nat.sub_self]
  rfl

theorem kindAt_pair (h : i = w.place ∨ i = w.place + 1) : w.right.kindAt i = .gt := by
  rw [Source.kindAt_eq, w.right_lexemes]
  show (((w.front ++ _)[_]?).map _).getD _ = _
  rcases h with rfl | rfl
  · rw [List.getElem?_append_right (Nat.le_of_eq length_front), length_front, Nat.sub_self]
    rfl
  · rw [List.getElem?_append_right (by rw [length_front]; omega), length_front, Nat.add_sub_cancel_left]
    rfl

theorem size_right : w.right.stream.size = w.left.stream.size + 1 := by
  have hright := w.right.stream.length_lexemes
  have hleft := w.left.stream.length_lexemes
  rw [w.right_lexemes] at hright
  rw [w.left_lexemes] at hleft
  simp only [TokenStream.size, ← hleft, ← hright, List.length_append, List.length_cons]
  omega

theorem place_lt : w.place < w.left.stream.body.size :=
  Source.lt_of_kindAt (by rw [kindAt_place]; decide)

/-- Outside of the pair the texts are the same. -/
theorem text_shift (h : i ≠ w.place) (hend : w.left.kindAt i ≠ .eof) :
    (w.right.stream.get (w.shift i)).text = (w.left.stream.get i).text := by
  have hleft := TokenStream.getElem?_lexemes (Source.lt_of_kindAt hend)
  have hright := TokenStream.getElem?_lexemes (Source.lt_of_kindAt (kindAt_shift h ▸ hend))
  rw [getElem?_shift h, hleft] at hright
  exact (congrArg Lexeme.text (Option.some.inj hright)).symm

/-- The text of a run is the same in both sources. -/
theorem join_between (hi : i ≠ w.place) (hj : j ≠ w.place) :
    Token.join (w.right.stream.between (w.shift i) (w.shift j)) =
      Token.join (w.left.stream.between i j) := by
  rw [Token.join_eq_joined, Token.join_eq_joined, TokenStream.lexemes_between,
    TokenStream.lexemes_between, ← List.drop_take, ← List.drop_take, w.left_lexemes, w.right_lexemes]
  show joined (((w.front ++ _).take _).drop _) = joined (((w.front ++ _).take _).drop _)
  rcases Nat.lt_or_gt_of_ne hj with hj | hj
  · have hfront (ws : List Lexeme) : (w.front ++ ws).take j = w.front.take j :=
      List.take_append_of_le_length (by rw [length_front]; omega)
    rw [shift_of_le (Nat.le_of_lt hj), hfront, hfront]
    rcases Nat.lt_or_gt_of_ne hi with hi | hi
    · rw [shift_of_le (Nat.le_of_lt hi)]
    · have hnil {n : Nat} (hn : j ≤ n) : (w.front.take j).drop n = [] :=
        List.drop_eq_nil_of_le (by rw [List.length_take]; omega)
      rw [shift_of_lt hi, hnil (by omega), hnil (by omega)]
  · obtain ⟨n, rfl⟩ : ∃ n, j = w.place + 1 + n := Nat.exists_eq_add_of_le hj
    have hleft : (w.front ++ spelled .shr :: w.after).take (w.place + 1 + n) =
        w.front ++ spelled .shr :: w.after.take n := by
      rw [Nat.add_assoc, ← length_front, List.take_length_add_append, Nat.add_comm 1]
      rfl
    have hright : (w.front ++ spelled .gt :: spelled .gt :: w.after).take (w.place + 1 + n + 1) =
        w.front ++ spelled .gt :: spelled .gt :: w.after.take n := by
      rw [show w.place + 1 + n + 1 = w.place + (n + 2) by omega, ← length_front,
        List.take_length_add_append]
      rfl
    rw [shift_of_lt hj, hleft, hright]
    rcases Nat.lt_or_gt_of_ne hi with hi | hi
    · rw [shift_of_le (Nat.le_of_lt hi), List.drop_append_of_le_length (by rw [length_front]; omega),
        List.drop_append_of_le_length (by rw [length_front]; omega),
        joined_pair]
    · obtain ⟨m, rfl⟩ : ∃ m, i = w.place + 1 + m := Nat.exists_eq_add_of_le hi
      rw [shift_of_lt hi, show w.place + 1 + m + 1 = w.place + (m + 2) by omega,
        show w.place + 1 + m = w.place + (m + 1) by omega, ← length_front, List.drop_length_add_append,
        List.drop_length_add_append]
      rfl

/-! ### Brackets at an index -/

variable {b : Brackets} {s : ParseState} {C C' : Brackets → Prop} {k : TokenKind}

/-- The brackets that are open before an index of the list. -/
def bracketsAt (w : SplitAngles) (i : Nat) : Option Brackets :=
  Brackets.after ((w.inside.take (i - (w.opening + 1))).map Lexeme.kind)

theorem bracketsAt_place : w.bracketsAt w.place = some w.pair := by
  rw [bracketsAt, opening, place, Nat.add_sub_cancel_left, List.take_length]
  exact w.brackets

theorem bracketsAt_opening : w.bracketsAt (w.opening + 1) = some {} := by
  rw [bracketsAt, Nat.sub_self]
  rfl

/-- Before the pair each token leaves the list open. -/
theorem bracketsAt_succ (hstart : w.opening < i) (hi : i < w.place) (hb : w.bracketsAt i = some b) :
    ∃ b', b.next (w.left.kindAt i) = some b' ∧ w.bracketsAt (i + 1) = some b' := by
  obtain ⟨n, rfl⟩ : ∃ n, i = w.opening + 1 + n := Nat.exists_eq_add_of_le hstart
  have hn : n < w.inside.length := by
    unfold opening place at hi
    omega
  have hkind : w.left.kindAt (w.opening + 1 + n) = w.inside[n].kind := by
    have hget : w.left.stream.lexemes[w.opening + 1 + n]? = some w.inside[n] := by
      rw [w.left_lexemes, List.append_assoc, opening, Nat.add_assoc,
        List.getElem?_append_right (Nat.le_add_right ..), Nat.add_sub_cancel_left, Nat.add_comm 1,
        List.cons_append, List.getElem?_cons_succ, List.getElem?_append_left hn,
        List.getElem?_eq_getElem hn]
    rw [Source.kindAt_eq, hget]
    rfl
  have htake : w.bracketsAt (w.opening + 1 + n + 1) = b.next (w.left.kindAt (w.opening + 1 + n)) := by
    rw [bracketsAt, Nat.add_sub_cancel_left] at hb
    rw [bracketsAt, Nat.add_assoc (w.opening + 1), Nat.add_sub_cancel_left, List.take_add_one,
      List.getElem?_eq_getElem hn, List.map_append, Option.toList_some, List.map_singleton,
      Brackets.after_concat, hb, hkind]
    rfl
  have hbrackets := w.brackets
  rw [← List.take_append_drop (n + 1) w.inside, List.map_append] at hbrackets
  obtain ⟨b', hb'⟩ := Brackets.exists_after_of_append hbrackets
  have hnext : w.bracketsAt (w.opening + 1 + n + 1) = some b' := by
    rwa [bracketsAt, Nat.add_assoc (w.opening + 1), Nat.add_sub_cancel_left]
  exact ⟨b', htake ▸ hnext, hnext⟩

/-- The cursor is in the list or after the pair, and before the pair the brackets that are open are as
asked for. -/
structure Stands (w : SplitAngles) (C : Brackets → Prop) (s : ParseState) : Prop where
  bound : s.cursor.position ≤ w.left.stream.body.size
  start : w.opening < s.cursor.position
  brackets : s.cursor.position ≤ w.place → ∃ b, w.bracketsAt s.cursor.position = some b ∧ C b

namespace Stands

theorem at_place (h : w.Stands C s) (hplace : s.cursor.position = w.place) :
    C w.pair ∧ w.pair.ClosesTwo := by
  obtain ⟨b, hb, hC⟩ := h.brackets (Nat.le_of_eq hplace)
  rw [hplace, bracketsAt_place] at hb
  obtain rfl := Option.some.inj hb
  exact ⟨hC, w.closes⟩

theorem ne_place (h : w.Stands C s) (hC : ∀ b, C b → b.angles ≤ 2) : s.cursor.position ≠ w.place := by
  intro hplace
  obtain ⟨hpair, hcloses⟩ := h.at_place hplace
  exact absurd (hC _ hpair) (Nat.not_le.2 hcloses.2)

theorem remaining_pos (h : w.Stands C s) : 0 < (w.left.view s).remaining :=
  Nat.sub_pos_of_lt (Nat.lt_succ_of_le h.bound)

theorem weaken (h : w.Stands C s) (hC : ∀ b, C b → C' b) : w.Stands C' s where
  bound := h.bound
  start := h.start
  brackets hle := (h.brackets hle).imp fun _ hb => ⟨hb.1, hC _ hb.2⟩

/-- Only the place of the cursor matters. -/
theorem congr {t : ParseState} (h : w.Stands C s) (ht : t.cursor.position = s.cursor.position) :
    w.Stands C t where
  bound := ht ▸ h.bound
  start := ht ▸ h.start
  brackets := ht ▸ h.brackets

/-- What holds before a token of the list leads to what holds after it. -/
theorem next (h : w.Stands C s) (hk : (w.left.view s).kind 0 = k) (hend : k ≠ .eof)
    (hC : ∀ b b', C b → b.next k = some b' → C' b') : w.Stands C' (s.after 1) where
  bound := Source.lt_of_kindAt fun heof => hend (hk.symm.trans heof)
  start := Nat.lt_succ_of_lt h.start
  brackets hle := by
    obtain ⟨b, hb, hCb⟩ := h.brackets (Nat.le_of_succ_le hle)
    obtain ⟨b', hnext, hb'⟩ := bracketsAt_succ h.start hle hb
    exact ⟨b', hb', hC b b' hCb (by rwa [← hk])⟩

/-- After the pair nothing is asked for. -/
theorem afterPair (hplace : s.cursor.position = w.place) : w.Stands C (s.after 1) where
  bound := by
    rw [ParseState.position_after, hplace]
    exact place_lt
  start := by
    rw [ParseState.position_after, hplace, place, opening]
    omega
  brackets hle := absurd hle (Nat.not_le.2 (hplace ▸ Nat.lt_succ_self _))

end Stands

theorem shifted_after (h : s.cursor.position ≠ w.place) : w.shifted (s.after 1) = (w.shifted s).after 1 :=
  congrArg s.atPosition (shift_succ h)

/-- Where the left source has one token, the right one has two. -/
theorem shifted_afterPair (h : s.cursor.position = w.place) :
    w.shifted (s.after 1) = ((w.shifted s).after 1).after 1 := by
  have hshift : w.shift (s.cursor.position + 1) = w.shift s.cursor.position + 1 + 1 := by
    rw [h, shift_of_lt (Nat.lt_succ_self _), shift_of_le (Nat.le_refl _)]
  exact congrArg s.atPosition hshift

/-! ### What is seen -/

theorem kind_eq (h : s.cursor.position ≠ w.place) :
    (w.right.view (w.shifted s)).kind 0 = (w.left.view s).kind 0 :=
  kindAt_shift h

/-- Where the left source has a `>>`, the right one has two `>`. -/
theorem kinds_pair (h : s.cursor.position = w.place) : (w.left.view s).kind 0 = .shr ∧
    (w.right.view (w.shifted s)).kind 0 = .gt ∧ (w.right.view ((w.shifted s).after 1)).kind 0 = .gt := by
  have hshift : w.shift s.cursor.position = w.place := by
    rw [h, shift_of_le (Nat.le_refl _)]
  refine ⟨?_, kindAt_pair (.inl hshift), kindAt_pair (.inr (congrArg (· + 1) hshift))⟩
  show w.left.kindAt s.cursor.position = .shr
  rw [h, kindAt_place]

theorem remaining_pair (h : s.cursor.position = w.place) :
    2 ≤ (w.right.view (w.shifted s)).remaining := by
  have hlt := w.place_lt
  have hsize := w.size_right
  show 2 ≤ w.right.stream.size - w.shift s.cursor.position
  rw [h, shift_of_le (Nat.le_refl _), hsize, TokenStream.size]
  omega

/-- A token ahead is of a kind in both sources, or in none of them, if the kind is not that of a closing
angle. -/
theorem kindAhead_iff (h : s.cursor.position ≠ w.place) (hk : k ≠ .gt ∧ k ≠ .shr) :
    (w.right.view (w.shifted s)).kind 1 = k ↔ (w.left.view s).kind 1 = k := by
  show w.right.kindAt (w.shift s.cursor.position + 1) = k ↔ w.left.kindAt (s.cursor.position + 1) = k
  rw [← shift_succ h]
  by_cases hplace : s.cursor.position + 1 = w.place
  · rw [hplace, shift_of_le (Nat.le_refl _), kindAt_place, kindAt_pair (.inl rfl)]
    exact ⟨fun h => (hk.1 h.symm).elim, fun h => (hk.2 h.symm).elim⟩
  · rw [kindAt_shift hplace]

end SplitAngles

end CTree
