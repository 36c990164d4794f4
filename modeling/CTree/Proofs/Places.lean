import CTree.Proofs.Cut
import Mathlib.Data.List.Induction

/-!
# Lines and columns

Positions count bytes and columns count characters, so a position becomes a place by way of the
characters that begin before it. `place_faithful` says what the place is in terms of these characters
alone, and that no two boundaries of characters share a place: a later one has a later place.
-/

namespace CTree.Text

variable {text pre rest cs : List Char} {position : Nat}

/-! ### The order of places -/

/-- A place is before all places in later lines, and before those to its right in its own line. -/
instance : LT Place :=
  ⟨fun p q => p.line < q.line ∨ p.line = q.line ∧ p.column < q.column⟩

namespace Place

theorem lt_iff {p q : Place} : p < q ↔ p.line < q.line ∨ p.line = q.line ∧ p.column < q.column :=
  Iff.rfl

theorem lt_irrefl (p : Place) : ¬ p < p := by
  rw [lt_iff]
  omega

theorem lt_trans {p q r : Place} (h : p < q) (h' : q < r) : p < r := by
  rw [lt_iff] at *
  omega

/-- A line feed leads to a later line, and every other character further to the right. -/
theorem lt_next (p : Place) (c : Char) : p < p.next c := by
  rw [lt_iff, next]
  split
  · exact .inl (Nat.lt_succ_self _)
  · exact .inr ⟨rfl, Nat.lt_succ_self _⟩

theorem lt_foldl_next (p : Place) (h : cs ≠ []) : p < cs.foldl next p := by
  induction cs generalizing p with
  | nil => exact (h rfl).elim
  | cons c cs ih =>
    cases cs with
    | nil => exact p.lt_next c
    | cons d cs => exact lt_trans (p.lt_next c) (ih (p.next c) (List.cons_ne_nil d cs))

theorem line_foldl_next (p : Place) (cs : List Char) :
    (cs.foldl next p).line = p.line + cs.count '\n' := by
  induction cs generalizing p with
  | nil => rfl
  | cons c cs ih =>
    rw [List.foldl_cons, ih, List.count_cons, next]
    by_cases hc : c = '\n'
    · rw [if_pos hc, if_pos (beq_iff_eq.2 hc), Nat.add_assoc, Nat.add_comm 1]
    · rw [if_neg hc, if_neg (by simpa using hc)]
      rfl

/-- Only the characters after the last line feed count for the column. -/
theorem column_foldl_next (cs : List Char) :
    (cs.foldl next start).column = 1 + (cs.reverse.takeWhile (· != '\n')).length := by
  induction cs using List.reverseRecOn with
  | nil => rfl
  | append_singleton cs c ih =>
    rw [List.foldl_append, List.foldl_cons, List.foldl_nil, List.reverse_append,
      List.reverse_singleton, List.singleton_append, next]
    by_cases hc : c = '\n'
    · rw [if_pos hc, List.takeWhile_cons_of_neg (by simpa using hc)]
      rfl
    · rw [if_neg hc, List.takeWhile_cons_of_pos (by simpa using hc), ih, List.length_cons,
        Nat.add_assoc]

end Place

/-! ### The characters before a position -/

/-- Exactly the characters that begin before a position are put before it. -/
theorem lt_length_before_iff {u v : List Char} {c : Char} (h : text = u ++ c :: v) :
    byteLength u < position ↔ u.length < (before position text).length := by
  fun_induction before position text generalizing u with
  | case1 => exact absurd h (by simp)
  | case2 => simp
  | case3 n d ds hn ih =>
    cases u with
    | nil =>
      rw [byteLength_nil, List.length_nil, List.length_cons]
      omega
    | cons e u =>
      obtain ⟨rfl, hds⟩ := List.cons.inj h
      rw [byteLength_cons, List.length_cons, List.length_cons, Nat.succ_lt_succ_iff, ← ih hds]
      omega

theorem before_of_le (h : byteLength text ≤ position) : before position text = text := by
  fun_induction before position text with
  | case1 => rfl
  | case2 c cs =>
    have hc : 0 < c.utf8Size := c.utf8Size_pos
    rw [byteLength_cons] at h
    omega
  | case3 n c cs hn ih =>
    rw [byteLength_cons] at h
    rw [ih (by omega)]

/-! ### Places of a text -/

/-- A character begins at a position, or the text ends there. -/
def IsBoundary (text : List Char) (position : Nat) : Prop :=
  ∃ pre rest, text = pre ++ rest ∧ position = byteLength pre

theorem place_append (pre rest : List Char) :
    place (pre ++ rest) (byteLength pre) = pre.foldl Place.next Place.start := by
  rw [place, before_append]

/-- Of two parts with which a text begins, the one with fewer bytes begins the other. -/
theorem exists_append_of_byteLength_lt {pre' rest' : List Char} (h : pre ++ rest = pre' ++ rest')
    (hlt : byteLength pre < byteLength pre') : ∃ mid, mid ≠ [] ∧ pre' = pre ++ mid := by
  rcases List.append_eq_append_iff.1 h with ⟨mid, rfl, -⟩ | ⟨mid, rfl, -⟩
  · refine ⟨mid, ?_, rfl⟩
    rintro rfl
    rw [List.append_nil] at hlt
    exact Nat.lt_irrefl _ hlt
  · rw [byteLength_append] at hlt
    omega

theorem place_lt_place {p q : Nat} (hp : IsBoundary text p) (hq : IsBoundary text q) (h : p < q) :
    place text p < place text q := by
  obtain ⟨pre, rest, rfl, rfl⟩ := hp
  obtain ⟨pre', rest', htext, rfl⟩ := hq
  obtain ⟨mid, hmid, rfl⟩ := exists_append_of_byteLength_lt htext h
  rw [place_append, htext, place_append, List.foldl_append]
  exact Place.lt_foldl_next _ hmid

/-- The place of a position counts the line feeds among the characters that begin before it, and
those of them that come after the last line feed. At the boundaries of characters a later position
has a later place, so that a place tells the position; past the end all positions have one place. -/
theorem place_faithful (text : List Char) :
    (∀ position, ∃ pre rest, text = pre ++ rest ∧
      (∀ u c v, text = u ++ c :: v → (byteLength u < position ↔ u.length < pre.length)) ∧
      (place text position).line = 1 + pre.count '\n' ∧
      (place text position).column = 1 + (pre.reverse.takeWhile (· != '\n')).length) ∧
    (∀ p q, IsBoundary text p → IsBoundary text q → p < q → place text p < place text q) ∧
    (∀ p q, IsBoundary text p → IsBoundary text q → place text p = place text q → p = q) ∧
    ∀ position, byteLength text ≤ position → place text position = place text (byteLength text) := by
  refine ⟨fun position => ?_, fun p q => place_lt_place, fun p q hp hq heq => ?_, fun position h => ?_⟩
  · exact ⟨before position text, after position text, (before_append_after position text).symm,
      fun u c v => lt_length_before_iff, Place.line_foldl_next _ _, Place.column_foldl_next _⟩
  · rcases Nat.lt_trichotomy p q with hlt | rfl | hlt
    · have hplace := place_lt_place hp hq hlt
      rw [heq] at hplace
      exact (Place.lt_irrefl _ hplace).elim
    · rfl
    · have hplace := place_lt_place hq hp hlt
      rw [heq] at hplace
      exact (Place.lt_irrefl _ hplace).elim
  · rw [place, place, before_of_le h, before_of_le (Nat.le_refl _)]

/-- A position inside of a character of two bytes counts this character in. -/
example : place "é\nü".toList 1 = ⟨1, 2⟩ ∧ place "é\nü".toList 3 = ⟨2, 1⟩ ∧
    place "é\nü".toList 4 = ⟨2, 2⟩ ∧ place "é\nü".toList 9 = ⟨2, 2⟩ := by
  decide

end CTree.Text
