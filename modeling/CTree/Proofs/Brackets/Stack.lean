import CTree.Token.Kind

/-!
# The brackets of a parameter list

Among the parameters of a template stand angles, parentheses and square brackets, and which of them are
open decides what a `>` means. In a group of parentheses or square brackets it closes what was opened there,
and otherwise it compares two values. `Brackets.next` follows the open brackets from token to token.
-/

namespace CTree

/-- The brackets that are open in a parameter list, the innermost first. The last is the `<` of the list. -/
structure Brackets where
  opened : List TokenKind := [.lt]
  /-- Whether the default of a parameter was begun. -/
  defaulted : Bool := false
  deriving DecidableEq, Repr

namespace Brackets

/-- The number of `<` that are open. -/
def angles (b : Brackets) : Nat :=
  b.opened.count .lt

/-- The brackets with one more. -/
def enter (b : Brackets) (k : TokenKind) : Brackets :=
  { b with opened := k :: b.opened }

/-- The brackets without the group that begins with the given bracket. What stands in a group and was not
closed there was no bracket. -/
def leave (b : Brackets) (k : TokenKind) : Option Brackets :=
  match b.opened.dropWhile (· == .lt) with
  | [] => none
  | opening :: opened => if opening = k then some { b with opened } else none

/-- The brackets after a `>`, which does not close the list. In a group that has no `<` open it is an
operator; after a default was begun, no arguments of a template may be open around such a group. -/
def close (b : Brackets) : Option Brackets :=
  match b.opened with
  | [.lt] => none
  | .lt :: opened => some { b with opened }
  | _ => if b.defaulted && b.angles != 1 then none else some b

/-- The brackets after a token of the given kind. -/
def next (b : Brackets) : TokenKind → Option Brackets
  | .lt => some (b.enter .lt)
  | .lparen => some (b.enter .lparen)
  | .lbracket => some (b.enter .lbracket)
  | .rparen => b.leave .lparen
  | .rbracket => b.leave .lbracket
  | .gt => b.close
  | .shr => b.close >>= close
  | .assign => some { b with defaulted := true }
  | _ => some b

/-- The brackets after tokens of the given kinds, if these stand in a parameter list. -/
def after (ks : List TokenKind) : Option Brackets :=
  ks.foldlM next {}

/-- The two angles that were opened last were opened in the same group, and neither is that of the list. -/
def ClosesTwo (b : Brackets) : Prop :=
  [.lt, .lt] <+: b.opened ∧ 2 < b.angles

instance (b : Brackets) : Decidable b.ClosesTwo :=
  inferInstanceAs (Decidable (_ ∧ _))

/-! ### Steps -/

variable {b b' : Brackets} {k : TokenKind} {ks : List TokenKind} {rest : List TokenKind}

theorem after_concat (ks : List TokenKind) (k : TokenKind) :
    after (ks ++ [k]) = (after ks).bind fun b => b.next k := by
  simp [after, List.foldlM_append]

/-- What is open after some of the tokens of a list is known. -/
theorem exists_after_of_append {ks' : List TokenKind} (h : after (ks ++ ks') = some b) :
    ∃ b', after ks = some b' := by
  rw [after, List.foldlM_append] at h
  obtain ⟨b', hb', -⟩ := Option.bind_eq_some_iff.1 h
  exact ⟨b', hb'⟩

/-- A `>` closes an angle of its group, or is an operator in a group without one. -/
theorem close_cases (h : b.close = some b') :
    (∃ rest, b.opened = .lt :: rest ∧ b' = { b with opened := rest }) ∨
      b.opened.head? ≠ some .lt ∧ (b.defaulted = true → b.angles = 1) ∧ b' = b := by
  unfold close at h
  split at h
  · cases h
  · rename_i rest _ hopened
    exact .inl ⟨rest, hopened, (Option.some.inj h).symm⟩
  · rename_i hlist hangle
    split at h
    · cases h
    · rename_i hdefaulted
      refine .inr ⟨fun hhead => ?_, fun hd => ?_, (Option.some.inj h).symm⟩
      · obtain ⟨rest, hrest⟩ := List.head?_eq_some_iff.1 hhead
        exact hangle rest hrest
      · simpa [hd] using hdefaulted

theorem leave_cases (h : b.leave k = some b') : ∃ inner rest, b.opened = inner ++ k :: rest ∧
    (∀ x ∈ inner, x = .lt) ∧ b' = { b with opened := rest } := by
  unfold leave at h
  split at h
  · cases h
  · rename_i opening rest hdrop
    split at h
    · rename_i hopening
      refine ⟨b.opened.takeWhile (· == .lt), rest, ?_, fun x hx => ?_, (Option.some.inj h).symm⟩
      · rw [← hopening, ← hdrop, List.takeWhile_append_dropWhile]
      · exact beq_iff_eq.1 (List.all_eq_true.1 List.all_takeWhile x hx)
    · cases h

/-! ### The number of open angles -/

theorem angles_of_close (h : b.close = some b') : b'.angles ≤ b.angles := by
  rcases close_cases h with ⟨rest, hopened, rfl⟩ | ⟨-, -, rfl⟩
  · rw [angles, angles, hopened]
    exact List.count_le_count_cons
  · exact Nat.le_refl _

/-- After a default was begun, each `>` closes an angle while there is one besides that of the list. -/
theorem angles_of_close_defaulted (hdefaulted : b.defaulted = true) (h : b.close = some b') :
    b'.defaulted = true ∧ b'.angles ≤ max 1 (b.angles - 1) := by
  rcases close_cases h with ⟨rest, hopened, rfl⟩ | ⟨-, hone, rfl⟩
  · refine ⟨hdefaulted, ?_⟩
    rw [angles, angles, hopened, List.count_cons_self]
    exact Nat.le_max_right ..
  · refine ⟨hdefaulted, ?_⟩
    rw [hone hdefaulted]
    exact Nat.le_max_left ..

theorem angles_of_leave (h : b.leave k = some b') : b'.angles ≤ b.angles := by
  obtain ⟨inner, rest, hopened, -, rfl⟩ := leave_cases h
  rw [angles, angles, hopened]
  exact ((List.sublist_cons_self k rest).trans (List.sublist_append_right inner _)).count_le _

/-- The kinds of tokens that open and close nothing in a parameter list. -/
def isPlain : TokenKind → Bool
  | .lt | .gt | .shr | .lparen | .rparen | .lbracket | .rbracket | .eof => false
  | _ => true

theorem ne_eof_of_isPlain (hk : isPlain k = true) : k ≠ .eof := by
  rintro rfl
  cases hk

theorem opened_of_isPlain (hk : isPlain k = true) (h : b.next k = some b') : b'.opened = b.opened := by
  cases k <;> first | (cases hk; done) | (cases h; rfl)

theorem defaulted_of_next (hdefaulted : b.defaulted = true) (h : b.next k = some b') :
    b'.defaulted = true := by
  have hclose {b b' : Brackets} (hd : b.defaulted = true) (h : b.close = some b') :
      b'.defaulted = true :=
    (angles_of_close_defaulted hd h).1
  have hleave {k : TokenKind} (h : b.leave k = some b') : b'.defaulted = true := by
    obtain ⟨-, -, -, -, rfl⟩ := leave_cases h
    exact hdefaulted
  cases k
  case gt => exact hclose hdefaulted h
  case shr =>
    obtain ⟨b'', h', h⟩ := Option.bind_eq_some_iff.1 h
    exact hclose (hclose hdefaulted h') h
  case rparen => exact hleave h
  case rbracket => exact hleave h
  all_goals
    cases h
    first | exact hdefaulted | rfl

/-! ### Groups -/

/-- Above the brackets `base` so many brackets of a class are open. -/
def Above (counted : TokenKind → Bool) (base : List TokenKind) : Nat → List TokenKind → Prop
  | 0, opened => opened = base
  | n + 1, opened =>
    ∃ inner k, opened = inner ++ k :: base ∧ counted k = true ∧ inner.countP counted = n

/-- How many brackets of a class are open after a token, if there are so many before it. -/
def depthAfter (counted : TokenKind → Bool) (n : Nat) : TokenKind → Nat
  | .lparen => if counted .lparen then n + 1 else n
  | .lbracket => if counted .lbracket then n + 1 else n
  | .rparen => if counted .lparen then n - 1 else n
  | .rbracket => if counted .lbracket then n - 1 else n
  | _ => n

theorem depthAfter_of_ne {n : Nat} (hopen : k ≠ .lparen) (hclose : k ≠ .rparen) :
    depthAfter (· == .lparen) n k = n := by
  cases k <;> first | rfl | contradiction

section Groups

variable {counted : TokenKind → Bool} {base : List TokenKind} {n : Nat}

theorem Above.enter (h : Above counted base (n + 1) b.opened) (k : TokenKind) :
    Above counted base (if counted k then n + 1 + 1 else n + 1) (b.enter k).opened := by
  obtain ⟨inner, k', hopened, hk', hinner⟩ := h
  have heq : (b.enter k).opened = k :: inner ++ k' :: base := congrArg (k :: ·) hopened
  split
  · rename_i hk
    exact ⟨k :: inner, k', heq, hk', by rw [List.countP_cons_of_pos hk, hinner]⟩
  · rename_i hk
    exact ⟨k :: inner, k', heq, hk', by rw [List.countP_cons_of_neg hk, hinner]⟩

theorem Above.leave (hangle : counted .lt = false) (h : Above counted base (n + 1) b.opened)
    (hleave : b.leave k = some b') :
    Above counted base (if counted k then n else n + 1) b'.opened := by
  obtain ⟨inner, k', hopened, hk', hinner⟩ := h
  obtain ⟨angles, rest, hopened', hangles, rfl⟩ := leave_cases hleave
  have hcount : angles.countP counted = 0 :=
    List.countP_eq_zero.2 fun x hx => by rw [hangles x hx, hangle]; decide
  rw [hopened] at hopened'
  rcases List.append_eq_append_iff.1 hopened' with ⟨as, rfl, has⟩ | ⟨as, rfl, has⟩
  · cases as with
    | nil =>
      obtain ⟨rfl, rfl⟩ := List.cons.inj has
      rw [List.append_nil] at hcount
      rw [if_pos hk', ← hinner, hcount]
      rfl
    | cons a as =>
      obtain ⟨rfl, -⟩ := List.cons.inj has
      rw [hangles k' (by simp), hangle] at hk'
      cases hk'
  · rw [List.countP_append, hcount, Nat.zero_add] at hinner
    cases as with
    | nil =>
      obtain ⟨rfl, rfl⟩ := List.cons.inj has
      rw [if_pos hk', ← hinner]
      rfl
    | cons a as =>
      obtain ⟨rfl, rfl⟩ := List.cons.inj has
      split
      · rename_i hcounted
        rw [List.countP_cons_of_pos hcounted] at hinner
        exact hinner ▸ ⟨as, k', rfl, hk', rfl⟩
      · rename_i hcounted
        rw [List.countP_cons_of_neg hcounted] at hinner
        exact ⟨as, k', rfl, hk', hinner⟩

theorem Above.close (hangle : counted .lt = false) (h : Above counted base (n + 1) b.opened)
    (hclose : b.close = some b') : Above counted base (n + 1) b'.opened := by
  rcases close_cases hclose with ⟨rest, hrest, rfl⟩ | ⟨-, -, rfl⟩
  · obtain ⟨inner, k, hopened, hk, hinner⟩ := h
    rw [hrest] at hopened
    cases inner with
    | nil =>
      obtain ⟨rfl, -⟩ := List.cons.inj hopened
      rw [hangle] at hk
      cases hk
    | cons a inner =>
      obtain ⟨rfl, rfl⟩ := List.cons.inj hopened
      rw [List.countP_cons_of_neg (by simp [hangle])] at hinner
      exact ⟨inner, k, rfl, hk, hinner⟩
  · exact h

/-- Inside of a group the brackets around it are left alone. -/
theorem Above.next (hangle : counted .lt = false) (h : Above counted base (n + 1) b.opened)
    (hnext : b.next k = some b') : Above counted base (depthAfter counted (n + 1) k) b'.opened := by
  cases k
  case lt =>
    cases hnext
    have henter := h.enter .lt
    rwa [if_neg (by simp [hangle])] at henter
  case lparen =>
    cases hnext
    exact h.enter .lparen
  case lbracket =>
    cases hnext
    exact h.enter .lbracket
  case rparen => exact h.leave hangle hnext
  case rbracket => exact h.leave hangle hnext
  case gt => exact h.close hangle hnext
  case shr =>
    obtain ⟨b'', hfirst, hsecond⟩ := Option.bind_eq_some_iff.1 hnext
    exact (h.close hangle hfirst).close hangle hsecond
  all_goals
    cases hnext
    exact h

end Groups

end Brackets

end CTree
