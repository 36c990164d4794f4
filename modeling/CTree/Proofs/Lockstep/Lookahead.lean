import CTree.Parse.Declaration
import CTree.Proofs.Lockstep.Basic

/-!
# Looking ahead in lockstep

A scan of the tokens ahead stops at the last one, which is no further than the number of tokens that
are left. So a question whose ceiling is beyond that number has the same answer for any such
ceiling.
-/

namespace CTree

namespace View

variable {v : View}

/-- A place that is not the end has more tokens after it. -/
theorem lt_remaining {i : Nat} (h : v.kind i ≠ .eof) : i + 1 < v.remaining := by
  have hlt : v.cursor.position + i < v.stream.body.size := by
    refine Nat.lt_of_not_le fun hle => h ?_
    show (v.stream.get _).kind = _
    rw [TokenStream.get_of_le _ hle, v.stream.last_kind]
  have hsize : v.stream.size = v.stream.body.size + 1 := rfl
  unfold remaining
  omega

theorem kind_of_remaining_le {i : Nat} (h : v.remaining ≤ i) : v.kind i = .eof := by
  refine Decidable.byContradiction fun hne => ?_
  have := lt_remaining hne
  omega

theorem closingFrom_of_remaining_le {i : Nat} (h : v.remaining ≤ i) (fuel depth : Nat) :
    v.closingFrom fuel i depth = none := by
  cases fuel with
  | zero => rfl
  | succ fuel => simp [closingFrom, kind_of_remaining_le h]

/-- The closing parenthesis is found, or missed, alike by any scan that may reach the end. -/
theorem closingFrom_ample {fuel fuel' i : Nat} (h : v.remaining ≤ i + fuel)
    (h' : v.remaining ≤ i + fuel') (depth : Nat) :
    v.closingFrom fuel i depth = v.closingFrom fuel' i depth := by
  induction fuel generalizing fuel' i depth with
  | zero => rw [closingFrom_of_remaining_le (by omega), closingFrom_of_remaining_le (by omega)]
  | succ fuel ih =>
    cases fuel' with
    | zero => rw [closingFrom_of_remaining_le (by omega), closingFrom_of_remaining_le (by omega)]
    | succ fuel' =>
      have ih : ∀ depth, v.closingFrom fuel (i + 1) depth = v.closingFrom fuel' (i + 1) depth :=
        ih (by omega) (by omega)
      unfold closingFrom
      split
      · exact ih _
      · split
        · rfl
        · exact ih _
      · rfl
      · exact ih _

theorem matchingParen_ample {limit limit' : Nat} (h : v.remaining ≤ limit)
    (h' : v.remaining ≤ limit') (i : Nat) : v.matchingParen limit i = v.matchingParen limit' i := by
  have hsame : v.closingFrom limit i 0 = v.closingFrom limit' i 0 :=
    closingFrom_ample (by omega) (by omega) 0
  unfold matchingParen
  rw [hsame]

/-- The end of template arguments is found, or missed, alike by any scan that may reach the end. -/
theorem pastArgumentsFor_ample {fuel fuel' i : Nat} (hi : i < v.remaining)
    (h : v.remaining ≤ i + fuel) (h' : v.remaining ≤ i + fuel') (depth : Nat) :
    v.pastArgumentsFor fuel i depth = v.pastArgumentsFor fuel' i depth := by
  induction fuel generalizing fuel' i depth with
  | zero => omega
  | succ fuel ih =>
    cases fuel' with
    | zero => omega
    | succ fuel' =>
      by_cases heof : v.kind i = .eof
      · simp [pastArgumentsFor, heof]
      · have hlt := lt_remaining heof
        have ih : ∀ depth, v.pastArgumentsFor fuel (i + 1) depth =
            v.pastArgumentsFor fuel' (i + 1) depth := ih hlt (by omega) (by omega)
        unfold pastArgumentsFor
        simp only [ih]

theorem shape_ample {limit limit' : Nat} (h : v.remaining ≤ limit) (h' : v.remaining ≤ limit') :
    v.shape limit = v.shape limit' := by
  unfold shape
  simp only [matchingParen_ample h h']

theorem declarationForm_ample {limit limit' : Nat} (h : v.remaining ≤ limit)
    (h' : v.remaining ≤ limit') : v.declarationForm? limit = v.declarationForm? limit' := by
  unfold declarationForm?
  rw [shape_ample h h']

theorem atClass_ample {limit limit' : Nat} (h : v.remaining ≤ limit) (h' : v.remaining ≤ limit') :
    v.atClass limit = v.atClass limit' := by
  have hpast : v.kind 2 = .lt →
      v.pastArgumentsFor (limit - 2) 2 0 = v.pastArgumentsFor (limit' - 2) 2 0 := by
    intro hlt
    have hmore := lt_remaining (v := v) (i := 2) (by rw [hlt]; decide)
    exact pastArgumentsFor_ample (by omega) (by omega) (by omega) 0
  unfold atClass
  by_cases hlt : v.kind 2 = .lt
  · rw [hpast hlt]
  · rw [beq_eq_false_iff_ne.2 hlt]
    rfl

/-- A class begins at a token. -/
theorem kind_of_atClass {limit : Nat} (h : v.atClass limit = true) : v.kind 0 ≠ .eof := by
  intro heof
  simp [atClass, heof] at h

end View

namespace Lockstep

variable {α β : Type} {a b : Source} {n k : Nat} {P : ParseState → Prop} {m' : β → Prop}
  {f f' : α → Parse β}

/-- A question that has the same answer wherever the ceiling is, as long as it is beyond the
    tokens that are left. -/
theorem lookAhead {question : Nat → View → α}
    (hq : ∀ v i j, View.remaining v ≤ i → v.remaining ≤ j → question i v = question j v)
    (hf : ∀ x, Lockstep a b n (fun s => P s ∧ question a.settings.maxLookahead (a.view s) = x) k
      m' (f x) (f' x)) :
    Lockstep a b n P k m' (Parse.lookAhead question >>= f) (Parse.lookAhead question >>= f') := by
  refine .look (fun source v => question source.settings.maxLookahead v)
    (fun _ _ => rfl) (fun {s} _ hroom => ?_) hf
  have hsize : (a.view s).remaining ≤ a.stream.size := Nat.sub_le ..
  have ha := hroom.ample.lookahead
  have hb := hroom.ample'.lookahead
  rw [hroom.twin.stream] at hb
  rw [hroom.twin.view_eq]
  exact hq _ _ _ (by omega) (by omega)

end Lockstep

end CTree
