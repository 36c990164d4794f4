import CTree.Proofs.Declarators.Refuses

/-!
# Lists with commas

Things with commas between them, each of which may be read or refused: the list is read if every entry is.
Names in parentheses are such a list, and so are the base classes of a class.
-/

namespace CTree

open Parse Lexeme

variable {α β : Type} {source : Source} {s : ParseState} {n : Nat} {ws : List Lexeme}
  {f : β → List Lexeme} {last : TokenKind} {sort : β → Bool} {value : β → α} {entry : Parse α}
  {x : β} {xs : List β} {texts : List String}

/-! ### What is written -/

/-- Things as they are written, with commas between them. -/
def Lexeme.listed (f : β → List Lexeme) : List β → List Lexeme
  | [] => []
  | x :: xs => f x ++ xs.flatMap fun x => spelled .comma :: f x

theorem Lexeme.listed_cons_cons (f : β → List Lexeme) (x y : β) (xs : List β) :
    listed f (x :: y :: xs) = f x ++ spelled .comma :: listed f (y :: xs) := by
  simp [listed]

/-- The commas alone are as many as the things after the first. -/
theorem Lexeme.length_le_listed (f : β → List Lexeme) (x : β) (xs : List β) :
    xs.length ≤ (listed f (x :: xs)).length := by
  induction xs generalizing x with
  | nil => exact Nat.zero_le _
  | cons y ys ih =>
    have hle := ih y
    rw [listed_cons_cons, List.length_append, List.length_cons, List.length_cons]
    omega

/-- Names with commas between them. -/
def Lexeme.names : List String → List Lexeme
  | [] => []
  | text :: texts => Lexeme.name text :: texts.flatMap fun text => [spelled .comma, Lexeme.name text]

/-- A list of names has names and commas only. -/
theorem Lexeme.kind_of_mem_names {w : Lexeme} (h : w ∈ names texts) :
    w.kind = .identifier ∨ w.kind = .comma := by
  cases texts with
  | nil => cases h
  | cons text texts =>
    rcases List.mem_cons.1 h with rfl | h
    · exact .inl rfl
    · obtain ⟨text', -, hw⟩ := List.mem_flatMap.1 h
      rcases List.mem_cons.1 hw with rfl | hw
      · exact .inr rfl
      · obtain rfl := List.mem_singleton.1 hw
        exact .inl rfl

/-! ### Reading a list -/

/-- Whether a kind ends an entry of a list: a comma does, and what stands after the list. -/
def TokenKind.endsEntry (k last : TokenKind) : Bool :=
  k == .comma || k == last

theorem TokenKind.endsEntry_comma (last : TokenKind) : endsEntry .comma last = true := by
  rw [endsEntry, beq_self_eq_true, Bool.true_or]

theorem TokenKind.endsEntry_self (last : TokenKind) : endsEntry last last = true := by
  rw [endsEntry, beq_self_eq_true, Bool.or_true]

theorem TokenKind.ne_of_endsEntry {k k' : TokenKind} (h : k.endsEntry last = true)
    (h' : k'.endsEntry last = false) : k ≠ k' := by
  rintro rfl
  rw [h] at h'
  cases h'

/-- At any place after the state, the parser reads the thing as an entry of a list if it is of the sort. -/
def ReadsEntry (source : Source) (s : ParseState) (entry : Parse α) (f : β → List Lexeme)
    (last : TokenKind) (sort : β → Bool) (value : β → α) (x : β) : Prop :=
  ∀ n w ws, source.Sees (s.after n).cursor.position (f x ++ w :: ws) →
    w.kind.endsEntry last = true → ConsumesIf (sort x) source (s.after n) (f x).length entry (value x)

namespace ConsumesIf

variable (h : ∀ y ∈ x :: xs, ReadsEntry source s entry f last sort value y) (hlast : last ≠ .comma)

include h hlast

/-- A list is read if all of its entries are of the sort. -/
theorem chainFor {w : Lexeme} (hw : w.kind = last)
    (hsees : source.Sees (s.after n).cursor.position (listed f (x :: xs) ++ w :: ws)) (i : Nat)
    (hi : xs.length < i) :
    ConsumesIf ((x :: xs).all sort) source (s.after n) (listed f (x :: xs)).length
      (Parse.chainFor (fun () => entry) (pure ()) i ()) ((x :: xs).map value) := by
  have hhead := h x List.mem_cons_self
  obtain ⟨i, rfl⟩ : ∃ j, i = j + 1 := ⟨i - 1, by omega⟩
  induction xs generalizing n x i with
  | nil =>
    rw [listed, List.flatMap_nil, List.append_nil] at hsees ⊢
    have hother : (source.view ((s.after n).after (f x).length)).kind 0 ≠ .comma := by
      rwa [(hsees.after _).kind, hw]
    have hends : w.kind.endsEntry last = true := hw ▸ TokenKind.endsEntry_self w.kind
    rw [Parse.chainFor, List.all_cons, List.all_nil, Bool.and_true]
    exact (hhead n _ _ hsees hends).andLast (.look (run_accept_of_ne hother) (.pure _))
  | cons next xs ih =>
    obtain ⟨i, rfl⟩ : ∃ j, i = j + 1 := ⟨i - 1, by rw [List.length_cons] at hi; omega⟩
    rw [listed_cons_cons] at hsees ⊢
    rw [List.append_assoc, List.cons_append] at hsees
    have hcomma : (source.view ((s.after n).after (f x).length)).kind 0 = .comma := (hsees.after _).kind
    have hnext : source.Sees (s.after (n + (f x).length + 1)).cursor.position
        (listed f (next :: xs) ++ w :: ws) := by
      rw [← ParseState.after_after, ← ParseState.after_after]
      exact (hsees.after _).next
    have hrest := ih (fun y hy => h y (List.mem_cons_of_mem _ hy)) hnext (h next (by simp)) i
      (by rw [List.length_cons] at hi; omega)
    rw [Parse.chainFor, List.all_cons, List.map_cons, List.length_append, List.length_cons,
      Nat.add_comm _ 1]
    refine (hhead n _ _ hsees (TokenKind.endsEntry_comma last)).bind (.after (.accept hcomma (by decide)) ?_)
    rw [if_pos rfl, pure_bind, ParseState.after_after, ParseState.after_after]
    exact hrest.andLast (.pure _)

/-- The list as a whole. -/
theorem separated {w : Lexeme} (hw : w.kind = last)
    (hsees : source.Sees s.cursor.position (listed f (x :: xs) ++ w :: ws)) :
    ConsumesIf ((x :: xs).all sort) source s (listed f (x :: xs)).length
      (Parse.separated entry) ((x :: xs).map value) := by
  have hlength := Source.Sees.length_le_remaining (n := 0) (Source.sees_append.1 hsees).1
  have hle := length_le_listed f x xs
  exact look run_view (chainFor (n := 0) h hlast hw hsees _ (by omega))

end ConsumesIf

end CTree
