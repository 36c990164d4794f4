import CTree.Proofs.Exactness
import CTree.Proofs.Printing.Declaration

/-!
# What a parser takes

`Takes` says that a parser gives a value from a state, and how many tokens it takes. It says nothing of
the dialect and of the type names that are known, and leaves open what is reported.
-/

namespace CTree

open Parse Lexeme

/-- The state `t` is so many tokens past the state `s`, perhaps with more diagnostics. -/
structure ParseState.Past (s : ParseState) (n : Nat) (t : ParseState) : Prop where
  cursor : t.cursor = (s.after n).cursor
  lenient : t.lenient = s.lenient
  diagnostics : s.diagnostics.size ≤ t.diagnostics.size

/-- From the state `s` the parser gives the value, and takes so many tokens. -/
def Takes {α : Type} (source : Source) (s : ParseState) (n : Nat) (p : Parse α) (x : α) : Prop :=
  ∃ t, p.run source s = (.ok x, t) ∧ s.Past n t

variable {α β σ : Type} {source : Source} {s t u : ParseState} {n m : Nat} {p : Parse α}
  {f : α → Parse β} {x : α} {y : β}

namespace ParseState.Past

theorem refl (s : ParseState) : s.Past 0 s :=
  ⟨rfl, rfl, Nat.le_refl _⟩

theorem trans (h : s.Past n t) (h' : t.Past m u) : s.Past (n + m) u where
  cursor := by
    rw [h'.cursor, after, atPosition, h.cursor]
    simp only [after, atPosition, Cursor.reset, Nat.add_assoc]
  lenient := h'.lenient.trans h.lenient
  diagnostics := Nat.le_trans h.diagnostics h'.diagnostics

theorem position (h : s.Past n t) : t.cursor.position = s.cursor.position + n := by
  rw [h.cursor, position_after]

theorem depth (h : s.Past n t) : t.cursor.depth = s.cursor.depth := by
  rw [h.cursor]
  rfl

/-- What stands ahead is what stood so many tokens further ahead. -/
theorem kind (h : s.Past n t) (i : Nat) :
    (source.view t).kind i = source.kindAt (s.cursor.position + n + i) := by
  show source.kindAt (t.cursor.position + i) = _
  rw [h.position]

theorem sees (ws : List Lexeme) {ws' : List Lexeme} (h : s.Past ws.length t)
    (hsees : source.Sees s.cursor.position (ws ++ ws')) : source.Sees t.cursor.position ws' := by
  rw [h.position]
  exact (Source.sees_append.1 hsees).2

end ParseState.Past

/-! ### Sequences, constructs and attempts -/

namespace Takes

theorem of_run (h : p.run source s = (.ok x, s)) : Takes source s 0 p x :=
  ⟨s, h, .refl s⟩

protected theorem pure (x : α) : Takes source s 0 (pure x) x :=
  of_run rfl

protected theorem bind (hp : Takes source s n p x)
    (hf : ∀ t, s.Past n t → Takes source t m (f x) y) : Takes source s (n + m) (p >>= f) y := by
  obtain ⟨t, hrun, hpast⟩ := hp
  obtain ⟨u, hrun', hpast'⟩ := hf t hpast
  exact ⟨u, (run_bind_ok hrun).trans hrun', hpast.trans hpast'⟩

/-- A sequence whose first part only looks. -/
theorem look (hp : p.run source s = (.ok x, s)) (hf : Takes source s n (f x) y) :
    Takes source s n (p >>= f) y := by
  obtain ⟨t, hrun, hpast⟩ := hf
  exact ⟨t, (run_bind_ok hp).trans hrun, hpast⟩

/-- A sequence whose second part takes nothing. -/
theorem andLast (hp : Takes source s n p x) (hf : ∀ t, s.Past n t → Takes source t 0 (f x) y) :
    Takes source s n (p >>= f) y :=
  hp.bind hf

theorem strictly (hs : s.lenient = false) (h : Takes source s n p x) :
    Takes source s n (Parse.strictly p) x := by
  obtain ⟨t, hrun, hpast⟩ := h
  have hstate : ({ s with lenient := false } : ParseState) = s := by rw [← hs]
  rw [Takes, Parse.strictly, run_withLeniency, hstate, hrun]
  exact ⟨_, rfl, hpast.cursor, rfl, hpast.diagnostics⟩

theorem nested (hroom : s.cursor.depth < source.settings.maxDepth)
    (h : Takes source { s with cursor := { s.cursor with depth := s.cursor.depth + 1 } } n p x) :
    Takes source s n (Parse.nested p) x := by
  obtain ⟨t, hrun, hpast⟩ := h
  rw [Takes, run_nested, if_neg (Nat.not_le_of_lt hroom), hrun]
  refine ⟨_, rfl, ?_, hpast.lenient, hpast.diagnostics⟩
  show t.cursor.exit = _
  rw [hpast.cursor]
  rfl

theorem speculate (h : Takes source s n p x) : Takes source s n (Parse.speculate p) (some x) := by
  obtain ⟨t, hrun, hpast⟩ := h
  exact ⟨t, run_speculate_ok hrun, hpast⟩

/-- A loop whose first step gives nothing. -/
theorem stop {step : σ → Parse (Option σ)} {a : σ} (h : (step a).run source s = (.ok none, s)) :
    Takes source s 0 (iterate step a) a := by
  refine of_run ?_
  rw [iterate, run_bind_ok run_view, iterateFor, run_bind_ok h]
  rfl

/-! ### Tokens -/

theorem advance (h : (source.view s).kind 0 ≠ .eof) :
    Takes source s 1 Parse.advance ((source.view s).token 0) := by
  refine ⟨_, run_advance, ?_, rfl, Nat.le_refl _⟩
  rw [Source.advance_of_token h]
  rfl

theorem skip (h : (source.view s).kind 0 ≠ .eof) : Takes source s 1 Parse.skip () :=
  (advance h).andLast fun _ _ => .pure ()

theorem accept {k : TokenKind} (hk : (source.view s).kind 0 = k) (h : k ≠ .eof) :
    Takes source s 1 (Parse.accept k) true := by
  refine look (run_check k) ?_
  rw [hk, beq_self_eq_true]
  exact (skip (by rwa [hk])).andLast fun _ _ => .pure true

theorem acceptOther {k : TokenKind} (h : (source.view s).kind 0 ≠ k) :
    Takes source s 0 (Parse.accept k) false := by
  refine look (run_check k) ?_
  rw [beq_false_of_ne h]
  exact .pure false

theorem require {k : TokenKind} {place : String} (hk : (source.view s).kind 0 = k)
    (h : k ≠ .eof) : Takes source s 1 (Parse.require k place) ((source.view s).token 0) := by
  refine look (run_check k) ?_
  rw [hk, beq_self_eq_true]
  exact advance (by rwa [hk])

theorem skipOver {k : TokenKind} {place : String} (hk : (source.view s).kind 0 = k)
    (h : k ≠ .eof) : Takes source s 1 (Parse.skipOver k place) () :=
  (require hk h).andLast fun _ _ => .pure ()

theorem name {place text : String} (hk : (source.view s).kind 0 = .identifier)
    (htext : ((source.view s).token 0).text = text) : Takes source s 1 (Parse.name place) text := by
  refine (require hk (by decide)).andLast fun t _ => ?_
  rw [htext]
  exact .pure text

/-- A name with no `::` after it is a path by itself. -/
theorem qualifiedName {text : String} (hk : (source.view s).kind 0 = .identifier)
    (htext : ((source.view s).token 0).text = text) (h1 : (source.view s).kind 1 ≠ .colonColon) :
    Takes source s 1 Parse.qualifiedName text := by
  have hpath : Takes source s 1 (do iterate nameSegment ("" ++ (← Parse.name))) text := by
    refine (name hk htext).andLast fun t ht => ?_
    have hkt : (source.view t).kind 0 ≠ .colonColon := by
      rw [ht.kind]
      exact h1
    rw [String.empty_append]
    refine stop ?_
    unfold nameSegment
    rw [run_bind_ok (run_check _), beq_false_of_ne hkt, run_bind_ok (run_checkAhead _ _)]
    rfl
  refine look run_isCpp ?_
  split
  · have hscope : globalScope.run source s = (.ok "", s) := by
      unfold globalScope Parse.accept
      rw [bind_assoc, run_bind_ok (run_check _), beq_false_of_ne (by rw [hk]; decide)]
      rfl
    exact look hscope hpath
  · exact hpath

end Takes

end CTree
