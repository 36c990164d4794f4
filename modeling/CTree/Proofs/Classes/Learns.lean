import CTree.Proofs.Declarators.Values
import CTree.Proofs.Items

/-!
# Parsers that may learn names of types

A definition makes its name known. `Learns` says that a parser gives a value from a state, takes so many
tokens and reports nothing; which names of types are known afterwards is left open.
-/

namespace CTree

open Parse Lexeme

/-- The state `t` is so many tokens past the state `s`. Names of types may have been learnt, and nothing was
reported. -/
structure ParseState.Learnt (s : ParseState) (n : Nat) (t : ParseState) : Prop where
  position : t.cursor.position = s.cursor.position + n
  depth : t.cursor.depth = s.cursor.depth
  lenient : t.lenient = s.lenient
  diagnostics : t.diagnostics = s.diagnostics

/-- From the state `s` the parser gives the value, takes so many tokens, and reports nothing. -/
def Learns {α : Type} (source : Source) (s : ParseState) (n : Nat) (p : Parse α) (x : α) : Prop :=
  ∃ t, p.run source s = (.ok x, t) ∧ s.Learnt n t

variable {α β : Type} {source : Source} {s t u : ParseState} {n m d : Nat} {p : Parse α}
  {f : α → Parse β} {x : α} {y : β}

namespace ParseState.Learnt

theorem after (s : ParseState) (n : Nat) : s.Learnt n (s.after n) :=
  ⟨rfl, rfl, rfl, rfl⟩

theorem trans (h : s.Learnt n t) (h' : t.Learnt m u) : s.Learnt (n + m) u where
  position := by rw [h'.position, h.position, Nat.add_assoc]
  depth := h'.depth.trans h.depth
  lenient := h'.lenient.trans h.lenient
  diagnostics := h'.diagnostics.trans h.diagnostics

theorem sees (ws : List Lexeme) {ws' : List Lexeme} (h : s.Learnt ws.length t)
    (hsees : source.Sees s.cursor.position (ws ++ ws')) : source.Sees t.cursor.position ws' := by
  rw [h.position]
  exact (Source.sees_append.1 hsees).2

theorem hasRoom (h : s.Learnt n t) (hroom : source.HasRoom s d m) : source.HasRoom t d m :=
  ⟨hroom.grammar, by rw [h.depth]; exact hroom.depth⟩

end ParseState.Learnt

namespace Learns

theorem of_consumes (h : Consumes source s n p x) : Learns source s n p x :=
  ⟨_, h, .after s n⟩

protected theorem pure (x : α) : Learns source s 0 (pure x) x :=
  of_consumes (.pure x)

protected theorem bind (hp : Learns source s n p x)
    (hf : ∀ t, s.Learnt n t → Learns source t m (f x) y) : Learns source s (n + m) (p >>= f) y := by
  obtain ⟨t, hrun, hlearnt⟩ := hp
  obtain ⟨u, hrun', hlearnt'⟩ := hf t hlearnt
  exact ⟨u, (run_bind_ok hrun).trans hrun', hlearnt.trans hlearnt'⟩

/-- A sequence whose first part only looks. -/
theorem look (hp : p.run source s = (.ok x, s)) (hf : Learns source s n (f x) y) :
    Learns source s n (p >>= f) y := by
  obtain ⟨t, hrun, hlearnt⟩ := hf
  exact ⟨t, (run_bind_ok hp).trans hrun, hlearnt⟩

/-- A sequence whose second part takes nothing. -/
theorem andLast (hp : Learns source s n p x) (hf : ∀ t, s.Learnt n t → Learns source t 0 (f x) y) :
    Learns source s n (p >>= f) y :=
  hp.bind hf

/-- A nonterminal is its rule in one more construct. -/
theorem parse {r : Nonterminal α} (hroom : source.HasRoom s (d + 1) (m + 1))
    (h : ∀ s', s'.cursor.position = s.cursor.position → source.HasRoom s' d m →
      Learns source s' n ((Grammar.ofDepth d).rule r) x) :
    Learns source s n ((Grammar.ofDepth (d + 1)).parse r) x := by
  have hdepth := hroom.depth
  obtain ⟨t, hrun, hlearnt⟩ := h
    { s with cursor := { s.cursor with depth := s.cursor.depth + 1 } } rfl
    ⟨Nat.le_of_succ_le_succ hroom.grammar, by show s.cursor.depth + 1 + m ≤ _; omega⟩
  have hnested : ((Grammar.ofDepth (d + 1)).parse r).run source s =
      (.ok x, { t with cursor := t.cursor.exit }) := by
    show (nested _).run source s = _
    rw [run_nested, if_neg (by omega), hrun]
  refine ⟨_, hnested, hlearnt.position, ?_, hlearnt.lenient, hlearnt.diagnostics⟩
  show t.cursor.depth - 1 = s.cursor.depth
  rw [hlearnt.depth]
  rfl

/-- An attempt that takes a token is over. -/
theorem attempt (hn : 0 < n) (h : Learns source s n p x) : Learns source s n (attempt p) (some x) := by
  obtain ⟨t, hrun, hlearnt⟩ := h
  exact ⟨t, run_attempt_ok hrun (by rw [hlearnt.position]; omega), hlearnt⟩

end Learns

end CTree
