import CTree.Proofs.Declarators.Consumes

/-!
# Parsers that fail without a trace

`Refuses` says that a parser fails from a state, that no ceiling is the reason, and that it did nothing
before but take tokens. An attempt at such a parser gives nothing and leaves the state as it was.
`ConsumesIf` says of a parser that it does the one or the other: it takes tokens and gives a value if a
condition holds, and fails otherwise.
-/

namespace CTree

open Parse

/-- From the state `s` the parser fails, not for a ceiling, and all it did was to take tokens. -/
def Refuses {α : Type} (source : Source) (s : ParseState) (p : Parse α) : Prop :=
  ∃ e n, e.isFatal = false ∧ p.run source s = (.error e, s.after n)

/-- From the state `s` the parser takes so many tokens and gives the value if the condition holds, and fails
otherwise. -/
def ConsumesIf {α : Type} (b : Bool) (source : Source) (s : ParseState) (n : Nat) (p : Parse α)
    (x : α) : Prop :=
  if b then Consumes source s n p x else Refuses source s p

variable {α β : Type} {source : Source} {s : ParseState} {n m : Nat} {p : Parse α} {f : α → Parse β}
  {x : α} {y : β} {b c : Bool} {k : TokenKind}

namespace Refuses

theorem expected (what : String) : Refuses source s (Parse.expected what : Parse α) :=
  ⟨_, 0, rfl, run_expected what⟩

theorem unexpected (message : String) : Refuses source s (Parse.unexpected message : Parse α) :=
  ⟨_, 0, rfl, run_unexpected message⟩

/-- A sequence fails where its first part does. -/
protected theorem bind (hp : Refuses source s p) : Refuses source s (p >>= f) := by
  obtain ⟨e, n, he, hrun⟩ := hp
  exact ⟨e, n, he, run_bind_error hrun⟩

/-- A sequence whose first part only looks. -/
theorem look (hp : p.run source s = (.ok x, s)) (hf : Refuses source s (f x)) :
    Refuses source s (p >>= f) := by
  obtain ⟨e, n, he, hrun⟩ := hf
  exact ⟨e, n, he, (run_bind_ok hp).trans hrun⟩

/-- A sequence whose second part fails after tokens were taken. -/
theorem after (hp : Consumes source s n p x) (hf : Refuses source (s.after n) (f x)) :
    Refuses source s (p >>= f) := by
  obtain ⟨e, m, he, hrun⟩ := hf
  refine ⟨e, n + m, he, ?_⟩
  rw [run_bind_ok hp, hrun, ParseState.after_after]

theorem withLeniency {lenient : Bool} (h : Refuses source { s with lenient } p) :
    Refuses source s (withLeniency lenient p) := by
  obtain ⟨e, m, he, hrun⟩ := h
  refine ⟨e, m, he, ?_⟩
  rw [run_withLeniency, hrun]
  rfl

/-- Where a token of another kind stands, it is not the one that is required. -/
theorem require {place : String} (h : (source.view s).kind 0 ≠ k) :
    Refuses source s (Parse.require k place) := by
  refine look (run_check k) ?_
  rw [beq_false_of_ne h]
  exact expected _

theorem skipOver {place : String} (h : (source.view s).kind 0 ≠ k) :
    Refuses source s (Parse.skipOver k place) :=
  (require h).bind

/-- An attempt gives nothing. -/
theorem speculate (h : Refuses source s p) : (speculate p).run source s = (.ok none, s) := by
  obtain ⟨e, n, he, hrun⟩ := h
  rw [run_speculate_error hrun, he, ParseState.after_backTo]
  rfl

end Refuses

namespace ConsumesIf

theorem of_consumes (h : Consumes source s n p x) : ConsumesIf true source s n p x := h

/-- A sequence whose first part only looks. -/
theorem look (hp : p.run source s = (.ok x, s)) (hf : ConsumesIf b source s n (f x) y) :
    ConsumesIf b source s n (p >>= f) y := by
  cases b with
  | true => exact Consumes.look hp hf
  | false => exact Refuses.look hp hf

/-- A sequence whose first part takes tokens in any case. -/
theorem after (hp : Consumes source s n p x) (hf : ConsumesIf b source (s.after n) m (f x) y) :
    ConsumesIf b source s (n + m) (p >>= f) y := by
  cases b with
  | true => exact Consumes.bind hp hf
  | false => exact Refuses.after hp hf

/-- A sequence fails if either part does. -/
protected theorem bind (hp : ConsumesIf b source s n p x)
    (hf : ConsumesIf c source (s.after n) m (f x) y) :
    ConsumesIf (b && c) source s (n + m) (p >>= f) y := by
  cases b with
  | true => exact after hp hf
  | false => exact Refuses.bind hp

/-- A sequence whose second part does not fail. -/
theorem followed (hp : ConsumesIf b source s n p x) (hf : Consumes source (s.after n) m (f x) y) :
    ConsumesIf b source s (n + m) (p >>= f) y := by
  have h := hp.bind (of_consumes hf)
  rwa [Bool.and_true] at h

/-- A sequence whose second part takes nothing. -/
theorem andLast (hp : ConsumesIf b source s n p x) (hf : Consumes source (s.after n) 0 (f x) y) :
    ConsumesIf b source s n (p >>= f) y :=
  hp.followed hf

theorem withLeniency {lenient : Bool} (h : ConsumesIf b source { s with lenient } n p x) :
    ConsumesIf b source s n (withLeniency lenient p) x := by
  cases b with
  | true => exact Consumes.withLeniency h
  | false => exact Refuses.withLeniency h

/-- An attempt gives the value if the condition holds, and nothing otherwise. -/
theorem speculate (h : ConsumesIf b source s n p x) : (speculate p).run source s =
    if b then (.ok (some x), s.after n) else (.ok none, s) := by
  cases b with
  | true => exact Consumes.speculate h
  | false => exact Refuses.speculate h

end ConsumesIf

end CTree
