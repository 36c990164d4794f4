import CTree.Proofs.Boundaries
import CTree.Proofs.Declarators.Values
import CTree.Proofs.Declarators.Variables
import CTree.Proofs.Items

/-!
# Parsers that fail after so many tokens

`Aborts` says which failure comes of a parser, and that all it did before was to take tokens. A ceiling that is
reached is such a failure. It passes through everything that encloses it, up to the attempt at an item,
which reports it and skips the item.
-/

namespace CTree

open Parse Lexeme

/-- From the state `s` the parser fails for the given reason, and all it did was to take so many tokens. -/
def Aborts {α : Type} (source : Source) (s : ParseState) (n : Nat) (p : Parse α) (e : Failure) : Prop :=
  p.run source s = (.error e, s.after n)

variable {α β : Type} {source : Source} {s t : ParseState} {n m d : Nat} {p : Parse α}
  {f : α → Parse β} {x : α} {e : Failure} {g : Grammar} {w : Lexeme} {ws ws' : List Lexeme}

/-! ### Rules -/

namespace Aborts

/-- A sequence fails where its first part does. -/
protected theorem bind (hp : Aborts source s n p e) : Aborts source s n (p >>= f) e :=
  run_bind_error hp

/-- A sequence whose first part only looks. -/
theorem look (hp : p.run source s = (.ok x, s)) (hf : Aborts source s n (f x) e) :
    Aborts source s n (p >>= f) e :=
  (run_bind_ok hp).trans hf

/-- A sequence whose second part fails after tokens were taken. -/
theorem after (hp : Consumes source s n p x) (hf : Aborts source (s.after n) m (f x) e) :
    Aborts source s (n + m) (p >>= f) e := by
  rw [Aborts, run_bind_ok hp, hf, ParseState.after_after]

theorem withLeniency {lenient : Bool} (h : Aborts source { s with lenient } n p e) :
    Aborts source s n (withLeniency lenient p) e := by
  rw [Aborts, run_withLeniency, h]
  rfl

theorem nested (hroom : s.cursor.depth < source.settings.maxDepth)
    (h : Aborts source { s with cursor := { s.cursor with depth := s.cursor.depth + 1 } } n p e) :
    Aborts source s n (nested p) e := by
  rw [Aborts, run_nested, if_neg (Nat.not_le_of_lt hroom), h]
  rfl

/-- A loop fails where its first step does. -/
theorem iterate {σ : Type} {step : σ → Parse (Option σ)} {a : σ} (h : Aborts source s n (step a) e) :
    Aborts source s n (iterate step a) e :=
  look run_view h.bind

/-- Where no construct may be opened, a nonterminal fails. -/
theorem parse_zero (r : Nonterminal α) : Aborts source s 0 ((Grammar.ofDepth 0).parse r)
    ⟨.tooDeep source.settings.maxDepth, (source.stream.get s.cursor.position).offset⟩ := rfl

end Aborts

/-! ### Skipping what failed -/

/-- Before a token of one kind a skip ends in one way. -/
theorem Boundary.unique {ks : List TokenKind} {k : TokenKind} {taken taken' : Bool}
    (h : Boundary ks k taken) (h' : Boundary ks k taken') : taken = taken' := by
  cases h with
  | semicolon => cases h'; rfl
  | eof => cases h'; rfl
  | closing h =>
    cases h' with
    | closing => rfl
    | enclosing heven =>
      rw [BracesEven] at heven
      omega
  | enclosing heven =>
    cases h' with
    | enclosing => rfl
    | closing h =>
      rw [BracesEven] at heven
      omega

/-- No kind but these three ends a skip. -/
theorem Boundary.kind_mem {ks : List TokenKind} {k : TokenKind} {taken : Bool}
    (h : Boundary ks k taken) : k ∈ [.semicolon, .rbrace, .eof] := by
  cases h <;> decide

theorem Source.Sees.kindsFrom (h : source.Sees n (ws ++ ws')) :
    source.kindsFrom n ws.length = ws.map Lexeme.kind := by
  induction ws using List.reverseRecOn generalizing ws' with
  | nil => rfl
  | append_singleton ws w ih =>
    rw [List.append_assoc] at h
    rw [List.length_append, List.length_singleton, Source.kindsFrom_succ, ih h, h.kindAfter ws,
      List.map_append]
    rfl

/-- The lexemes up to the first boundary are those that a skip takes. -/
structure Skips (ws : List Lexeme) (w : Lexeme) (taken : Bool) : Prop where
  boundary : Boundary (ws.map Lexeme.kind) w.kind taken
  first : ∀ pre v post, ws = pre ++ v :: post → ∀ taken', ¬ Boundary (pre.map Lexeme.kind) v.kind taken'

namespace Skips

variable {taken : Bool}

/-- Lexemes none of which ends a skip are taken up to the first that does. -/
theorem of_forall (hboundary : Boundary (ws.map Lexeme.kind) w.kind taken)
    (h : ∀ v ∈ ws, v.kind ∉ [.semicolon, .rbrace, .eof]) : Skips ws w taken where
  boundary := hboundary
  first := by
    rintro pre v post rfl taken' hv
    exact h v (List.mem_append_right _ List.mem_cons_self) hv.kind_mem

theorem run_synchronize (h : Skips ws w taken) (hlimit : ws.length < source.settings.maxIterations)
    (hsees : source.Sees s.cursor.position (ws ++ w :: ws')) :
    synchronize.run source s = (.ok (), s.after (ws.length + taken.toNat)) := by
  have hat : source.BoundaryAt s.cursor.position ws.length taken := by
    rw [Source.BoundaryAt, hsees.kindsFrom, hsees.kindAfter ws]
    exact h.boundary
  have hbefore : ∀ m < ws.length, ∀ taken', ¬ source.BoundaryAt s.cursor.position m taken' := by
    intro m hm taken' hboundary
    obtain ⟨pre, v, post, rfl, rfl⟩ : ∃ pre v post, ws = pre ++ v :: post ∧ pre.length = m := by
      refine ⟨ws.take m, ws[m], ws.drop (m + 1), ?_, List.length_take_of_le (Nat.le_of_lt hm)⟩
      rw [← List.drop_eq_getElem_cons hm, List.take_append_drop]
    rw [List.append_assoc, List.cons_append] at hsees
    rw [Source.BoundaryAt, hsees.kindsFrom, hsees.kindAfter pre] at hboundary
    exact h.first pre v post rfl taken' hboundary
  obtain ⟨t, hrun, hends, -⟩ := run_synchronize_firstBoundary source s
  rcases hends with ⟨n, taken', -, hfound, hfirst, rfl⟩ | ⟨hnone, -⟩
  · obtain rfl : n = ws.length := by
      rcases Nat.lt_trichotomy n ws.length with hlt | heq | hgt
      · exact (hbefore n hlt taken' hfound).elim
      · exact heq
      · exact (hfirst ws.length hgt taken hat).elim
    rw [hrun, hat.unique hfound]
  · exact (hnone ws.length hlimit taken hat).elim

/-- An attempt that aborts reports why, and goes on after the first boundary. -/
theorem run_attempt (h : Skips ws w taken) (hne : ws ≠ []) (hp : Aborts source s n p e)
    (hlimit : ws.length < source.settings.maxIterations)
    (hsees : source.Sees s.cursor.position (ws ++ w :: ws')) : (attempt p).run source s =
      (.ok none, (s.record (Diagnostic.ofFailure source.text e)).after (ws.length + taken.toNat)) := by
  have hback : backAt source e s.cursor.position (s.after n) =
      s.record (Diagnostic.ofFailure source.text e) := by
    have hposition : min s.cursor.position (s.cursor.position + n) = s.cursor.position := by omega
    simp only [backAt, ParseState.record, ParseState.after, ParseState.atPosition, Cursor.rewind,
      Cursor.reset, hposition]
  have hrecovered := run_recovering_failed hp
  rw [hback, h.run_synchronize (s := s.record _) hlimit hsees] at hrecovered
  have hmoved : ¬ ((s.record (Diagnostic.ofFailure source.text e)).after
      (ws.length + taken.toNat)).cursor.position = s.cursor.position := by
    have hpos := List.length_pos_iff.2 hne
    rw [ParseState.position_after]
    show ¬ s.cursor.position + _ = s.cursor.position
    omega
  rw [Parse.run_attempt hrecovered, if_neg hmoved]

end Skips

end CTree
