import CTree.Proofs.TypeNames.Start

/-!
# Parsers that do nothing but take tokens

`Consumes` says that a parser gives a value from a state and takes so many tokens, and that nothing else
changes. So what is known of the state still holds when the parser is done: the type names, the number of
open constructs and the flag are the same, and nothing was reported.
-/

namespace CTree

open Parse Lexeme

/-- From the state `s` the parser gives the value, takes so many tokens, and does nothing else. -/
def Consumes {α : Type} (source : Source) (s : ParseState) (n : Nat) (p : Parse α) (x : α) : Prop :=
  p.run source s = (.ok x, s.after n)

variable {α β σ : Type} {source : Source} {s : ParseState} {n m : Nat} {p : Parse α}
  {f : α → Parse β} {x : α} {y : β} {k : TokenKind} {ws ws' : List Lexeme} {w : Lexeme}

/-! ### What stands after lexemes -/

namespace Source.Sees

theorem after (ws : List Lexeme) (h : source.Sees s.cursor.position (ws ++ ws')) :
    source.Sees (s.after ws.length).cursor.position ws' :=
  (sees_append.1 h).2

/-- The kind of the token after lexemes. -/
theorem kindAfter (ws : List Lexeme) (h : source.Sees n (ws ++ w :: ws')) :
    source.kindAt (n + ws.length) = w.kind :=
  (sees_append.1 h).2.kindAt

theorem kind (h : source.Sees s.cursor.position (w :: ws)) : (source.view s).kind 0 = w.kind :=
  h.kindAt

theorem next (h : source.Sees s.cursor.position (w :: ws)) :
    source.Sees (s.after 1).cursor.position ws :=
  h.2.2

/-- The tokens of a run are the lexemes that stand there. -/
theorem between (h : source.Sees n ws) :
    (source.stream.between n (n + ws.length)).map Token.lexeme = ws := by
  induction ws generalizing n with
  | nil => simp [TokenStream.between]
  | cons w ws ih =>
    obtain ⟨hlt, hw, hws⟩ := h
    rw [source.stream.between_cons hlt (by simp), List.map_cons, hw, List.length_cons,
      ← Nat.add_assoc, Nat.add_right_comm, ih hws]

end Source.Sees

/-- There are no more lexemes than tokens left. -/
theorem Source.Sees.length_le_remaining (hsees : source.Sees (s.cursor.position + n) ws) :
    ws.length ≤ (source.view s).remaining := by
  have hremaining : (source.view s).remaining = source.stream.body.size + 1 - s.cursor.position := rfl
  cases ws with
  | nil => exact Nat.zero_le _
  | cons w ws =>
    have hle := hsees.le_size (Nat.le_of_lt hsees.1)
    omega

namespace View

/-- Lexemes of a class and one of another kind after them are passed up to the latter. -/
theorem past_of_sees {c : TokenKind → Bool}
    (hsees : source.Sees (s.cursor.position + n) ws) (hws : ∀ w ∈ ws, c w.kind = true)
    (hnext : c (source.kindAt (s.cursor.position + n + ws.length)) = false) :
    (source.view s).past c n = n + ws.length := by
  -- The fuel is enough as long as the lexemes are no more than the tokens left.
  have hfor (fuel : Nat) (hfuel : ws.length ≤ fuel) :
      (source.view s).pastFor c fuel n = n + ws.length := by
    induction ws generalizing n fuel with
    | nil =>
      cases fuel with
      | zero => rfl
      | succ fuel =>
        rw [pastFor, show (source.view s).kind n = source.kindAt (s.cursor.position + n + 0) from rfl,
          show c (source.kindAt (s.cursor.position + n + 0)) = false from hnext]
        rfl
    | cons w ws ih =>
      obtain ⟨fuel, rfl⟩ : ∃ i, fuel = i + 1 := ⟨fuel - 1, by rw [List.length_cons] at hfuel; omega⟩
      have hw : c ((source.view s).kind n) = true := by
        rw [show (source.view s).kind n = w.kind from hsees.kindAt]
        exact hws w List.mem_cons_self
      rw [pastFor, hw, if_pos rfl, ih (n := n + 1) hsees.2.2
        (fun v hv => hws v (List.mem_cons_of_mem _ hv)) (by rwa [List.length_cons, ← Nat.add_assoc,
          Nat.add_right_comm (s.cursor.position + n)] at hnext) fuel
        (by rw [List.length_cons] at hfuel; omega), List.length_cons]
      omega
  exact hfor _ hsees.length_le_remaining

end View

/-- Going back over tokens that were taken undoes everything. -/
theorem ParseState.after_backTo (s : ParseState) (n : Nat) : (s.after n).backTo s = s := by
  simp [backTo, after, atPosition, Cursor.reset]

theorem Parse.run_accept_of_ne (h : (source.view s).kind 0 ≠ k) :
    (accept k).run source s = (.ok false, s) := by
  unfold accept
  rw [run_bind_ok (run_check k), beq_false_of_ne h]
  rfl

/-! ### Sequences, constructs and attempts -/

namespace Consumes

protected theorem pure (x : α) : Consumes source s 0 (pure x) x := rfl

protected theorem bind (hp : Consumes source s n p x) (hf : Consumes source (s.after n) m (f x) y) :
    Consumes source s (n + m) (p >>= f) y := by
  rw [Consumes, run_bind_ok hp, hf, ParseState.after_after]

/-- A sequence whose first part only looks. -/
theorem look (hp : p.run source s = (.ok x, s)) (hf : Consumes source s n (f x) y) :
    Consumes source s n (p >>= f) y := by
  rw [Consumes, run_bind_ok hp, hf]

/-- A sequence whose second part takes nothing. -/
theorem andLast (hp : Consumes source s n p x) (hf : Consumes source (s.after n) 0 (f x) y) :
    Consumes source s n (p >>= f) y :=
  hp.bind hf

theorem withLeniency {lenient : Bool} (h : Consumes source { s with lenient } n p x) :
    Consumes source s n (withLeniency lenient p) x := by
  rw [Consumes, run_withLeniency, h]
  rfl

theorem nested (hroom : s.cursor.depth < source.settings.maxDepth)
    (h : Consumes source { s with cursor := { s.cursor with depth := s.cursor.depth + 1 } } n p x) :
    Consumes source s n (nested p) x := by
  rw [Consumes, run_nested, if_neg (Nat.not_le_of_lt hroom), h]
  rfl

theorem speculate (h : Consumes source s n p x) : Consumes source s n (speculate p) (some x) :=
  run_speculate_ok h

/-! ### Tokens -/

theorem skip (h : (source.view s).kind 0 ≠ .eof) : Consumes source s 1 skip () :=
  run_skip_of_token h

theorem advance (h : (source.view s).kind 0 ≠ .eof) :
    Consumes source s 1 advance ((source.view s).token 0) := by
  rw [Consumes, run_advance, Source.advance_of_token h]
  rfl

theorem accept (hk : (source.view s).kind 0 = k) (h : k ≠ .eof) :
    Consumes source s 1 (accept k) true := by
  refine look (run_check k) ?_
  rw [hk, beq_self_eq_true]
  exact (skip (by rwa [hk])).andLast (.pure true)

theorem skipOver {place : String} (hk : (source.view s).kind 0 = k) (h : k ≠ .eof) :
    Consumes source s 1 (skipOver k place) () :=
  Consumes.andLast (run_require_of_kind hk h) (.pure ())

theorem name {place text : String}
    (hsees : source.Sees s.cursor.position (Lexeme.name text :: ws)) :
    Consumes source s 1 (Parse.name place) text := by
  refine Consumes.andLast (run_require_of_kind hsees.kind (by decide)) ?_
  rw [show ((source.view s).token 0).text = text from hsees.text]
  exact .pure text

/-- Lexemes of a class are taken up to the first token of another kind. -/
theorem skipWhile {c : TokenKind → Bool} (hc : c .eof = false)
    (hsees : source.Sees s.cursor.position ws) (hws : ∀ w ∈ ws, c w.kind = true)
    (hnext : c (source.kindAt (s.cursor.position + ws.length)) = false) :
    Consumes source s ws.length (skipWhile c) () := by
  have hpast : (source.view s).past c 0 = 0 + ws.length := View.past_of_sees hsees hws hnext
  rw [Consumes, run_skipWhile hc, hpast, Nat.zero_add]

/-- Tokens of one spelling are taken up to the first token of another class. -/
theorem skipSpelled {c : TokenKind → Bool} {ks : List TokenKind} (hc : c .eof = false)
    (hks : ∀ k ∈ ks, c k = true) (hsees : source.Sees s.cursor.position (ks.map spelled))
    (hnext : c (source.kindAt (s.cursor.position + (ks.map spelled).length)) = false) :
    Consumes source s (ks.map spelled).length (Parse.skipWhile c) () := by
  refine skipWhile hc hsees (fun w hw => ?_) hnext
  obtain ⟨k, hk, rfl⟩ := List.mem_map.1 hw
  exact hks k hk

/-! ### Loops -/

theorem stopFor {step : σ → Parse (Option σ)} {a : σ} (h : (step a).run source s = (.ok none, s))
    (i : Nat) : Consumes source s 0 (iterateFor step (i + 1) a) a := by
  rw [Consumes, iterateFor, run_bind_ok h]
  rfl

/-- A loop whose first step gives nothing. -/
theorem stop {step : σ → Parse (Option σ)} {a : σ} (h : (step a).run source s = (.ok none, s)) :
    Consumes source s 0 (iterate step a) a :=
  look run_view (stopFor h _)

/-- The fuel of a loop is enough where each lexeme that is read takes a round. -/
theorem fuelled {p : Nat → Parse α} (hsees : source.Sees s.cursor.position ws)
    (h : ∀ i, ws.length < i → Consumes source s n (p i) x) :
    Consumes source s n (view >>= fun v => p (v.remaining + 1)) x :=
  look run_view (h _ (Nat.lt_succ_of_le (Source.Sees.length_le_remaining (n := 0) hsees)))

protected theorem iterate {step : σ → Parse (Option σ)} {a b : σ}
    (hsees : source.Sees s.cursor.position ws) (h : ∀ i, ws.length < i → Consumes source s n (iterateFor step i a) b) :
    Consumes source s n (iterate step a) b :=
  fuelled hsees h

protected theorem chain {item : σ → Parse α} {next : Parse σ} {a : σ} {xs : List α}
    (hsees : source.Sees s.cursor.position ws)
    (h : ∀ i, ws.length < i → Consumes source s n (chainFor item next i a) xs) :
    Consumes source s n (chain item next a) xs :=
  fuelled hsees h

/-- A name with no `::` after it is a path by itself. -/
theorem qualifiedName {text : String}
    (hsees : source.Sees s.cursor.position (Lexeme.name text :: ws))
    (h1 : (source.view s).kind 1 ≠ .colonColon) : Consumes source s 1 qualifiedName text := by
  have hpath : Consumes source s 1 (do iterate nameSegment ("" ++ (← Parse.name))) text := by
    refine (name hsees).andLast ?_
    rw [String.empty_append]
    refine stop ?_
    have hnext : (source.view (s.after 1)).kind 0 ≠ .colonColon := h1
    unfold nameSegment
    rw [run_bind_ok (run_check _), beq_false_of_ne hnext, run_bind_ok (run_checkAhead _ _)]
    rfl
  refine look run_isCpp ?_
  split
  · exact look (run_globalScope_of_name hsees.kind) hpath
  · exact hpath

end Consumes

end CTree
