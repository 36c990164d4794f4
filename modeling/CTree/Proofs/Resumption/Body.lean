import CTree.Proofs.Items
import CTree.Proofs.Resumption.Assignment

/-!
# Bodies with a statement that fails

A statement that fails is reported and skipped up to its `;`, however far it was read before it
failed. What it leaves behind is a diagnostic and perhaps some type names, and neither changes how the
assignments after it are read.
-/

namespace CTree

open Parse Lexeme

variable {α β : Type} {source : Source} {s t u : ParseState} {n m : Nat} {p : Parse α}
  {f : α → Parse β} {x : α} {y : β}

/-! ### Skipping -/

/-- The kinds that a skip to a boundary counts or stops at. -/
def TokenKind.bounds : TokenKind → Bool
  | .eof | .semicolon | .lbrace | .rbrace | .lparen | .rparen => true
  | _ => false

theorem Nesting.step_of_not_bounds (nesting : Nesting) {k : TokenKind} (h : k.bounds = false) :
    nesting.step k = .take nesting := by
  cases k <;> first | rfl | cases h

/-- A skip that begins at tokens without braces and parentheses ends after the first `;`. -/
theorem run_skipToBoundary {ws ws' : List Lexeme} {n : Nat} (hws : ∀ w ∈ ws, w.kind.bounds = false)
    (hfuel : ws.length < n)
    (hsees : source.Sees s.cursor.position (ws ++ spelled .semicolon :: ws')) :
    (skipToBoundary n {}).run source s = (.ok true, s.after (ws.length + 1)) := by
  induction ws generalizing s n with
  | nil =>
    obtain ⟨n, rfl⟩ : ∃ m, n = m + 1 := ⟨n - 1, by omega⟩
    have hk : (source.view s).kind 0 = .semicolon := hsees.kindAt
    rw [skipToBoundary, run_bind_ok run_kind, hk]
    show (skip >>= fun _ => pure true : Parse Bool).run source s = _
    rw [run_bind_ok run_skip, Source.advance_of_token (by rw [hk]; decide)]
    rfl
  | cons w ws ih =>
    obtain ⟨n, rfl⟩ : ∃ m, n = m + 1 := ⟨n - 1, by omega⟩
    obtain ⟨hw, hws⟩ := List.forall_mem_cons.1 hws
    have hk : (source.view s).kind 0 = w.kind := hsees.kindAt
    have htoken : (source.view s).kind 0 ≠ .eof := by
      intro heof
      rw [hk] at heof
      rw [heof] at hw
      cases hw
    rw [skipToBoundary, run_bind_ok run_kind, hk, Nesting.step_of_not_bounds _ hw]
    show (skip >>= fun _ => skipToBoundary n {} : Parse Bool).run source s = _
    rw [run_bind_ok run_skip, Source.advance_of_token htoken]
    rw [List.length_cons] at hfuel
    have hrest := ih (s := s.after 1) (n := n) hws (by omega) hsees.2.2
    rw [ParseState.after_after, Nat.add_comm 1] at hrest
    exact hrest

/-! ### What comes of a failure -/

/-- What comes of a parser depends on the cursor and the flag only, not on what was reported. -/
theorem Accounted.result_eq (h : Accounted source (fun _ => True) p) (hcursor : t.cursor = s.cursor)
    (hlenient : t.lenient = s.lenient) : (p.run source t).1 = (p.run source s).1 := by
  have hsame (u : ParseState) : (p.run source u).1 =
      (p.run source { u with diagnostics := #[] }).1 := by
    have hpreceded : u = ParseState.preceded u.diagnostics { u with diagnostics := #[] } := by
      simp [ParseState.preceded]
    have hrun := h.oblivious (s := { u with diagnostics := #[] }) trivial u.diagnostics
    rw [← hpreceded] at hrun
    rw [hrun]
  rw [hsame t, hsame s, hcursor, hlenient]

/-- The state `t` is so many tokens past the state `s`, and something more was reported. Type names may
    have been learnt. -/
structure ParseState.Resumed (s : ParseState) (n : Nat) (t : ParseState) : Prop where
  position : t.cursor.position = s.cursor.position + n
  depth : t.cursor.depth = s.cursor.depth
  lenient : t.lenient = s.lenient
  diagnostics : s.diagnostics.size < t.diagnostics.size

namespace ParseState.Resumed

theorem after_past (h : s.Past n t) (h' : t.Resumed m u) : s.Resumed (n + m) u where
  position := by rw [h'.position, h.position, Nat.add_assoc]
  depth := h'.depth.trans h.depth
  lenient := h'.lenient.trans h.lenient
  diagnostics := Nat.lt_of_le_of_lt h.diagnostics h'.diagnostics

theorem past (h : s.Resumed n t) (h' : t.Past m u) : s.Resumed (n + m) u where
  position := by rw [h'.position, h.position, Nat.add_assoc]
  depth := h'.depth.trans h.depth
  lenient := h'.lenient.trans h.lenient
  diagnostics := Nat.lt_of_lt_of_le h.diagnostics h'.diagnostics

theorem sees (ws : List Lexeme) {ws' : List Lexeme} (h : s.Resumed ws.length t)
    (hsees : source.Sees s.cursor.position (ws ++ ws')) : source.Sees t.cursor.position ws' := by
  rw [h.position]
  exact (Source.sees_append.1 hsees).2

end ParseState.Resumed

/-- An attempt that fails at tokens without braces and parentheses goes on after the first `;`. -/
theorem attempt_resumes {e : Failure} {ws ws' : List Lexeme} (hframe : Frame source s t)
    (hrun : p.run source s = (.error e, t)) (hws : ∀ w ∈ ws, w.kind.bounds = false)
    (hlimit : ws.length < source.settings.maxIterations)
    (hsees : source.Sees s.cursor.position (ws ++ spelled .semicolon :: ws')) :
    ∃ u, (attempt p).run source s = (.ok none, u) ∧ s.Resumed (ws.length + 1) u := by
  let back := backAt source e s.cursor.position t
  have hback : back.cursor.position = s.cursor.position := Nat.min_eq_left hframe.position
  have hsize : s.diagnostics.size < back.diagnostics.size := by
    have hle : s.diagnostics.size ≤ t.diagnostics.size := hframe.diagnostics.length_le
    show _ < (t.diagnostics.push _).size
    rw [Array.size_push]
    omega
  have hsync : synchronize.run source back = (.ok (), back.after (ws.length + 1)) := by
    unfold synchronize
    rw [run_bind_ok run_settings, run_bind_ok (run_skipToBoundary hws hlimit (by rwa [hback]))]
    rfl
  have hrecovered := run_recovering_failed hrun
  rw [show backAt source e s.cursor.position t = back from rfl, hsync] at hrecovered
  have hmoved : ¬ (back.after (ws.length + 1)).cursor.position = s.cursor.position := by
    rw [ParseState.position_after, hback]
    omega
  have hattempt := run_attempt hrecovered
  rw [if_neg hmoved] at hattempt
  refine ⟨_, hattempt, ?_, (hframe.backAt e).depth, (hframe.backAt e).lenient, hsize⟩
  rw [ParseState.position_after, hback]

/-! ### Bodies -/

/-- The lexemes of assignments, one after the other. -/
def IntAssignment.listLexemes (as : List IntAssignment) : List Lexeme :=
  as.flatMap lexemes

theorem IntAssignment.length_listLexemes (as : List IntAssignment) :
    (listLexemes as).length = 4 * as.length := by
  induction as with
  | nil => rfl
  | cons a as ih =>
    show (a.lexemes ++ listLexemes as).length = 4 * (as.length + 1)
    rw [List.length_append, ih, Nat.mul_succ, Nat.add_comm]
    rfl

/-- From the state `s` the parser gives the value, takes so many tokens, and reports something. -/
def Resumes (source : Source) (s : ParseState) (n : Nat) (p : Parse α) (x : α) : Prop :=
  ∃ t, p.run source s = (.ok x, t) ∧ s.Resumed n t

namespace Resumes

theorem after (hp : Takes source s n p x) (hf : ∀ t, s.Past n t → Resumes source t m (f x) y) :
    Resumes source s (n + m) (p >>= f) y := by
  obtain ⟨t, hrun, hpast⟩ := hp
  obtain ⟨u, hrun', hresumed⟩ := hf t hpast
  exact ⟨u, (run_bind_ok hrun).trans hrun', hresumed.after_past hpast⟩

protected theorem bind (hp : Resumes source s n p x)
    (hf : ∀ t, s.Resumed n t → Takes source t m (f x) y) : Resumes source s (n + m) (p >>= f) y := by
  obtain ⟨t, hrun, hresumed⟩ := hp
  obtain ⟨u, hrun', hpast⟩ := hf t hresumed
  exact ⟨u, (run_bind_ok hrun).trans hrun', hresumed.past hpast⟩

theorem look (hp : p.run source s = (.ok x, s)) (hf : Resumes source s n (f x) y) :
    Resumes source s n (p >>= f) y := by
  obtain ⟨t, hrun, hresumed⟩ := hf
  exact ⟨t, (run_bind_ok hp).trans hrun, hresumed⟩

/-- A sequence whose second part gives a value at once. -/
theorem andPure (hp : Resumes source s n p x) (hf : f x = pure y) :
    Resumes source s n (p >>= f) y :=
  hp.bind (m := 0) fun _ _ => by rw [hf]; exact .pure y

theorem strictly (hs : s.lenient = false) (h : Resumes source s n p x) :
    Resumes source s n (Parse.strictly p) x := by
  obtain ⟨t, hrun, hresumed⟩ := h
  have hstate : ({ s with lenient := false } : ParseState) = s := by rw [← hs]
  rw [Resumes, Parse.strictly, run_withLeniency, hstate, hrun]
  exact ⟨_, rfl, hresumed.position, hresumed.depth, rfl, hresumed.diagnostics⟩

/-- An attempt that gives a value past a token is over. -/
theorem attempt (hn : 0 < n) (h : Resumes source s n p x) :
    Resumes source s n (Parse.attempt p) (some x) := by
  obtain ⟨t, hrun, hresumed⟩ := h
  exact ⟨t, run_attempt_ok hrun (by rw [hresumed.position]; omega), hresumed⟩

end Resumes

theorem Takes.attempt (hn : 0 < n) (h : Takes source s n p x) :
    Takes source s n (Parse.attempt p) (some x) := by
  obtain ⟨t, hrun, hpast⟩ := h
  exact ⟨t, run_attempt_ok hrun (by rw [hpast.position]; omega), hpast⟩

namespace Takes

variable {as : List IntAssignment} {a : IntAssignment} {ws : List Lexeme} {d c k : Nat}

/-- A round of a body reads an assignment. -/
theorem statementRound (ha : a.IsPlain) (hlenient : s.lenient = false)
    (hroom : s.cursor.depth + 3 ≤ source.settings.maxDepth)
    (hcount : c < source.settings.maxStatements)
    (hsees : source.Sees s.cursor.position (a.lexemes ++ ws)) :
    Takes source s 4 ((Grammar.ofDepth (d + 3)).statementRound (· == .rbrace) c)
      (some ([a.stmt], c + 1)) := by
  refine look run_kind ?_
  rw [show (source.view s).kind 0 = .identifier from hsees.kindAt]
  refine look run_settings ?_
  rw [if_neg (Nat.not_le_of_lt hcount)]
  exact ((statement ha hlenient hroom hsees).attempt (by decide)).andLast fun _ _ => .pure _

/-- Rounds of a body read assignments, whatever comes after them. -/
theorem statementRounds (has : ∀ a ∈ as, a.IsPlain) (hlenient : s.lenient = false)
    (hroom : s.cursor.depth + 3 ≤ source.settings.maxDepth)
    (hcount : c + as.length ≤ source.settings.maxStatements)
    (hsees : source.Sees s.cursor.position (IntAssignment.listLexemes as ++ ws)) :
    ∃ t, s.Past (4 * as.length) t ∧ ∀ {k xs u},
      (roundsFor ((Grammar.ofDepth (d + 3)).statementRound (· == .rbrace)) k
        (c + as.length)).run source t = (.ok xs, u) →
      (roundsFor ((Grammar.ofDepth (d + 3)).statementRound (· == .rbrace)) (as.length + k)
        c).run source s = (.ok (as.map IntAssignment.stmt ++ xs), u) := by
  induction as generalizing s c with
  | nil => exact ⟨s, .refl s, fun h => by rwa [List.length_nil, Nat.zero_add]⟩
  | cons a as ih =>
    obtain ⟨ha, has⟩ := List.forall_mem_cons.1 has
    rw [List.length_cons] at hcount
    have hfirst : source.Sees s.cursor.position
        (a.lexemes ++ (IntAssignment.listLexemes as ++ ws)) := by
      rwa [← List.append_assoc]
    obtain ⟨t, hrun, ht⟩ := statementRound (d := d) (c := c) ha hlenient hroom (by omega)
      hfirst
    obtain ⟨u, hu, hrounds⟩ := ih (s := t) (c := c + 1) has (ht.lenient.trans hlenient)
      (by rwa [ht.depth]) (by omega) (ht.sees a.lexemes hfirst)
    have hsum : 4 + 4 * as.length = 4 * (a :: as).length := by
      rw [List.length_cons]
      omega
    refine ⟨u, hsum ▸ ht.trans hu, fun {k xs v} hrest => ?_⟩
    rw [List.length_cons, Nat.add_comm as.length, ← Nat.add_assoc] at hrest
    have hmore := hrounds hrest
    rw [List.length_cons, Nat.add_right_comm, roundsFor, run_bind_ok hrun]
    exact run_bind_ok hmore

/-- The brace that closes a body ends its rounds. -/
theorem statementRounds_end (hsees : source.Sees s.cursor.position (spelled .rbrace :: ws)) :
    Takes source s 0 (roundsFor ((Grammar.ofDepth (d + 3)).statementRound (· == .rbrace))
      (k + 1) c) [] := by
  refine look (x := none) ?_ (.pure [])
  unfold Grammar.statementRound
  rw [run_bind_ok run_kind, show (source.view s).kind 0 = .rbrace from hsees.kindAt]
  rfl

end Takes

/-- From the state `s` a statement fails. -/
def StatementFails (source : Source) (d : Nat) (s : ParseState) : Prop :=
  ∃ e, (((Grammar.ofDepth d).parse .statement).run source s).1 = .error e

/-- Whether a statement fails does not depend on what was reported before. -/
theorem StatementFails.of_past {d : Nat} (h : StatementFails source d (s.after (n + m)))
    (ht : s.Past n t) : StatementFails source d (t.after m) := by
  have haccounted : Accounted source (fun _ => True) ((Grammar.ofDepth d).parse .statement) :=
    ((Grammar.ofDepth_framed source d).parseStatement (k := 0)).toAccounted
  have hcursor : (t.after m).cursor = (s.after (n + m)).cursor := by
    rw [← ParseState.after_after]
    simp only [ParseState.after, ParseState.atPosition, ht.cursor]
  obtain ⟨e, he⟩ := h
  exact ⟨e, (haccounted.result_eq hcursor ht.lenient).trans he⟩

namespace Resumes

variable {as bs : List IntAssignment} {ws ws' : List Lexeme} {d c : Nat}

/-- A round of a body that fails gives nothing, and is not counted. -/
theorem statementRound (hfails : StatementFails source d s) (hne : ws ≠ [])
    (hws : ∀ w ∈ ws, w.kind.bounds = false) (hcount : c < source.settings.maxStatements)
    (hlimit : ws.length < source.settings.maxIterations)
    (hsees : source.Sees s.cursor.position (ws ++ spelled .semicolon :: ws')) :
    Resumes source s (ws.length + 1)
      ((Grammar.ofDepth d).statementRound (· == .rbrace) c) (some ([], c)) := by
  obtain ⟨w, ws, rfl⟩ := List.exists_cons_of_ne_nil hne
  have hw : w.kind.bounds = false := hws w List.mem_cons_self
  have hk : (source.view s).kind 0 = w.kind := hsees.kindAt
  have hgoes : (w.kind == .eof || w.kind == .rbrace) = false := by
    generalize w.kind = k at hw
    cases k <;> first | rfl | cases hw
  obtain ⟨e, he⟩ := hfails
  have hframe : Frame source s (((Grammar.ofDepth d).parse .statement).run source s).2 :=
    (parserFrames source d).nonterminals .statement s
  have hattempt : Resumes source s ((w :: ws).length + 1)
      (Parse.attempt ((Grammar.ofDepth d).parse .statement)) none :=
    attempt_resumes hframe (Prod.ext he rfl) hws hlimit hsees
  refine look run_kind ?_
  rw [hk, hgoes]
  refine look run_settings ?_
  rw [if_neg (Nat.not_le_of_lt hcount)]
  exact hattempt.andPure rfl

/-- A body whose statements are assignments, but for one that fails, has the assignments. -/
theorem statements (has : ∀ a ∈ as ++ bs, a.IsPlain) (hlenient : s.lenient = false)
    (hroom : s.cursor.depth + 3 ≤ source.settings.maxDepth)
    (hinside : s.cursor.position ≤ source.stream.body.size)
    (hfails : StatementFails source (d + 3) (s.after (4 * as.length))) (hne : ws ≠ [])
    (hws : ∀ w ∈ ws, w.kind.bounds = false)
    (hmany : as.length + bs.length < source.settings.maxStatements)
    (hlimit : ws.length < source.settings.maxIterations)
    (hsees : source.Sees s.cursor.position (IntAssignment.listLexemes as ++
      (ws ++ spelled .semicolon :: (IntAssignment.listLexemes bs ++ spelled .rbrace :: ws')))) :
    Resumes source s (4 * as.length + (ws.length + 1 + 4 * bs.length))
      ((Grammar.ofDepth (d + 3)).statements (· == .rbrace))
      ((as ++ bs).map IntAssignment.stmt) := by
  obtain ⟨has, hbs⟩ := List.forall_mem_append.1 has
  have hlength := IntAssignment.length_listLexemes as
  -- the assignments before the failure
  obtain ⟨t, ht, hbefore⟩ := Takes.statementRounds (d := d) (c := 0) has hlenient hroom
    (by omega) hsees
  have hseest := (hlength ▸ ht).sees _ hsees
  -- the failure
  have hfailst : StatementFails source (d + 3) t := hfails.of_past (m := 0) ht
  obtain ⟨u, hround, hu⟩ := statementRound (c := as.length) hfailst hne hws (by omega) hlimit
    hseest
  have hseesu : source.Sees u.cursor.position
      (IntAssignment.listLexemes bs ++ spelled .rbrace :: ws') := by
    refine ParseState.Resumed.sees (ws ++ [spelled .semicolon]) ?_ (by simpa using hseest)
    rwa [List.length_append]
  -- the assignments after it
  obtain ⟨v, hv, hafter⟩ := Takes.statementRounds (d := d) (s := u) (c := as.length) hbs
    (by rw [hu.lenient, ht.lenient, hlenient]) (by rwa [hu.depth, ht.depth]) (by omega) hseesu
  have hseesv := ((IntAssignment.length_listLexemes bs) ▸ hv).sees _ hseesu
  have hfuel : ∃ k, (source.view s).remaining + 1 = as.length + (bs.length + (k + 1) + 1) := by
    have hle := hsees.le_size hinside
    have hlength' := IntAssignment.length_listLexemes bs
    simp only [List.length_append, List.length_cons] at hle
    have hremaining : (source.view s).remaining =
        source.stream.body.size + 1 - s.cursor.position := rfl
    exact ⟨source.stream.body.size - s.cursor.position - as.length - bs.length, by omega⟩
  obtain ⟨k, hk⟩ := hfuel
  obtain ⟨w, hend, hw⟩ := Takes.statementRounds_end (d := d) (c := as.length + bs.length)
    (k := k) hseesv
  have hrest := hafter hend
  refine ⟨w, ?_, (hu.past (hv.trans hw)).after_past ht⟩
  unfold Grammar.statements rounds
  rw [run_bind_ok run_view, hk]
  have hall := @hbefore (bs.length + (k + 1) + 1) ([] ++ (bs.map IntAssignment.stmt ++ [])) w ?_
  · rwa [List.nil_append, List.append_nil, ← List.map_append] at hall
  · rw [Nat.zero_add, roundsFor, run_bind_ok hround]
    exact run_bind_ok hrest

end Resumes

end CTree
