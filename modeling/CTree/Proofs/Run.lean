import CTree.Parse.Session

/-!
# What comes of a parser

The outcome of each basic parser, as an equation on `Parse.run`. Nothing after this file looks
below `run`: a parser made of others is followed through the equations of its parts.
-/

namespace CTree

namespace Parse

variable {α β : Type} {source : Source} {s t : ParseState} {p : Parse α} {f : α → Parse β}

/-! ### Sequences -/

@[simp]
theorem run_pure (x : α) : (pure x : Parse α).run source s = (.ok x, s) := rfl

@[simp]
theorem run_throw (e : Failure) : (throw e : Parse α).run source s = (.error e, s) := rfl

/-- A sequence goes on from the value and the state of its first part, and fails where that
    fails. -/
theorem run_bind (p : Parse α) (f : α → Parse β) : (p >>= f).run source s =
    match p.run source s with
    | (.ok x, t) => (f x).run source t
    | (.error e, t) => (.error e, t) := by
  simp only [run, bind, ReaderT.bind, ExceptT.bind, ExceptT.mk, StateT.bind, ExceptT.bindCont]
  rcases p source s with ⟨_ | x, t⟩ <;> rfl

theorem run_bind_ok {x : α} (h : p.run source s = (.ok x, t)) :
    (p >>= f).run source s = (f x).run source t := by
  rw [run_bind, h]

theorem run_bind_error {e : Failure} (h : p.run source s = (.error e, t)) :
    (p >>= f).run source s = (.error e, t) := by
  rw [run_bind, h]

/-- A sequence that gives a value has a first part that gives one. -/
theorem exists_of_run_bind {y : β} (h : (p >>= f).run source s = (.ok y, t)) :
    ∃ x u, p.run source s = (.ok x, u) ∧ (f x).run source u = (.ok y, t) := by
  rcases hp : p.run source s with ⟨e | x, u⟩
  · rw [run_bind_error hp] at h
    cases h
  · rw [run_bind_ok hp] at h
    exact ⟨x, u, rfl, h⟩

/-- A sequence fails in its first part or after it. -/
theorem of_run_bind_error {e : Failure} (h : (p >>= f).run source s = (.error e, t)) :
    p.run source s = (.error e, t) ∨
      ∃ x u, p.run source s = (.ok x, u) ∧ (f x).run source u = (.error e, t) := by
  rcases hp : p.run source s with ⟨e' | x, u⟩
  · rw [run_bind_error hp] at h
    cases h
    exact .inl rfl
  · rw [run_bind_ok hp] at h
    exact .inr ⟨x, u, rfl, h⟩

/-- A value that a parser gives is given in some state. -/
theorem run_of_toOption {x : α} (h : (p.run source s).1.toOption = some x) :
    p.run source s = (.ok x, (p.run source s).2) := by
  rcases hrun : p.run source s with ⟨e | y, t⟩
  · rw [hrun] at h
    cases h
  · rw [hrun] at h
    cases h
    rfl

theorem map_eq_bind (g : α → β) (p : Parse α) : g <$> p = p >>= fun x => pure (g x) := rfl

/-! ### Looking -/

@[simp]
theorem run_view : view.run source s = (.ok (source.view s), s) := rfl

@[simp]
theorem run_kind : kind.run source s = (.ok ((source.view s).kind 0), s) := rfl

@[simp]
theorem run_kindAhead (n : Nat) :
    (kindAhead n).run source s = (.ok ((source.view s).kind n), s) := rfl

@[simp]
theorem run_check (k : TokenKind) :
    (check k).run source s = (.ok ((source.view s).kind 0 == k), s) := rfl

@[simp]
theorem run_checkAhead (n : Nat) (k : TokenKind) :
    (checkAhead n k).run source s = (.ok ((source.view s).kind n == k), s) := rfl

@[simp]
theorem run_isCpp : isCpp.run source s = (.ok (source.view s).isCpp, s) := rfl

@[simp]
theorem run_lookAhead (question : Nat → View → α) : (lookAhead question).run source s =
    (.ok (question source.settings.maxLookahead (source.view s)), s) := rfl

@[simp]
theorem run_position : position.run source s = (.ok s.cursor.position, s) := rfl

@[simp]
theorem run_settings : settings.run source s = (.ok source.settings, s) := rfl

@[simp]
theorem run_atEnd : atEnd.run source s = (.ok ((source.view s).kind 0 == .eof), s) := rfl

theorem run_textSince (start : Nat) : (textSince start).run source s =
    (.ok (Token.join (source.stream.between start s.cursor.position)), s) := rfl

/-! ### Failing, reporting and moving -/

theorem run_expected (what : String) : (expected what : Parse α).run source s =
    (.error ⟨.expected what ((source.view s).token 0).describe, ((source.view s).token 0).offset⟩,
      s) := rfl

theorem run_unexpected (message : String) : (unexpected message : Parse α).run source s =
    (.error ⟨.unexpected message, ((source.view s).token 0).offset⟩, s) := rfl

theorem run_exhaustion (limit : Nat) (loop : Loop) : (exhaustion limit loop).run source s =
    (.ok ⟨.tooMany limit loop, ((source.view s).token 0).offset⟩, s) := rfl

theorem run_report (e : Failure) : (report e).run source s =
    (.ok (), s.record (Diagnostic.ofFailure source.text e)) := rfl

theorem run_advance : advance.run source s =
    (.ok ((source.view s).token 0), { s with cursor := s.cursor.advance source.stream }) := rfl

theorem run_skip : skip.run source s =
    (.ok (), { s with cursor := s.cursor.advance source.stream }) := rfl

theorem run_register (name : String) : (register name).run source s =
    (.ok (), { s with cursor := s.cursor.register name }) := rfl

theorem run_modify (f : ParseState → ParseState) :
    (modify f : Parse Unit).run source s = (.ok (), f s) := rfl

/-! ### Combining -/

theorem run_withLeniency (lenient : Bool) (p : Parse α) : (withLeniency lenient p).run source s =
    ((p.run source { s with lenient }).1,
      { (p.run source { s with lenient }).2 with lenient := s.lenient }) := rfl

theorem run_speculate_ok {x : α} (h : p.run source s = (.ok x, t)) :
    (speculate p).run source s = (.ok (some x), t) := by
  simp only [run] at h
  simp only [run, speculate, h]

theorem run_speculate_error {e : Failure} (h : p.run source s = (.error e, t)) :
    (speculate p).run source s = (if e.isFatal then .error e else .ok none, t.backTo s) := by
  simp only [run] at h
  simp only [run, speculate, h]

/-- An attempt that gives a value is one that succeeds. -/
theorem of_run_speculate {x : α} (h : (speculate p).run source s = (.ok (some x), t)) :
    p.run source s = (.ok x, t) := by
  rcases hrun : p.run source s with ⟨e | y, u⟩
  · rw [run_speculate_error hrun] at h
    obtain ⟨h, -⟩ := Prod.mk.inj h
    split at h <;> cases h
  · rw [run_speculate_ok hrun] at h
    cases h
    rfl

/-- Inside one more construct a parser starts one deeper, and what it leaves is one less deep. -/
theorem run_nested (p : Parse α) : (nested p).run source s =
    if source.settings.maxDepth ≤ s.cursor.depth then
      (.error ⟨.tooDeep source.settings.maxDepth, ((source.view s).token 0).offset⟩, s)
    else
      let r := p.run source { s with cursor := { s.cursor with depth := s.cursor.depth + 1 } }
      (r.1, { r.2 with cursor := r.2.cursor.exit }) := by
  have hsource : (read : Parse Source).run source s = (.ok source, s) := rfl
  have hstate : (get : Parse ParseState).run source s = (.ok s, s) := rfl
  unfold nested
  rw [run_bind_ok hsource, run_bind_ok hstate]
  by_cases h : source.settings.maxDepth ≤ s.cursor.depth
  · have henter : s.cursor.enter source.stream source.settings.maxDepth =
        .error ⟨.tooDeep source.settings.maxDepth, ((source.view s).token 0).offset⟩ := if_pos h
    rw [if_pos h, henter]
    rfl
  · have henter : s.cursor.enter source.stream source.settings.maxDepth =
        .ok { s.cursor with depth := s.cursor.depth + 1 } := if_neg h
    rw [if_neg h, henter]
    rfl

/-- The second parser starts where the first one did, and the whole ends where the first one
    ended. -/
theorem run_rereading_ok {first : Parse β} {y : β} (h : first.run source s = (.ok y, t)) :
    (rereading first p).run source s =
      match p.run source (t.atPosition s.cursor.position) with
      | (.ok x, u) => (.ok (y, x), u.atPosition t.cursor.position)
      | (.error e, u) => (.error e, u) := by
  unfold rereading
  rw [run_bind_ok run_position, run_bind_ok h, run_bind_ok run_position,
    run_bind_ok (run_modify _), run_bind]
  rcases p.run source (t.atPosition s.cursor.position) with ⟨e | x, u⟩ <;> rfl

theorem run_rereading_error {first : Parse β} {e : Failure}
    (h : first.run source s = (.error e, t)) :
    (rereading first p).run source s = (.error e, t) := by
  unfold rereading
  rw [run_bind_ok run_position, run_bind_error h]

/-! ### Recovering -/

theorem run_recovering_ok {x : α} (h : p.run source s = (.ok x, t)) :
    (recovering p).run source s = (.ok (some x), t) := by
  simp only [run] at h
  simp only [run, recovering, h]

theorem run_recovering_error {e : Failure} (h : p.run source s = (.error e, t)) :
    (recovering p).run source s =
      (do recover s.cursor.position e; return none : Parse (Option α)).run source t := by
  simp only [run] at h
  simp only [run, recovering, h]

end Parse

/-- What comes of a session, by what comes of its items. -/
theorem Session.parse_eq_run (s : Session) (name : String) : s.parse name =
    let r := ((Grammar.ofDepth s.source.settings.maxDepth).items false).run s.source s.state
    (⟨name, r.1.toOption.getD []⟩, { s with state := r.2 }) := by
  unfold Session.parse
  show (match ((Grammar.ofDepth s.source.settings.maxDepth).items false).run s.source s.state with
    | (.ok body, state) => (⟨name, body⟩, { s with state })
    | (.error _, state) => (⟨name, []⟩, { s with state }) : Program × Session) = _
  rcases ((Grammar.ofDepth s.source.settings.maxDepth).items false).run s.source s.state
    with ⟨e | body, t⟩
  · rfl
  · rfl

end CTree
