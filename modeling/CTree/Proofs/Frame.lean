import CTree.Proofs.Run

/-!
# What every parser keeps

A parser may move forward, learn type names and report faults. It never moves back, forgets a name,
takes a report back, or leaves a construct open or a flag changed behind it. `Frame` says so of two
states. It is a preorder, so whatever is made of parsers that keep it keeps it too.
-/

namespace CTree

/-- The state `t` is one that a parser may leave behind if it starts in the state `s`. -/
structure Frame (source : Source) (s t : ParseState) : Prop where
  depth : t.cursor.depth = s.cursor.depth
  lenient : t.lenient = s.lenient
  known : s.cursor.known.names ⊆ t.cursor.known.names
  diagnostics : s.diagnostics.toList <+: t.diagnostics.toList
  position : s.cursor.position ≤ t.cursor.position
  inside : t.cursor.position ≤ max s.cursor.position source.stream.body.size

namespace Frame

variable {source : Source} {s t u : ParseState}

theorem refl (source : Source) (s : ParseState) : Frame source s s :=
  ⟨rfl, rfl, List.Subset.refl _, List.prefix_rfl, Nat.le_refl _, Nat.le_max_left ..⟩

theorem trans (h : Frame source s t) (h' : Frame source t u) : Frame source s u where
  depth := h'.depth.trans h.depth
  lenient := h'.lenient.trans h.lenient
  known := List.Subset.trans h.known h'.known
  diagnostics := h.diagnostics.trans h'.diagnostics
  position := Nat.le_trans h.position h'.position
  inside := by
    have := h.inside
    have := h'.inside
    omega

end Frame

/-! ### Tokens -/

namespace Source

variable {source : Source} {s : ParseState}

/-- What stands past the body of a stream is its end. -/
theorem kind_of_le {n : Nat} (h : source.stream.body.size ≤ s.cursor.position + n) :
    (source.view s).kind n = .eof := by
  show (source.stream.get (s.cursor.position + n)).kind = .eof
  rw [TokenStream.get_of_le _ h, source.stream.last_kind]

/-- What stands where depends on the index of the current token only. -/
theorem kind_of_position_eq {t : ParseState} (h : t.cursor.position = s.cursor.position) (n : Nat) :
    (source.view t).kind n = (source.view s).kind n := by
  show (source.stream.get _).kind = (source.stream.get _).kind
  rw [show (source.view t).cursor.position = _ from h]
  rfl

theorem position_lt (h : (source.view s).kind 0 ≠ .eof) :
    s.cursor.position < source.stream.body.size := by
  refine Nat.lt_of_not_le fun hle => ?_
  exact h (kind_of_le hle)

theorem advance_of_token (h : (source.view s).kind 0 ≠ .eof) :
    s.cursor.advance source.stream = { s.cursor with position := s.cursor.position + 1 } := by
  have hend : s.cursor.atEnd source.stream = false := beq_eq_false_iff_ne.2 h
  simp [Cursor.advance, hend]

theorem advance_of_end (h : (source.view s).kind 0 = .eof) :
    s.cursor.advance source.stream = s.cursor := by
  have hend : s.cursor.atEnd source.stream = true := beq_iff_eq.2 h
  simp [Cursor.advance, hend]

end Source

namespace Frame

variable {source : Source} {s t : ParseState}

theorem advance (source : Source) (s : ParseState) :
    Frame source s { s with cursor := s.cursor.advance source.stream } := by
  by_cases h : (source.view s).kind 0 = .eof
  · rw [Source.advance_of_end h]
    exact .refl source s
  · rw [Source.advance_of_token h]
    have hlt := Source.position_lt h
    exact ⟨rfl, rfl, List.Subset.refl _, List.prefix_rfl, Nat.le_succ _,
      Nat.le_trans hlt (Nat.le_max_right ..)⟩

theorem register (source : Source) (s : ParseState) (name : String) :
    Frame source s { s with cursor := s.cursor.register name } := by
  refine ⟨rfl, rfl, ?_, List.prefix_rfl, Nat.le_refl _, Nat.le_max_left ..⟩
  intro x hx
  exact KnownTypes.mem_names_insert.2 (.inl hx)

theorem record (source : Source) (s : ParseState) (d : Diagnostic) :
    Frame source s (s.record d) := by
  refine ⟨rfl, rfl, List.Subset.refl _, ?_, Nat.le_refl _, Nat.le_max_left ..⟩
  simp [ParseState.record]

/-- Going back to where a parser started. -/
theorem restart (h : Frame source s t) : Frame source s (t.atPosition s.cursor.position) :=
  ⟨h.depth, h.lenient, h.known, h.diagnostics, Nat.le_refl _, Nat.le_max_left ..⟩

/-- Going to any place that a parser may reach. -/
theorem atPosition {i : Nat} (h : Frame source s t) (hi : s.cursor.position ≤ i)
    (hi' : i ≤ max s.cursor.position source.stream.body.size) : Frame source s (t.atPosition i) :=
  ⟨h.depth, h.lenient, h.known, h.diagnostics, hi, hi'⟩

/-- The diagnostics of an attempt that is undone are those from before it. -/
theorem take_diagnostics (h : Frame source s t) :
    t.diagnostics.take s.diagnostics.size = s.diagnostics := by
  apply Array.toList_inj.1
  obtain ⟨rest, hrest⟩ := h.diagnostics
  simp [← hrest]

/-- Where an attempt is undone, only the type names may differ. -/
theorem backTo_eq (h : Frame source s t) :
    t.backTo s = { s with cursor := { s.cursor with known := t.cursor.known } } := by
  have hdepth := h.depth
  have hlenient := h.lenient
  have hdiagnostics := h.take_diagnostics
  simp only [ParseState.backTo, ParseState.atPosition, Cursor.reset, hdiagnostics, hdepth, hlenient]

theorem backTo (h : Frame source s t) : Frame source s (t.backTo s) := by
  rw [h.backTo_eq]
  exact ⟨rfl, rfl, h.known, List.prefix_rfl, Nat.le_refl _, Nat.le_max_left ..⟩

end Frame

/-! ### Combinators -/

namespace Frame

open Parse

variable {α β : Type} {source : Source} {s : ParseState} {p : Parse α} {q : Parse β}

theorem speculate (h : Frame source s (p.run source s).2) :
    Frame source s ((speculate p).run source s).2 := by
  rcases hrun : p.run source s with ⟨e | x, t⟩
  · rw [hrun] at h
    rw [run_speculate_error hrun]
    exact h.backTo
  · rw [hrun] at h
    rwa [run_speculate_ok hrun]

theorem withLeniency {lenient : Bool}
    (h : Frame source { s with lenient } (p.run source { s with lenient }).2) :
    Frame source s ((withLeniency lenient p).run source s).2 := by
  rw [run_withLeniency]
  exact ⟨h.depth, rfl, h.known, h.diagnostics, h.position, h.inside⟩

theorem nested (h : ∀ u, Frame source u (p.run source u).2) :
    Frame source s ((nested p).run source s).2 := by
  rw [run_nested]
  split
  · exact .refl source s
  · have hin := h { s with cursor := { s.cursor with depth := s.cursor.depth + 1 } }
    refine ⟨?_, hin.lenient, hin.known, hin.diagnostics, hin.position, hin.inside⟩
    exact congrArg (· - 1) hin.depth

/-- The end is that of the first parser, so what the second one reads again is behind it. -/
theorem rereading (h : Frame source s (p.run source s).2)
    (h' : ∀ u, Frame source u (q.run source u).2) :
    Frame source s ((rereading p q).run source s).2 := by
  rcases hrun : p.run source s with ⟨e | x, t⟩
  · rw [hrun] at h
    rwa [run_rereading_error hrun]
  · rw [hrun] at h
    have hboth := h.restart.trans (h' (t.atPosition s.cursor.position))
    rw [run_rereading_ok hrun]
    rcases hrun' : q.run source (t.atPosition s.cursor.position) with ⟨e | y, u⟩
    · rwa [hrun'] at hboth
    · rw [hrun'] at hboth
      exact hboth.atPosition h.position h.inside

end Frame

end CTree
