import CTree.Proofs.Ceilings

/-!
# Progress and completion

Four loops recover from failures: those over items, statements, arms and members. A round of such a
loop ends it at a closing token or at its ceiling, and takes a token otherwise. It takes one because
whatever it attempts has taken one by itself when it succeeds, so that a token is only ever dropped
after a diagnostic. It follows that a parse comes to the end of its source, unless it reports that
the loop over the items of the translation unit is at its ceiling.
-/

namespace CTree

/-! ### Attempts -/

section Attempts

variable {α : Type} {a : Source} {p : Parse α} {s t : ParseState}

/-- A construct that a loop attempts: where it can be read, it takes a token. The attempt never fails,
    keeps what was read with nothing dropped after it, and reports what was not. -/
structure Parse.Attempted (source : Source) (p : Parse α) : Prop where
  takes : ∀ {s x t}, (source.view s).kind 0 ≠ .eof → p.run source s = (.ok x, t) →
    s.cursor.position < t.cursor.position
  total : ∀ s, ∃ o t, (Parse.attempt p).run source s = (.ok o, t)
  kept : ∀ {s x t}, (source.view s).kind 0 ≠ .eof →
    (Parse.attempt p).run source s = (.ok (some x), t) → p.run source s = (.ok x, t)
  reported : ∀ {s t}, (Parse.attempt p).run source s = (.ok none, t) →
    s.diagnostics.size < t.diagnostics.size

theorem Frame.diagnostics_size (h : Frame a s t) : s.diagnostics.size ≤ t.diagnostics.size := by
  have hlength := h.diagnostics.length_le
  simpa using hlength

/-- What an attempt gives is what the parser gives, and what it leaves behind is what the parser
    leaves behind if that has moved. -/
theorem Parse.run_attempt_ok {x : α} (h : p.run a s = (.ok x, t))
    (hmove : s.cursor.position < t.cursor.position) :
    (Parse.attempt p).run a s = (.ok (some x), t) := by
  rw [run_attempt (run_recovering_ok h), if_neg (Nat.ne_of_gt hmove)]

/-- After a failed attempt there is one diagnostic more, or several. -/
theorem Parse.diagnostics_of_attempt_failed {e : Failure} {o : Option α} {u : ParseState}
    (hf : Frame a s t) (h : p.run a s = (.error e, t))
    (hrun : (Parse.attempt p).run a s = (.ok o, u)) :
    s.diagnostics.size < u.diagnostics.size := by
  rw [run_attempt (run_recovering_failed h)] at hrun
  obtain ⟨-, rfl⟩ := Prod.mk.inj hrun
  have hsync : Frame a (backAt a e s.cursor.position t)
      (synchronize.run a (backAt a e s.cursor.position t)).2 :=
    (Lockstep.synchronize (b := a) (n := 0) (k := 0) (P := anywhere)).frame trivial
  have hback : (backAt a e s.cursor.position t).diagnostics.size = t.diagnostics.size + 1 :=
    Array.size_push ..
  have hlater := hsync.diagnostics_size
  have hearlier := hf.diagnostics_size
  split
  · show _ < (synchronize.run a (backAt a e s.cursor.position t)).2.diagnostics.size
    omega
  · omega

/-- A parser that takes a token wherever one is left is as a loop wants it. -/
theorem Lockstep.attempted {n k : Nat} {q : Parse α} {b : Source}
    (h : Lockstep a b n (fun s => (a.view s).kind 0 ≠ .eof) k always p q)
    (hframe : ∀ s, Frame a s (p.run a s).2) : p.Attempted a where
  takes hs hrun := h.moves hs hrun trivial
  total s := by
    obtain ⟨o, u, hu⟩ := Parse.run_recovering_total (a := a) p s
    exact ⟨o, _, Parse.run_attempt hu⟩
  kept {s x t} hs hrun := by
    rcases hp : p.run a s with ⟨e | y, u⟩
    · rw [Parse.run_attempt (Parse.run_recovering_failed hp)] at hrun
      cases hrun
    · rw [Parse.run_attempt_ok hp (h.moves hs hp trivial)] at hrun
      cases hrun
      rfl
  reported {s t} hrun := by
    have hf := hframe s
    rcases hp : p.run a s with ⟨e | y, u⟩
    · rw [hp] at hf
      exact Parse.diagnostics_of_attempt_failed hf hp hrun
    · rw [Parse.run_attempt (Parse.run_recovering_ok hp)] at hrun
      cases hrun

end Attempts

/-! ### Rounds -/

/-- A round of a loop that recovers from failures: it ends the loop at a closing token or at its
    ceiling, fails at its ceiling only, and takes a token otherwise. -/
structure Parse.Forward {β : Type} (source : Source) (closes : TokenKind → Bool) (spent : Prop)
    (round : Parse (Option β)) : Prop where
  forward : ∀ {s x t}, round.run source s = (.ok (some x), t) →
    s.cursor.position < t.cursor.position
  ends : ∀ {s t}, round.run source s = (.ok none, t) → closes ((source.view s).kind 0) ∨ spent
  fails : ∀ {s e t}, round.run source s = (.error e, t) → spent

/-- It is enough to know where a round finds something, where it closes the loop, and that its ceiling
    is reached everywhere else. -/
theorem Parse.Forward.of_cases {β : Type} {a : Source} {closes : TokenKind → Bool} {spent : Prop}
    {round : Parse (Option β)}
    (hmoves : ∀ {s x t}, round.run a s = (.ok (some x), t) → s.cursor.position < t.cursor.position)
    (hcases : ∀ s, (∃ x t, round.run a s = (.ok (some x), t)) ∨
      (closes ((a.view s).kind 0) = true ∧ ∃ t, round.run a s = (.ok none, t)) ∨ spent) :
    round.Forward a closes spent where
  forward := hmoves
  ends {s t} hrun := by
    rcases hcases s with ⟨x, u, hfound⟩ | ⟨hclose, -⟩ | hspent
    · rw [hfound] at hrun
      cases hrun
    · exact Or.inl hclose
    · exact Or.inr hspent
  fails {s e t} hrun := by
    rcases hcases s with ⟨x, u, hfound⟩ | ⟨-, u, hclosed⟩ | hspent
    · rw [hfound] at hrun
      cases hrun
    · rw [hclosed] at hrun
      cases hrun
    · exact hspent

namespace Grammar

variable {a : Source} {g : Grammar} {s t : ParseState}

/-- A round of items never fails. It ends the loop at a closing token, with nothing changed, or at
    the ceiling, which it reports. -/
theorem itemRound_cases (h : g.item.Attempted a) (inNamespace : Bool) (round : Nat)
    (s : ParseState) :
    (∃ x t, (g.itemRound inNamespace round).run a s = (.ok (some x), t)) ∨
    ((a.view s).kind 0 = .eof ∨ inNamespace = true ∧ (a.view s).kind 0 = .rbrace) ∧
      (g.itemRound inNamespace round).run a s = (.ok none, s) ∨
    a.settings.maxIterations ≤ round ∧ ∃ offset, (g.itemRound inNamespace round).run a s =
      (.ok none, s.record (Diagnostic.ofFailure a.text
        ⟨.tooMany a.settings.maxIterations .translationUnit, offset⟩)) := by
  unfold itemRound
  rw [Parse.run_bind_ok Parse.run_kind]
  split
  · rename_i hkind
    exact Or.inr (Or.inl ⟨Or.inl hkind, rfl⟩)
  · rename_i hkind
    cases inNamespace with
    | true => exact Or.inr (Or.inl ⟨Or.inr ⟨rfl, hkind⟩, rfl⟩)
    | false => exact Or.inl ⟨_, _, rfl⟩
  · rw [Parse.run_bind_ok Parse.run_settings]
    by_cases hceiling : a.settings.maxIterations ≤ round
    · rw [if_pos hceiling]
      exact Or.inr (Or.inr ⟨hceiling, _, rfl⟩)
    · rw [if_neg hceiling]
      obtain ⟨o, t, hrun⟩ := h.total s
      exact Or.inl ⟨_, t, Parse.run_bind_ok hrun⟩

/-- A round of statements ends the loop at a closing token, with nothing changed, or fails at the
    ceiling. -/
theorem statementRound_cases (h : (g.parse .statement).Attempted a) (stop : TokenKind → Bool)
    (count : Nat) (s : ParseState) :
    (∃ x t, (g.statementRound stop count).run a s = (.ok (some x), t)) ∨
    ((a.view s).kind 0 = .eof ∨ stop ((a.view s).kind 0) = true) ∧
      (g.statementRound stop count).run a s = (.ok none, s) ∨
    a.settings.maxStatements ≤ count ∧ ∃ offset, (g.statementRound stop count).run a s =
      (.error ⟨.tooMany a.settings.maxStatements .block, offset⟩, s) := by
  unfold statementRound
  rw [Parse.run_bind_ok Parse.run_kind]
  split
  · rename_i hclose
    simp only [Bool.or_eq_true, beq_iff_eq] at hclose
    exact Or.inr (Or.inl ⟨hclose, rfl⟩)
  · rw [Parse.run_bind_ok Parse.run_settings]
    by_cases hceiling : a.settings.maxStatements ≤ count
    · rw [if_pos hceiling]
      exact Or.inr (Or.inr ⟨hceiling, _, rfl⟩)
    · rw [if_neg hceiling]
      obtain ⟨o, t, hrun⟩ := h.total s
      refine Or.inl ?_
      rcases o with _ | _ | x
      · exact ⟨_, t, Parse.run_bind_ok hrun⟩
      · exact ⟨_, t, Parse.run_bind_ok hrun⟩
      · exact ⟨_, t, Parse.run_bind_ok hrun⟩

/-- A round of members ends the loop at a closing brace or at the end, with nothing changed, or
    fails at the ceiling. -/
theorem memberRound_cases {owner : String} {bases : List BaseClass} {access : Access}
    (h : (g.member owner bases access).Attempted a) (round : Nat) (s : ParseState) :
    (∃ x t, (g.memberRound owner bases (round, access)).run a s = (.ok (some x), t)) ∨
    ((a.view s).kind 0 = .rbrace ∨ (a.view s).kind 0 = .eof) ∧
      (g.memberRound owner bases (round, access)).run a s = (.ok none, s) ∨
    a.settings.maxIterations ≤ round ∧ ∃ offset,
      (g.memberRound owner bases (round, access)).run a s =
        (.error ⟨.tooMany a.settings.maxIterations .classBody, offset⟩, s) := by
  unfold memberRound
  rw [Parse.run_bind_ok Parse.run_kind]
  split
  · rename_i hclose
    simp only [Bool.or_eq_true, beq_iff_eq] at hclose
    exact Or.inr (Or.inl ⟨hclose, rfl⟩)
  · rw [Parse.run_bind_ok Parse.run_settings]
    by_cases hceiling : a.settings.maxIterations ≤ round
    · rw [if_pos hceiling]
      exact Or.inr (Or.inr ⟨hceiling, _, rfl⟩)
    · rw [if_neg hceiling]
      obtain ⟨o, t, hrun⟩ := h.total s
      exact Or.inl ⟨_, t, Parse.run_bind_ok hrun⟩

/-- A round of arms ends the loop at a closing brace or at the end, with nothing changed. -/
theorem nextArm_cases (h : g.arm.Attempted a) (s : ParseState) :
    (∃ x t, g.nextArm.run a s = (.ok (some x), t)) ∨
    ((a.view s).kind 0 = .rbrace ∨ (a.view s).kind 0 = .eof) ∧
      g.nextArm.run a s = (.ok none, s) := by
  unfold nextArm
  rw [Parse.run_bind_ok Parse.run_kind]
  split
  · rename_i hclose
    simp only [Bool.or_eq_true, beq_iff_eq] at hclose
    exact Or.inr ⟨hclose, rfl⟩
  · obtain ⟨o, t, hrun⟩ := h.total s
    exact Or.inl ⟨_, t, Parse.run_bind_ok hrun⟩

/-! ### Loops that go forward -/

/-- Where nothing can be opened there is no room at all. -/
theorem not_roomy {b : Source} {k : Nat} {c : Prop} (h : Roomy a b 0 (k + 1) s) : c :=
  (h.depth_lt.2.2 rfl).elim

theorem itemRound_forward (hg : InStep a a 0 g g) (h : g.item.Attempted a) (inNamespace : Bool)
    (round : Nat) : (g.itemRound inNamespace round).Forward a
      (fun k => k == .eof || inNamespace && k == .rbrace) (a.settings.maxIterations ≤ round) := by
  refine .of_cases (fun hrun => ?_) fun s => ?_
  · exact (hg.itemRound (k := 0) inNamespace fun _ h => not_roomy h).moves (P := anywhere) trivial hrun rfl
  · rcases itemRound_cases h inNamespace round s with hfound | ⟨hclose, hrun⟩ | ⟨hceiling, -⟩
    · exact Or.inl hfound
    · exact Or.inr (Or.inl ⟨by simpa using hclose, s, hrun⟩)
    · exact Or.inr (Or.inr hceiling)

theorem statementRound_forward (hg : InStep a a 0 g g) (h : (g.parse .statement).Attempted a)
    (stop : TokenKind → Bool) (count : Nat) : (g.statementRound stop count).Forward a
      (fun k => k == .eof || stop k) (a.settings.maxStatements ≤ count) := by
  refine .of_cases (fun hrun => ?_) fun s => ?_
  · exact (hg.statementRound (k := 0) stop fun _ h => not_roomy h).moves (P := anywhere) trivial hrun rfl
  · rcases statementRound_cases h stop count s with hfound | ⟨hclose, hrun⟩ | ⟨hceiling, -⟩
    · exact Or.inl hfound
    · exact Or.inr (Or.inl ⟨by simpa using hclose, s, hrun⟩)
    · exact Or.inr (Or.inr hceiling)

theorem memberRound_forward (hg : InStep a a 0 g g) {owner : String} {bases : List BaseClass}
    {access : Access} (h : (g.member owner bases access).Attempted a) (round : Nat) :
    (g.memberRound owner bases (round, access)).Forward a (fun k => k == .rbrace || k == .eof)
      (a.settings.maxIterations ≤ round) := by
  refine .of_cases (fun hrun => ?_) fun s => ?_
  · exact (hg.memberRound (k := 1) owner bases access fun _ h => not_roomy h).moves (P := anywhere)
      trivial hrun rfl
  · rcases memberRound_cases h round s with hfound | ⟨hclose, hrun⟩ | ⟨hceiling, -⟩
    · exact Or.inl hfound
    · exact Or.inr (Or.inl ⟨by simpa using hclose, s, hrun⟩)
    · exact Or.inr (Or.inr hceiling)

theorem nextArm_forward (hg : InStep a a 0 g g) (h : g.arm.Attempted a) :
    g.nextArm.Forward a (fun k => k == .rbrace || k == .eof) False := by
  refine .of_cases (fun hrun => (hg.nextArm (k := 0)).moves (P := anywhere) trivial hrun rfl) fun s => ?_
  rcases nextArm_cases h s with hfound | ⟨hclose, hrun⟩
  · exact Or.inl hfound
  · exact Or.inr (Or.inl ⟨by simpa using hclose, s, hrun⟩)

/-- What a grammar attempts takes tokens by itself, and its loops that recover from failures go
    forward. -/
structure RecoversForward (g : Grammar) (source : Source) : Prop where
  item : g.item.Attempted source
  statement : (g.parse .statement).Attempted source
  arm : g.arm.Attempted source
  member : ∀ owner bases access, (g.member owner bases access).Attempted source
  items : ∀ inNamespace round, (g.itemRound inNamespace round).Forward source
    (fun k => k == .eof || inNamespace && k == .rbrace) (source.settings.maxIterations ≤ round)
  statements : ∀ stop count, (g.statementRound stop count).Forward source
    (fun k => k == .eof || stop k) (source.settings.maxStatements ≤ count)
  arms : g.nextArm.Forward source (fun k => k == .rbrace || k == .eof) False
  members : ∀ owner bases access round, (g.memberRound owner bases (round, access)).Forward source
    (fun k => k == .rbrace || k == .eof) (source.settings.maxIterations ≤ round)

/-- Whatever the ceilings are, the grammars of all depths go forward. -/
theorem ofDepth_recoversForward (source : Source) (depth : Nat) :
    (ofDepth depth).RecoversForward source := by
  have hg := ofDepth_framed source depth
  have hitem : (ofDepth depth).item.Attempted source :=
    (hg.item (k := 0)).attempted fun s => (hg.item (k := 0) (P := anywhere)).frame trivial
  have hstatement : ((ofDepth depth).parse .statement).Attempted source :=
    (hg.parseStatement (k := 0)).attempted fun s =>
      (hg.parseStatement (k := 0) (P := anywhere)).frame trivial
  have harm : (ofDepth depth).arm.Attempted source :=
    (hg.arm (k := 0)).attempted fun s => (hg.arm (k := 0) (P := anywhere)).frame trivial
  have hmember : ∀ owner bases access,
      ((ofDepth depth).member owner bases access).Attempted source := by
    intro owner bases access
    refine (hg.member (k := 0) owner bases access (.inl fun _ hs => hs)).attempted fun s => ?_
    exact (hg.member (k := 1) (m := never) (P := anywhere) owner bases access
      (.inr ⟨rfl, Nat.one_pos, fun _ h => h⟩)).frame trivial
  exact ⟨hitem, hstatement, harm, hmember, itemRound_forward hg hitem,
    statementRound_forward hg hstatement, nextArm_forward hg harm,
    fun owner bases access => memberRound_forward hg (hmember owner bases access)⟩

end Grammar

/-! ### Completion -/

/-- What the rounds of a loop find, where each round takes a token and finds at most one thing: no
    more than there are tokens between the beginning and the end. The loop goes on until a round
    ends it, so that the number of rounds allowed to it is never used up. -/
theorem Parse.roundsFor_ends {α σ : Type} {a : Source} {round : σ → Parse (Option (List α × σ))}
    (hframe : ∀ x s, Frame a s ((round x).run a s).2)
    (hforward : ∀ {x s found y t}, (round x).run a s = (.ok (some (found, y)), t) →
      s.cursor.position < t.cursor.position ∧ found.length ≤ 1)
    {fuel : Nat} {x : σ} {s t : ParseState} {found : List α}
    (hinside : s.cursor.position ≤ a.stream.body.size) (hfuel : (a.view s).remaining < fuel)
    (hrun : (roundsFor round fuel x).run a s = (.ok found, t)) :
    found.length + s.cursor.position ≤ t.cursor.position ∧
      ∃ y u, (round y).run a u = (.ok none, t) := by
  induction fuel generalizing x s found with
  | zero => exact (Nat.not_lt_zero _ hfuel).elim
  | succ fuel ih =>
    unfold roundsFor at hrun
    obtain ⟨o, u, hu, hrest⟩ := exists_of_run_bind hrun
    have hf := hframe x s
    rw [hu] at hf
    rcases o with _ | ⟨found', y⟩
    · cases hrest
      refine ⟨?_, x, s, hu⟩
      have := hf.position
      simpa using this
    · obtain ⟨hmove, hlength⟩ := hforward hu
      obtain ⟨more, v, hv, hdone⟩ := exists_of_run_bind hrest
      cases hdone
      have hin : u.cursor.position ≤ max s.cursor.position a.stream.body.size := hf.inside
      have hsize : a.stream.size = a.stream.body.size + 1 := rfl
      have hleft : a.stream.size - s.cursor.position < fuel + 1 := hfuel
      have hless : a.stream.size - u.cursor.position < fuel := by omega
      obtain ⟨hmore, hend⟩ := ih (by omega) hless hv
      refine ⟨?_, hend⟩
      simp only [List.length_append]
      omega

/-- A loop fails only where one of its rounds does. -/
theorem Parse.roundsFor_total {α σ : Type} {a : Source}
    {round : σ → Parse (Option (List α × σ))}
    (hround : ∀ x s, ∃ o t, (round x).run a s = (.ok o, t)) (fuel : Nat) (x : σ)
    (s : ParseState) : ∃ found t, (roundsFor round fuel x).run a s = (.ok found, t) := by
  induction fuel generalizing x s with
  | zero => exact ⟨[], s, rfl⟩
  | succ fuel ih =>
    unfold roundsFor
    obtain ⟨o, u, hu⟩ := hround x s
    rw [run_bind_ok hu]
    rcases o with _ | ⟨found, y⟩
    · exact ⟨[], u, rfl⟩
    · obtain ⟨more, t, ht⟩ := ih y u
      exact ⟨found ++ more, t, run_bind_ok ht⟩

/-- What is left behind when the items of a source are read: no construct is open, the flag is as it
    was, there are no more items than tokens, and the cursor is at the end, unless the last
    diagnostic says that the loop reached its ceiling. -/
structure Session.Completed (s : Session) (r : Program × Session) : Prop where
  source : r.2.source = s.source
  items : ((Grammar.ofDepth s.source.settings.maxDepth).items false).run s.source s.state =
    (.ok r.1.body, r.2.state)
  depth : r.2.state.cursor.depth = 0
  lenient : r.2.state.lenient = false
  length : r.1.body.length ≤ s.source.stream.size
  finished : r.2.atEnd = true ∨ ∃ offset, r.2.state.diagnostics.back? =
    some (Diagnostic.ofFailure s.source.text
      ⟨.tooMany s.source.settings.maxIterations .translationUnit, offset⟩)

/-- The items of a source are read without a failure. -/
theorem Grammar.items_total {a : Source} {g : Grammar} (h : g.item.Attempted a)
    (inNamespace : Bool) (s : ParseState) :
    ∃ body t, (g.items inNamespace).run a s = (.ok body, t) := by
  refine Parse.roundsFor_total (fun round s => ?_) _ 0 s
  rcases itemRound_cases h inNamespace round s with ⟨x, t, hrun⟩ | ⟨-, hrun⟩ | ⟨-, offset, hrun⟩
  · exact ⟨some x, t, hrun⟩
  · exact ⟨none, s, hrun⟩
  · exact ⟨none, _, hrun⟩

/-- The items of a translation unit end at the end of the source or at the ceiling. -/
theorem Grammar.items_ends {a : Source} {g : Grammar} (hg : InStep a a 0 g g)
    (h : g.item.Attempted a) {s t : ParseState} {body : List Stmt}
    (hinside : s.cursor.position ≤ a.stream.body.size)
    (hrun : (g.items false).run a s = (.ok body, t)) :
    body.length + s.cursor.position ≤ t.cursor.position ∧
      ((a.view t).kind 0 = .eof ∨ ∃ offset, t.diagnostics.back? = some (Diagnostic.ofFailure a.text
        ⟨.tooMany a.settings.maxIterations .translationUnit, offset⟩)) := by
  have hframe : ∀ round s, Frame a s ((g.itemRound false round).run a s).2 := fun round s =>
    (hg.itemRound (k := 0) (P := anywhere) false fun _ h => not_roomy h).frame trivial
  have hforward := fun round => itemRound_forward hg h false round
  obtain ⟨hlength, round, u, hend⟩ := Parse.roundsFor_ends hframe
    (fun hrun => ⟨(hforward _).forward hrun, (itemRound_some hrun).2⟩) hinside
    (Nat.lt_succ_self _) hrun
  refine ⟨hlength, ?_⟩
  rcases itemRound_cases h false round u with ⟨x, v, hround⟩ | ⟨hclose, hround⟩ |
    ⟨-, offset, hround⟩
  · rw [hround] at hend
    cases hend
  · rw [hround] at hend
    obtain ⟨-, rfl⟩ := Prod.mk.inj hend
    rcases hclose with heof | ⟨hfalse, -⟩
    · exact Or.inl heof
    · exact (Bool.false_ne_true hfalse).elim
  · rw [hround] at hend
    obtain ⟨-, rfl⟩ := Prod.mk.inj hend
    exact Or.inr ⟨offset, Array.back?_push⟩

/-- A session that has just started is read to its end. -/
theorem Session.parse_completed {s : Session} (name : String)
    (hposition : s.state.cursor.position = 0) (hdepth : s.state.cursor.depth = 0)
    (hlenient : s.state.lenient = false) : s.Completed (s.parse name) := by
  have hg := Grammar.ofDepth_framed s.source s.source.settings.maxDepth
  have hitem := (Grammar.ofDepth_recoversForward s.source s.source.settings.maxDepth).item
  have hf := (hg.items (k := 0) (P := anywhere) false).frame (s := s.state) trivial
  obtain ⟨body, t, hrun⟩ := Grammar.items_total hitem false s.state
  have hinside : s.state.cursor.position ≤ s.source.stream.body.size := by
    rw [hposition]
    exact Nat.zero_le _
  obtain ⟨hlength, hend⟩ := Grammar.items_ends hg hitem hinside hrun
  rw [parse_eq_run, hrun]
  rw [hrun] at hf
  have hin : t.cursor.position ≤ max s.state.cursor.position s.source.stream.body.size := hf.inside
  have hsize : s.source.stream.size = s.source.stream.body.size + 1 := rfl
  refine ⟨rfl, hrun, hf.depth.trans hdepth, hf.lenient.trans hlenient, ?_, ?_⟩
  · show body.length ≤ s.source.stream.size
    omega
  · exact hend.imp beq_iff_eq.2 id

/-- Whatever the text, the dialect and the ceilings are: the loops that recover from failures go
    forward at every depth, and a parse completes with no more items than tokens. -/
theorem parse_progress :
    (∀ source depth, (Grammar.ofDepth depth).RecoversForward source) ∧
      ∀ settings name text,
        (Session.start settings text).Completed ((Session.start settings text).parse name) ∧
          ((Session.start settings text).parse name).1.body.length ≤
            (tokenize settings.dialect text).tokens.length := by
  refine ⟨Grammar.ofDepth_recoversForward, fun settings name text => ?_⟩
  have hcompleted := Session.parse_completed (s := Session.start settings text) name rfl rfl rfl
  refine ⟨hcompleted, ?_⟩
  rw [← Session.size_start]
  exact hcompleted.length

end CTree
