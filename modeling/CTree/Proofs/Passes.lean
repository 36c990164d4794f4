import CTree.Proofs.Diagnostics
import CTree.Proofs.Progress

/-!
# Passes that go on where the last one stopped

A pass over a source tries so many items and stops. The next pass goes on at the token where it
stopped, and after enough of them the source is at its end. `Attempts` says what a run of tries
does, whatever the ceiling. Runs can be put one after the other, and the diagnostics from before a
run make no difference to it. So the passes together read what one pass without a ceiling reads.
-/

namespace CTree

open Parse

/-! ### Reading without a ceiling -/

namespace Grammar

/-- A round of the items of a translation unit, however many items were tried before it. -/
def freeRound (g : Grammar) (_ : Unit) : Parse (Option (List Stmt × Unit)) := do
  match ← kind with
  | .eof => return none
  | .rbrace =>
    skipToken "at top level"
    return some ([], ())
  | _ => return some ((← attempt g.item).join.toList, ())

/-- The items of a translation unit, with no ceiling on their number. All other ceilings stand. -/
def freeItems (g : Grammar) : Parse (List Stmt) :=
  rounds g.freeRound ()

/-- A run of rounds over the items of a translation unit: the number of items that are tried in it,
the items that are read, and where it begins and ends. A brace that closes nothing is skipped and
does not count. -/
inductive Attempts (g : Grammar) (source : Source) :
    Nat → ParseState → List Stmt → ParseState → Prop
  | done {s} : Attempts g source 0 s [] s
  | skip {n s t body u} : (source.view s).kind 0 = .rbrace →
      (skipToken "at top level").run source s = (.ok (), t) → Attempts g source n t body u →
      Attempts g source n s body u
  | item {n s o t body u} : (source.view s).kind 0 ≠ .eof → (source.view s).kind 0 ≠ .rbrace →
      (attempt g.item).run source s = (.ok o, t) → Attempts g source n t body u →
      Attempts g source (n + 1) s (o.join.toList ++ body) u

end Grammar

/-! ### Single rounds -/

section Rounds

variable {source : Source} {g : Grammar} {s t : ParseState}

theorem Parse.run_skipToken (place : String) : ∃ t, (skipToken place).run source s = (.ok (), t) :=
  ⟨_, rfl⟩

namespace Grammar

theorem itemRound_of_eof (hkind : (source.view s).kind 0 = .eof) (count : Nat) :
    (g.itemRound false count).run source s = (.ok none, s) := by
  unfold itemRound
  rw [run_bind_ok run_kind, hkind]
  rfl

theorem itemRound_of_rbrace (hkind : (source.view s).kind 0 = .rbrace)
    (hrun : (skipToken "at top level").run source s = (.ok (), t)) (count : Nat) :
    (g.itemRound false count).run source s = (.ok (some ([], count)), t) := by
  unfold itemRound
  rw [run_bind_ok run_kind, hkind]
  exact run_bind_ok hrun

theorem itemRound_of_item {o : Option (Option Stmt)} (heof : (source.view s).kind 0 ≠ .eof)
    (hbrace : (source.view s).kind 0 ≠ .rbrace)
    (hrun : (attempt g.item).run source s = (.ok o, t)) {count : Nat}
    (hcount : count < source.settings.maxIterations) :
    (g.itemRound false count).run source s = (.ok (some (o.join.toList, count + 1)), t) := by
  unfold itemRound
  rw [run_bind_ok run_kind]
  split
  · rename_i hkind
    exact (heof hkind).elim
  · rename_i hkind
    exact (hbrace hkind).elim
  · rw [run_bind_ok run_settings, if_neg (Nat.not_le_of_lt hcount)]
    exact run_bind_ok hrun

/-- The state after a pass that stops early: the ceiling is reported at the current token. -/
def stopped (source : Source) (s : ParseState) : ParseState :=
  s.record (Diagnostic.ofFailure source.text
    ⟨.tooMany source.settings.maxIterations .translationUnit, ((source.view s).token 0).offset⟩)

theorem itemRound_of_ceiling (heof : (source.view s).kind 0 ≠ .eof)
    (hbrace : (source.view s).kind 0 ≠ .rbrace) :
    (g.itemRound false source.settings.maxIterations).run source s =
      (.ok none, stopped source s) := by
  unfold itemRound
  rw [run_bind_ok run_kind]
  split
  · rename_i hkind
    exact (heof hkind).elim
  · rename_i hkind
    exact (hbrace hkind).elim
  · rw [run_bind_ok run_settings, if_pos (Nat.le_refl _)]
    rfl

theorem freeRound_of_eof (hkind : (source.view s).kind 0 = .eof) :
    (g.freeRound ()).run source s = (.ok none, s) := by
  unfold freeRound
  rw [run_bind_ok run_kind, hkind]
  rfl

theorem freeRound_of_rbrace (hkind : (source.view s).kind 0 = .rbrace)
    (hrun : (skipToken "at top level").run source s = (.ok (), t)) :
    (g.freeRound ()).run source s = (.ok (some ([], ())), t) := by
  unfold freeRound
  rw [run_bind_ok run_kind, hkind]
  exact run_bind_ok hrun

theorem freeRound_of_item {o : Option (Option Stmt)} (heof : (source.view s).kind 0 ≠ .eof)
    (hbrace : (source.view s).kind 0 ≠ .rbrace)
    (hrun : (attempt g.item).run source s = (.ok o, t)) :
    (g.freeRound ()).run source s = (.ok (some (o.join.toList, ())), t) := by
  unfold freeRound
  rw [run_bind_ok run_kind]
  split
  · rename_i hkind
    exact (heof hkind).elim
  · rename_i hkind
    exact (hbrace hkind).elim
  · exact run_bind_ok hrun

end Grammar

end Rounds

/-! ### Runs of rounds -/

namespace Grammar

namespace Attempts

variable {source : Source} {g : Grammar} {n m : Nat} {s t u v : ParseState} {body body' : List Stmt}

/-- Runs are put one after the other. -/
theorem append (h : Attempts g source n s body t) (h' : Attempts g source m t body' u) :
    Attempts g source (n + m) s (body ++ body') u := by
  induction h with
  | done => rwa [Nat.zero_add]
  | skip hkind hrun _ ih => exact .skip hkind hrun (ih h')
  | item heof hbrace hrun _ ih =>
    rw [Nat.add_right_comm, List.append_assoc]
    exact .item heof hbrace hrun (ih h')

/-- There is one run only that gets to the end of the source. -/
theorem unique (h : Attempts g source n s body t) (h' : Attempts g source m s body' u)
    (ht : (source.view t).kind 0 = .eof) (hu : (source.view u).kind 0 = .eof) :
    n = m ∧ body = body' ∧ t = u := by
  induction h generalizing m body' with
  | done =>
    cases h' with
    | done => exact ⟨rfl, rfl, rfl⟩
    | skip hkind =>
      rw [ht] at hkind
      cases hkind
    | item heof => exact (heof ht).elim
  | skip hkind hrun _ ih =>
    cases h' with
    | done =>
      rw [hu] at hkind
      cases hkind
    | skip _ hrun' hrest' =>
      obtain ⟨-, rfl⟩ := Prod.mk.inj (hrun.symm.trans hrun')
      exact ih hrest' ht
    | item _ hbrace => exact (hbrace hkind).elim
  | item heof hbrace hrun _ ih =>
    cases h' with
    | done => exact (heof hu).elim
    | skip hkind => exact (hbrace hkind).elim
    | item _ _ hrun' hrest' =>
      obtain ⟨ho, rfl⟩ := Prod.mk.inj (hrun.symm.trans hrun')
      cases ho
      obtain ⟨rfl, rfl, hstate⟩ := ih hrest' ht
      exact ⟨rfl, rfl, hstate⟩

section Moving

variable (hg : InStep source source 0 g g)
include hg

/-- A run takes at least one token for each item that is tried. -/
theorem position_le (h : Attempts g source n s body t) :
    s.cursor.position + n ≤ t.cursor.position := by
  induction h with
  | done => exact Nat.le_refl _
  | @skip n s t body u hkind hrun _ ih =>
    have hskip : Frame source s ((skipToken "at top level").run source s).2 :=
      (Lockstep.skipToken (b := source) source.takes_nothing _).frame trivial
    rw [hrun] at hskip
    have hmove : s.cursor.position ≤ t.cursor.position := hskip.position
    omega
  | @item n s o t body u heof _ hrun _ ih =>
    have hmove : s.cursor.position < t.cursor.position :=
      (Lockstep.attempt (P := fun s => (source.view s).kind 0 ≠ .eof) (fun _ hs => hs)
        (hg.item (k := 0))).moves heof hrun trivial
    omega

/-- A run does the same whatever diagnostics there are before it, and adds its own to them. -/
theorem withDiagnostics (h : Attempts g source n s body t) :
    ∃ own, t.diagnostics = s.diagnostics ++ own ∧ ∀ ds, Attempts g source n
      { s with diagnostics := ds } body { t with diagnostics := ds ++ own } := by
  induction h with
  | done => exact ⟨#[], by simp, fun ds => by simpa using .done⟩
  | @skip n s t body u hkind hrun _ ih =>
    have hskip : Accounted source anywhere (skipToken "at top level") :=
      (Lockstep.skipToken (b := source) source.takes_nothing _).toAccounted
    obtain ⟨first, hfirst, -, hruns⟩ := hskip.own hrun
    obtain ⟨rest, hrest, hruns'⟩ := ih
    refine ⟨first ++ rest, ?_, fun ds => ?_⟩
    · rw [hrest, hfirst, Array.append_assoc]
    · rw [← Array.append_assoc]
      exact .skip hkind (hruns ds) (hruns' _)
  | @item n s o t body u heof hbrace hrun _ ih =>
    have hattempt : Accounted source anywhere (attempt g.item) :=
      (hg.item (k := 0)).attemptAnywhere.toAccounted
    obtain ⟨first, hfirst, -, hruns⟩ := hattempt.own hrun
    obtain ⟨rest, hrest, hruns'⟩ := ih
    refine ⟨first ++ rest, ?_, fun ds => ?_⟩
    · rw [hrest, hfirst, Array.append_assoc]
    · rw [← Array.append_assoc]
      exact .item heof hbrace (hruns ds) (hruns' _)

end Moving

end Attempts

/-! ### Loops -/

section Loops

variable {source : Source} {g : Grammar} {s t : ParseState}

/-- Fewer tokens are left after one is taken. -/
theorem remaining_lt {fuel : Nat} (heof : (source.view s).kind 0 ≠ .eof)
    (hmove : s.cursor.position < t.cursor.position)
    (hfuel : (source.view s).remaining < fuel + 1) : (source.view t).remaining < fuel := by
  have hinside := Source.position_lt heof
  have hsize : source.stream.size = source.stream.body.size + 1 := rfl
  have hleft : source.stream.size - s.cursor.position < fuel + 1 := hfuel
  show source.stream.size - t.cursor.position < fuel
  omega

/-- What the next token is decides what a round does. -/
theorem round_cases (hg : InStep source source 0 g g) (s : ParseState) :
    (source.view s).kind 0 = .eof ∨
    (∃ t, (source.view s).kind 0 = .rbrace ∧ s.cursor.position < t.cursor.position ∧
      (skipToken "at top level").run source s = (.ok (), t)) ∨
    (∃ o t, (source.view s).kind 0 ≠ .eof ∧ (source.view s).kind 0 ≠ .rbrace ∧
      s.cursor.position < t.cursor.position ∧ (attempt g.item).run source s = (.ok o, t)) := by
  by_cases heof : (source.view s).kind 0 = .eof
  · exact .inl heof
  by_cases hbrace : (source.view s).kind 0 = .rbrace
  · obtain ⟨t, ht⟩ : ∃ t, (skipToken "at top level").run source s = (.ok (), t) :=
      run_skipToken _
    have hmove : s.cursor.position < t.cursor.position :=
      (Lockstep.skipToken (b := source) (n := 0) (k := 0) (P := source.At .rbrace) (m := always)
        (Source.takes_at (by decide)) _).moves hbrace ht trivial
    exact .inr (.inl ⟨t, hbrace, hmove, ht⟩)
  · obtain ⟨o, t, ht⟩ := ((hg.item (k := 0)).attempted (a := source) fun s =>
      (hg.item (k := 0) (P := anywhere)).frame trivial).total s
    have hmove : s.cursor.position < t.cursor.position :=
      (Lockstep.attempt (P := fun s => (source.view s).kind 0 ≠ .eof) (fun _ hs => hs)
        (hg.item (k := 0))).moves heof ht trivial
    exact .inr (.inr ⟨o, t, heof, hbrace, hmove, ht⟩)

/-- Without a ceiling a run goes on to the end of the source. -/
theorem freeItems_attempts (hg : InStep source source 0 g g) (s : ParseState) :
    ∃ n body t, g.Attempts source n s body t ∧ (source.view t).kind 0 = .eof ∧
      g.freeItems.run source s = (.ok body, t) := by
  suffices hfor : ∀ fuel, (source.view s).remaining < fuel → ∃ n body t,
      g.Attempts source n s body t ∧ (source.view t).kind 0 = .eof ∧
      (roundsFor g.freeRound fuel ()).run source s = (.ok body, t) from
    hfor _ (Nat.lt_succ_self _)
  intro fuel hfuel
  induction fuel generalizing s with
  | zero => exact (Nat.not_lt_zero _ hfuel).elim
  | succ fuel ih =>
    unfold roundsFor
    rcases round_cases hg s with heof | ⟨t, hbrace, hmove, hrun⟩ |
      ⟨o, t, heof, hbrace, hmove, hrun⟩
    · refine ⟨0, [], s, .done, heof, ?_⟩
      rw [run_bind_ok (freeRound_of_eof heof)]
      rfl
    · obtain ⟨n, body, u, hrest, hend, hloop⟩ :=
        ih t (remaining_lt (by rw [hbrace]; decide) hmove hfuel)
      refine ⟨n, body, u, .skip hbrace hrun hrest, hend, ?_⟩
      rw [run_bind_ok (freeRound_of_rbrace hbrace hrun)]
      exact run_bind_ok hloop
    · obtain ⟨n, body, u, hrest, hend, hloop⟩ := ih t (remaining_lt heof hmove hfuel)
      refine ⟨n + 1, _, u, .item heof hbrace hrun hrest, hend, ?_⟩
      rw [run_bind_ok (freeRound_of_item heof hbrace hrun)]
      exact run_bind_ok hloop

/-- A pass goes on to the end of the source, or tries as many items as its ceiling allows. -/
theorem items_attempts (hg : InStep source source 0 g g) (s : ParseState) :
    ∃ n body t, g.Attempts source n s body t ∧
      ((source.view t).kind 0 = .eof ∧ n ≤ source.settings.maxIterations ∧
          (g.items false).run source s = (.ok body, t) ∨
        (source.view t).kind 0 ≠ .eof ∧ n = source.settings.maxIterations ∧
          (g.items false).run source s = (.ok body, stopped source t)) := by
  suffices hfor : ∀ fuel count, (source.view s).remaining < fuel →
      count ≤ source.settings.maxIterations → ∃ n body t, g.Attempts source n s body t ∧
      ((source.view t).kind 0 = .eof ∧ count + n ≤ source.settings.maxIterations ∧
          (roundsFor (g.itemRound false) fuel count).run source s = (.ok body, t) ∨
        (source.view t).kind 0 ≠ .eof ∧ count + n = source.settings.maxIterations ∧
          (roundsFor (g.itemRound false) fuel count).run source s =
            (.ok body, stopped source t)) by
    have hstart := hfor _ 0 (Nat.lt_succ_self _) (Nat.zero_le _)
    simp only [Nat.zero_add] at hstart
    exact hstart
  intro fuel count hfuel hcount
  induction fuel generalizing s count with
  | zero => exact (Nat.not_lt_zero _ hfuel).elim
  | succ fuel ih =>
    unfold roundsFor
    rcases round_cases hg s with heof | ⟨t, hbrace, hmove, hrun⟩ |
      ⟨o, t, heof, hbrace, hmove, hrun⟩
    · refine ⟨0, [], s, .done, .inl ⟨heof, hcount, ?_⟩⟩
      rw [run_bind_ok (itemRound_of_eof heof count)]
      rfl
    · obtain ⟨n, body, u, hrest, hloop⟩ :=
        ih t count (remaining_lt (by rw [hbrace]; decide) hmove hfuel) hcount
      refine ⟨n, body, u, .skip hbrace hrun hrest, ?_⟩
      rw [run_bind_ok (itemRound_of_rbrace hbrace hrun count)]
      exact hloop.imp (fun h => ⟨h.1, h.2.1, run_bind_ok h.2.2⟩)
        fun h => ⟨h.1, h.2.1, run_bind_ok h.2.2⟩
    · by_cases hceiling : count = source.settings.maxIterations
      · refine ⟨0, [], s, .done, .inr ⟨heof, hceiling, ?_⟩⟩
        rw [hceiling, run_bind_ok (itemRound_of_ceiling heof hbrace)]
        rfl
      · have hlt : count < source.settings.maxIterations := Nat.lt_of_le_of_ne hcount hceiling
        obtain ⟨n, body, u, hrest, hloop⟩ :=
          ih t (count + 1) (remaining_lt heof hmove hfuel) hlt
        refine ⟨n + 1, _, u, .item heof hbrace hrun hrest, ?_⟩
        rw [run_bind_ok (itemRound_of_item heof hbrace hrun hlt)]
        rw [Nat.add_assoc, Nat.add_comm 1 n] at hloop
        exact hloop.imp (fun h => ⟨h.1, h.2.1, run_bind_ok h.2.2⟩)
          fun h => ⟨h.1, h.2.1, run_bind_ok h.2.2⟩

end Loops

end Grammar

/-! ### Sessions -/

namespace Session

/-- The grammar that a session reads its source with. -/
def grammar (s : Session) : Grammar :=
  Grammar.ofDepth s.source.settings.maxDepth

/-- The session before pass `k` of a series of passes, each of which reads a program with a name of
its own. -/
def beforePass (s : Session) (names : Nat → String) : Nat → Session
  | 0 => s
  | k + 1 => ((s.beforePass names k).parse (names k)).2

/-- Pass `k` of a series: the program that is read, and the session after it. -/
def pass (s : Session) (names : Nat → String) (k : Nat) : Program × Session :=
  (s.beforePass names k).parse (names k)

/-- A pass that stops before the end of the source: it tries as many items as the ceiling allows,
adds its own diagnostics to those from before it, and then the one that says that it stopped. -/
def StopsEarly (s : Session) (r : Program × Session) (own : List Diagnostic) : Prop :=
  ∃ t, s.grammar.Attempts s.source s.source.settings.maxIterations s.state r.1.body t ∧
    (s.source.view t).kind 0 ≠ .eof ∧
    t.diagnostics.toList = s.state.diagnostics.toList ++ own ∧
    r.2 = { s with state := Grammar.stopped s.source t }

/-- A pass that comes to the end of the source, and adds its own diagnostics to those from before
it. -/
def Finishes (s : Session) (r : Program × Session) (own : List Diagnostic) : Prop :=
  ∃ n t, s.grammar.Attempts s.source n s.state r.1.body t ∧ n ≤ s.source.settings.maxIterations ∧
    (s.source.view t).kind 0 = .eof ∧
    t.diagnostics.toList = s.state.diagnostics.toList ++ own ∧
    r.2 = { s with state := t }

/-- A series of passes reads what one pass without a ceiling reads. The first `stops` passes stop
early, the next one comes to the end of the source, and the later ones find nothing and change
nothing. The bodies together are the body that the pass without a ceiling reads. What the passes
report together, the records of the ceiling apart, is what that pass reports, and in the end all
else is as that pass leaves it. -/
structure Resumes (s : Session) (names : Nat → String) (body : List Stmt) (t : ParseState)
    (stops : Nat) (own : Nat → List Diagnostic) : Prop where
  whole : s.grammar.freeItems.run s.source s.state = (.ok body, t)
  early : ∀ k < stops, (s.beforePass names k).StopsEarly (s.pass names k) (own k)
  last : (s.beforePass names stops).Finishes (s.pass names stops) (own stops)
  later : ∀ k, stops < k → (s.pass names k).1.body = [] ∧
    (s.pass names k).2 = s.beforePass names k
  bodies : ((List.range (stops + 1)).flatMap fun k => (s.pass names k).1.body) = body
  diagnostics : t.diagnostics.toList =
    s.state.diagnostics.toList ++ (List.range (stops + 1)).flatMap own
  cursor : t.cursor = (s.pass names stops).2.state.cursor
  lenient : t.lenient = (s.pass names stops).2.state.lenient

section Passes

variable {s : Session} {names : Nat → String}

theorem inStep_grammar (s : Session) : s.grammar.InStep s.source s.source 0 s.grammar :=
  Grammar.ofDepth_framed s.source s.source.settings.maxDepth

/-- A series goes on with the session that its first pass leaves. -/
theorem beforePass_succ (s : Session) (names : Nat → String) (k : Nat) :
    s.beforePass names (k + 1) =
      (s.parse (names 0)).2.beforePass (fun i => names (i + 1)) k := by
  induction k with
  | zero => rfl
  | succ k ih =>
    rw [beforePass, ih]
    rfl

theorem pass_succ (s : Session) (names : Nat → String) (k : Nat) :
    s.pass names (k + 1) = (s.parse (names 0)).2.pass (fun i => names (i + 1)) k := by
  rw [pass, beforePass_succ]
  rfl

/-- A pass stops early or finishes. -/
theorem parse_cases (s : Session) (name : String) :
    ∃ own, s.StopsEarly (s.parse name) own ∨ s.Finishes (s.parse name) own := by
  obtain ⟨n, body, t, hrun, hcases⟩ := Grammar.items_attempts s.inStep_grammar s.state
  obtain ⟨own, hown, -⟩ := hrun.withDiagnostics s.inStep_grammar
  have hlist : t.diagnostics.toList = s.state.diagnostics.toList ++ own.toList := by
    rw [hown, Array.toList_append]
  refine ⟨own.toList, ?_⟩
  rw [parse_eq_run]
  change (Grammar.ofDepth _).Attempts _ _ _ _ _ at hrun
  rcases hcases with ⟨heof, hn, hitems⟩ | ⟨heof, rfl, hitems⟩
  · change ((Grammar.ofDepth _).items false).run _ _ = _ at hitems
    rw [hitems]
    exact .inr ⟨n, t, hrun, hn, heof, hlist, rfl⟩
  · change ((Grammar.ofDepth _).items false).run _ _ = _ at hitems
    rw [hitems]
    exact .inl ⟨t, hrun, heof, hlist, rfl⟩

/-- At the end of the source there is nothing to read, and nothing changes. -/
theorem parse_of_atEnd (hend : (s.source.view s.state).kind 0 = .eof) (name : String) :
    (s.parse name).1.body = [] ∧ (s.parse name).2 = s := by
  obtain ⟨n, body, t, hrun, hcases⟩ := Grammar.items_attempts s.inStep_grammar s.state
  have hnone : n = 0 ∧ body = [] ∧ t = s.state := by
    cases hrun with
    | done => exact ⟨rfl, rfl, rfl⟩
    | skip hkind =>
      rw [hend] at hkind
      cases hkind
    | item heof => exact (heof hend).elim
  obtain ⟨rfl, rfl, rfl⟩ := hnone
  rcases hcases with ⟨-, -, hitems⟩ | ⟨heof, -⟩
  · rw [parse_eq_run]
    change ((Grammar.ofDepth _).items false).run _ _ = _ at hitems
    rw [hitems]
    exact ⟨rfl, rfl⟩
  · exact (heof hend).elim

/-- A series of passes that begins at the end of the source changes nothing. -/
theorem beforePass_of_atEnd (hend : (s.source.view s.state).kind 0 = .eof) (k : Nat) :
    s.beforePass names k = s := by
  induction k with
  | zero => rfl
  | succ k ih => rw [beforePass, ih, (parse_of_atEnd hend _).2]

theorem pass_of_atEnd (hend : (s.source.view s.state).kind 0 = .eof) (k : Nat) :
    (s.pass names k).1.body = [] ∧ (s.pass names k).2 = s.beforePass names k := by
  rw [pass, beforePass_of_atEnd hend]
  exact parse_of_atEnd hend _

/-- A run that gets to the end of the source is what a pass without a ceiling does. -/
theorem freeItems_of_attempts {n : Nat} {body : List Stmt} {t : ParseState}
    (hrun : s.grammar.Attempts s.source n s.state body t)
    (hend : (s.source.view t).kind 0 = .eof) :
    s.grammar.freeItems.run s.source s.state = (.ok body, t) := by
  obtain ⟨m, body', u, hrun', hend', hfree⟩ := Grammar.freeItems_attempts s.inStep_grammar s.state
  obtain ⟨-, rfl, rfl⟩ := hrun.unique hrun' hend hend'
  exact hfree

theorem attempts_of_freeItems {body : List Stmt} {t : ParseState}
    (hfree : s.grammar.freeItems.run s.source s.state = (.ok body, t)) :
    ∃ n, s.grammar.Attempts s.source n s.state body t := by
  obtain ⟨n, body', u, hrun, -, hfree'⟩ := Grammar.freeItems_attempts s.inStep_grammar s.state
  obtain ⟨hbody, rfl⟩ := Prod.mk.inj (hfree.symm.trans hfree')
  cases hbody
  exact ⟨n, hrun⟩

/-- The pass that comes to the end of the source is a series by itself. -/
theorem Finishes.resumes {own : List Diagnostic} (h : s.Finishes (s.pass names 0) own) :
    ∃ t, (s.source.view t).kind 0 = .eof ∧
      s.Resumes names (s.pass names 0).1.body t 0 fun _ => own := by
  obtain ⟨n, t, hrun, hn, hend, hown, hafter⟩ := h
  have hafter' : (s.parse (names 0)).2 = { s with state := t } := hafter
  refine ⟨t, hend, freeItems_of_attempts hrun hend, fun k hk => absurd hk (Nat.not_lt_zero _),
    ⟨n, t, hrun, hn, hend, hown, hafter⟩, ?_, by simp, by simpa using hown, ?_, ?_⟩
  · intro k hk
    obtain ⟨k, rfl⟩ := Nat.exists_eq_succ_of_ne_zero (Nat.ne_of_gt hk)
    rw [pass_succ, beforePass_succ, hafter']
    exact pass_of_atEnd hend k
  · rw [hafter]
  · rw [hafter]

/-- The own diagnostics of a series that has one more pass at its front. -/
def frontOwn (first : List Diagnostic) (rest : Nat → List Diagnostic) : Nat → List Diagnostic
  | 0 => first
  | k + 1 => rest k

theorem flatMap_range_succ {α : Type} (f : Nat → List α) (n : Nat) :
    (List.range (n + 1)).flatMap f = f 0 ++ (List.range n).flatMap fun k => f (k + 1) := by
  rw [List.range_succ_eq_map, List.flatMap_cons, List.flatMap_map]

/-- A pass that stops early is put before the series that goes on from it. The series begins with
one record more, that of the ceiling, and `Attempts.withDiagnostics` says that this changes nothing
of what it reads. -/
theorem Resumes.front {own : List Diagnostic} (hstop : s.StopsEarly (s.pass names 0) own)
    {body : List Stmt} {t : ParseState} {stops : Nat} {rest : Nat → List Diagnostic}
    (hend : (s.source.view t).kind 0 = .eof)
    (hrest : (s.parse (names 0)).2.Resumes (fun k => names (k + 1)) body t stops rest) :
    ∃ u, (s.source.view u).kind 0 = .eof ∧
      s.Resumes names ((s.pass names 0).1.body ++ body) u (stops + 1) (frontOwn own rest) := by
  have hfirst := hstop
  obtain ⟨v, hrun, -, hown, hafter⟩ := hstop
  have hafter' : (s.parse (names 0)).2 = { s with state := Grammar.stopped s.source v } := hafter
  obtain ⟨hwhole, hearly, hlast, hlater, hbodies, hdiagnostics, hcursor, hlenient⟩ := hrest
  obtain ⟨n, hrun'⟩ : ∃ n, s.grammar.Attempts s.source n (Grammar.stopped s.source v) body t := by
    rw [hafter'] at hwhole
    exact attempts_of_freeItems (s := { s with state := Grammar.stopped s.source v }) hwhole
  obtain ⟨added, hadded, hmoved⟩ := hrun'.withDiagnostics s.inStep_grammar
  -- the record of the ceiling is taken away again, so that the two runs meet
  have hmeet : s.grammar.Attempts s.source n v body
      { t with diagnostics := v.diagnostics ++ added } := hmoved v.diagnostics
  have hreports : added.toList = (List.range (stops + 1)).flatMap rest := by
    rw [hadded, hafter', Array.toList_append] at hdiagnostics
    exact List.append_cancel_left hdiagnostics
  refine ⟨{ t with diagnostics := v.diagnostics ++ added }, hend,
    freeItems_of_attempts (hrun.append hmeet) hend, ?_, ?_, ?_, ?_, ?_, ?_, ?_⟩
  · intro k hk
    cases k with
    | zero => exact hfirst
    | succ k =>
      rw [pass_succ, beforePass_succ]
      exact hearly k (Nat.lt_of_succ_lt_succ hk)
  · rw [pass_succ, beforePass_succ]
    exact hlast
  · intro k hk
    obtain ⟨k, rfl⟩ := Nat.exists_eq_succ_of_ne_zero (Nat.ne_zero_of_lt hk)
    rw [pass_succ, beforePass_succ]
    exact hlater k (Nat.lt_of_succ_lt_succ hk)
  · rw [flatMap_range_succ]
    simp only [pass_succ]
    rw [hbodies]
  · rw [flatMap_range_succ, Array.toList_append, hown, hreports, List.append_assoc]
    rfl
  · rw [pass_succ]
    exact hcursor
  · rw [pass_succ]
    exact hlenient

/-- A pass that stops early leaves fewer tokens, if its ceiling allows any item. -/
theorem StopsEarly.remaining_lt {r : Program × Session} {own : List Diagnostic}
    (h : s.StopsEarly r own) (hmax : 1 ≤ s.source.settings.maxIterations) :
    (s.source.view r.2.state).remaining < (s.source.view s.state).remaining := by
  obtain ⟨t, hrun, heof, -, hafter⟩ := h
  have hmove := hrun.position_le s.inStep_grammar
  have hinside := Source.position_lt heof
  have hsize : s.source.stream.size = s.source.stream.body.size + 1 := rfl
  rw [hafter]
  show s.source.stream.size - t.cursor.position < s.source.stream.size - s.state.cursor.position
  omega

/-- Every session is read to its end by finitely many passes that go on from one another. -/
theorem exists_resumes (s : Session) (names : Nat → String)
    (hmax : 1 ≤ s.source.settings.maxIterations) :
    ∃ body t stops own, (s.source.view t).kind 0 = .eof ∧ s.Resumes names body t stops own := by
  generalize hleft : (s.source.view s.state).remaining = left
  induction left using Nat.strongRecOn generalizing s names with
  | ind left ih =>
    obtain ⟨own, hstop | hfinish⟩ := s.parse_cases (names 0)
    · have hsource : (s.parse (names 0)).2.source = s.source := by
        obtain ⟨t, -, -, -, hafter⟩ := hstop
        rw [hafter]
      have hlt := hstop.remaining_lt hmax
      obtain ⟨body, t, stops, rest, hend, hrest⟩ := ih _ (hleft ▸ hlt) (s.parse (names 0)).2
        (fun k => names (k + 1)) (by rwa [hsource]) (by rw [hsource])
      rw [hsource] at hend
      obtain ⟨u, hend', hresumes⟩ := Resumes.front hstop hend hrest
      exact ⟨_, u, _, _, hend', hresumes⟩
    · obtain ⟨t, hend, hresumes⟩ := Finishes.resumes hfinish
      exact ⟨_, t, _, _, hend, hresumes⟩

end Passes

end Session

/-- Reading goes on where it stopped. For every text and settings that allow an item in a pass, a
series of passes over the text reads what one pass without the ceiling on the items reads: the
bodies together are its body, and the diagnostics together are its diagnostics, the records of the
ceiling apart, of which there is one at the end of each pass that stops early. Each of these tries
as many items as the ceiling allows. There are finitely many of them; the next pass comes to the end
of the source, and the passes after it read nothing and change nothing. -/
theorem passes_resume (settings : Settings) (text : List Char) (names : Nat → String)
    (hmax : 1 ≤ settings.maxIterations) :
    ∃ body t stops own, ((Session.start settings text).source.view t).kind 0 = .eof ∧
      (Session.start settings text).Resumes names body t stops own :=
  (Session.start settings text).exists_resumes names hmax

/-- Two items, and passes that each try one. -/
theorem passes_resume_two_items :
    1 ≤ 1 ∧ ∃ body t stops own,
      ((Session.start { maxIterations := 1 } "int a; int b;".toList).source.view t).kind 0 = .eof ∧
        (Session.start { maxIterations := 1 } "int a; int b;".toList).Resumes
          (fun _ => "pass") body t stops own :=
  ⟨Nat.le_refl 1, passes_resume { maxIterations := 1 } "int a; int b;".toList (fun _ => "pass")
    (Nat.le_refl 1)⟩

end CTree
