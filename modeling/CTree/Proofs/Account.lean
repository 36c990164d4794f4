import CTree.Proofs.Frame

/-!
# What parsers say, and to whom they do not listen

A failure tells of one token of the source: its position is where that token begins, and what it says
it found is that token. So does every diagnostic that a parser adds. No parser looks at the
diagnostics from before it, so with others in their place it does the same. `Accounted` says both of
a parser, for the states in which it may start.
-/

namespace CTree

/-- What a cause says of the token at which it arose. Only an expectation is worded as one. -/
def Cause.TellsOf (t : Token) : Cause → Prop
  | .expected _ found => found = t.describe
  | .unexpected message => ¬ "Expected ".toList <+: message.toList
  | _ => True

theorem not_expected_of_head {m : String} {c : Char} {l : List Char} (hm : m.toList = c :: l)
    (h : c ≠ 'E') : ¬ "Expected ".toList <+: m.toList := by
  rintro ⟨rest, hrest⟩
  rw [hm] at hrest
  exact h (List.cons.inj hrest).1.symm

theorem not_expected_append {w m : String} {c : Char} {l : List Char} (hw : w.toList = c :: l)
    (h : c ≠ 'E') : ¬ "Expected ".toList <+: (w ++ m).toList := by
  refine not_expected_of_head (l := l ++ m.toList) ?_ h
  rw [String.toList_append, hw, List.cons_append]

theorem Cause.tellsOf_of_isFatal {cause : Cause} (h : cause.isFatal = true) (t : Token) :
    cause.TellsOf t := by
  cases cause with
  | tooDeep => trivial
  | tooMany => trivial
  | _ => cases h

namespace Source

/-- A token of a source, the end of its text included. -/
def HasToken (source : Source) (t : Token) : Prop :=
  ∃ i, t = source.stream.get i

/-- A failure tells of a token of the source. -/
def Shows (source : Source) (e : Failure) : Prop :=
  ∃ t, source.HasToken t ∧ e.offset = t.offset ∧ e.cause.TellsOf t

/-- A diagnostic tells of a token of the source. -/
def Reports (source : Source) (d : Diagnostic) : Prop :=
  ∃ e, source.Shows e ∧ d = Diagnostic.ofFailure source.text e

theorem hasToken_view (source : Source) (s : ParseState) (n : Nat) :
    source.HasToken ((source.view s).token n) :=
  ⟨_, rfl⟩

/-- A failure at the current token. -/
theorem shows_here {source : Source} {cause : Cause} (s : ParseState)
    (h : cause.TellsOf ((source.view s).token 0)) :
    source.Shows ⟨cause, ((source.view s).token 0).offset⟩ :=
  ⟨_, source.hasToken_view s 0, rfl, h⟩

end Source

namespace ParseState

/-- The state with other diagnostics before its own. -/
def preceded (ds : Array Diagnostic) (s : ParseState) : ParseState :=
  { s with diagnostics := ds ++ s.diagnostics }

theorem preceded_record (ds : Array Diagnostic) (s : ParseState) (d : Diagnostic) :
    (s.preceded ds).record d = (s.record d).preceded ds := by
  simp only [preceded, record, Array.append_push]

theorem preceded_backTo (ds : Array Diagnostic) (s before : ParseState) :
    (s.preceded ds).backTo (before.preceded ds) = (s.backTo before).preceded ds := by
  have htake : (ds ++ s.diagnostics).take (ds ++ before.diagnostics).size =
      ds ++ s.diagnostics.take before.diagnostics.size := by
    apply Array.toList_inj.1
    simp [List.take_of_length_le]
  simp only [preceded, backTo, atPosition, htake]

theorem mem_of_mem_backTo {s before : ParseState} {d : Diagnostic}
    (h : d ∈ (s.backTo before).diagnostics) : d ∈ s.diagnostics := by
  have htake : d ∈ s.diagnostics.toList.take before.diagnostics.size := by
    simpa [backTo] using Array.mem_toList_iff.2 h
  exact Array.mem_toList_iff.1 (List.mem_of_mem_take htake)

end ParseState

open Parse

/-- From a state in `P` the parser fails with what tells of a token, adds diagnostics that do, and
does the same whatever diagnostics there are already. -/
structure Accounted {α : Type} (source : Source) (P : ParseState → Prop) (p : Parse α) : Prop where
  failure : ∀ {s e t}, P s → p.run source s = (.error e, t) → source.Shows e
  reports : ∀ {s d}, P s → d ∈ (p.run source s).2.diagnostics →
    d ∈ s.diagnostics ∨ source.Reports d
  oblivious : ∀ {s}, P s → ∀ ds, p.run source (s.preceded ds) =
    ((p.run source s).1, (p.run source s).2.preceded ds)

namespace Accounted

variable {α β : Type} {source : Source} {P Q : ParseState → Prop} {p : Parse α} {f : α → Parse β}

theorem weaken (h : Accounted source Q p) (hP : ∀ s, P s → Q s) : Accounted source P p where
  failure hs := h.failure (hP _ hs)
  reports hs := h.reports (hP _ hs)
  oblivious hs := h.oblivious (hP _ hs)

theorem vacuous (h : ∀ s, ¬ P s) : Accounted source P p where
  failure hs := (h _ hs).elim
  reports hs := (h _ hs).elim
  oblivious hs := (h _ hs).elim

/-! ### Single steps -/

/-- A step that gives what there is to see, and changes the state without a look at the
diagnostics. -/
theorem step (y : View → α) (g : ParseState → ParseState)
    (hrun : ∀ s, p.run source s = (.ok (y (source.view s)), g s))
    (hg : ∀ s ds, g (s.preceded ds) = (g s).preceded ds)
    (hd : ∀ s, ∀ d ∈ (g s).diagnostics, d ∈ s.diagnostics ∨ source.Reports d) :
    Accounted source P p where
  failure {s e t} _ h := by
    rw [hrun] at h
    cases h
  reports {s d} _ h := by
    rw [hrun] at h
    exact hd s d h
  oblivious {s} _ ds := by
    rw [hrun, hrun, hg]
    rfl

/-- A step that only looks. -/
theorem look (y : View → α) (hrun : ∀ s, p.run source s = (.ok (y (source.view s)), s)) :
    Accounted source P p :=
  step y id hrun (fun _ _ => rfl) fun _ _ hd => .inl hd

protected theorem pure (x : α) : Accounted source P (pure x) :=
  look (fun _ => x) fun _ => rfl

/-- A step that fails because of what there is to see. -/
theorem fail (e : View → Failure) (hP : ∀ s ds, P s → P (s.preceded ds))
    (hrun : ∀ s, P s → p.run source s = (.error (e (source.view s)), s))
    (he : ∀ s, source.Shows (e (source.view s))) : Accounted source P p where
  failure {s e' t} hs h := by
    rw [hrun s hs] at h
    cases h
    exact he s
  reports {s d} hs h := by
    rw [hrun s hs] at h
    exact .inl h
  oblivious {s} hs ds := by
    rw [hrun _ (hP s ds hs), hrun s hs]
    rfl

/-- A step that fails at the current token wherever it starts. -/
theorem failHere (cause : View → Cause)
    (hrun : ∀ s, p.run source s =
      (.error ⟨cause (source.view s), ((source.view s).token 0).offset⟩, s))
    (hcause : ∀ s, (cause (source.view s)).TellsOf ((source.view s).token 0)) :
    Accounted source P p := by
  have hany : Accounted source (fun _ => True) p :=
    fail (fun v => ⟨cause v, (v.token 0).offset⟩) (fun _ _ _ => trivial) (fun s _ => hrun s)
      fun s => source.shows_here s (hcause s)
  exact hany.weaken fun _ _ => trivial

theorem throwing {e : Failure} (he : source.Shows e) : Accounted source P (throw e : Parse α) := by
  have hany : Accounted source (fun _ => True) (throw e : Parse α) :=
    fail (fun _ => e) (fun _ _ _ => trivial) (fun _ _ => rfl) fun _ => he
  exact hany.weaken fun _ _ => trivial

theorem report {e : Failure} (he : source.Shows e) : Accounted source P (report e) := by
  refine step (fun _ => ()) (·.record (Diagnostic.ofFailure source.text e)) (fun _ => run_report e)
    (fun s ds => s.preceded_record ds _) fun s d hd => ?_
  rcases Array.mem_push.1 hd with hd | rfl
  · exact .inl hd
  · exact .inr ⟨e, he, rfl⟩

theorem advance : Accounted source P advance :=
  step (fun v => v.token 0) (fun s => { s with cursor := s.cursor.advance source.stream })
    (fun _ => run_advance) (fun _ _ => rfl) fun _ _ hd => .inl hd

theorem register (name : String) : Accounted source P (register name) :=
  step (fun _ => ()) (fun s => { s with cursor := s.cursor.register name })
    (fun _ => run_register name) (fun _ _ => rfl) fun _ _ hd => .inl hd

/-- A change of the state that does not touch the diagnostics. -/
theorem change (g : ParseState → ParseState)
    (hg : ∀ s ds, g (s.preceded ds) = (g s).preceded ds ∧ (g s).diagnostics = s.diagnostics) :
    Accounted source P (modify g : Parse Unit) :=
  step (fun _ => ()) g (fun _ => run_modify g) (fun s ds => (hg s ds).1)
    fun s _ hd => .inl ((hg s #[]).2 ▸ hd)

/-! ### Combinators -/

/-- A sequence whose second part may rely on what the first part leaves behind. -/
theorem bindKnowing {R : α → ParseState → Prop} (hp : Accounted source P p)
    (hR : ∀ {s x t}, P s → p.run source s = (.ok x, t) → R x t)
    (hf : ∀ x, Accounted source (R x) (f x)) : Accounted source P (p >>= f) where
  failure {s e u} hs h := by
    rcases hrun : p.run source s with ⟨e' | x, t⟩
    · rw [run_bind_error hrun] at h
      cases h
      exact hp.failure hs hrun
    · rw [run_bind_ok hrun] at h
      exact (hf x).failure (hR hs hrun) h
  reports {s d} hs hd := by
    have hfirst := fun hd => hp.reports (d := d) hs hd
    rcases hrun : p.run source s with ⟨e | x, t⟩
    · rw [run_bind_error hrun] at hd
      rw [hrun] at hfirst
      exact hfirst hd
    · rw [run_bind_ok hrun] at hd
      rw [hrun] at hfirst
      rcases (hf x).reports (hR hs hrun) hd with hd | hd
      · exact hfirst hd
      · exact .inr hd
  oblivious {s} hs ds := by
    have hfirst := hp.oblivious hs ds
    rcases hrun : p.run source s with ⟨e | x, t⟩
    · rw [hrun] at hfirst
      rw [run_bind_error hrun, run_bind_error hfirst]
    · rw [hrun] at hfirst
      rw [run_bind_ok hrun, run_bind_ok hfirst]
      exact (hf x).oblivious (hR hs hrun) ds

/-- The failure that a loop reached its ceiling, whatever is made of it. -/
theorem exhaustion {limit : Nat} {loop : Loop} {f : Failure → Parse β}
    (hf : ∀ e, source.Shows e → Accounted source P (f e)) :
    Accounted source P (exhaustion limit loop >>= f) := by
  have hlook : Accounted source P (Parse.exhaustion limit loop) :=
    look (fun v => ⟨.tooMany limit loop, (v.token 0).offset⟩) fun _ => run_exhaustion limit loop
  refine hlook.bindKnowing (R := fun e s => P s ∧ source.Shows e) (fun {s e t} hs h => ?_)
    fun e => ?_
  · rw [run_exhaustion] at h
    cases h
    exact ⟨hs, source.shows_here s trivial⟩
  · by_cases he : source.Shows e
    · exact (hf e he).weaken fun _ hs => hs.1
    · exact vacuous fun _ hs => he hs.2

theorem speculate (h : Accounted source P p) : Accounted source P (speculate p) where
  failure {s e t} hs hrun := by
    rcases hp : p.run source s with ⟨e' | x, u⟩
    · rw [run_speculate_error hp] at hrun
      split at hrun
      · cases hrun
        exact h.failure hs hp
      · cases hrun
    · rw [run_speculate_ok hp] at hrun
      cases hrun
  reports {s d} hs hd := by
    have hin := fun hd => h.reports (d := d) hs hd
    rcases hp : p.run source s with ⟨e | x, u⟩
    · rw [run_speculate_error hp] at hd
      rw [hp] at hin
      exact hin (ParseState.mem_of_mem_backTo hd)
    · rw [run_speculate_ok hp] at hd
      rw [hp] at hin
      exact hin hd
  oblivious {s} hs ds := by
    have hin := h.oblivious hs ds
    rcases hp : p.run source s with ⟨e | x, u⟩
    · rw [hp] at hin
      rw [run_speculate_error hp, run_speculate_error hin, ParseState.preceded_backTo]
    · rw [hp] at hin
      rw [run_speculate_ok hp, run_speculate_ok hin]

/-- A parser that runs another one between two changes of the state which do not touch the
diagnostics. -/
theorem within {q : Parse α} (enter : ParseState → ParseState)
    (leave : ParseState → ParseState → ParseState) (hP : ∀ s ds, P s → P (s.preceded ds))
    (hq : ∀ s, P s → q.run source s =
      ((p.run source (enter s)).1, leave s (p.run source (enter s)).2))
    (henter : ∀ s ds, enter (s.preceded ds) = (enter s).preceded ds ∧
      (enter s).diagnostics = s.diagnostics)
    (hleave : ∀ s t ds, leave (s.preceded ds) (t.preceded ds) = (leave s t).preceded ds ∧
      (leave s t).diagnostics = t.diagnostics)
    (h : Accounted source (fun _ => True) p) : Accounted source P q where
  failure {s e t} hs hrun := by
    rw [hq s hs] at hrun
    exact h.failure trivial (Prod.ext (Prod.mk.inj hrun).1 rfl)
  reports {s d} hs hd := by
    rw [hq s hs, (hleave s _ #[]).2] at hd
    rw [← (henter s #[]).2]
    exact h.reports trivial hd
  oblivious {s} hs ds := by
    rw [hq _ (hP s ds hs), hq s hs, (henter s ds).1, h.oblivious trivial, (hleave s _ ds).1]

theorem withLeniency (lenient : Bool) (h : Accounted source (fun _ => True) p) :
    Accounted source P (withLeniency lenient p) := by
  have hany : Accounted source (fun _ => True) (Parse.withLeniency lenient p) :=
    h.within (fun s => { s with lenient }) (fun s t => { t with lenient := s.lenient })
      (fun _ _ _ => trivial) (fun _ _ => run_withLeniency lenient p) (fun _ _ => ⟨rfl, rfl⟩)
      fun _ _ _ => ⟨rfl, rfl⟩
  exact hany.weaken fun _ _ => trivial

/-- What holds where a test of the state succeeds and where it fails holds everywhere. -/
theorem split (C : ParseState → Prop) (hyes : Accounted source (fun s => P s ∧ C s) p)
    (hno : Accounted source (fun s => P s ∧ ¬ C s) p) : Accounted source P p where
  failure {s e t} hs := by
    by_cases hC : C s
    · exact hyes.failure ⟨hs, hC⟩
    · exact hno.failure ⟨hs, hC⟩
  reports {s d} hs := by
    by_cases hC : C s
    · exact hyes.reports ⟨hs, hC⟩
    · exact hno.reports ⟨hs, hC⟩
  oblivious {s} hs := by
    by_cases hC : C s
    · exact hyes.oblivious ⟨hs, hC⟩
    · exact hno.oblivious ⟨hs, hC⟩

theorem nested (h : Accounted source (fun _ => True) p) : Accounted source P (nested p) := by
  refine split (fun s => source.settings.maxDepth ≤ s.cursor.depth) ?_ ?_
  · have hclosed : Accounted source (fun s => source.settings.maxDepth ≤ s.cursor.depth)
        (Parse.nested p) := by
      refine fail (fun v => ⟨.tooDeep source.settings.maxDepth, (v.token 0).offset⟩)
        (fun _ _ hs => hs) (fun s hs => ?_) fun s => source.shows_here s trivial
      rw [run_nested, if_pos hs]
    exact hclosed.weaken fun _ hs => hs.2
  · have hopen : Accounted source (fun s => ¬ source.settings.maxDepth ≤ s.cursor.depth)
        (Parse.nested p) := by
      refine h.within
        (fun s => { s with cursor := { s.cursor with depth := s.cursor.depth + 1 } })
        (fun _ t => { t with cursor := t.cursor.exit }) (fun _ _ hs => hs) (fun s hs => ?_)
        (fun _ _ => ⟨rfl, rfl⟩) fun _ _ _ => ⟨rfl, rfl⟩
      rw [run_nested, if_neg hs]
    exact hopen.weaken fun _ hs => hs.2

/-- A sequence whose second part relies on nothing. -/
protected theorem bind (hp : Accounted source P p)
    (hf : ∀ x, Accounted source (fun _ => True) (f x)) : Accounted source P (p >>= f) :=
  hp.bindKnowing (fun _ _ => trivial) hf

theorem rereading {q : Parse β} (hp : Accounted source P p)
    (hq : Accounted source (fun _ => True) q) : Accounted source P (rereading p q) := by
  unfold Parse.rereading
  have hposition : ∀ {P}, Accounted source P position :=
    look (fun v => v.cursor.position) fun _ => run_position
  have hmove : ∀ i, Accounted source (fun _ => True) (modify (·.atPosition i) : Parse Unit) :=
    fun i => change _ fun _ _ => ⟨rfl, rfl⟩
  refine hposition.bindKnowing (R := fun _ => P) (fun {s _ _} hs h => ?_) fun start => ?_
  · rw [run_position] at h
    cases h
    exact hs
  · refine hp.bind fun b => hposition.bind fun stop => (hmove start).bind fun _ => ?_
    exact hq.bind fun a => (hmove stop).bind fun _ => .pure _

/-- A parser that fails is made up for by a report of what it shows, and a skip. -/
theorem recovering (h : Accounted source P p)
    (hskip : Accounted source (fun _ => True) synchronize) :
    Accounted source P (recovering p) := by
  have hrecover : ∀ {e}, source.Shows e → ∀ start, Accounted source (fun _ => True)
      (do recover start e; return none : Parse (Option α)) := by
    intro e he start
    have hback : Accounted source (fun _ => True)
        (modify fun s => { s with cursor := s.cursor.rewind start } : Parse Unit) :=
      change _ fun _ _ => ⟨rfl, rfl⟩
    refine .bind (.bind (report he) fun _ => .bind hback fun _ => hskip) fun _ => .pure _
  exact
    { failure := fun {s e t} hs hrun => by
        rcases hp : p.run source s with ⟨e' | x, u⟩
        · rw [run_recovering_error hp] at hrun
          exact (hrecover (h.failure hs hp) _).failure trivial hrun
        · rw [run_recovering_ok hp] at hrun
          cases hrun
      reports := fun {s d} hs hd => by
        have hin := fun hd => h.reports (d := d) hs hd
        rcases hp : p.run source s with ⟨e | x, u⟩
        · rw [run_recovering_error hp] at hd
          rw [hp] at hin
          rcases (hrecover (h.failure hs hp) _).reports trivial hd with hd | hd
          · exact hin hd
          · exact .inr hd
        · rw [run_recovering_ok hp] at hd
          rw [hp] at hin
          exact hin hd
      oblivious := fun {s} hs ds => by
        have hin := h.oblivious hs ds
        rcases hp : p.run source s with ⟨e | x, u⟩
        · rw [hp] at hin
          rw [run_recovering_error hp, run_recovering_error hin]
          exact (hrecover (h.failure hs hp) _).oblivious trivial ds
        · rw [hp] at hin
          rw [run_recovering_ok hp, run_recovering_ok hin] }

end Accounted

end CTree
