import CTree.Proofs.Lockstep.Basic

/-!
# Single steps and combinators in lockstep

The parsers of `CTree.Parse.Basic`. Each is shown once to go in lockstep with itself, or to lead
parsers in lockstep to parsers in lockstep, and no later proof looks inside of it.
-/

namespace CTree

namespace Lockstep

variable {α β σ : Type} {a b : Source} {n k : Nat} {P Q : ParseState → Prop} {m : α → Prop}
  {p q : Parse α}

/-! ### Failing and reporting -/

theorem expected (what : String) :
    Lockstep a b n P k m (Parse.expected what) (Parse.expected what) where
  toAccounted := .failHere (fun v => .expected what (v.token 0).describe) (fun _ => rfl) fun _ => rfl
  frame _ := .refl _ _
  moves _ h _ := by
    rw [Parse.run_expected] at h
    cases h
  same {s} _ hroom := by
    rw [Parse.run_expected, Parse.run_expected, hroom.twin.view_eq]
    refine ⟨rfl, fun e he => ?_, hroom.calm⟩
    cases he
    exact not_ceiling_expected _ _

theorem unexpected {message : String} (hmessage : IsPlain message) :
    Lockstep a b n P k m (Parse.unexpected message) (Parse.unexpected message) where
  toAccounted := .failHere (fun _ => .unexpected message) (fun _ => rfl) fun _ => hmessage.own
  frame _ := .refl _ _
  moves _ h _ := by
    rw [Parse.run_unexpected] at h
    cases h
  same {s} _ hroom := by
    rw [Parse.run_unexpected, Parse.run_unexpected, hroom.twin.view_eq]
    refine ⟨rfl, fun e he => ?_, hroom.calm⟩
    cases he
    exact hmessage.calm

theorem fail {e : Failure} (hshows : a.Shows e) (he : ¬ IsCeilingMessage e.cause.message) :
    Lockstep a b n P k m (throw e) (throw e) where
  toAccounted := .throwing hshows
  frame _ := .refl _ _
  moves _ h _ := by
    rw [Parse.run_throw] at h
    cases h
  same {s} _ hroom := by
    refine ⟨rfl, fun e' he' => ?_, hroom.calm⟩
    cases he'
    exact he

/-- The failure that something else had to stand here, whatever is made of it. -/
theorem expectation {what : String} {m' : β → Prop} {f f' : Failure → Parse β}
    (hf : ∀ e, a.Shows e → ¬ IsCeilingMessage e.cause.message →
      Lockstep a b n P k m' (f e) (f' e)) :
    Lockstep a b n P k m' (Parse.expectation what >>= f) (Parse.expectation what >>= f') := by
  refine .lookAt (fun v => ⟨.expected what (v.token 0).describe, (v.token 0).offset⟩)
    (fun _ _ => rfl) fun e => ?_
  by_cases he : a.Shows e ∧ ¬ IsCeilingMessage e.cause.message
  · exact (hf e he.1 he.2).weaken fun _ hs => hs.1
  · refine .vacuous fun s hs => he ?_
    rw [← hs.2]
    exact ⟨a.shows_here s rfl, not_ceiling_expected _ _⟩

/-- A fault that is no ceiling is reported alike. -/
theorem report {e : Failure} (hshows : a.Shows e) (he : ¬ IsCeilingMessage e.cause.message) :
    Lockstep a b n P k never (Parse.report e) (Parse.report e) where
  toAccounted := .report hshows
  frame _ := .record ..
  moves _ _ h := h.elim
  same {s} _ hroom := by
    rw [Parse.run_report, Parse.run_report, hroom.twin.text]
    refine ⟨rfl, by simp, fun d hd => ?_⟩
    rcases Array.mem_push.1 hd with hd | rfl
    · exact hroom.calm d hd
    · exact he

/-! ### Moving -/

/-- At the end nothing is taken. -/
theorem advanceAnywhere : Lockstep a b n P k never Parse.advance Parse.advance where
  toAccounted := .advance
  frame _ := .advance ..
  moves _ _ h := h.elim
  same {s} _ hroom := by
    rw [Parse.run_advance, Parse.run_advance, hroom.twin.view_eq, hroom.twin.stream]
    exact ⟨rfl, by simp, hroom.calm⟩

theorem advance {m : Token → Prop} (h : a.Takes n k P m) :
    Lockstep a b n P k m Parse.advance Parse.advance :=
  { advanceAnywhere with
    moves := by
      intro s x t hs hrun hx
      rcases h with htoken | ⟨-, -, hm⟩
      · rw [Parse.run_advance, Source.advance_of_token (htoken s hs)] at hrun
        cases hrun
        exact Nat.lt_succ_self _
      · exact (hm x hx).elim }

/-- A sequence that starts by taking the current token, and may rely on its being one. -/
theorem takingToken {m' : β → Prop} {f f' : Token → Parse β} (h : a.Takes n k P m')
    (hf : ∀ t, a.HasToken t → Lockstep a b n anywhere 3 never (f t) (f' t)) :
    Lockstep a b n P k m' (Parse.advance >>= f) (Parse.advance >>= f') := by
  have hgo : ∀ t, Lockstep a b n (fun _ => a.HasToken t) 3 never (f t) (f' t) := by
    intro t
    by_cases ht : a.HasToken t
    · exact (hf t ht).fromAnywhere
    · exact .vacuous fun _ => ht
  have hread : ∀ {s t u}, P s → Parse.advance.run a s = (.ok t, u) → a.HasToken t := by
    intro s t u _ hrun
    rw [Parse.run_advance] at hrun
    cases hrun
    exact a.hasToken_view s 0
  rcases h with htoken | ⟨rfl, hk, hm⟩
  · have htake : Lockstep a b n P k always Parse.advance Parse.advance := advance (.inl htoken)
    exact htake.bindKnowing hread (fun t _ => hgo t) fun _ ht => (ht trivial).elim
  · obtain ⟨k, rfl⟩ := Nat.exists_eq_add_of_le' hk
    have hnever : Lockstep a b 0 P (k + 1) never (Parse.advance >>= f) (Parse.advance >>= f') :=
      advanceAnywhere.bindKnowing hread (fun _ h => h.elim) fun t _ => .ofFramed (hgo t).toFramed
    exact hnever.lax (fun _ hs => hs) (fun x hx => hm x hx) (Nat.le_refl _)

theorem skipAnywhere : Lockstep a b n P k never Parse.skip Parse.skip := by
  unfold Parse.skip
  exact .bind advanceAnywhere fun _ => .pure _

theorem skip {m : Unit → Prop} (h : a.Takes n k P m) :
    Lockstep a b n P k m Parse.skip Parse.skip := by
  unfold Parse.skip
  exact .taking h advance fun _ => .pure _

theorem accept (t : TokenKind) (ht : t ≠ .eof) :
    Lockstep a b n P k yes (Parse.accept t) (Parse.accept t) := by
  unfold Parse.accept
  refine .check ?_ ?_
  · exact .andThen (skip (Source.takes_at ht)) fun _ => .pure _
  · exact .result Bool.false_ne_true

theorem require (t : TokenKind) (place : String) (ht : t ≠ .eof) :
    Lockstep a b n P k always (Parse.require t place) (Parse.require t place) := by
  unfold Parse.require
  exact .check (advance (Source.takes_at ht)) (expected _)

theorem skipOver (t : TokenKind) (place : String) (ht : t ≠ .eof) :
    Lockstep a b n P k always (Parse.skipOver t place) (Parse.skipOver t place) := by
  unfold Parse.skipOver
  exact .andThen (require t place ht) fun _ => .pure _

theorem name (place : String) :
    Lockstep a b n P k always (Parse.name place) (Parse.name place) := by
  unfold Parse.name
  exact .andThen (require .identifier place nofun) fun _ => .pure _

theorem acceptAnywhere (t : TokenKind) :
    Lockstep a b n P k never (Parse.accept t) (Parse.accept t) := by
  unfold Parse.accept
  exact .check (.bind skipAnywhere fun _ => .pure _) (.pure _)

theorem requireAnywhere (t : TokenKind) (place : String) :
    Lockstep a b n P k never (Parse.require t place) (Parse.require t place) := by
  unfold Parse.require
  exact .check advanceAnywhere (expected _)

theorem skipOverAnywhere (t : TokenKind) (place : String) :
    Lockstep a b n P k never (Parse.skipOver t place) (Parse.skipOver t place) := by
  unfold Parse.skipOver
  exact .bind (requireAnywhere t place) fun _ => .pure _

theorem nameOrNone : Lockstep a b n P k never Parse.nameOrNone Parse.nameOrNone := by
  unfold Parse.nameOrNone
  refine .check ?_ (.pure _)
  exact .andThen (advance (Source.takes_at (by decide))) fun _ => .pure _

theorem optionalAfter (t : TokenKind) (h : Lockstep a b n anywhere 3 never p q)
    (ht : t ≠ .eof) :
    Lockstep a b n P k present (Parse.optionalAfter t p) (Parse.optionalAfter t q) := by
  unfold Parse.optionalAfter
  refine .bindBool (accept t ht) ?_ ?_
  · exact h.map fun _ hx => hx
  · exact .result Bool.false_ne_true

theorem register (name : String) :
    Lockstep a b n P k never (Parse.register name) (Parse.register name) where
  toAccounted := .register name
  frame _ := .register ..
  moves _ _ h := h.elim
  same {s} _ hroom := ⟨rfl, by simp [Parse.run_register], hroom.calm⟩

/-! ### Trying -/

theorem speculateTo {m' : Option α → Prop} (h : Lockstep a b n P k m p q)
    (hm : ∀ o, m' o → ∃ x, o = some x ∧ m x) :
    Lockstep a b n P k m' (Parse.speculate p) (Parse.speculate q) where
  toAccounted := h.toAccounted.speculate
  frame hs := (h.frame hs).speculate
  moves {s o t} hs hrun ho := by
    obtain ⟨x, rfl, hx⟩ := hm o ho
    rcases hp : p.run a s with ⟨e | y, u⟩
    · rw [Parse.run_speculate_error hp] at hrun
      split at hrun <;> cases hrun
    · rw [Parse.run_speculate_ok hp] at hrun
      cases hrun
      exact h.moves hs hp hx
  same {s} hs hroom := by
    obtain ⟨heq, hcalm⟩ := h.same hs hroom
    have hf := h.frame hs
    rcases hrun : p.run a s with ⟨e | x, t⟩
    · rw [hrun] at heq hcalm hf
      rw [Parse.run_speculate_error hrun, Parse.run_speculate_error heq]
      refine ⟨rfl, fun e' he' => ?_, ?_⟩
      · split at he'
        · cases he'
          exact hcalm.failure e rfl
        · cases he'
      · rw [hf.backTo_eq]
        exact hroom.calm
    · rw [hrun] at heq hcalm
      rw [Parse.run_speculate_ok hrun, Parse.run_speculate_ok heq]
      exact ⟨rfl, by simp, hcalm.diagnostics⟩

theorem speculate (h : Lockstep a b n P k always p q) :
    Lockstep a b n P k present (Parse.speculate p) (Parse.speculate q) :=
  h.speculateTo fun _ ho => (Option.isSome_iff_exists.1 ho).imp fun _ hx => ⟨hx, trivial⟩

theorem speculateStill (h : Lockstep a b n P k never p q) :
    Lockstep a b n P k never (Parse.speculate p) (Parse.speculate q) :=
  h.speculateTo fun _ ho => ho.elim

/-! ### Flags and constructs -/

theorem withLeniency (lenient : Bool) (h : Lockstep a b n anywhere k m p q) :
    Lockstep a b n P k m (Parse.withLeniency lenient p) (Parse.withLeniency lenient q) where
  toAccounted := h.toAccounted.withLeniency lenient
  frame _ := (h.frame trivial).withLeniency
  moves {s x t} _ hrun hx := by
    rw [Parse.run_withLeniency] at hrun
    rcases hp : p.run a { s with lenient } with ⟨r, u⟩
    rw [hp] at hrun
    obtain ⟨rfl, rfl⟩ := Prod.mk.inj hrun
    have hmove := h.moves trivial hp hx
    exact hmove
  same {s} _ hroom := by
    have hroom' : Roomy a b n k { s with lenient } := { hroom with }
    obtain ⟨heq, hcalm⟩ := h.same trivial hroom'
    rw [Parse.run_withLeniency, Parse.run_withLeniency, heq]
    exact ⟨rfl, hcalm.failure, hcalm.diagnostics⟩

theorem leniently (h : Lockstep a b n anywhere k m p q) :
    Lockstep a b n P k m (Parse.leniently p) (Parse.leniently q) :=
  h.withLeniency true

theorem strictly (h : Lockstep a b n anywhere k m p q) :
    Lockstep a b n P k m (Parse.strictly p) (Parse.strictly q) :=
  h.withLeniency false

/-- A construct costs one from the room and one from what the grammar can open. -/
theorem nested (h : Lockstep a b n anywhere k m p q) :
    Lockstep a b (n + 1) P (k + 1) m (Parse.nested p) (Parse.nested q) where
  toAccounted := h.toAccounted.nested
  frame _ := .nested fun _ => h.frame trivial
  moves {s x t} _ hrun hx := by
    rw [Parse.run_nested] at hrun
    split at hrun
    · cases hrun
    · rcases hp : p.run a { s with cursor := { s.cursor with depth := s.cursor.depth + 1 } }
        with ⟨r, u⟩
      rw [hp] at hrun
      obtain ⟨rfl, rfl⟩ := Prod.mk.inj hrun
      have hmove := h.moves trivial hp hx
      exact hmove
  same {s} _ hroom := by
    obtain ⟨hdepth, hdepth', -⟩ := hroom.depth_lt
    obtain ⟨heq, hcalm⟩ := h.same trivial hroom.enter
    rw [Parse.run_nested, Parse.run_nested, if_neg (Nat.not_le_of_lt hdepth),
      if_neg (Nat.not_le_of_lt hdepth'), heq]
    exact ⟨rfl, hcalm.failure, hcalm.diagnostics⟩

theorem rereading {p' q' : Parse β} (h : Lockstep a b n P k never p q)
    (h' : Lockstep a b n anywhere k never p' q') :
    Lockstep a b n P k never (Parse.rereading p p') (Parse.rereading q q') where
  toAccounted := h.toAccounted.rereading h'.toAccounted
  frame hs := (h.frame hs).rereading fun _ => h'.frame trivial
  moves _ _ h := h.elim
  same {s} hs hroom := by
    obtain ⟨heq, hcalm⟩ := h.same hs hroom
    have hf := h.frame hs
    rcases hrun : p.run a s with ⟨e | x, t⟩
    · rw [hrun] at heq hcalm
      rw [Parse.run_rereading_error hrun, Parse.run_rereading_error heq]
      exact ⟨rfl, fun e' he => hcalm.failure e' (by cases he; rfl), hcalm.diagnostics⟩
    · rw [hrun] at heq hcalm hf
      obtain ⟨heq', hcalm'⟩ := h'.same trivial (hroom.after hf.restart hcalm.diagnostics)
      rw [Parse.run_rereading_ok hrun, Parse.run_rereading_ok heq, heq']
      refine ⟨rfl, ?_⟩
      rcases hrun' : p'.run a (t.atPosition s.cursor.position) with ⟨e | y, u⟩
      · rw [hrun'] at hcalm'
        exact ⟨fun e' he => hcalm'.failure e' (by cases he; rfl), hcalm'.diagnostics⟩
      · rw [hrun'] at hcalm'
        exact ⟨by simp, hcalm'.diagnostics⟩

/-! ### Loops -/

variable {f f' : σ → Parse (Option σ)}

theorem iterateFor (h : ∀ x, Lockstep a b n anywhere k never (f x) (f' x)) (fuel : Nat) :
    ∀ {P} x, Lockstep a b n P k never (Parse.iterateFor f fuel x) (Parse.iterateFor f' fuel x) := by
  induction fuel with
  | zero => exact fun x => .pure x
  | succ fuel ih =>
    intro P x
    unfold Parse.iterateFor
    refine .bind (h x).fromAnywhere fun y => ?_
    cases y with
    | none => exact .pure x
    | some y => exact ih y

theorem iterate (h : ∀ x, Lockstep a b n anywhere k never (f x) (f' x)) (x : σ) :
    Lockstep a b n P k never (Parse.iterate f x) (Parse.iterate f' x) := by
  unfold Parse.iterate
  exact .view fun v => iterateFor h _ x

/-- A loop whose first step takes a token takes one. -/
theorem iterateAlways (h : ∀ x, Lockstep a b n anywhere 3 never (f x) (f' x)) {x : σ}
    (hfirst : Lockstep a b n P k always (f x) (f' x)) :
    Lockstep a b n P k always (Parse.iterate f x) (Parse.iterate f' x) := by
  unfold Parse.iterate
  refine .view fun v => ?_
  unfold Parse.iterateFor
  refine .andThen hfirst fun y => ?_
  cases y with
  | none => exact .pure x
  | some y => exact iterateFor h _ y

theorem collect {p q : Parse (Option α)} (h : Lockstep a b n anywhere k never p q) :
    Lockstep a b n P k never (Parse.collect p) (Parse.collect q) := by
  unfold Parse.collect
  refine .view fun v => ?_
  generalize v.remaining + 1 = fuel
  induction fuel generalizing P with
  | zero => exact .pure _
  | succ fuel ih =>
    unfold Parse.collectFor
    refine .bind h.fromAnywhere fun x => ?_
    cases x with
    | none => exact .pure _
    | some x => exact .bind ih fun xs => .pure _

theorem chain {item item' : σ → Parse α} {next next' : Parse σ}
    (h : ∀ x, Lockstep a b n anywhere k never (item x) (item' x))
    (hnext : Lockstep a b n anywhere k never next next') (x : σ) :
    Lockstep a b n P k never (Parse.chain item next x) (Parse.chain item' next' x) := by
  unfold Parse.chain
  refine .view fun v => ?_
  generalize v.remaining + 1 = fuel
  induction fuel generalizing P x with
  | zero => exact .pure _
  | succ fuel ih =>
    unfold Parse.chainFor
    refine .bind (h x).fromAnywhere fun first => ?_
    refine .bind (acceptAnywhere .comma) fun more => ?_
    cases more with
    | false => exact .pure _
    | true => exact .bind hnext fun y => .bind (ih y) fun rest => .pure _

theorem separated (h : Lockstep a b n anywhere k never p q) :
    Lockstep a b n P k never (Parse.separated p) (Parse.separated q) :=
  chain (fun _ => h) (.pure ()) ()

theorem commaList (stop : TokenKind → Bool) (h : Lockstep a b n anywhere k never p q) :
    Lockstep a b n P k never (Parse.commaList stop p) (Parse.commaList stop q) := by
  unfold Parse.commaList
  refine .view fun v => ?_
  generalize v.remaining + 1 = fuel
  induction fuel generalizing P with
  | zero => exact .pure _
  | succ fuel ih =>
    unfold Parse.commaListFor
    refine .kind fun t => ?_
    split
    · exact .pure _
    · refine .bind h.fromAnywhere fun first => ?_
      refine .bind (acceptAnywhere .comma) fun more => ?_
      cases more with
      | false => exact .pure _
      | true => exact .bind ih fun rest => .pure _

theorem skipWhile (c : TokenKind → Bool) :
    Lockstep a b n P k never (Parse.skipWhile c) (Parse.skipWhile c) := by
  unfold Parse.skipWhile
  refine iterate (fun _ => .kind fun t => ?_) ()
  split
  · exact .bind skipAnywhere fun _ => .pure _
  · exact .pure _

theorem takeTexts (c : TokenKind → Bool) (text : String) :
    Lockstep a b n P k never (Parse.takeTexts c text) (Parse.takeTexts c text) := by
  unfold Parse.takeTexts
  refine iterate (fun text => .kind fun t => ?_) text
  split
  · exact .bind advanceAnywhere fun _ => .pure _
  · exact .pure _

/-- The rounds of a loop may rely on what holds when they begin, if each round sees to it for the
    next one. -/
theorem rounds {round round' : σ → Parse (Option (List α × σ))} (I : σ → ParseState → Prop)
    (h : ∀ x, Lockstep a b n (I x) k never (round x) (round' x))
    (hnext : ∀ {x s found y t}, I x s → (round x).run a s = (.ok (some (found, y)), t) → I y t)
    {x : σ} (hx : ∀ s, P s → I x s) :
    Lockstep a b n P k never (Parse.rounds round x) (Parse.rounds round' x) := by
  unfold Parse.rounds
  refine .view fun v => ?_
  generalize v.remaining + 1 = fuel
  suffices hfor : Lockstep a b n (I x) k never (Parse.roundsFor round fuel x)
      (Parse.roundsFor round' fuel x) from hfor.weaken hx
  clear hx
  induction fuel generalizing x with
  | zero => exact .pure _
  | succ fuel ih =>
    unfold Parse.roundsFor
    refine (h x).bindKnowing (R := fun o t => ∀ found y, o = some (found, y) → I y t) ?_
      (fun _ hx => hx.elim) fun o _ => ?_
    · rintro s o t hs hrun found y rfl
      exact hnext hs hrun
    · rcases o with _ | ⟨found, y⟩
      · exact .pure _
      · refine .bind (ih.weaken fun _ hy => hy found y rfl) fun rest => .pure _

end Lockstep

end CTree
