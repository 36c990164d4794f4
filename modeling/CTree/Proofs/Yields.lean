import CTree.Proofs.Tree.Gives

/-!
# Values of parsers

`Yields` says that every value that a parser gives has a property, wherever the parser starts. It is
closed under all ways to put parsers together.
-/

namespace CTree

open Parse

/-- Every value that the parser gives, wherever it starts, is in `m`. -/
def Yields {α : Type} (source : Source) (m : α → Prop) (p : Parse α) : Prop :=
  ∀ s x t, p.run source s = (.ok x, t) → m x

namespace Yields

variable {α β σ : Type} {source : Source} {m : α → Prop} {m' : β → Prop} {p : Parse α}
  {f : α → Parse β}

theorem any : Yields source anything p :=
  fun _ _ _ _ => trivial

theorem mono {m' : α → Prop} (h : Yields source m p) (hm : ∀ x, m x → m' x) :
    Yields source m' p :=
  fun s x t hrun => hm x (h s x t hrun)

protected theorem pure {x : α} (h : m x) : Yields source m (pure x) := by
  intro s y t hrun
  cases hrun
  exact h

/-- What always fails gives nothing. -/
theorem failure (h : ∀ s, ∃ e t, p.run source s = (.error e, t)) : Yields source m p := by
  intro s x t hrun
  obtain ⟨e, u, he⟩ := h s
  rw [he] at hrun
  cases hrun

theorem expected (what : String) : Yields source m (expected what) :=
  failure fun s => ⟨_, s, run_expected what⟩

theorem unexpected (message : String) : Yields source m (unexpected message) :=
  failure fun s => ⟨_, s, run_unexpected message⟩

/-- The second part of a sequence starts from a value that the first part gives. -/
protected theorem bind (hp : Yields source m p) (hf : ∀ x, m x → Yields source m' (f x)) :
    Yields source m' (p >>= f) := by
  intro s y u hrun
  obtain ⟨x, t, hfirst, hrest⟩ := exists_of_run_bind hrun
  exact hf x (hp s x t hfirst) t y u hrest

/-- A sequence whose first part may give anything. -/
theorem after (hf : ∀ x, Yields source m' (f x)) : Yields source m' (p >>= f) :=
  any.bind fun x _ => hf x

/-- The settings are those of the source. -/
theorem settings {f : Settings → Parse β} (hf : Yields source m' (f source.settings)) :
    Yields source m' (settings >>= f) := by
  intro s y t hrun
  rw [run_bind_ok run_settings] at hrun
  exact hf s y t hrun

protected theorem map {g : α → β} (hp : Yields source m p) (hm : ∀ x, m x → m' (g x)) :
    Yields source m' (g <$> p) := by
  rw [map_eq_bind]
  exact hp.bind fun x hx => .pure (hm x hx)

/-! ### Combinators -/

protected theorem speculate (h : Yields source m p) : Yields source (Maybe m) (speculate p) := by
  rintro s o t hrun x rfl
  rcases hp : p.run source s with ⟨e | y, u⟩
  · rw [run_speculate_error hp] at hrun
    split at hrun <;> cases hrun
  · rw [run_speculate_ok hp] at hrun
    cases hrun
    exact h s x t hp

theorem optionalAfter (k : TokenKind) (h : Yields source m p) :
    Yields source (Maybe m) (optionalAfter k p) := by
  unfold Parse.optionalAfter
  refine .after fun here => ?_
  split
  · exact h.map fun x hx => Maybe.some hx
  · exact .pure Maybe.none

theorem withLeniency {lenient : Bool} (h : Yields source m p) :
    Yields source m (withLeniency lenient p) := by
  intro s x t hrun
  rw [run_withLeniency] at hrun
  exact h _ x _ (Prod.ext (Prod.mk.inj hrun).1 rfl)

theorem leniently (h : Yields source m p) : Yields source m (leniently p) :=
  h.withLeniency

theorem strictly (h : Yields source m p) : Yields source m (strictly p) :=
  h.withLeniency

theorem nested (h : Yields source m p) : Yields source m (nested p) := by
  intro s x t hrun
  rw [run_nested] at hrun
  split at hrun
  · cases hrun
  · exact h _ x _ (Prod.ext (Prod.mk.inj hrun).1 rfl)

theorem attempt (h : Yields source m p) : Yields source (Maybe m) (attempt p) := by
  rintro s o t hrun x rfl
  rcases hp : p.run source s with ⟨e | y, u⟩
  · rw [run_attempt (run_recovering_failed hp)] at hrun
    cases hrun
  · rw [run_attempt (run_recovering_ok hp)] at hrun
    obtain ⟨hsome, -⟩ := Prod.mk.inj hrun
    cases hsome
    exact h s x u hp

/-- What is read again is read by both parsers. -/
theorem rereading {first : Parse β} (hfirst : Yields source m' first) (h : Yields source m p) :
    Yields source (fun r => m' r.1 ∧ m r.2) (rereading first p) := by
  unfold Parse.rereading
  refine .after fun start => hfirst.bind fun b hb => .after fun stop => .after fun _ => ?_
  exact h.bind fun a ha => .after fun _ => .pure ⟨hb, ha⟩

/-! ### Loops -/

/-- What every step keeps, the loop keeps. -/
theorem iterate {step : α → Parse (Option α)}
    (h : ∀ x, m x → Yields source (Maybe m) (step x)) {x : α} (hx : m x) :
    Yields source m (iterate step x) := by
  unfold Parse.iterate
  refine .after fun v => ?_
  -- The invariant holds wherever the loop stops, so the fuel may be any number.
  generalize v.remaining + 1 = fuel
  induction fuel generalizing x with
  | zero => exact .pure hx
  | succ fuel ih =>
    unfold Parse.iterateFor
    refine (h x hx).bind fun o ho => ?_
    cases o with
    | none => exact .pure hx
    | some y => exact ih (ho y rfl)

theorem collect {next : Parse (Option α)} (h : Yields source (Maybe m) next) :
    Yields source (Each m) (collect next) := by
  unfold Parse.collect
  refine .after fun v => ?_
  generalize v.remaining + 1 = fuel
  induction fuel with
  | zero => exact .pure Each.nil
  | succ fuel ih =>
    unfold Parse.collectFor
    refine h.bind fun o ho => ?_
    cases o with
    | none => exact .pure Each.nil
    | some x => exact ih.bind fun xs hxs => .pure (Each.cons (ho x rfl) hxs)

/-- Each thing is read from something of which `k` holds. -/
theorem chainOf {item : σ → Parse α} {next : Parse σ} {k : σ → Prop}
    (h : ∀ a, k a → Yields source m (item a)) (hnext : Yields source k next) {a : σ} (ha : k a) :
    Yields source (Each m) (chain item next a) := by
  unfold Parse.chain
  refine .after fun v => ?_
  generalize v.remaining + 1 = fuel
  induction fuel generalizing a with
  | zero => exact .pure Each.nil
  | succ fuel ih =>
    unfold Parse.chainFor
    refine (h a ha).bind fun first hfirst => .after fun more => ?_
    split
    · exact hnext.bind fun b hb => (ih hb).bind fun rest hrest => .pure (Each.cons hfirst hrest)
    · exact .pure (Each.single hfirst)

theorem chain {item : σ → Parse α} {next : Parse σ} (h : ∀ a, Yields source m (item a)) (a : σ) :
    Yields source (Each m) (chain item next a) :=
  chainOf (k := anything) (fun a _ => h a) any trivial

theorem separated (h : Yields source m p) : Yields source (Each m) (separated p) :=
  chain (fun _ => h) ()

theorem commaList (stop : TokenKind → Bool) (h : Yields source m p) :
    Yields source (Each m) (commaList stop p) := by
  unfold Parse.commaList
  refine .after fun v => ?_
  generalize v.remaining + 1 = fuel
  induction fuel with
  | zero => exact .pure Each.nil
  | succ fuel ih =>
    unfold Parse.commaListFor
    refine .after fun k => ?_
    split
    · exact .pure Each.nil
    · refine h.bind fun first hfirst => .after fun more => ?_
      split
      · exact ih.bind fun rest hrest => .pure (Each.cons hfirst hrest)
      · exact .pure (Each.single hfirst)

theorem rounds {round : σ → Parse (Option (List α × σ))}
    (h : ∀ a, Yields source (Maybe fun found => Each m found.1) (round a)) (a : σ) :
    Yields source (Each m) (rounds round a) := by
  unfold Parse.rounds
  refine .after fun v => ?_
  generalize v.remaining + 1 = fuel
  induction fuel generalizing a with
  | zero => exact .pure Each.nil
  | succ fuel ih =>
    unfold Parse.roundsFor
    refine (h a).bind fun o ho => ?_
    rcases o with _ | ⟨found, b⟩
    · exact .pure Each.nil
    · exact (ih b).bind fun rest hrest => .pure (Each.append (ho _ rfl) hrest)

theorem firstOf {ps : List (Parse α)} (h : ∀ p ∈ ps, Yields source m p) :
    Yields source (Maybe m) (firstOf ps) := by
  induction ps with
  | nil => exact .pure Maybe.none
  | cons p ps ih =>
    obtain ⟨hp, hps⟩ := List.forall_mem_cons.1 h
    unfold Parse.firstOf
    refine hp.speculate.bind fun o ho => ?_
    cases o with
    | some x => exact .pure ho
    | none => exact ih hps

end Yields

end CTree
