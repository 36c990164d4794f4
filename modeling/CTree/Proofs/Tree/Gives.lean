import CTree.Proofs.Exactness
import CTree.Proofs.Words

/-!
# What parsers give

`Gives` says of a parser that it keeps the frame and that every value it gives has a property. The
property may speak of the type names that are known in the end, and of the constructs that may
still be opened where the parser starts. Names are never forgotten, so what is known after a part
of a parser is known after the whole. `Gives` is closed under all ways to put parsers together.
-/

namespace CTree

open Parse

/-- The parser keeps the frame, and if it starts where `room` more constructs may be opened and
    everything that it learns is among the known names, then the value that it gives is in `m`. -/
structure Gives {α : Type} (source : Source) (known : KnownTypes) (room : Nat) (m : α → Prop)
    (p : Parse α) : Prop where
  keeps : KeepsFrame source p
  value : ∀ {s x t}, s.cursor.depth + room = source.settings.maxDepth →
    p.run source s = (.ok x, t) → t.cursor.known.names ⊆ known.names → m x

/-- Any value will do. -/
abbrev anything {α : Type} : α → Prop := fun _ => True

/-- Every value that is there has the property. -/
abbrev Maybe {α : Type} (m : α → Prop) : Option α → Prop := fun o => ∀ x, o = some x → m x

/-- Every value in a list has the property. -/
abbrev Each {α : Type} (m : α → Prop) : List α → Prop := fun xs => ∀ x ∈ xs, m x

section Values

variable {α : Type} {m : α → Prop} {x : α}

theorem Maybe.none : Maybe m none := fun _ h => by cases h

theorem Maybe.some (h : m x) : Maybe m (some x) := fun _ hx => Option.some.inj hx ▸ h

theorem Each.nil : Each m [] := List.forall_mem_nil _

theorem Each.single (h : m x) : Each m [x] := List.forall_mem_singleton.2 h

theorem Each.cons {xs : List α} (h : m x) (hs : Each m xs) : Each m (x :: xs) :=
  List.forall_mem_cons.2 ⟨h, hs⟩

theorem Each.append {xs ys : List α} (h : Each m xs) (h' : Each m ys) : Each m (xs ++ ys) :=
  List.forall_mem_append.2 ⟨h, h'⟩

end Values

namespace Gives

variable {α β σ : Type} {source : Source} {known : KnownTypes} {room : Nat} {m : α → Prop}
  {m' : β → Prop} {p : Parse α} {f : α → Parse β}

/-! ### Sequences -/

/-- Where only the frame is known of a parser, any value may come of it. -/
theorem any (h : KeepsFrame source p) : Gives source known room anything p :=
  ⟨h, fun _ _ _ => trivial⟩

theorem mono {m' : α → Prop} (h : Gives source known room m p) (hm : ∀ x, m x → m' x) :
    Gives source known room m' p :=
  ⟨h.keeps, fun hdepth hrun hknown => hm _ (h.value hdepth hrun hknown)⟩

protected theorem pure {x : α} (h : m x) : Gives source known room m (pure x) where
  keeps s := .refl source s
  value _ hrun _ := by
    cases hrun
    exact h

/-- What fails at once gives nothing. -/
theorem failure (h : ∀ s, ∃ e, p.run source s = (.error e, s)) : Gives source known room m p where
  keeps s := by
    obtain ⟨e, he⟩ := h s
    rw [he]
    exact .refl source s
  value {s x t} _ hrun _ := by
    obtain ⟨e, he⟩ := h s
    rw [he] at hrun
    cases hrun

/-- The second part of a sequence gives what it does because of what the first part gave. -/
protected theorem bind (hp : Gives source known room m p)
    (hf : ∀ x, Gives source known room (fun y => m x → m' y) (f x)) :
    Gives source known room m' (p >>= f) where
  keeps s := by
    have hs := hp.keeps s
    rcases hrun : p.run source s with ⟨e | x, t⟩
    · rw [hrun] at hs
      rwa [run_bind_error hrun]
    · rw [hrun] at hs
      rw [run_bind_ok hrun]
      exact hs.trans ((hf x).keeps t)
  value {s y u} hdepth hrun hknown := by
    obtain ⟨x, t, hfirst, hrest⟩ := exists_of_run_bind hrun
    have hs := hp.keeps s
    have ht := (hf x).keeps t
    rw [hfirst] at hs
    rw [hrest] at ht
    have hx : m x := hp.value hdepth hfirst (List.Subset.trans ht.known hknown)
    exact (hf x).value (hs.depth ▸ hdepth) hrest hknown hx

/-- A sequence whose first part gives anything. -/
theorem afterKeeping (h : KeepsFrame source p) (hf : ∀ x, Gives source known room m' (f x)) :
    Gives source known room m' (p >>= f) :=
  (any h).bind fun x => (hf x).mono fun _ hy _ => hy

theorem after {m₀ : α → Prop} (h : Lockstep source source 0 anywhere 3 m₀ p p)
    (hf : ∀ x, Gives source known room m' (f x)) : Gives source known room m' (p >>= f) :=
  afterKeeping h.keeps hf

/-- A look whose answer only decides what is done next. -/
theorem look (h : ∀ s, (p.run source s).2 = s) (hf : ∀ x, Gives source known room m' (f x)) :
    Gives source known room m' (p >>= f) := by
  have hkeeps : KeepsFrame source p := fun s => by
    rw [h s]
    exact .refl source s
  exact .afterKeeping hkeeps hf

protected theorem map {g : α → β} (hp : Gives source known room m p) (hm : ∀ x, m x → m' (g x)) :
    Gives source known room m' (g <$> p) := by
  rw [map_eq_bind]
  exact hp.bind fun x => .pure (hm x)

/-! ### Names -/

/-- A name that is made known is known from then on. -/
theorem register (name : String) :
    Gives source known room (fun _ => name ≠ "" → name ∈ known.names) (register name) where
  keeps s := .register source s name
  value {s x t} _ hrun hknown hne := by
    rw [run_register] at hrun
    obtain ⟨-, rfl⟩ := Prod.mk.inj hrun
    exact hknown (KnownTypes.mem_names_insert.2 (.inr ⟨rfl, hne⟩))

/-- A name is a word. -/
theorem name (hwords : source.NamesAreWords) (place : String) :
    Gives source known room Rule.IsWord (name place) where
  keeps := (Lockstep.name place).keeps
  value {s x t} _ hrun _ := by
    obtain ⟨token, u, htoken, hrest⟩ := exists_of_run_bind hrun
    cases hrest
    unfold require at htoken
    rw [run_bind_ok (run_check _)] at htoken
    split at htoken
    · rename_i hkind
      rw [run_advance] at htoken
      cases htoken
      exact hwords _ (beq_iff_eq.1 hkind)
    · rw [run_expected] at htoken
      cases htoken

/-- A name that may be missing is a word, or empty. -/
theorem nameOrNone (hwords : source.NamesAreWords) :
    Gives source known room (fun x => x ≠ "" → Rule.IsWord x) nameOrNone where
  keeps := Lockstep.nameOrNone.keeps
  value {s x t} _ hrun _ hne := by
    unfold Parse.nameOrNone at hrun
    rw [run_bind_ok (run_check _)] at hrun
    split at hrun
    · rename_i hkind
      rw [run_bind_ok run_advance] at hrun
      cases hrun
      exact hwords _ (beq_iff_eq.1 hkind)
    · cases hrun
      exact (hne rfl).elim

/-! ### Combinators -/

protected theorem speculate (h : Gives source known room m p) :
    Gives source known room (Maybe m) (speculate p) where
  keeps s := (h.keeps s).speculate
  value {s o t} hdepth hrun hknown := by
    rintro x rfl
    rcases hp : p.run source s with ⟨e | y, u⟩
    · rw [run_speculate_error hp] at hrun
      split at hrun <;> cases hrun
    · rw [run_speculate_ok hp] at hrun
      cases hrun
      exact h.value hdepth hp hknown

theorem optionalAfter (k : TokenKind) (h : Gives source known room m p) :
    Gives source known room (Maybe m) (optionalAfter k p) := by
  unfold Parse.optionalAfter
  refine .after (Lockstep.acceptAnywhere k) fun here => ?_
  split
  · exact h.map fun x hx => Maybe.some hx
  · exact .pure Maybe.none

theorem withLeniency (lenient : Bool) (h : Gives source known room m p) :
    Gives source known room m (withLeniency lenient p) where
  keeps _ := (h.keeps _).withLeniency
  value {s x t} hdepth hrun hknown := by
    rw [run_withLeniency] at hrun
    rcases hp : p.run source { s with lenient } with ⟨r, u⟩
    rw [hp] at hrun
    obtain ⟨rfl, rfl⟩ := Prod.mk.inj hrun
    have hvalue := h.value (s := { s with lenient }) hdepth hp hknown
    exact hvalue

theorem leniently (h : Gives source known room m p) : Gives source known room m (leniently p) :=
  h.withLeniency true

theorem strictly (h : Gives source known room m p) : Gives source known room m (strictly p) :=
  h.withLeniency false

/-- One construct deeper there is room for one construct less. -/
theorem nested (hkeeps : KeepsFrame source p)
    (h : ∀ inner, inner + 1 = room → Gives source known inner m p) :
    Gives source known room m (nested p) where
  keeps _ := .nested hkeeps
  value {s x t} hdepth hrun hknown := by
    rw [run_nested] at hrun
    split at hrun
    · cases hrun
    · rename_i hopen
      obtain ⟨inner, rfl⟩ : ∃ inner, room = inner + 1 := ⟨room - 1, by omega⟩
      rcases hp : p.run source
        { s with cursor := { s.cursor with depth := s.cursor.depth + 1 } } with ⟨r, u⟩
      rw [hp] at hrun
      obtain ⟨rfl, rfl⟩ := Prod.mk.inj hrun
      have hinner : s.cursor.depth + 1 + inner = source.settings.maxDepth := by omega
      exact (h inner rfl).value hinner hp hknown

/-- What is read again stands where it stood before. -/
theorem rereading {first : Parse β} (hfirst : KeepsFrame source first)
    (h : Gives source known room m p) :
    Gives source known room (fun r => m r.2) (rereading first p) where
  keeps s := (hfirst s).rereading h.keeps
  value {s x u} hdepth hrun hknown := by
    have hs := hfirst s
    rcases hone : first.run source s with ⟨e | y, t⟩
    · rw [run_rereading_error hone] at hrun
      cases hrun
    · rw [hone] at hs
      rw [run_rereading_ok hone] at hrun
      rcases htwo : p.run source (t.atPosition s.cursor.position) with ⟨e | z, v⟩
      · rw [htwo] at hrun
        cases hrun
      · rw [htwo] at hrun
        cases hrun
        have hback : (t.atPosition s.cursor.position).cursor.depth + room =
            source.settings.maxDepth := hs.depth ▸ hdepth
        exact h.value hback htwo hknown

/-- What an attempt gives, the attempted parser gave. -/
theorem attempt (h : Gives source known room m p) :
    Gives source known room (Maybe m) (attempt p) where
  keeps s := (h.keeps s).attempt
  value {s o t} hdepth hrun hknown := by
    rintro x rfl
    rcases hp : p.run source s with ⟨e | y, u⟩
    · rw [run_attempt (run_recovering_failed hp)] at hrun
      cases hrun
    · rw [run_attempt (run_recovering_ok hp)] at hrun
      obtain ⟨hsome, hstate⟩ := Prod.mk.inj hrun
      cases hsome
      refine h.value hdepth hp (List.Subset.trans ?_ hknown)
      rw [← hstate]
      split
      · exact (Frame.advance source u).known
      · exact List.Subset.refl _

/-! ### Loops -/

/-- What every step keeps, the loop keeps. -/
theorem iterate {step : α → Parse (Option α)}
    (h : ∀ x, Gives source known room (fun o => m x → Maybe m o) (step x)) (x : α) :
    Gives source known room (fun y => m x → m y) (iterate step x) := by
  unfold Parse.iterate
  refine .look (fun _ => rfl) fun v => ?_
  generalize v.remaining + 1 = fuel
  induction fuel generalizing x with
  | zero => exact .pure id
  | succ fuel ih =>
    unfold Parse.iterateFor
    refine (h x).bind fun o => ?_
    cases o with
    | none => exact .pure fun _ hx => hx
    | some y => exact (ih y).mono fun z hz hstep hx => hz (hstep hx y rfl)

theorem collect {next : Parse (Option α)} (h : Gives source known room (Maybe m) next) :
    Gives source known room (Each m) (collect next) := by
  unfold Parse.collect
  refine .look (fun _ => rfl) fun v => ?_
  generalize v.remaining + 1 = fuel
  induction fuel with
  | zero => exact .pure Each.nil
  | succ fuel ih =>
    unfold Parse.collectFor
    refine h.bind fun o => ?_
    cases o with
    | none => exact .pure fun _ => Each.nil
    | some x => exact ih.bind fun xs => .pure fun hxs hx => Each.cons (hx x rfl) hxs

theorem chain {item : σ → Parse α} {next : Parse σ} (h : ∀ a, Gives source known room m (item a))
    (hnext : KeepsFrame source next) (a : σ) :
    Gives source known room (Each m) (chain item next a) := by
  unfold Parse.chain
  refine .look (fun _ => rfl) fun v => ?_
  generalize v.remaining + 1 = fuel
  induction fuel generalizing a with
  | zero => exact .pure Each.nil
  | succ fuel ih =>
    unfold Parse.chainFor
    refine (h a).bind fun first => .after (Lockstep.acceptAnywhere .comma) fun more => ?_
    cases more with
    | false => exact .pure Each.single
    | true =>
      refine .afterKeeping hnext fun b => (ih b).bind fun rest => ?_
      exact .pure fun hrest hx => Each.cons hx hrest

theorem separated (h : Gives source known room m p) :
    Gives source known room (Each m) (separated p) :=
  chain (fun _ => h) (Lockstep.pure ()).keeps ()

theorem commaList (stop : TokenKind → Bool) (h : Gives source known room m p) :
    Gives source known room (Each m) (commaList stop p) := by
  unfold Parse.commaList
  refine .look (fun _ => rfl) fun v => ?_
  generalize v.remaining + 1 = fuel
  induction fuel with
  | zero => exact .pure Each.nil
  | succ fuel ih =>
    unfold Parse.commaListFor
    refine .look (fun _ => rfl) fun k => ?_
    split
    · exact .pure Each.nil
    · refine h.bind fun first => .after (Lockstep.acceptAnywhere .comma) fun more => ?_
      cases more with
      | false => exact .pure Each.single
      | true =>
        exact ih.bind fun rest => .pure fun hrest hx => Each.cons hx hrest

/-- The rounds of a loop find what each of them finds. -/
theorem rounds {round : σ → Parse (Option (List α × σ))}
    (h : ∀ a, Gives source known room (Maybe fun found => Each m found.1) (round a)) (a : σ) :
    Gives source known room (Each m) (rounds round a) := by
  unfold Parse.rounds
  refine .look (fun _ => rfl) fun v => ?_
  generalize v.remaining + 1 = fuel
  induction fuel generalizing a with
  | zero => exact .pure Each.nil
  | succ fuel ih =>
    unfold Parse.roundsFor
    refine (h a).bind fun o => ?_
    rcases o with _ | ⟨found, b⟩
    · exact .pure fun _ => Each.nil
    · refine (ih b).bind fun rest => .pure fun hrest hfound => ?_
      exact Each.append (hfound _ rfl) hrest

theorem firstOf {ps : List (Parse α)} (h : ∀ p ∈ ps, Gives source known room m p) :
    Gives source known room (Maybe m) (firstOf ps) := by
  induction ps with
  | nil => exact .pure Maybe.none
  | cons p ps ih =>
    obtain ⟨hp, hps⟩ := List.forall_mem_cons.1 h
    unfold Parse.firstOf
    refine hp.speculate.bind fun o => ?_
    cases o with
    | some x => exact .pure id
    | none => exact (ih hps).mono fun _ hx _ => hx

end Gives

end CTree
