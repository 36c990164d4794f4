import CTree.Proofs.Account

/-!
# Parsers in lockstep

A parser that takes no token has to open constructs to get anywhere, and the grammar never opens
more than three of them before it takes a token. So the number of open constructs stays below three
for each token taken, and every loop stays below the number of tokens. If the ceilings of two
sources are beyond both, then a parser does the same on one as on the other, and neither of them
reaches a ceiling. This is what `Lockstep` says of two parsers, with what the argument needs on the
way: the frame that they keep, what they say, and whether they take a token.
-/

namespace CTree

/-- Whether a message says that a ceiling was reached. -/
def IsCeilingMessage (m : String) : Prop :=
  "Maximum nesting depth".toList <+: m.toList ∨ "Iteration limit".toList <+: m.toList

/-- The sources differ in their ceilings only. -/
structure Source.Twin (a b : Source) : Prop where
  text : b.text = a.text
  stream : b.stream = a.stream
  dialect : b.settings.dialect = a.settings.dialect

/-- All ceilings of a source are at least four times the number of its tokens. -/
structure Source.Ample (a : Source) : Prop where
  depth : 4 * a.stream.size ≤ a.settings.maxDepth
  iterations : 4 * a.stream.size ≤ a.settings.maxIterations
  statements : 4 * a.stream.size ≤ a.settings.maxStatements
  lookahead : 4 * a.stream.size ≤ a.settings.maxLookahead

theorem Source.Twin.view_eq {a b : Source} (h : a.Twin b) (s : ParseState) :
    b.view s = a.view s := by
  simp only [Source.view, h.stream, h.dialect]

/-- No ceiling is near: `k` constructs may be opened before the next token is taken, and `n` more
    are what the grammar at hand can open. -/
structure Roomy (a b : Source) (n k : Nat) (s : ParseState) : Prop where
  twin : a.Twin b
  ample : a.Ample
  ample' : b.Ample
  inside : s.cursor.position ≤ a.stream.body.size
  calm : ∀ d ∈ s.diagnostics, ¬ IsCeilingMessage d.message
  room : s.cursor.depth + k ≤ 3 * (s.cursor.position + 1)
  fuel : 3 * a.stream.size ≤ n + s.cursor.depth

/-- Neither the failure nor the diagnostics of an outcome speak of a ceiling. -/
structure Calm {α : Type} (r : Except Failure α × ParseState) : Prop where
  failure : ∀ e, r.1 = .error e → ¬ IsCeilingMessage e.cause.message
  diagnostics : ∀ d ∈ r.2.diagnostics, ¬ IsCeilingMessage d.message

/-- From a state in `P` the parser keeps the frame, tells of tokens only, and took a token if the
    value that it gives is in `m`. -/
structure Framed {α : Type} (a : Source) (P : ParseState → Prop) (m : α → Prop) (p : Parse α) :
    Prop extends Accounted a P p where
  frame : ∀ {s}, P s → Frame a s (p.run a s).2
  moves : ∀ {s x t}, P s → p.run a s = (.ok x, t) → m x → s.cursor.position < t.cursor.position

/-- The parser `p` is framed, and far from the ceilings `q` does on `b` what `p` does on `a`. -/
structure Lockstep {α : Type} (a b : Source) (n : Nat) (P : ParseState → Prop) (k : Nat)
    (m : α → Prop) (p q : Parse α) : Prop extends Framed a P m p where
  same : ∀ {s}, P s → Roomy a b n k s → q.run b s = p.run a s ∧ Calm (p.run a s)

/-- The parser takes a token whenever it gives a value. -/
abbrev always {α : Type} : α → Prop := fun _ => True

/-- The parser need not take a token. -/
abbrev never {α : Type} : α → Prop := fun _ => False

/-- The parser takes a token whenever it gives something. -/
abbrev present {α : Type} : Option α → Prop := fun x => x.isSome = true

/-- The parser takes a token whenever its answer is yes. -/
abbrev yes : Bool → Prop := fun x => x = true

/-- The parser may start in any state. -/
abbrev anywhere : ParseState → Prop := fun _ => True

/-- The parser starts at a token of the given kind. -/
abbrev Source.At (a : Source) (t : TokenKind) : ParseState → Prop := fun s => (a.view s).kind 0 = t

/-- A token is left in every state of a class. -/
def Source.BeforeToken (a : Source) (P : ParseState → Prop) : Prop :=
  ∀ s, P s → (a.view s).kind 0 ≠ .eof

theorem Source.beforeToken_at {a : Source} {t : TokenKind} (h : t ≠ .eof) :
    a.BeforeToken (a.At t) :=
  fun _ hs => hs ▸ h

/-- The current token can be taken: one is left in every state of the class, unless nothing but the
    frame is at stake. -/
def Source.Takes {α : Type} (a : Source) (n k : Nat) (P : ParseState → Prop) (m : α → Prop) :
    Prop :=
  a.BeforeToken P ∨ n = 0 ∧ 0 < k ∧ ∀ x, ¬ m x

theorem Source.takes_at {α : Type} {a : Source} {n k : Nat} {m : α → Prop} {t : TokenKind}
    (h : t ≠ .eof) : a.Takes n k (a.At t) m :=
  .inl (beforeToken_at h)

theorem Source.Takes.weaken {α : Type} {a : Source} {n k : Nat} {P Q : ParseState → Prop}
    {m : α → Prop} (h : a.Takes n k Q m) (hP : ∀ s, P s → Q s) : a.Takes n k P m :=
  h.imp (fun h s hs => h s (hP s hs)) id

/-! ### Messages -/

theorem not_ceiling_of_head {m : String} {c : Char} {l : List Char} (hm : m.toList = c :: l)
    (h : c ≠ 'M') (h' : c ≠ 'I') : ¬ IsCeilingMessage m := by
  rintro (⟨rest, hrest⟩ | ⟨rest, hrest⟩)
  · rw [hm] at hrest
    exact h (List.cons.inj hrest).1.symm
  · rw [hm] at hrest
    exact h' (List.cons.inj hrest).1.symm

theorem not_ceiling_append {w m : String} {c : Char} {l : List Char} (hw : w.toList = c :: l)
    (h : c ≠ 'M') (h' : c ≠ 'I') : ¬ IsCeilingMessage (w ++ m) := by
  refine not_ceiling_of_head (l := l ++ m.toList) ?_ h h'
  rw [String.toList_append, hw, List.cons_append]

theorem not_ceiling_expected (what found : String) :
    ¬ IsCeilingMessage (Cause.expected what found).message := by
  show ¬ IsCeilingMessage ("Expected " ++ what ++ ", found " ++ found)
  rw [String.append_assoc, String.append_assoc]
  exact not_ceiling_append rfl (by decide) (by decide)

theorem not_ceiling_invalidLiteral (text : String) :
    ¬ IsCeilingMessage (Cause.invalidLiteral text).message := by
  have hhead : (Cause.invalidLiteral text).message.toList =
      'I' :: 'n' :: ("valid literal '".toList ++ text.toList ++ "'".toList) := by
    show ("Invalid literal '" ++ text ++ "'").toList = _
    rw [String.toList_append, String.toList_append]
    rfl
  rintro (⟨rest, hrest⟩ | ⟨rest, hrest⟩)
  · rw [hhead] at hrest
    exact absurd (List.cons.inj hrest).1 (by decide)
  · rw [hhead] at hrest
    exact absurd (List.cons.inj (List.cons.inj hrest).2).1 (by decide)

/-- A message that a parser words itself: neither that of a ceiling nor that of an expectation. -/
structure IsPlain (m : String) : Prop where
  calm : ¬ IsCeilingMessage m
  own : ¬ "Expected ".toList <+: m.toList

theorem isPlain_of_head {m : String} {c : Char} {l : List Char} (hm : m.toList = c :: l)
    (h : c ≠ 'M') (h' : c ≠ 'I') (h'' : c ≠ 'E') : IsPlain m :=
  ⟨not_ceiling_of_head hm h h', not_expected_of_head hm h''⟩

theorem isPlain_append {w m : String} {c : Char} {l : List Char} (hw : w.toList = c :: l)
    (h : c ≠ 'M') (h' : c ≠ 'I') (h'' : c ≠ 'E') : IsPlain (w ++ m) :=
  ⟨not_ceiling_append hw h h', not_expected_append hw h''⟩

/-! ### Room -/

namespace Roomy

variable {a b : Source} {n k : Nat} {s t : ParseState}

/-- Room is kept by whatever keeps the frame and reports no ceiling. -/
theorem after (h : Roomy a b n k s) (hf : Frame a s t)
    (hc : ∀ d ∈ t.diagnostics, ¬ IsCeilingMessage d.message) : Roomy a b n k t where
  twin := h.twin
  ample := h.ample
  ample' := h.ample'
  inside := by
    have := hf.inside
    have := h.inside
    omega
  calm := hc
  room := by
    have := hf.depth
    have := hf.position
    have := h.room
    omega
  fuel := by
    rw [hf.depth]
    exact h.fuel

/-- After a token three more constructs may be opened. -/
theorem afterToken (h : Roomy a b n k s) (hf : Frame a s t)
    (hm : s.cursor.position < t.cursor.position)
    (hc : ∀ d ∈ t.diagnostics, ¬ IsCeilingMessage d.message) : Roomy a b n 3 t where
  twin := h.twin
  ample := h.ample
  ample' := h.ample'
  inside := (h.after hf hc).inside
  calm := hc
  room := by
    have := hf.depth
    have := h.room
    omega
  fuel := (h.after hf hc).fuel

/-- Fewer constructs than are allowed are open, and the grammar has not run out. -/
theorem depth_lt (h : Roomy a b n (k + 1) s) :
    s.cursor.depth < a.settings.maxDepth ∧ s.cursor.depth < b.settings.maxDepth ∧ n ≠ 0 := by
  have hsize : a.stream.size = a.stream.body.size + 1 := rfl
  have hroom := h.room
  have hinside := h.inside
  have hfuel := h.fuel
  have hdepth := h.ample.depth
  have hdepth' := h.ample'.depth
  rw [h.twin.stream] at hdepth'
  omega

/-- A loop that has taken as many tokens as rounds is below all ceilings. -/
theorem round_lt {round : Nat} (h : Roomy a b n k s) (hround : round ≤ s.cursor.position) :
    (round < a.settings.maxStatements ∧ round < b.settings.maxStatements) ∧
      round < a.settings.maxIterations ∧ round < b.settings.maxIterations := by
  have hsize : a.stream.size = a.stream.body.size + 1 := rfl
  have hinside := h.inside
  have ha := h.ample.statements
  have ha' := h.ample.iterations
  have hb := h.ample'.statements
  have hb' := h.ample'.iterations
  rw [h.twin.stream] at hb hb'
  omega

/-- One construct deeper there is room for one construct less. -/
theorem enter (h : Roomy a b (n + 1) (k + 1) s) : Roomy a b n k
    { s with cursor := { s.cursor with depth := s.cursor.depth + 1 } } where
  twin := h.twin
  ample := h.ample
  ample' := h.ample'
  inside := h.inside
  calm := h.calm
  room := by
    have := h.room
    show s.cursor.depth + 1 + k ≤ 3 * (s.cursor.position + 1)
    omega
  fuel := by
    have := h.fuel
    show 3 * a.stream.size ≤ n + (s.cursor.depth + 1)
    omega

end Roomy

/-! ### Sequences -/

namespace Lockstep

variable {α β : Type} {a b : Source} {n k : Nat} {P Q : ParseState → Prop} {m : α → Prop}
  {m' : β → Prop} {p q : Parse α} {f f' : α → Parse β}

/-- What a parser does from more states, and with less room, it does from fewer and with more. -/
theorem lax {k' : Nat} {m' : α → Prop} (h : Lockstep a b n Q k m p q) (hP : ∀ s, P s → Q s)
    (hm : ∀ x, m' x → m x) (hk : k ≤ k') : Lockstep a b n P k' m' p q where
  toAccounted := h.toAccounted.weaken hP
  frame hs := h.frame (hP _ hs)
  moves hs hrun hx := h.moves (hP _ hs) hrun (hm _ hx)
  same hs hroom := h.same (hP _ hs)
    { hroom with room := Nat.le_trans (Nat.add_le_add_left hk _) hroom.room }

/-- A parser that always takes a token takes one whatever its value. -/
theorem any {m' : α → Prop} (h : Lockstep a b n P k always p q) : Lockstep a b n P k m' p q :=
  h.lax (fun _ hs => hs) (fun _ _ => trivial) (Nat.le_refl k)

/-- Whether a token is taken may be left open. -/
theorem still (h : Lockstep a b n P k m p q) : Lockstep a b n P k never p q :=
  h.lax (fun _ hs => hs) (fun _ hx => hx.elim) (Nat.le_refl k)

theorem weaken (h : Lockstep a b n Q k m p q) (hP : ∀ s, P s → Q s) : Lockstep a b n P k m p q :=
  h.lax hP (fun _ hx => hx) (Nat.le_refl k)

theorem fromAnywhere (h : Lockstep a b n anywhere k m p q) : Lockstep a b n P k m p q :=
  h.weaken fun _ _ => trivial

theorem vacuous (h : ∀ s, ¬ P s) : Lockstep a b n P k m p q where
  toAccounted := .vacuous h
  frame hs := (h _ hs).elim
  moves hs := (h _ hs).elim
  same hs := (h _ hs).elim

/-- Where the grammar cannot open another construct, only the frame is left to show. -/
theorem ofFramed (h : Framed a P m p) : Lockstep a b 0 P (k + 1) m p q :=
  { h with same := fun _ hroom => (hroom.depth_lt.2.2 rfl).elim }

/-- A parser that gives up at the current token because of a ceiling keeps the frame. -/
theorem framed_of_ceiling {cause : Cause}
    (h : ∀ s, p.run a s = (.error ⟨cause, ((a.view s).token 0).offset⟩, s))
    (hcause : cause.isFatal = true) : Framed a P m p where
  toAccounted := .failHere (fun _ => cause) h fun _ => Cause.tellsOf_of_isFatal hcause _
  frame {s} _ := by
    rw [h]
    exact .refl a s
  moves _ hrun _ := by
    rw [h] at hrun
    cases hrun

/-- A value that takes no token. -/
theorem result {x : α} (hx : ¬ m x) : Lockstep a b n P k m (pure x) (pure x) where
  toAccounted := .pure x
  frame _ := .refl _ _
  moves _ hrun hy := by
    rw [Parse.run_pure] at hrun
    cases hrun
    exact (hx hy).elim
  same _ h := ⟨rfl, ⟨by simp, h.calm⟩⟩

protected theorem pure (x : α) : Lockstep a b n P k never (pure x) (pure x) :=
  result id

/-- Looking at the outcome of the first part of a sequence. The second part starts after a token,
    or with as much room as the first part, and may rely on what the first part leaves behind. -/
theorem bindKnowing {R : α → ParseState → Prop} (hp : Lockstep a b n P k m p q)
    (hR : ∀ {s x t}, P s → p.run a s = (.ok x, t) → R x t)
    (hmoved : ∀ x, m x → Lockstep a b n (R x) 3 never (f x) (f' x))
    (hstayed : ∀ x, ¬ m x → Lockstep a b n (R x) k m' (f x) (f' x)) :
    Lockstep a b n P k m' (p >>= f) (q >>= f') where
  toAccounted := by
    refine hp.toAccounted.bindKnowing hR fun x => ?_
    by_cases hx : m x
    · exact (hmoved x hx).toAccounted
    · exact (hstayed x hx).toAccounted
  frame {s} hs := by
    have hf := hp.frame hs
    rcases h : p.run a s with ⟨e | x, t⟩
    · rw [Parse.run_bind_error h]
      rwa [h] at hf
    · rw [Parse.run_bind_ok h]
      rw [h] at hf
      by_cases hx : m x
      · exact hf.trans ((hmoved x hx).frame (hR hs h))
      · exact hf.trans ((hstayed x hx).frame (hR hs h))
  moves {s y u} hs hrun hy := by
    have hf := hp.frame hs
    obtain ⟨x, t, h, hrest⟩ := Parse.exists_of_run_bind hrun
    rw [h] at hf
    by_cases hx : m x
    · have hmove := hp.moves hs h hx
      have hkeep := (hmoved x hx).frame (hR hs h)
      rw [hrest] at hkeep
      exact Nat.lt_of_lt_of_le hmove hkeep.position
    · exact Nat.lt_of_le_of_lt hf.position ((hstayed x hx).moves (hR hs h) hrest hy)
  same {s} hs hroom := by
    obtain ⟨heq, hcalm⟩ := hp.same hs hroom
    have hf := hp.frame hs
    rcases h : p.run a s with ⟨e | x, t⟩
    · rw [h] at heq hcalm
      rw [Parse.run_bind_error h, Parse.run_bind_error heq]
      exact ⟨rfl, ⟨fun e' he => hcalm.failure e' (by cases he; rfl), hcalm.diagnostics⟩⟩
    · rw [h] at heq hcalm hf
      rw [Parse.run_bind_ok h, Parse.run_bind_ok heq]
      by_cases hx : m x
      · exact (hmoved x hx).same (hR hs h)
          (hroom.afterToken hf (hp.moves hs h hx) hcalm.diagnostics)
      · exact (hstayed x hx).same (hR hs h) (hroom.after hf hcalm.diagnostics)

/-- A sequence whose second part relies on nothing. -/
theorem bindCases (hp : Lockstep a b n P k m p q)
    (hmoved : ∀ x, m x → Lockstep a b n anywhere 3 never (f x) (f' x))
    (hstayed : ∀ x, ¬ m x → Lockstep a b n anywhere k m' (f x) (f' x)) :
    Lockstep a b n P k m' (p >>= f) (q >>= f') :=
  hp.bindKnowing (fun _ _ => trivial) hmoved hstayed

/-- A sequence that starts with what need not take a token. -/
protected theorem bind (hp : Lockstep a b n P k never p q)
    (hf : ∀ x, Lockstep a b n anywhere k m' (f x) (f' x)) :
    Lockstep a b n P k m' (p >>= f) (q >>= f') :=
  hp.bindCases (fun _ h => h.elim) fun x _ => hf x

/-- A sequence that starts with what takes a token. -/
theorem andThen (hp : Lockstep a b n P k always p q)
    (hf : ∀ x, Lockstep a b n anywhere 3 never (f x) (f' x)) :
    Lockstep a b n P k m' (p >>= f) (q >>= f') :=
  hp.bindCases (fun x _ => hf x) fun _ h => (h trivial).elim

/-- A sequence that starts by taking the current token. -/
theorem taking (h : a.Takes n k P m')
    (hp : ∀ {m : α → Prop}, a.Takes n k P m → Lockstep a b n P k m p q)
    (hf : ∀ x, Lockstep a b n anywhere 3 never (f x) (f' x)) :
    Lockstep a b n P k m' (p >>= f) (q >>= f') := by
  rcases h with htoken | ⟨rfl, hk, hm⟩
  · exact .andThen (hp (.inl htoken)) hf
  · obtain ⟨k, rfl⟩ := Nat.exists_eq_add_of_le' hk
    have hnever : Lockstep a b 0 P (k + 1) never (p >>= f) (q >>= f') :=
      .bind (hp (.inr ⟨rfl, hk, fun _ h => h⟩)) fun x => .ofFramed (hf x).toFramed
    exact hnever.lax (fun _ hs => hs) (fun x hx => hm x hx) (Nat.le_refl _)

/-- A sequence that starts with what takes a token if it gives something. -/
theorem bindOption {γ : Type} {p q : Parse (Option γ)} {f f' : Option γ → Parse β}
    (hp : Lockstep a b n P k present p q)
    (hsome : ∀ x, Lockstep a b n anywhere 3 never (f (some x)) (f' (some x)))
    (hnone : Lockstep a b n anywhere k m' (f none) (f' none)) :
    Lockstep a b n P k m' (p >>= f) (q >>= f') := by
  refine hp.bindCases (fun x hx => ?_) fun x hx => ?_
  · obtain ⟨y, rfl⟩ := Option.isSome_iff_exists.1 hx
    exact hsome y
  · rw [Option.not_isSome_iff_eq_none] at hx
    exact hx ▸ hnone

/-- A sequence that starts with what takes a token if it gives something, and where it gives
    nothing, what comes after it may rely on what is left behind. -/
theorem bindOptionKnowing {γ : Type} {p q : Parse (Option γ)} {f f' : Option γ → Parse β}
    (hp : Lockstep a b n P k present p q)
    (hQ : ∀ {s t}, P s → p.run a s = (.ok none, t) → Q t)
    (hsome : ∀ x, Lockstep a b n anywhere 3 never (f (some x)) (f' (some x)))
    (hnone : Lockstep a b n Q k m' (f none) (f' none)) :
    Lockstep a b n P k m' (p >>= f) (q >>= f') := by
  refine hp.bindKnowing (R := fun x t => x = none → Q t) (fun hs hrun hx => ?_) (fun x hx => ?_)
    fun x hx => ?_
  · subst hx
    exact hQ hs hrun
  · obtain ⟨y, rfl⟩ := Option.isSome_iff_exists.1 hx
    exact (hsome y).weaken fun _ _ => trivial
  · rw [Option.not_isSome_iff_eq_none] at hx
    subst hx
    exact hnone.weaken fun _ hs => hs rfl

/-- A sequence that starts with what takes a token if its answer is yes. -/
theorem bindBool {p q : Parse Bool} {f f' : Bool → Parse β} (hp : Lockstep a b n P k yes p q)
    (htrue : Lockstep a b n anywhere 3 never (f true) (f' true))
    (hfalse : Lockstep a b n anywhere k m' (f false) (f' false)) :
    Lockstep a b n P k m' (p >>= f) (q >>= f') := by
  refine hp.bindCases (fun x hx => hx ▸ htrue) fun x hx => ?_
  rw [Bool.not_eq_true] at hx
  exact hx ▸ hfalse

/-- Changing the value of a parser. -/
theorem map {g : α → β} (hp : Lockstep a b n P k m p q) (hm : ∀ x, m' (g x) → m x) :
    Lockstep a b n P k m' (g <$> p) (g <$> q) := by
  rw [Parse.map_eq_bind, Parse.map_eq_bind]
  refine hp.bindCases (fun x _ => .pure _) fun x hx => .result fun h => hx (hm x h)

/-- A loop that has taken as many tokens as rounds is not at its ceiling. At the ceiling only the
    frame is left to show. -/
theorem below {i j round : Nat} {x x' : Parse α}
    (hfar : ∀ {s}, P s → Roomy a b n k s → round < i ∧ round < j) (hx : Framed a P m x)
    (hp : Lockstep a b n P k m p q) :
    Lockstep a b n P k m (if i ≤ round then x else p) (if j ≤ round then x' else q) where
  toFramed := by
    split
    · exact hx
    · exact hp.toFramed
  same hs hroom := by
    obtain ⟨hi, hj⟩ := hfar hs hroom
    rw [if_neg (Nat.not_le_of_lt hi), if_neg (Nat.not_le_of_lt hj)]
    exact hp.same hs hroom

/-! ### Looking -/

/-- What is read off the source and the state, and is the same for both, takes no token. What comes
    after it may rely on the answer. -/
theorem look {r : Parse α} (y : Source → View → α)
    (hr : ∀ source s, r.run source s = (.ok (y source (source.view s)), s))
    (hy : ∀ {s}, P s → Roomy a b n k s → y b (b.view s) = y a (a.view s))
    (hf : ∀ v, Lockstep a b n (fun s => P s ∧ y a (a.view s) = v) k m' (f v) (f' v)) :
    Lockstep a b n P k m' (r >>= f) (r >>= f') where
  toAccounted := by
    have hlook : Accounted a P r := .look (y a) (hr a)
    refine hlook.bindKnowing (fun {s x t} hs h => ?_) fun v => (hf v).toAccounted
    rw [hr a s] at h
    cases h
    exact ⟨hs, rfl⟩
  frame {s} hs := by
    rw [Parse.run_bind_ok (hr a s)]
    exact (hf _).frame ⟨hs, rfl⟩
  moves {s x t} hs h hx := by
    rw [Parse.run_bind_ok (hr a s)] at h
    exact (hf _).moves ⟨hs, rfl⟩ h hx
  same {s} hs hroom := by
    rw [Parse.run_bind_ok (hr a s), Parse.run_bind_ok (hr b s), hy hs hroom]
    exact (hf _).same ⟨hs, rfl⟩ hroom

/-- What is read off the source and the state as the last part of a sequence. -/
theorem reading {r : Parse α} (y : Source → View → α)
    (hr : ∀ source s, r.run source s = (.ok (y source (source.view s)), s))
    (hy : ∀ {s}, Roomy a b n k s → y b (b.view s) = y a (a.view s)) :
    Lockstep a b n P k never r r where
  toAccounted := .look (y a) (hr a)
  frame {s} _ := by
    rw [hr a s]
    exact .refl a s
  moves _ _ h := h.elim
  same {s} _ hroom := by
    rw [hr a s, hr b s, hy hroom]
    exact ⟨rfl, ⟨by simp, hroom.calm⟩⟩

/-- A look at what there is to see. -/
theorem lookAt {r : Parse α} (y : View → α)
    (hr : ∀ source s, r.run source s = (.ok (y (source.view s)), s))
    (hf : ∀ v, Lockstep a b n (fun s => P s ∧ y (a.view s) = v) k m' (f v) (f' v)) :
    Lockstep a b n P k m' (r >>= f) (r >>= f') :=
  look (fun _ => y) hr (fun _ hroom => by rw [hroom.twin.view_eq]) hf

/-- A look whose answer only decides what is done next. -/
theorem looking {r : Parse α} (y : View → α)
    (hr : ∀ source s, r.run source s = (.ok (y (source.view s)), s))
    (hf : ∀ v, Lockstep a b n P k m' (f v) (f' v)) :
    Lockstep a b n P k m' (r >>= f) (r >>= f') :=
  lookAt y hr fun v => (hf v).weaken fun _ hs => hs.1

variable {f f' : TokenKind → Parse β}

/-- A look at the kind of the current token. -/
theorem kind (hf : ∀ t, Lockstep a b n (a.At t) k m' (f t) (f' t)) :
    Lockstep a b n P k m' (Parse.kind >>= f) (Parse.kind >>= f') :=
  lookAt (fun v => v.kind 0) (fun _ _ => rfl) fun t => (hf t).weaken fun _ hs => hs.2

/-- A look at the kind of a token ahead. -/
theorem kindAhead {i : Nat} (hf : ∀ t, Lockstep a b n P k m' (f t) (f' t)) :
    Lockstep a b n P k m' (Parse.kindAhead i >>= f) (Parse.kindAhead i >>= f') :=
  looking (fun v => v.kind i) (fun _ _ => rfl) hf

variable {f f' : Bool → Parse β}

/-- A test of the kind of the current token. -/
theorem check {t : TokenKind} (htrue : Lockstep a b n (a.At t) k m' (f true) (f' true))
    (hfalse : Lockstep a b n P k m' (f false) (f' false)) :
    Lockstep a b n P k m' (Parse.check t >>= f) (Parse.check t >>= f') := by
  refine lookAt (fun v => v.kind 0 == t) (fun _ _ => rfl) fun v => ?_
  cases v with
  | true => exact htrue.weaken fun _ hs => beq_iff_eq.1 hs.2
  | false => exact hfalse.weaken fun _ hs => hs.1

/-- A test whose answer is known to be yes. -/
theorem checkTrue {t : TokenKind} (hP : ∀ s, P s → (a.view s).kind 0 = t)
    (htrue : Lockstep a b n P k m' (f true) (f' true)) :
    Lockstep a b n P k m' (Parse.check t >>= f) (Parse.check t >>= f') := by
  refine lookAt (fun v => v.kind 0 == t) (fun _ _ => rfl) fun v => ?_
  cases v with
  | true => exact htrue.weaken fun _ hs => hs.1
  | false => exact .vacuous fun s hs => beq_eq_false_iff_ne.1 hs.2 (hP s hs.1)

/-- A test whose answer only decides what is done next. -/
theorem test {t : TokenKind} (hf : ∀ v, Lockstep a b n P k m' (f v) (f' v)) :
    Lockstep a b n P k m' (Parse.check t >>= f) (Parse.check t >>= f') :=
  looking (fun v => v.kind 0 == t) (fun _ _ => rfl) hf

/-- A test of the kind of a token ahead. -/
theorem checkAhead {i : Nat} {t : TokenKind} (hf : ∀ v, Lockstep a b n P k m' (f v) (f' v)) :
    Lockstep a b n P k m' (Parse.checkAhead i t >>= f) (Parse.checkAhead i t >>= f') :=
  looking (fun v => v.kind i == t) (fun _ _ => rfl) hf

theorem isCpp (hf : ∀ v, Lockstep a b n P k m' (f v) (f' v)) :
    Lockstep a b n P k m' (Parse.isCpp >>= f) (Parse.isCpp >>= f') :=
  looking View.isCpp (fun _ _ => rfl) hf

theorem isKnown {name : String} (hf : ∀ v, Lockstep a b n P k m' (f v) (f' v)) :
    Lockstep a b n P k m' (Parse.isKnown name >>= f) (Parse.isKnown name >>= f') :=
  looking (fun v => v.isKnown name) (fun _ _ => rfl) hf

theorem view {f f' : View → Parse β} (hf : ∀ v, Lockstep a b n P k m' (f v) (f' v)) :
    Lockstep a b n P k m' (Parse.view >>= f) (Parse.view >>= f') :=
  looking id (fun _ _ => rfl) hf

theorem peek {f f' : Token → Parse β}
    (hf : ∀ t, a.HasToken t → Lockstep a b n P k m' (f t) (f' t)) :
    Lockstep a b n P k m' (Parse.peek >>= f) (Parse.peek >>= f') := by
  refine lookAt (fun v => v.token 0) (fun _ _ => rfl) fun t => ?_
  by_cases ht : a.HasToken t
  · exact (hf t ht).weaken fun _ hs => hs.1
  · exact .vacuous fun s hs => ht (hs.2 ▸ a.hasToken_view s 0)

theorem position {f f' : Nat → Parse β}
    (hf : ∀ i, Lockstep a b n (fun s => P s ∧ s.cursor.position = i) k m' (f i) (f' i)) :
    Lockstep a b n P k m' (Parse.position >>= f) (Parse.position >>= f') :=
  lookAt (fun v => v.cursor.position) (fun _ _ => rfl) hf

/-- The index of the current token, where it is only remembered. -/
theorem mark {f f' : Nat → Parse β} (hf : ∀ i, Lockstep a b n P k m' (f i) (f' i)) :
    Lockstep a b n P k m' (Parse.position >>= f) (Parse.position >>= f') :=
  position fun i => (hf i).weaken fun _ hs => hs.1

theorem textSince {i : Nat} : Lockstep a b n P k never (Parse.textSince i) (Parse.textSince i) :=
  reading (fun source v => Token.join (source.stream.between i v.cursor.position))
    (fun _ _ => Parse.run_textSince i) fun hroom => by rw [hroom.twin.view_eq, hroom.twin.stream]

/-- The settings are the one thing that the two sources do not share. -/
theorem settings {f f' : Settings → Parse β}
    (hf : Lockstep a b n P k m' (f a.settings) (f' b.settings)) :
    Lockstep a b n P k m' (Parse.settings >>= f) (Parse.settings >>= f') where
  failure hs h := hf.failure hs h
  reports hs h := hf.reports hs h
  oblivious hs := hf.oblivious hs
  frame hs := hf.frame hs
  moves hs h hx := hf.moves hs h hx
  same hs hroom := hf.same hs hroom

end Lockstep

end CTree
