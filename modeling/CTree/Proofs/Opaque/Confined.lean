import CTree.Proofs.Opaque.Window

/-!
# Parsers that stay before the brace

The rules of `Confined`: what holds of the parts of a parser holds of the whole. A loop is given as many
rounds as tokens are left, and these differ from one source to the other; but each of its rounds
takes a token, and there are fewer tokens before the brace than rounds.
-/

namespace CTree

open Parse

/-- From the positions in `P` the parser `q` does on the right source what `p` does on the left one, and
    where that gives a value, the value and the position after it are in `Q`. -/
structure Confined {α : Type} (w : SameHead) (P : Nat → Prop) (p q : Parse α)
    (Q : α → Nat → Prop) : Prop where
  same : ∀ {s}, P s.cursor.position → q.run w.right s = p.run w.left s
  post : ∀ {s x t}, P s.cursor.position → p.run w.left s = (.ok x, t) → Q x t.cursor.position

/-- The parser is confined, starts with `d` open parentheses and ends with `d'`. -/
def Passes {α : Type} (w : SameHead) (d d' : Nat) (p : Parse α) : Prop :=
  ∀ i, Confined w (w.In d i) p p fun _ => w.In d' i

/-- The step of a loop is confined, ends with as many open parentheses as it starts with, and takes a
    token if it gives something. -/
def Steps {σ : Type} (w : SameHead) (d : Nat) (p : Parse (Option σ)) : Prop :=
  ∀ i, Confined w (w.In d i) p p fun x => w.In d (if x.isSome then i + 1 else i)

namespace SameHead

variable {w : SameHead} {d i j : Nat} {k : TokenKind}

theorem In.weaken (h : w.In d (i + 1) j) : w.In d i j :=
  ⟨h.within, Nat.le_of_succ_le h.le⟩

/-- A token that is not the brace can be taken on both sides. -/
theorem At.advance {s : ParseState} (h : w.At d i k s.cursor.position) (hk : k ≠ .lbrace) :
    s.cursor.advance w.right.stream = s.cursor.advance w.left.stream ∧
      w.In (k.nest d) (i + 1) (s.cursor.advance w.left.stream).position := by
  have hkind : (w.left.view s).kind 0 = k := h.kind
  have heof : (w.left.view s).kind 0 ≠ .eof := h.within.kind_ne (.inr (.inr (.inr (.inr rfl))))
  have heof' : (w.right.view s).kind 0 ≠ .eof := by
    rwa [kind_eq h.within.le]
  have hnext := h.within.next (by rwa [h.kind])
  rw [h.kind] at hnext
  rw [Source.advance_of_token heof, Source.advance_of_token heof']
  exact ⟨rfl, hnext, Nat.succ_le_succ h.le⟩

/-- More tokens are left than stand before the brace. -/
theorem lt_remaining {s : ParseState} (h : s.cursor.position ≤ w.stop) :
    w.stop - s.cursor.position < (w.left.view s).remaining ∧
      w.stop - s.cursor.position < (w.right.view s).remaining := by
  obtain ⟨hleft, hright⟩ := w.stop_lt
  have hl : (w.left.view s).remaining = w.left.stream.body.size + 1 - s.cursor.position := rfl
  have hr : (w.right.view s).remaining = w.right.stream.body.size + 1 - s.cursor.position := rfl
  omega

end SameHead

namespace Confined

variable {α β σ : Type} {w : SameHead} {d d' i : Nat} {k : TokenKind} {P P' : Nat → Prop}
  {p q : Parse α} {f f' : α → Parse β} {Q Q' : α → Nat → Prop} {R : β → Nat → Prop}

/-! ### Sequences -/

theorem weaken (h : Confined w P p q Q) (hP : ∀ j, P' j → P j) (hQ : ∀ x j, Q x j → Q' x j) :
    Confined w P' p q Q' where
  same hs := h.same (hP _ hs)
  post hs hrun := hQ _ _ (h.post (hP _ hs) hrun)

theorem before (h : Confined w P p q Q) (hP : ∀ j, P' j → P j) : Confined w P' p q Q :=
  h.weaken hP fun _ _ hx => hx

theorem vacuous (h : ∀ j, ¬ P j) : Confined w P p q Q where
  same hs := (h _ hs).elim
  post hs := (h _ hs).elim

/-- What holds of a parser wherever it may start holds of it. -/
theorem each (h : ∀ j, P j → ∃ P', P' j ∧ Confined w P' p q Q) : Confined w P p q Q where
  same hs := by
    obtain ⟨P', hs', hconfined⟩ := h _ hs
    exact hconfined.same hs'
  post hs hrun := by
    obtain ⟨P', hs', hconfined⟩ := h _ hs
    exact hconfined.post hs' hrun

/-- Where a token of a known kind stands, a token stands. -/
theorem here (h : Confined w (w.In d i) p q Q) : Confined w (w.At d i k) p q Q :=
  h.before fun _ hj => hj.toIn

protected theorem pure {x : α} (h : ∀ j, P j → Q x j) : Confined w P (pure x) (pure x) Q where
  same _ := rfl
  post hs hrun := by
    rw [run_pure] at hrun
    cases hrun
    exact h _ hs

protected theorem bind (hp : Confined w P p q Q) (hf : ∀ x, Confined w (Q x) (f x) (f' x) R) :
    Confined w P (p >>= f) (q >>= f') R where
  same {s} hs := by
    have heq := hp.same hs
    rcases hrun : p.run w.left s with ⟨e | x, t⟩
    · rw [hrun] at heq
      rw [run_bind_error hrun, run_bind_error heq]
    · rw [hrun] at heq
      rw [run_bind_ok hrun, run_bind_ok heq, (hf x).same (hp.post hs hrun)]
  post {s y u} hs hrun := by
    obtain ⟨x, t, hp', hf'⟩ := exists_of_run_bind hrun
    exact (hf x).post (hp.post hs hp') hf'

/-- A look at what both sources show alike. What comes after it may rely on what is seen. -/
theorem look {r : Parse α} {y : Source → ParseState → α}
    (hr : ∀ source s, r.run source s = (.ok (y source s), s))
    (hy : ∀ {s}, P s.cursor.position → y w.right s = y w.left s)
    (hf : ∀ x, Confined w (fun j => P j ∧ ∃ s, s.cursor.position = j ∧ y w.left s = x)
      (f x) (f' x) R) :
    Confined w P (r >>= f) (r >>= f') R where
  same {s} hs := by
    rw [run_bind_ok (hr _ s), run_bind_ok (hr _ s), hy hs]
    exact (hf _).same ⟨hs, s, rfl, rfl⟩
  post {s x t} hs hrun := by
    rw [run_bind_ok (hr _ s)] at hrun
    exact (hf _).post ⟨hs, s, rfl, rfl⟩ hrun

/-- A look whose answer only decides what is done next. -/
theorem looking {r : Parse α} {y : Source → ParseState → α}
    (hr : ∀ source s, r.run source s = (.ok (y source s), s))
    (hy : ∀ {s}, P s.cursor.position → y w.right s = y w.left s)
    (hf : ∀ x, Confined w P (f x) (f' x) R) : Confined w P (r >>= f) (r >>= f') R :=
  look hr hy fun x => (hf x).before fun _ hj => hj.1

/-! ### Looking -/

theorem settings {f f' : Settings → Parse β} (hf : ∀ x, Confined w P (f x) (f' x) R) :
    Confined w P (Parse.settings >>= f) (Parse.settings >>= f') R :=
  looking (y := fun source _ => source.settings) (fun _ _ => rfl) (fun _ => w.settings) hf

theorem isCpp {f f' : Bool → Parse β} (hf : ∀ x, Confined w P (f x) (f' x) R) :
    Confined w P (Parse.isCpp >>= f) (Parse.isCpp >>= f') R :=
  looking (y := fun source s => (source.view s).isCpp) (fun _ _ => rfl) (fun _ => w.isCpp_eq) hf

theorem position {f f' : Nat → Parse β} (hf : ∀ x, Confined w P (f x) (f' x) R) :
    Confined w P (Parse.position >>= f) (Parse.position >>= f') R :=
  looking (y := fun _ s => s.cursor.position) (fun _ _ => rfl) (fun _ => rfl) hf

theorem peek {f f' : Token → Parse β} (hf : ∀ t, Confined w (w.In d i) (f t) (f' t) R) :
    Confined w (w.In d i) (Parse.peek >>= f) (Parse.peek >>= f') R :=
  looking (y := fun source s => (source.view s).token 0) (fun _ _ => rfl)
    (fun hs => w.token_eq hs.within.le) hf

/-- The failure of a loop that reached its ceiling. -/
theorem exhaustion {limit : Nat} {loop : Loop} {f f' : Failure → Parse β}
    (hf : ∀ e, Confined w (w.In d i) (f e) (f' e) R) :
    Confined w (w.In d i) (Parse.exhaustion limit loop >>= f) (Parse.exhaustion limit loop >>= f')
      R :=
  looking (y := fun source s => ⟨.tooMany limit loop, ((source.view s).token 0).offset⟩)
    (fun _ _ => rfl) (fun hs => congrArg _ (congrArg Token.offset (w.token_eq hs.within.le))) hf

section Kinds

variable {f f' : TokenKind → Parse β}

theorem kind (hf : ∀ k, Confined w (w.At d i k) (f k) (f' k) R) :
    Confined w (w.In d i) (Parse.kind >>= f) (Parse.kind >>= f') R := by
  refine look (y := fun source s => (source.view s).kind 0) (fun _ _ => rfl)
    (fun hs => w.kind_eq hs.within.le) fun k => (hf k).before ?_
  rintro j ⟨hj, s, rfl, hk⟩
  exact ⟨hj, hk⟩

/-- The kind of the token is known already. -/
theorem kindHere (hf : Confined w (w.At d i k) (f k) (f' k) R) :
    Confined w (w.At d i k) (Parse.kind >>= f) (Parse.kind >>= f') R := by
  refine look (y := fun source s => (source.view s).kind 0) (fun _ _ => rfl)
    (fun hs => w.kind_eq hs.within.le) fun k' => ?_
  by_cases hk : k' = k
  · subst hk
    exact hf.before fun _ hj => hj.1
  · refine vacuous ?_
    rintro j ⟨hj, s, rfl, hk'⟩
    exact hk (hk'.symm.trans hj.kind)

end Kinds

section Tests

variable {f f' : Bool → Parse β}

theorem check (htrue : Confined w (w.At d i k) (f true) (f' true) R)
    (hfalse : Confined w (w.In d i) (f false) (f' false) R) :
    Confined w (w.In d i) (Parse.check k >>= f) (Parse.check k >>= f') R := by
  refine look (y := fun source s => (source.view s).kind 0 == k) (fun _ _ => rfl) (fun {s} hs => ?_)
    fun x => ?_
  · have heq := w.kind_eq (s := s) (n := 0) hs.within.le
    rw [heq]
  · cases x with
    | true =>
      refine htrue.before ?_
      rintro j ⟨hj, s, rfl, hk⟩
      exact ⟨hj, beq_iff_eq.1 hk⟩
    | false => exact hfalse.before fun _ hj => hj.1

/-- A look at the token that only decides what is done next. -/
theorem checking (hf : ∀ x, Confined w (w.In d i) (f x) (f' x) R) :
    Confined w (w.In d i) (Parse.check k >>= f) (Parse.check k >>= f') R :=
  check (hf true).here (hf false)

/-- A look at the token after the current one, which is not the brace. -/
theorem checkNext {k' : TokenKind} (hk : k ≠ .lbrace)
    (hf : ∀ x, Confined w (w.At d i k) (f x) (f' x) R) :
    Confined w (w.At d i k) (Parse.checkAhead 1 k' >>= f) (Parse.checkAhead 1 k' >>= f') R := by
  refine looking (y := fun source s => (source.view s).kind 1 == k') (fun _ _ => rfl)
    (fun {s} hs => ?_) hf
  have heq := w.kind_eq (s := s) (n := 1) (hs.within.lt (by rwa [hs.kind]))
  rw [heq]

/-- A look at two tokens: the second one makes no difference unless the first is of the kind. -/
theorem checkTwo {k' : TokenKind} {p q : Parse β} (hk : k ≠ .lbrace)
    (htrue : Confined w (fun j => w.At d i k j ∧ w.left.kindAt (j + 1) = k') p p R)
    (hfalse : Confined w (w.In d i) q q R) :
    Confined w (w.In d i)
      (Parse.check k >>= fun x => Parse.checkAhead 1 k' >>= fun y => if x && y then p else q)
      (Parse.check k >>= fun x => Parse.checkAhead 1 k' >>= fun y => if x && y then p else q)
      R := by
  refine check ?_ ?_
  · refine look (y := fun source s => (source.view s).kind 1 == k') (fun _ _ => rfl)
      (fun {s} hs => ?_) fun y => ?_
    · have heq := w.kind_eq (s := s) (n := 1) (hs.within.lt (by rwa [hs.kind]))
      rw [heq]
    · rw [Bool.true_and]
      cases y with
      | true =>
        refine htrue.before ?_
        rintro j ⟨hj, s, rfl, hk'⟩
        exact ⟨hj, beq_iff_eq.1 hk'⟩
      | false => exact hfalse.before fun _ hj => hj.1.toIn
  · exact
      { same := fun {s} hs => by
          rw [run_bind_ok (run_checkAhead 1 k'), run_bind_ok (run_checkAhead 1 k')]
          exact hfalse.same hs
        post := fun {s x t} hs hrun => by
          rw [run_bind_ok (run_checkAhead 1 k')] at hrun
          exact hfalse.post hs hrun }

end Tests

/-- What is seen is used through a parser that is the same for both sources. -/
theorem view {f : View → Parse β}
    (hview : ∀ {s}, P s.cursor.position → f (w.right.view s) = f (w.left.view s))
    (hf : ∀ v, Confined w (fun j => P j ∧ ∃ s, s.cursor.position = j ∧ w.left.view s = v)
      (f v) (f v) R) :
    Confined w P (Parse.view >>= f) (Parse.view >>= f) R where
  same {s} hs := by
    rw [run_bind_ok run_view, run_bind_ok run_view, hview hs]
    exact (hf _).same ⟨hs, s, rfl, rfl⟩
  post {s x t} hs hrun := by
    rw [run_bind_ok run_view] at hrun
    exact (hf _).post ⟨hs, s, rfl, rfl⟩ hrun

theorem viewing {f : View → Parse β}
    (hview : ∀ {s}, P s.cursor.position → f (w.right.view s) = f (w.left.view s))
    (hf : ∀ v, Confined w P (f v) (f v) R) :
    Confined w P (Parse.view >>= f) (Parse.view >>= f) R :=
  view hview fun v => (hf v).before fun _ hj => hj.1

theorem textSince (start : Nat) :
    Confined w (w.In d i) (Parse.textSince start) (Parse.textSince start) fun _ => w.In d i where
  same {s} hs := by
    rw [run_textSince, run_textSince, w.between_eq start hs.within.le]
  post hs hrun := by
    rw [run_textSince] at hrun
    cases hrun
    exact hs

/-! ### Failing and reporting -/

theorem expected (what : String) :
    Confined w (w.In d i) (Parse.expected what : Parse α) (Parse.expected what) Q where
  same {s} hs := by
    have htoken := w.token_eq (s := s) (n := 0) hs.within.le
    rw [run_expected, run_expected, htoken]
  post hs hrun := by
    rw [run_expected] at hrun
    cases hrun

theorem unexpected (message : String) :
    Confined w (w.In d i) (Parse.unexpected message : Parse α) (Parse.unexpected message) Q where
  same {s} hs := by
    have htoken := w.token_eq (s := s) (n := 0) hs.within.le
    rw [run_unexpected, run_unexpected, htoken]
  post hs hrun := by
    rw [run_unexpected] at hrun
    cases hrun

protected theorem throw (e : Failure) : Confined w P (throw e : Parse α) (throw e) Q where
  same _ := rfl
  post hs hrun := by
    rw [run_throw] at hrun
    cases hrun

/-- A report of a token of the head. -/
theorem report {e : Failure} {t : Token} (ht : w.HasToken t) (he : e.offset = t.offset) :
    Confined w P (Parse.report e) (Parse.report e) fun _ => P where
  same _ := by rw [run_report, run_report, w.ofFailure_eq ht he]
  post hs hrun := by
    rw [run_report] at hrun
    cases hrun
    exact hs

theorem register (name : String) :
    Confined w P (Parse.register name) (Parse.register name) fun _ => P where
  same _ := rfl
  post hs hrun := by
    rw [run_register] at hrun
    cases hrun
    exact hs

/-! ### Moving -/

theorem advance (hk : k ≠ .lbrace) : Confined w (w.At d i k) Parse.advance Parse.advance fun t j =>
    w.HasToken t ∧ t.kind = k ∧ w.In (k.nest d) (i + 1) j where
  same {s} hs := by
    have htoken := w.token_eq (s := s) (n := 0) hs.within.le
    rw [run_advance, run_advance, htoken, (hs.advance hk).1]
  post {s t u} hs hrun := by
    rw [run_advance] at hrun
    cases hrun
    exact ⟨⟨_, hs.within.le, rfl⟩, hs.kind, (hs.advance hk).2⟩

/-- Taking a token, with a note that one was taken. -/
theorem takeMoving {f f' : Token → Parse β} (hk : k ≠ .lbrace)
    (hf : ∀ t, w.HasToken t → t.kind = k →
      Confined w (w.In (k.nest d) (i + 1)) (f t) (f' t) R) :
    Confined w (w.At d i k) (Parse.advance >>= f) (Parse.advance >>= f') R := by
  refine (advance hk).bind fun t => ?_
  by_cases ht : w.HasToken t ∧ t.kind = k
  · exact (hf t ht.1 ht.2).before fun _ hj => hj.2.2
  · exact vacuous fun _ hj => ht ⟨hj.1, hj.2.1⟩

theorem take {f f' : Token → Parse β} (hk : k ≠ .lbrace)
    (hf : ∀ t, w.HasToken t → t.kind = k → Confined w (w.In (k.nest d) i) (f t) (f' t) R) :
    Confined w (w.At d i k) (Parse.advance >>= f) (Parse.advance >>= f') R :=
  takeMoving hk fun t ht hkind => (hf t ht hkind).before fun _ hj => hj.weaken

theorem skipMoving {f f' : Unit → Parse β} (hk : k ≠ .lbrace)
    (hf : Confined w (w.In (k.nest d) (i + 1)) (f ()) (f' ()) R) :
    Confined w (w.At d i k) (Parse.skip >>= f) (Parse.skip >>= f') R := by
  unfold Parse.skip
  rw [bind_assoc, bind_assoc]
  exact takeMoving hk fun t _ _ => hf

theorem skip {f f' : Unit → Parse β} (hk : k ≠ .lbrace)
    (hf : Confined w (w.In (k.nest d) i) (f ()) (f' ()) R) :
    Confined w (w.At d i k) (Parse.skip >>= f) (Parse.skip >>= f') R :=
  skipMoving hk (hf.before fun _ hj => hj.weaken)

/-- Taking a token before one of a known kind. -/
theorem skipTo {k' : TokenKind} {f f' : Unit → Parse β} (hk : k ≠ .lbrace)
    (hf : Confined w (w.At (k.nest d) (i + 1) k') (f ()) (f' ()) R) :
    Confined w (fun j => w.At d i k j ∧ w.left.kindAt (j + 1) = k') (Parse.skip >>= f)
      (Parse.skip >>= f') R := by
  have hskip : Confined w (fun j => w.At d i k j ∧ w.left.kindAt (j + 1) = k') Parse.skip Parse.skip
      fun _ => w.At (k.nest d) (i + 1) k' :=
    { same := fun {s} hs => by rw [run_skip, run_skip, (hs.1.advance hk).1]
      post := fun {s x t} hs hrun => by
        rw [run_skip] at hrun
        cases hrun
        refine ⟨(hs.1.advance hk).2, ?_⟩
        have heof : (w.left.view s).kind 0 ≠ .eof :=
          hs.1.within.kind_ne (.inr (.inr (.inr (.inr rfl))))
        rw [Source.advance_of_token heof]
        exact hs.2 }
  exact hskip.bind fun _ => hf

theorem acceptMoving {f f' : Bool → Parse β} (hk : k ≠ .lbrace)
    (htrue : Confined w (w.In (k.nest d) (i + 1)) (f true) (f' true) R)
    (hfalse : Confined w (w.In d i) (f false) (f' false) R) :
    Confined w (w.In d i) (Parse.accept k >>= f) (Parse.accept k >>= f') R := by
  unfold Parse.accept
  rw [bind_assoc, bind_assoc]
  refine check ?_ ?_
  · rw [if_pos rfl, bind_assoc, bind_assoc]
    refine skipMoving hk ?_
    rwa [pure_bind, pure_bind]
  · rwa [if_neg Bool.false_ne_true, pure_bind, pure_bind]

theorem accept {f f' : Bool → Parse β} (hk : k ≠ .lbrace)
    (htrue : Confined w (w.In (k.nest d) i) (f true) (f' true) R)
    (hfalse : Confined w (w.In d i) (f false) (f' false) R) :
    Confined w (w.In d i) (Parse.accept k >>= f) (Parse.accept k >>= f') R :=
  acceptMoving hk (htrue.before fun _ hj => hj.weaken) hfalse

/-! ### Constructs, the flag and attempts -/

theorem nested (h : Confined w (w.In d i) p p Q) :
    Confined w (w.In d i) (Parse.nested p) (Parse.nested p) Q where
  same {s} hs := by
    have htoken := w.token_eq (s := s) (n := 0) hs.within.le
    rw [run_nested, run_nested, w.settings, htoken]
    split
    · rfl
    · rw [h.same (s := { s with cursor := { s.cursor with depth := s.cursor.depth + 1 } }) hs]
  post {s x t} hs hrun := by
    rw [run_nested] at hrun
    split at hrun
    · cases hrun
    · rcases hp : p.run w.left { s with cursor := { s.cursor with depth := s.cursor.depth + 1 } }
        with ⟨r, u⟩
      rw [hp] at hrun
      cases hrun
      exact h.post (s := { s with cursor := { s.cursor with depth := s.cursor.depth + 1 } }) (t := u)
        hs hp

theorem withLeniency (lenient : Bool) (h : Confined w P p p Q) :
    Confined w P (Parse.withLeniency lenient p) (Parse.withLeniency lenient p) Q where
  same {s} hs := by
    have heq := h.same (s := { s with lenient }) hs
    rw [run_withLeniency, run_withLeniency, heq]
  post {s x t} hs hrun := by
    rcases hp : p.run w.left { s with lenient } with ⟨r, u⟩
    rw [run_withLeniency, hp] at hrun
    cases hrun
    exact h.post (s := { s with lenient }) (t := u) hs hp

/-- A failed attempt ends where it began. -/
theorem speculate (h : Confined w P p p Q) :
    Confined w P (Parse.speculate p) (Parse.speculate p) fun x => x.elim P Q where
  same {s} hs := by
    have heq := h.same hs
    rcases hrun : p.run w.left s with ⟨e | x, t⟩
    · rw [hrun] at heq
      rw [run_speculate_error hrun, run_speculate_error heq]
    · rw [hrun] at heq
      rw [run_speculate_ok hrun, run_speculate_ok heq]
  post {s x t} hs hrun := by
    rcases hp : p.run w.left s with ⟨e | y, u⟩
    · rw [run_speculate_error hp] at hrun
      split at hrun
      · cases hrun
      · cases hrun
        exact hs
    · rw [run_speculate_ok hp] at hrun
      cases hrun
      exact h.post hs hp

/-- The second parser starts where the first one does, and the whole ends where the first one ends. -/
theorem rereading {r r' : Parse β} (hp : Confined w P p q Q)
    (hr : Confined w P r r' fun _ _ => True) :
    Confined w P (Parse.rereading p r) (Parse.rereading q r') fun x => Q x.1 where
  same {s} hs := by
    have heq := hp.same hs
    rcases hrun : p.run w.left s with ⟨e | x, t⟩
    · rw [hrun] at heq
      rw [run_rereading_error hrun, run_rereading_error heq]
    · rw [hrun] at heq
      rw [run_rereading_ok hrun, run_rereading_ok heq,
        hr.same (s := t.atPosition s.cursor.position) hs]
  post {s x u} hs hrun := by
    rcases hrun' : p.run w.left s with ⟨e | y, t⟩
    · rw [run_rereading_error hrun'] at hrun
      cases hrun
    · rw [run_rereading_ok hrun'] at hrun
      split at hrun
      · cases hrun
        exact hp.post (t := t) hs hrun'
      · cases hrun

/-! ### Loops -/

/-- Where no token is left before the brace, no loop goes on. -/
theorem past_stop (h : w.stop < i) : Confined w (w.In d i) p q Q :=
  vacuous fun _ hj => Nat.not_lt_of_le (Nat.le_trans hj.le hj.within.le) h

/-- After a token was taken, there are still more rounds than tokens before the brace. -/
theorem nextRound {n m : Nat} (hn : w.stop - i < n + 1) (hm : w.stop - i < m + 1)
    (h : w.stop - (i + 1) < n → w.stop - (i + 1) < m → Confined w (w.In d (i + 1)) p q Q) :
    Confined w (w.In d (i + 1)) p q Q := by
  by_cases hi : w.stop < i + 1
  · exact past_stop hi
  · exact h (by omega) (by omega)

/-- A loop that is given as many rounds as tokens are left. -/
theorem fuelled {p : Nat → Parse α} (c : Nat)
    (h : ∀ i n m, w.stop - i < n → w.stop - i < m →
      Confined w (w.In d i) (p n) (p m) fun _ => w.In d' i) :
    Confined w (w.In d i) (Parse.view >>= fun v => p (v.remaining + c))
      (Parse.view >>= fun v => p (v.remaining + c)) fun _ => w.In d' i := by
  -- the rounds are counted from where the loop starts, which may be after `i`
  have hfrom (s : ParseState) (hs : w.In d i s.cursor.position) :=
    h s.cursor.position ((w.left.view s).remaining + c) ((w.right.view s).remaining + c)
      (Nat.lt_add_right c (w.lt_remaining hs.within.le).1)
      (Nat.lt_add_right c (w.lt_remaining hs.within.le).2)
  exact
    { same := fun {s} hs => by
        rw [run_bind_ok run_view, run_bind_ok run_view]
        exact (hfrom s hs).same ⟨hs.within, Nat.le_refl _⟩
      post := fun {s x t} hs hrun => by
        rw [run_bind_ok run_view] at hrun
        have hpost := (hfrom s hs).post ⟨hs.within, Nat.le_refl _⟩ hrun
        exact ⟨hpost.within, Nat.le_trans hs.le hpost.le⟩ }

theorem iterateFor {step : σ → Parse (Option σ)} (hstep : ∀ x, Steps w d (step x)) {n m : Nat}
    (hn : w.stop - i < n) (hm : w.stop - i < m) (x : σ) :
    Confined w (w.In d i) (Parse.iterateFor step n x) (Parse.iterateFor step m x)
      fun _ => w.In d i := by
  induction n generalizing m i x with
  | zero => exact (Nat.not_lt_zero _ hn).elim
  | succ n ih =>
    obtain ⟨m, rfl⟩ : ∃ m', m = m' + 1 := ⟨m - 1, by omega⟩
    rw [Parse.iterateFor, Parse.iterateFor]
    refine (hstep x i).bind fun y => ?_
    cases y with
    | none => exact .pure fun _ hj => hj
    | some y =>
      exact nextRound hn hm fun hn hm => (ih hn hm y).weaken (fun _ hj => hj) fun _ _ hj => hj.weaken

theorem chainFor {item : Parse α} (hitem : Passes w d d item) {n m : Nat} (hn : w.stop - i < n)
    (hm : w.stop - i < m) :
    Confined w (w.In d i) (Parse.chainFor (fun () => item) (pure ()) n ())
      (Parse.chainFor (fun () => item) (pure ()) m ()) fun _ => w.In d i := by
  induction n generalizing m i with
  | zero => exact (Nat.not_lt_zero _ hn).elim
  | succ n ih =>
    obtain ⟨m, rfl⟩ : ∃ m', m = m' + 1 := ⟨m - 1, by omega⟩
    rw [Parse.chainFor, Parse.chainFor]
    refine (hitem i).bind fun first => acceptMoving (by decide) ?_ (.pure fun _ hj => hj)
    rw [if_pos rfl, if_pos rfl, pure_bind, pure_bind]
    exact nextRound hn hm fun hn hm => (ih hn hm).bind fun rest => .pure fun _ hj => hj.weaken

end Confined

/-! ### Whole parsers -/

namespace Passes

variable {α β σ : Type} {w : SameHead} {d d' d'' : Nat} {k : TokenKind} {p : Parse α}
  {f : α → Parse β}

protected theorem pure (x : α) : Passes w d d (pure x) :=
  fun _ => .pure fun _ hj => hj

protected theorem bind (hp : Passes w d d' p) (hf : ∀ x, Passes w d' d'' (f x)) :
    Passes w d d'' (p >>= f) :=
  fun i => (hp i).bind fun x => hf x i

theorem map {g : α → β} (hp : Passes w d d' p) : Passes w d d' (g <$> p) := by
  rw [map_eq_bind]
  exact hp.bind fun x => .pure _

theorem expected (what : String) : Passes w d d' (Parse.expected what : Parse α) :=
  fun _ => .expected what

theorem unexpected (message : String) : Passes w d d' (Parse.unexpected message : Parse α) :=
  fun _ => .unexpected message

theorem textSince (start : Nat) : Passes w d d (Parse.textSince start) :=
  fun _ => .textSince start

theorem require (hk : k ≠ .lbrace) (place : String) :
    Passes w d (k.nest d) (Parse.require k place) := by
  refine fun i => .check ?_ (.expected _)
  exact (Confined.advance hk).weaken (fun _ hj => hj) fun _ _ hj => hj.2.2.weaken

theorem skipOver (hk : k ≠ .lbrace) (place : String) :
    Passes w d (k.nest d) (Parse.skipOver k place) :=
  (require hk place).bind fun _ => .pure ()

theorem name (place : String) : Passes w d d (Parse.name place) :=
  (require (k := .identifier) (by decide) place).bind fun _ => .pure _

theorem nameOrNone : Passes w d d Parse.nameOrNone := by
  refine fun i => .check ?_ (.pure fun _ hj => hj)
  exact .take (by decide) fun t _ _ => .pure fun _ hj => hj

/-- A token outside of parentheses that is taken or not. -/
theorem accept (hk : k.isFlat) : Passes w d d (Parse.accept k) := by
  have hne : k ≠ .lbrace := by
    rintro rfl
    cases hk
  have hnest : k.nest d = d := by
    cases k <;> first | rfl | cases hk
  intro i
  have haccept : Confined w (w.In d i) (Parse.accept k >>= pure) (Parse.accept k >>= pure)
      fun _ => w.In d i := by
    refine .accept hne ?_ (.pure fun _ hj => hj)
    rw [hnest]
    exact .pure fun _ hj => hj
  rwa [bind_pure] at haccept

theorem optionalAfter (hk : k.isFlat) (hp : Passes w d d p) :
    Passes w d d (Parse.optionalAfter k p) := by
  refine (accept hk).bind fun here => ?_
  cases here with
  | true => exact hp.map
  | false => exact .pure none

theorem nested (hp : Passes w d d' p) : Passes w d d' (Parse.nested p) :=
  fun i => (hp i).nested

theorem leniently (hp : Passes w d d' p) : Passes w d d' (Parse.leniently p) :=
  fun i => (hp i).withLeniency true

theorem strictly (hp : Passes w d d' p) : Passes w d d' (Parse.strictly p) :=
  fun i => (hp i).withLeniency false

/-- An attempt ends with as many open parentheses as it starts with, whether or not it fails. -/
theorem speculate (hp : Passes w d d p) : Passes w d d (Parse.speculate p) := by
  refine fun i => (hp i).speculate.weaken (fun _ hj => hj) fun x j hj => ?_
  cases x with
  | none => exact hj
  | some x => exact hj

theorem iterate {step : σ → Parse (Option σ)} (hstep : ∀ x, Steps w d (step x)) (x : σ) :
    Passes w d d (Parse.iterate step x) :=
  fun _ => .fuelled 1 fun _ _ _ hn hm => .iterateFor hstep hn hm x

theorem separated {item : Parse α} (hitem : Passes w d d item) :
    Passes w d d (Parse.separated item) :=
  fun _ => .fuelled 1 fun _ _ _ hn hm => .chainFor hitem hn hm

end Passes

end CTree
