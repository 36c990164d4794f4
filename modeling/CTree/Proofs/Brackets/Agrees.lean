import CTree.Proofs.Brackets.Split
import CTree.Proofs.Lockstep.Basic

/-!
# Parsers that agree about a closing pair

`Alike` says of two outcomes that they correspond: both are values, at corresponding places, or both are
failures that an attempt treats in the same way. Between the scans of arguments and defaults no angle is open
but that of the list, and so the pair is never the current token there. `Agrees` says of a parser that it
starts and ends at such a place and does the same in both sources.
-/

namespace CTree

open Parse

variable {α β γ δ : Type}

theorem Source.remaining_after (source : Source) (s : ParseState) :
    (source.view (s.after 1)).remaining = (source.view s).remaining - 1 :=
  Nat.sub_add_eq ..

namespace SplitAngles

/-- Both outcomes are values, which with the state after them are as asked for; or both are failures that
leave the same state up to its place. -/
inductive Alike (w : SplitAngles) (Q : α → β → ParseState → Prop) :
    Except Failure α × ParseState → Except Failure β × ParseState → Prop
  | value {x : α} {y : β} {t : ParseState} (h : Q x y t) : Alike w Q (.ok x, t) (.ok y, w.shifted t)
  | failure {e e' : Failure} {t t' : ParseState} (hfatal : e'.isFatal = e.isFatal)
    (hstate : t'.atPosition 0 = t.atPosition 0) : Alike w Q (.error e, t) (.error e', t')

/-- No angle is open but that of the list. -/
abbrev Rests (w : SplitAngles) (s : ParseState) : Prop :=
  w.Stands (fun b => b.angles ≤ 1) s

/-- The same value is given, at a place of rest that is no earlier, and later if the value is in `m`. -/
structure Arrives (w : SplitAngles) (s : ParseState) (m : α → Prop) (x y : α) (t : ParseState) : Prop where
  same : x = y
  rests : w.Rests t
  le : s.cursor.position ≤ t.cursor.position
  moves : m x → s.cursor.position < t.cursor.position

/-- A scan that goes on after a token arrives where it does from there. -/
theorem Arrives.later {w : SplitAngles} {s t : ParseState} {x y : α} (h : w.Arrives (s.after 1) never x y t) :
    w.Arrives s never x y t :=
  ⟨h.same, h.rests, Nat.le_of_succ_le h.le, nofun⟩

/-- At rest in a state of a class the parser does the same in both sources, and takes a token if the value
that it gives is in `m`. -/
def Agrees (w : SplitAngles) (P : ParseState → Prop) (m : α → Prop) (p : Parse α) : Prop :=
  ∀ s, w.Rests s → P s → w.Alike (w.Arrives s m) (p.run w.left s) (p.run w.right (w.shifted s))

variable {w : SplitAngles} {s t : ParseState} {k : TokenKind}

/-! ### Outcomes -/

namespace Alike

variable {Q Q' : α → β → ParseState → Prop} {R : γ → δ → ParseState → Prop}
  {r : Except Failure α × ParseState} {r' : Except Failure β × ParseState}

theorem weaken (h : w.Alike Q r r') (hQ : ∀ x y t, Q x y t → Q' x y t) : w.Alike Q' r r' := by
  cases h with
  | value h => exact .value (hQ _ _ _ h)
  | failure hfatal hstate => exact .failure hfatal hstate

protected theorem bind {p : Parse α} {q : Parse β} {f : α → Parse γ} {g : β → Parse δ} {s s' : ParseState}
    (h : w.Alike Q (p.run w.left s) (q.run w.right s'))
    (hf : ∀ x y t, Q x y t → w.Alike R ((f x).run w.left t) ((g y).run w.right (w.shifted t))) :
    w.Alike R ((p >>= f).run w.left s) ((q >>= g).run w.right s') := by
  rcases hp : p.run w.left s with ⟨e | x, t⟩ <;> rcases hq : q.run w.right s' with ⟨e' | y, t'⟩ <;>
    rw [hp, hq] at h
  · cases h with
    | failure hfatal hstate =>
      rw [run_bind_error hp, run_bind_error hq]
      exact .failure hfatal hstate
  · cases h
  · cases h
  · cases h with
    | value h =>
      rw [run_bind_ok hp, run_bind_ok hq]
      exact hf _ _ _ h

theorem expected (what what' : String) (s : ParseState) :
    w.Alike Q ((Parse.expected what : Parse α).run w.left s)
      ((Parse.expected what' : Parse β).run w.right (w.shifted s)) := by
  rw [run_expected, run_expected]
  exact .failure rfl rfl

/-- A failed attempt goes back to where it began. -/
theorem speculate {p : Parse α} {q : Parse β} {s : ParseState}
    (h : w.Alike Q (p.run w.left s) (q.run w.right (w.shifted s)))
    {R : Option α → Option β → ParseState → Prop} (hsome : ∀ x y t, Q x y t → R (some x) (some y) t)
    (hnone : ∀ t, t.cursor.position = s.cursor.position → R none none t) :
    w.Alike R ((speculate p).run w.left s) ((speculate q).run w.right (w.shifted s)) := by
  rcases hp : p.run w.left s with ⟨e | x, t⟩ <;>
    rcases hq : q.run w.right (w.shifted s) with ⟨e' | y, t'⟩ <;> rw [hp, hq] at h
  · cases h with
    | failure hfatal hstate =>
      rw [run_speculate_error hp, run_speculate_error hq, hfatal]
      have hback : t'.backTo (w.shifted s) = w.shifted (t.backTo s) := by
        have hzero := congrArg (fun u : ParseState => u.backTo (w.shifted s)) hstate
        exact hzero
      rw [hback]
      split
      · exact .failure hfatal rfl
      · exact .value (hnone _ rfl)
  · cases h
  · cases h
  · cases h with
    | value h =>
      rw [run_speculate_ok hp, run_speculate_ok hq]
      exact .value (hsome _ _ _ h)

/-- Setting the flag after both. -/
theorem flag (h : w.Alike Q r r') (lenient : Bool) (hQ : ∀ x y t, Q x y t → Q' x y { t with lenient }) :
    w.Alike Q' (r.1, { r.2 with lenient }) (r'.1, { r'.2 with lenient }) := by
  cases h with
  | value h => exact .value (hQ _ _ _ h)
  | failure hfatal hstate =>
    exact .failure hfatal (congrArg (fun u : ParseState => { u with lenient }) hstate)

theorem toOption_eq {r r' : Except Failure α × ParseState} {Q : α → α → ParseState → Prop}
    (h : w.Alike Q r r') (hQ : ∀ x y t, Q x y t → x = y) : r'.1.toOption = r.1.toOption := by
  cases h with
  | value h => rw [hQ _ _ _ h]
  | failure => rfl

end Alike

theorem Rests.ne_place (h : w.Rests s) : s.cursor.position ≠ w.place :=
  Stands.ne_place h fun _ hb => Nat.le_succ_of_le hb

/-- At rest a token that is no bracket can be taken. -/
theorem Rests.next (h : w.Rests s) (hk : (w.left.view s).kind 0 = k)
    (hplain : Brackets.isPlain k = true) : w.Rests (s.after 1) :=
  Stands.next h hk (Brackets.ne_eof_of_isPlain hplain) fun b b' hb hnext => by
    rwa [Brackets.angles, Brackets.opened_of_isPlain hplain hnext]

/-- Where another token had to stand, both sources fail. -/
theorem Alike.refuse {Q : α → β → ParseState → Prop} {f : Unit → Parse α} {g : Unit → Parse β}
    {place place' : String} (hne : s.cursor.position ≠ w.place) (hk : (w.left.view s).kind 0 ≠ k) :
    w.Alike Q ((skipOver k place >>= f).run w.left s) ((skipOver k place' >>= g).run w.right (w.shifted s)) := by
  have hk' : (w.right.view (w.shifted s)).kind 0 ≠ k := by
    rwa [kind_eq hne]
  have hfails {γ : Type} {source : Source} {u : ParseState} {h : Unit → Parse γ} {place : String}
      (hk : (source.view u).kind 0 ≠ k) : (skipOver k place >>= h).run source u =
        (Parse.expected (placed k.describe place) : Parse γ).run source u := by
    unfold skipOver require
    simp only [bind_assoc]
    rw [run_bind_ok (run_check _), beq_false_of_ne hk]
    rfl
  rw [hfails hk, hfails hk']
  exact .expected ..

/-- Where a token was taken, fewer are left. -/
theorem Rests.remaining_lt (ht : w.Rests t) (h : s.cursor.position < t.cursor.position) :
    (w.left.view t).remaining < (w.left.view s).remaining := by
  have hbound := ht.bound
  show w.left.stream.body.size + 1 - t.cursor.position < w.left.stream.body.size + 1 - s.cursor.position
  omega

/-- In the right source as many tokens are left, or one more. -/
theorem remaining_shifted (w : SplitAngles) (s : ParseState) :
    (w.left.view s).remaining ≤ (w.right.view (w.shifted s)).remaining := by
  show w.left.stream.size - s.cursor.position ≤ w.right.stream.size - w.shift s.cursor.position
  rw [size_right]
  unfold shift
  split <;> omega

/-- A scan goes through both sources in step. What its rounds lead to holds with room for the tokens left, if
a round shows it at the pair, where the right source takes two tokens, and at each other token. -/
theorem Stands.scan_induction {σ : Type} {C : σ → Brackets → Prop} {R : σ → ParseState → Nat → Nat → Prop}
    (pair : ∀ {x s fuel fuel'}, s.cursor.position = w.place → w.Stands (C x) s →
      (∀ y, R y (s.after 1) fuel fuel') → R x s (fuel + 1) (fuel' + 2))
    (token : ∀ {x s fuel fuel'}, s.cursor.position ≠ w.place → w.Stands (C x) s →
      (∀ y, w.Stands (C y) (s.after 1) → R y (s.after 1) fuel fuel') → R x s (fuel + 1) (fuel' + 1))
    {x : σ} {fuel fuel' : Nat} (h : w.Stands (C x) s) (hfuel : (w.left.view s).remaining ≤ fuel)
    (hfuel' : (w.right.view (w.shifted s)).remaining ≤ fuel') : R x s fuel fuel' := by
  induction fuel generalizing x s fuel' with
  | zero => exact absurd hfuel (Nat.not_le.2 h.remaining_pos)
  | succ fuel ih =>
    have hleft := h.remaining_pos
    have hright := remaining_shifted w s
    have hrest : (w.left.view (s.after 1)).remaining ≤ fuel := by
      rw [Source.remaining_after]
      omega
    by_cases hplace : s.cursor.position = w.place
    · have hroom := remaining_pair hplace
      obtain ⟨fuel', rfl⟩ : ∃ n, fuel' = n + 2 := ⟨fuel' - 2, by omega⟩
      refine pair hplace h fun y => ih (.afterPair hplace) hrest ?_
      rw [shifted_afterPair hplace, Source.remaining_after, Source.remaining_after]
      omega
    · obtain ⟨fuel', rfl⟩ : ∃ n, fuel' = n + 1 := ⟨fuel' - 1, by omega⟩
      refine token hplace h fun y hy => ih hy hrest ?_
      rw [shifted_after hplace, Source.remaining_after]
      omega

/-! ### Rules -/

namespace Agrees

variable {P P' : ParseState → Prop} {m m' : α → Prop} {p : Parse α} {f : α → Parse β} {n : β → Prop}

theorem weaken (h : w.Agrees P m p) (hP : ∀ s, P' s → P s) (hm : ∀ x, m' x → m x) : w.Agrees P' m' p :=
  fun s hs hP' => (h s hs (hP s hP')).weaken fun _ _ _ ht =>
    ⟨ht.same, ht.rests, ht.le, fun hx => ht.moves (hm _ hx)⟩

theorem fromAnywhere (h : w.Agrees anywhere m p) : w.Agrees P m p :=
  h.weaken (fun _ _ => trivial) fun _ hx => hx

theorem still (h : w.Agrees P m p) : w.Agrees P never p :=
  h.weaken (fun _ hs => hs) nofun

protected theorem pure (x : α) (hx : ¬ m x) : w.Agrees P m (pure x) :=
  fun _ hs _ => .value ⟨rfl, hs, Nat.le_refl _, fun h => (hx h).elim⟩

theorem expected (what : String) : w.Agrees P m (Parse.expected what) :=
  fun s _ _ => .expected what what s

theorem unexpected (message : String) : w.Agrees P m (Parse.unexpected message) :=
  fun _ _ _ => .failure rfl rfl

protected theorem bind (hp : w.Agrees P never p) (hf : ∀ x, w.Agrees anywhere n (f x)) :
    w.Agrees P n (p >>= f) := by
  refine fun s hs hP => (hp s hs hP).bind fun x y t ht => ?_
  obtain ⟨rfl, hrests, hle, -⟩ := ht
  exact (hf x t hrests trivial).weaken fun _ _ _ hu =>
    ⟨hu.same, hu.rests, Nat.le_trans hle hu.le, fun hz => Nat.lt_of_le_of_lt hle (hu.moves hz)⟩

/-- The first parser takes a token already. -/
theorem andThen (hp : w.Agrees P always p) (hf : ∀ x, w.Agrees anywhere never (f x)) :
    w.Agrees P n (p >>= f) := by
  refine fun s hs hP => (hp s hs hP).bind fun x y t ht => ?_
  obtain ⟨rfl, hrests, -, hlt⟩ := ht
  exact (hf x t hrests trivial).weaken fun _ _ _ hu =>
    ⟨hu.same, hu.rests, Nat.le_of_lt (Nat.lt_of_lt_of_le (hlt trivial) hu.le),
      fun _ => Nat.lt_of_lt_of_le (hlt trivial) hu.le⟩

theorem map {g : α → β} (hp : w.Agrees P never p) : w.Agrees P never (g <$> p) := by
  rw [map_eq_bind]
  exact hp.bind fun x => .pure _ nofun

/-- A look at what both sources show alike. What comes after it may rely on what is seen. -/
theorem look {r : Parse α} {y : Source → ParseState → α}
    (hr : ∀ source s, r.run source s = (.ok (y source s), s))
    (hy : ∀ s, w.Rests s → P s → y w.right (w.shifted s) = y w.left s)
    (hf : ∀ x, w.Agrees (fun s => P s ∧ y w.left s = x) n (f x)) : w.Agrees P n (r >>= f) := by
  intro s hs hP
  rw [run_bind_ok (hr _ s), run_bind_ok (hr _ _), hy s hs hP]
  exact hf _ s hs ⟨hP, rfl⟩

/-- A look whose answer only decides what is done next. -/
theorem looking {r : Parse α} {y : Source → ParseState → α}
    (hr : ∀ source s, r.run source s = (.ok (y source s), s))
    (hy : ∀ s, w.Rests s → P s → y w.right (w.shifted s) = y w.left s)
    (hf : ∀ x, w.Agrees P n (f x)) : w.Agrees P n (r >>= f) :=
  look hr hy fun x => (hf x).weaken (fun _ hs => hs.1) fun _ hx => hx

theorem kind {f : TokenKind → Parse β} (hf : ∀ k, w.Agrees (w.left.At k) n (f k)) :
    w.Agrees anywhere n (Parse.kind >>= f) :=
  look (y := fun source s => (source.view s).kind 0) (fun _ _ => rfl)
    (fun _ hs _ => kind_eq (Rests.ne_place hs)) fun k =>
    (hf k).weaken (fun _ hs => hs.2) fun _ hx => hx

theorem check {f : Bool → Parse β} (htrue : w.Agrees (w.left.At k) n (f true))
    (hfalse : w.Agrees anywhere n (f false)) : w.Agrees anywhere n (Parse.check k >>= f) := by
  refine look (y := fun source s => (source.view s).kind 0 == k) (fun _ _ => rfl)
    (fun s hs _ => ?_) fun x => ?_
  · rw [kind_eq (Rests.ne_place hs)]
  · cases x with
    | true => exact htrue.weaken (fun s hs => beq_iff_eq.1 hs.2) fun _ hx => hx
    | false => exact hfalse.fromAnywhere

theorem isCpp {f : Bool → Parse β} (hf : ∀ x, w.Agrees P n (f x)) :
    w.Agrees P n (Parse.isCpp >>= f) := by
  refine looking (y := fun source s => (source.view s).isCpp) (fun _ _ => rfl) (fun s _ _ => ?_) hf
  show (w.right.settings.dialect == .cpp) = (w.left.settings.dialect == .cpp)
  rw [w.settings]

/-! ### Taking tokens -/

theorem skip (hplain : Brackets.isPlain k = true) :
    w.Agrees (w.left.At k) always Parse.skip := by
  intro s hs hk
  have hend := Brackets.ne_eof_of_isPlain hplain
  have hkind : (w.left.view s).kind 0 = k := hk
  have hkind' : (w.right.view (w.shifted s)).kind 0 = k := (kind_eq (Rests.ne_place hs)).trans hk
  rw [run_skip_of_token (by rwa [hkind]), run_skip_of_token (by rwa [hkind']),
    ← shifted_after (Rests.ne_place hs)]
  exact .value ⟨rfl, hs.next hk hplain, Nat.le_succ _, fun _ => Nat.lt_succ_self _⟩

/-- Taking a token of which only the text is used. -/
theorem takeText {f : String → Parse β} (hplain : Brackets.isPlain k = true)
    (hf : ∀ text, w.Agrees anywhere never (f text)) :
    w.Agrees (w.left.At k) n (Parse.advance >>= fun t => f t.text) := by
  intro s hs hk
  have hne := Rests.ne_place hs
  have hend := Brackets.ne_eof_of_isPlain hplain
  have hkind : (w.left.view s).kind 0 = k := hk
  have hkind' : (w.right.view (w.shifted s)).kind 0 = k := (kind_eq hne).trans hk
  have htext : ((w.right.view (w.shifted s)).token 0).text = ((w.left.view s).token 0).text :=
    text_shift hne (by rwa [show w.left.kindAt s.cursor.position = k from hk])
  rw [run_bind_ok run_advance, run_bind_ok run_advance, Source.advance_of_token (by rwa [hkind]),
    Source.advance_of_token (by rwa [hkind']), htext]
  have hrests : w.Rests (s.after 1) := hs.next hk hplain
  have hrun := hf ((w.left.view s).token 0).text (s.after 1) hrests trivial
  rw [shifted_after hne] at hrun
  exact hrun.weaken fun _ _ _ ht => ⟨ht.same, ht.rests, Nat.le_of_succ_le ht.le, fun _ => ht.le⟩

theorem accept (hplain : Brackets.isPlain k = true) :
    w.Agrees anywhere yes (Parse.accept k) := by
  unfold Parse.accept
  refine .check ?_ (.pure false nofun)
  exact (skip hplain).andThen fun _ => .pure true nofun

theorem name (place : String) : w.Agrees anywhere always (Parse.name place) := by
  unfold Parse.name Parse.require
  rw [bind_assoc]
  refine .check ?_ (.andThen (.expected _) fun _ => .pure _ nofun)
  rw [if_pos rfl]
  exact .takeText (by decide) fun text => .pure text nofun

theorem nameOrNone : w.Agrees anywhere never Parse.nameOrNone := by
  unfold Parse.nameOrNone
  exact .check (.takeText (by decide) fun text => .pure text nofun) (.pure "" nofun)

/-! ### Attempts, the flag and texts -/

theorem speculate (h : w.Agrees P m p) : w.Agrees P never (Parse.speculate p) := by
  refine fun s hs hP => (h s hs hP).speculate (fun x y t ht => ?_) fun t ht => ?_
  · exact ⟨congrArg some ht.same, ht.rests, ht.le, nofun⟩
  · exact ⟨rfl, hs.congr ht, Nat.le_of_eq ht.symm, nofun⟩

theorem withLeniency (lenient : Bool) (h : w.Agrees anywhere never p) :
    w.Agrees anywhere never (Parse.withLeniency lenient p) := by
  intro s hs _
  rw [run_withLeniency, run_withLeniency]
  refine (h { s with lenient } (hs.congr rfl) trivial).flag s.lenient fun x y t ht => ?_
  exact ⟨ht.same, ht.rests.congr rfl, ht.le, nofun⟩

/-- The text of what a parser takes. -/
theorem textOf (h : w.Agrees anywhere never p) : w.Agrees anywhere never (do
    let start ← Parse.position
    let _ ← p
    Parse.textSince start) := by
  intro s hs _
  rw [run_bind_ok run_position, run_bind_ok run_position]
  refine (h s hs trivial).bind fun x y t ht => ?_
  rw [run_textSince, run_textSince]
  have htext := join_between (Rests.ne_place hs) (Rests.ne_place ht.rests)
  show w.Alike _ _ (.ok (Token.join (w.right.stream.between (w.shift _) (w.shift _))), _)
  rw [htext]
  exact .value ⟨rfl, ht.rests, ht.le, nofun⟩

/-! ### Loops -/

theorem iterateFor {σ : Type} {step : σ → Parse (Option σ)}
    (hstep : ∀ x, w.Agrees anywhere present (step x)) {fuel fuel' : Nat} (x : σ) (hs : w.Rests s)
    (hfuel : (w.left.view s).remaining < fuel) (hfuel' : (w.left.view s).remaining < fuel') :
    w.Alike (w.Arrives s never) ((Parse.iterateFor step fuel x).run w.left s)
      ((Parse.iterateFor step fuel' x).run w.right (w.shifted s)) := by
  induction fuel generalizing fuel' s x with
  | zero => exact (Nat.not_lt_zero _ hfuel).elim
  | succ fuel ih =>
    obtain ⟨fuel', rfl⟩ : ∃ n, fuel' = n + 1 := Nat.exists_eq_succ_of_ne_zero (Nat.ne_zero_of_lt hfuel')
    rw [Parse.iterateFor, Parse.iterateFor]
    refine (hstep x s hs trivial).bind fun y y' t ht => ?_
    obtain ⟨rfl, hrests, hle, hmoves⟩ := ht
    cases y with
    | none => exact .value ⟨rfl, hrests, hle, False.elim⟩
    | some y =>
      have hless := Rests.remaining_lt hrests (hmoves rfl)
      refine (ih y hrests (by omega) (by omega)).weaken fun _ _ _ hu => ?_
      exact ⟨hu.same, hu.rests, Nat.le_trans hle hu.le, False.elim⟩

theorem iterate {σ : Type} {step : σ → Parse (Option σ)}
    (hstep : ∀ x, w.Agrees anywhere present (step x)) (x : σ) :
    w.Agrees anywhere never (Parse.iterate step x) := by
  intro s hs _
  unfold Parse.iterate
  rw [run_bind_ok run_view, run_bind_ok run_view]
  exact iterateFor hstep x hs (Nat.lt_succ_self _) (Nat.lt_succ_of_le (remaining_shifted w s))

theorem skipWhile {c : TokenKind → Bool} (hc : ∀ k, c k = true → Brackets.isPlain k = true) :
    w.Agrees anywhere never (Parse.skipWhile c) := by
  refine iterate (fun _ => .kind fun k => ?_) ()
  split
  · rename_i hk
    exact (skip (hc k hk)).andThen fun _ => .pure _ nofun
  · exact .pure none nofun

theorem chainFor (hp : w.Agrees anywhere never p) {fuel fuel' : Nat} (hs : w.Rests s)
    (hfuel : (w.left.view s).remaining < fuel) (hfuel' : (w.left.view s).remaining < fuel') :
    w.Alike (w.Arrives s never) ((Parse.chainFor (fun () => p) (pure ()) fuel ()).run w.left s)
      ((Parse.chainFor (fun () => p) (pure ()) fuel' ()).run w.right (w.shifted s)) := by
  induction fuel generalizing fuel' s with
  | zero => exact (Nat.not_lt_zero _ hfuel).elim
  | succ fuel ih =>
    obtain ⟨fuel', rfl⟩ : ∃ n, fuel' = n + 1 := Nat.exists_eq_succ_of_ne_zero (Nat.ne_zero_of_lt hfuel')
    rw [Parse.chainFor, Parse.chainFor]
    refine (hp s hs trivial).bind fun x y t ht => ?_
    obtain ⟨rfl, hrests, hle, -⟩ := ht
    refine (accept (k := .comma) rfl t hrests trivial).bind fun more more' u hu => ?_
    obtain ⟨rfl, hrests', hle', hmoves⟩ := hu
    cases more with
    | false => exact .value ⟨rfl, hrests', Nat.le_trans hle hle', False.elim⟩
    | true =>
      have hless := Rests.remaining_lt hrests' (Nat.lt_of_le_of_lt hle (hmoves rfl))
      rw [if_pos rfl, if_pos rfl, pure_bind]
      refine (ih hrests' (by omega) (by omega)).bind fun xs ys v hv => ?_
      exact .value ⟨congrArg (x :: ·) hv.same, hv.rests, Nat.le_trans hle (Nat.le_trans hle' hv.le), False.elim⟩

/-- Things with commas between them. -/
theorem separated (hp : w.Agrees anywhere never p) : w.Agrees anywhere never (Parse.separated p) := by
  intro s hs _
  unfold Parse.separated Parse.chain
  rw [run_bind_ok run_view, run_bind_ok run_view]
  exact chainFor hp hs (Nat.lt_succ_self _) (Nat.lt_succ_of_le (remaining_shifted w s))

end Agrees

end SplitAngles

end CTree
