import CTree.Proofs.Brackets.Agrees
import CTree.Proofs.Groups

/-!
# Groups and template arguments around a closing pair

The scan of template arguments counts the angles outside of all groups, and the scan of a group counts its
parentheses. Both counts are those of the brackets that are open. So the scan of arguments knows two more
levels to close where it comes to the pair, or is inside of a group, where it counts no angles.
-/

namespace CTree

open Parse

/-- The kinds that begin a group. -/
def TokenKind.beginsGroup (k : TokenKind) : Bool :=
  k == .lparen || k == .lbracket

/-! ### The brackets that a scan of arguments counts -/

/-- Above the brackets `base`, the angles and groups are open that the scan has counted. -/
structure ArgumentNesting.Tracks (inside : ArgumentNesting) (base : List TokenKind) (b : Brackets) :
    Prop where
  pos : 0 < inside.angles
  opened : Brackets.Above TokenKind.beginsGroup (List.replicate inside.angles .lt ++ base) inside.parens
    b.opened

namespace ArgumentNesting.Tracks

variable {inside inside' : ArgumentNesting} {base : List TokenKind} {b b' : Brackets} {k : TokenKind}

theorem start (hb : b.opened = .lt :: base) : ArgumentNesting.Tracks {} base b :=
  ⟨Nat.one_pos, hb⟩

/-- Outside of groups a `>` closes the angle that was opened last. -/
theorem close {angles : Nat} (hopened : b.opened = List.replicate (angles + 1) .lt ++ base)
    (h : b.close = some b') : b'.opened = List.replicate angles .lt ++ base := by
  rcases Brackets.close_cases h with ⟨rest, hrest, rfl⟩ | ⟨hhead, -, rfl⟩
  · rw [hopened, List.replicate_succ, List.cons_append] at hrest
    exact (List.cons.inj hrest).2.symm
  · rw [hopened] at hhead
    exact (hhead rfl).elim

/-- Inside of a group. -/
theorem takeInside {parens : Nat} (h : inside.Tracks base b) (hparens : inside.parens = parens + 1)
    (hstep : inside.step k = .take inside') (hnext : b.next k = some b') : inside'.Tracks base b' := by
  obtain ⟨angles, _⟩ := inside
  obtain rfl : _ = parens + 1 := hparens
  have habove := h.opened.next rfl hnext
  cases k
  case lparen | lbracket =>
    cases hstep
    exact ⟨h.pos, habove⟩
  case rparen | rbracket =>
    cases hstep
    exact ⟨h.pos, habove⟩
  all_goals first
    | (cases hstep; done)
    | (cases hstep; exact ⟨h.pos, habove⟩)

/-- Outside of all groups. -/
theorem takeOutside (h : inside.Tracks base b) (hparens : inside.parens = 0)
    (hstep : inside.step k = .take inside') (hnext : b.next k = some b') : inside'.Tracks base b' := by
  obtain ⟨angles, _⟩ := inside
  obtain rfl : _ = 0 := hparens
  have hopened : b.opened = List.replicate angles .lt ++ base := h.opened
  have hpos : 0 < angles := h.pos
  cases k
  case lparen | lbracket =>
    cases hstep
    cases hnext
    exact ⟨hpos, [], _, congrArg _ hopened, rfl, rfl⟩
  case lt =>
    cases hstep
    cases hnext
    exact ⟨Nat.succ_pos _, congrArg _ hopened⟩
  case gt =>
    obtain ⟨n, rfl⟩ : ∃ n, angles = n + 1 := Nat.exists_eq_succ_of_ne_zero (Nat.ne_of_gt hpos)
    simp only [step] at hstep
    split at hstep
    · cases hstep
    · cases hstep
      exact ⟨by dsimp only; omega, close hopened hnext⟩
  case shr =>
    simp only [step] at hstep
    split at hstep
    · cases hstep
    · split at hstep
      · cases hstep
      · cases hstep
        obtain ⟨n, rfl⟩ : ∃ n, angles = n + 1 + 1 := ⟨angles - 2, by omega⟩
        obtain ⟨b'', hfirst, hsecond⟩ := Option.bind_eq_some_iff.1 hnext
        exact ⟨by dsimp only; omega, close (close hopened hfirst) hsecond⟩
  case comma =>
    simp only [step] at hstep
    split at hstep
    · cases hstep
    · cases hstep
      cases hnext
      exact ⟨hpos, hopened⟩
  all_goals first
    | (cases hstep; done)
    | (cases hstep; cases hnext; exact ⟨hpos, hopened⟩)

theorem take (h : inside.Tracks base b) (hstep : inside.step k = .take inside')
    (hnext : b.next k = some b') : inside'.Tracks base b' := by
  cases hparens : inside.parens with
  | zero => exact h.takeOutside hparens hstep hnext
  | succ parens => exact h.takeInside hparens hstep hnext

/-- Between two arguments only one angle is open besides those around them. -/
theorem cut (h : inside.Tracks base b) (hstep : inside.step k = .cut) (hnext : b.next k = some b') :
    inside.Tracks base b' ∧ b'.opened = .lt :: base := by
  obtain rfl := eq_comma_of_step hstep
  obtain rfl : b = b' := Option.some.inj hnext
  obtain ⟨angles, parens⟩ := inside
  obtain rfl : parens = 0 := (step_cut hstep).2
  have hangles : angles = 1 := by
    simp only [step] at hstep
    split at hstep
    · assumption
    · cases hstep
  subst hangles
  exact ⟨h, h.opened⟩

/-- After the token that ends the arguments no more is open than was open before them. -/
theorem angles_of_close {extra : String} (h : inside.Tracks base b) (hbase : base.count .lt ≤ 1)
    (hstep : inside.step k = .close extra) (hnext : b.next k = some b') : b'.angles ≤ 1 := by
  have hparens := (step_close hstep).2
  have hopened := h.opened
  rw [hparens] at hopened
  have hone {angles : Nat} {b b' : Brackets} (hopened : b.opened = List.replicate (angles + 1) .lt ++ base)
      (hle : angles ≤ 0) (hclose : b.close = some b') : b'.angles ≤ 1 := by
    obtain rfl := Nat.le_zero.1 hle
    rwa [Brackets.angles, close hopened hclose]
  obtain ⟨n, hn⟩ : ∃ n, inside.angles = n + 1 := Nat.exists_eq_succ_of_ne_zero (Nat.ne_of_gt h.pos)
  rw [hn] at hopened
  rcases angles_of_step_close hstep with ⟨rfl, hle⟩ | ⟨rfl, hle⟩
  · exact hone hopened (by omega) hnext
  · obtain ⟨b'', hfirst, hsecond⟩ := Option.bind_eq_some_iff.1 hnext
    cases n with
    | zero => exact Nat.le_trans (Brackets.angles_of_close hsecond) (hone hopened (Nat.le_refl _) hfirst)
    | succ n => exact hone (close hopened hfirst) (by omega) hsecond

/-- Where the pair closes two angles, the scan knows of two, or is inside of a group. -/
theorem angles_of_closesTwo (h : inside.Tracks base b) (hbase : base.count .lt ≤ 1)
    (hcloses : b.ClosesTwo) (hparens : inside.parens = 0) : 2 ≤ inside.angles := by
  have hopened := h.opened
  rw [hparens] at hopened
  have hangles := hcloses.2
  rw [Brackets.angles, show b.opened = _ from hopened, List.count_append, List.count_replicate_self] at hangles
  omega

end ArgumentNesting.Tracks

/-- Where two levels are left, or in a group, a `>>` does what two `>` do, unless it ends the arguments. -/
theorem ArgumentNesting.step_pair {inside : ArgumentNesting} (h : inside.parens = 0 → 2 ≤ inside.angles) :
    (∃ first both, inside.step .shr = .take both ∧ inside.step .gt = .take first ∧
      first.step .gt = .take both) ∨ inside = ⟨2, 0⟩ := by
  obtain ⟨angles, parens⟩ := inside
  cases parens with
  | succ parens => exact .inl ⟨_, _, rfl, rfl, rfl⟩
  | zero =>
    have hangles : 2 ≤ angles := h rfl
    by_cases htwo : angles = 2
    · exact .inr (by rw [htwo])
    · refine .inl ⟨⟨angles - 1, 0⟩, ⟨angles - 2, 0⟩, ?_, ?_, ?_⟩
      · simp only [step]
        rw [if_neg (by omega), if_neg htwo]
      · simp only [step]
        rw [if_neg (by omega)]
      · simp only [step]
        rw [if_neg (by omega)]
        rfl

/-! ### Equations of the scans -/

namespace Parse

variable {source : Source} {s t : ParseState} {inside inside' : ArgumentNesting} {start fuel : Nat}

theorem ne_eof_of_step {k : TokenKind} (h : inside.step k ≠ .fail) : k ≠ .eof := by
  rintro rfl
  exact h rfl

variable {k : TokenKind}

theorem run_argumentsFrom_take (hk : (source.view s).kind 0 = k) (hstep : inside.step k = .take inside') :
    (argumentsFrom start inside (fuel + 1)).run source s =
      (argumentsFrom start inside' fuel).run source (s.after 1) := by
  have heof := ne_eof_of_step (by rw [hstep]; nofun)
  rw [argumentsFrom, run_bind_ok run_kind, hk, hstep]
  exact run_bind_ok (run_skip_of_token (hk ▸ heof))

theorem run_argumentsFrom_close {extra : String} (hk : (source.view s).kind 0 = k)
    (hstep : inside.step k = .close extra) : (argumentsFrom start inside (fuel + 1)).run source s =
      (.ok [Token.join (source.stream.between start s.cursor.position) ++ extra], s.after 1) := by
  have heof := ne_eof_of_step (by rw [hstep]; nofun)
  rw [argumentsFrom, run_bind_ok run_kind, hk, hstep, run_bind_ok (run_textSince _),
    run_bind_ok (run_skip_of_token (hk ▸ heof))]
  rfl

theorem run_argumentsFrom_cut (hk : (source.view s).kind 0 = k) (hstep : inside.step k = .cut) :
    (argumentsFrom start inside (fuel + 1)).run source s =
      ((Token.join (source.stream.between start s.cursor.position) :: ·) <$>
        argumentsFrom (s.cursor.position + 1) inside fuel).run source (s.after 1) := by
  have heof := ne_eof_of_step (by rw [hstep]; nofun)
  rw [argumentsFrom, run_bind_ok run_kind, hk, hstep, run_bind_ok (run_textSince _),
    run_bind_ok (run_skip_of_token (hk ▸ heof)), run_bind_ok run_position, map_eq_bind]
  rfl

theorem templateArguments_eq : templateArguments = (do
    skipOver .lt "to start template arguments"
    let arguments ← argumentsFrom (← position) {} (← view).remaining
    return if arguments = [""] then [] else arguments) := by
  unfold templateArguments
  refine bind_congr fun _ => bind_congr fun _ => bind_congr fun _ => bind_congr fun arguments => ?_
  split
  · rfl
  · rename_i hne
    rw [if_neg hne]

end Parse

namespace SplitAngles

variable {w : SplitAngles} {s : ParseState} {inside : ArgumentNesting} {base : List TokenKind}

/-- The scan ends at rest, and it gives the same texts if the list itself is scanned. -/
structure Scanned (w : SplitAngles) (s : ParseState) (base : List TokenKind) (xs ys : List String)
    (t : ParseState) : Prop where
  texts : base = [] → xs = ys
  rests : w.Rests t
  le : s.cursor.position ≤ t.cursor.position

theorem Scanned.later {xs ys : List String} {t : ParseState} (h : w.Scanned (s.after 1) base xs ys t) :
    w.Scanned s base xs ys t :=
  ⟨h.texts, h.rests, Nat.le_of_succ_le h.le⟩

/-- The scan of arguments ends alike in both sources. -/
def ArgumentsAlike (w : SplitAngles) (base : List TokenKind) (inside : ArgumentNesting) (s : ParseState)
    (fuel fuel' : Nat) : Prop :=
  ∀ {start : Nat}, start ≠ w.place →
    w.Alike (w.Scanned s base) ((argumentsFrom start inside fuel).run w.left s)
      ((argumentsFrom (w.shift start) inside fuel').run w.right (w.shifted s))

namespace ArgumentsAlike

variable {fuel fuel' : Nat} (hbase : base.count .lt ≤ 1) (h : w.Stands (inside.Tracks base) s)
include hbase h

/-- At the pair one token closes in one source what two tokens close in the other. -/
theorem pair (hplace : s.cursor.position = w.place)
    (ih : ∀ inside, w.ArgumentsAlike base inside (s.after 1) fuel fuel') :
    w.ArgumentsAlike base inside s (fuel + 1) (fuel' + 2) := by
  intro start hstart
  obtain ⟨htracks, hcloses⟩ := h.at_place hplace
  obtain ⟨hshr, hgt, hgt'⟩ := kinds_pair hplace
  rcases inside.step_pair (htracks.angles_of_closesTwo hbase hcloses) with
    ⟨first, both, hboth, hfirst, hsecond⟩ | rfl
  · rw [run_argumentsFrom_take hshr hboth, run_argumentsFrom_take hgt hfirst,
      run_argumentsFrom_take hgt' hsecond, ← shifted_afterPair hplace]
    exact (ih both hstart).weaken fun _ _ _ => Scanned.later
  · -- the pair ends the arguments here, so it closes as well what they stand in
    have hbase' : base ≠ [] := by
      rintro rfl
      have hangles := hcloses.2
      rw [Brackets.angles, show w.pair.opened = [.lt, .lt] from htracks.opened] at hangles
      exact absurd hangles (by decide)
    rw [run_argumentsFrom_close hshr rfl, run_argumentsFrom_take hgt rfl,
      run_argumentsFrom_close hgt' rfl, ← shifted_afterPair hplace]
    exact .value ⟨fun hnil => (hbase' hnil).elim, .afterPair hplace, Nat.le_succ _⟩

/-- Elsewhere the same token stands in both sources. -/
theorem token (hplace : s.cursor.position ≠ w.place)
    (ih : ∀ inside, w.Stands (inside.Tracks base) (s.after 1) →
      w.ArgumentsAlike base inside (s.after 1) fuel fuel') :
    w.ArgumentsAlike base inside s (fuel + 1) (fuel' + 1) := by
  intro start hstart
  have hkind := kind_eq hplace
  cases hstep : inside.step ((w.left.view s).kind 0) with
  | fail =>
    rw [argumentsFrom, argumentsFrom, run_bind_ok run_kind, run_bind_ok run_kind, hkind, hstep]
    exact .expected ..
  | close extra =>
    rw [run_argumentsFrom_close rfl hstep, run_argumentsFrom_close hkind hstep, ← shifted_after hplace]
    have htext := join_between hstart hplace
    show w.Alike _ _ (.ok [Token.join (w.right.stream.between _ (w.shift _)) ++ extra], _)
    rw [htext]
    refine .value ⟨fun _ => rfl, ?_, Nat.le_succ _⟩
    exact h.next rfl (ne_eof_of_step (by rw [hstep]; simp)) fun b b' hb hnext =>
      hb.angles_of_close hbase hstep hnext
  | cut =>
    have hcut := h.next rfl (ne_eof_of_step (by rw [hstep]; simp)) fun b b' hb hnext =>
      hb.cut hstep hnext
    -- with so few angles open the pair cannot stand where the next argument begins
    have hstart' : s.cursor.position + 1 ≠ w.place := by
      refine Stands.ne_place (s := s.after 1) hcut fun b hb => ?_
      rw [Brackets.angles, hb.2, List.count_cons_self]
      exact Nat.succ_le_succ hbase
    rw [run_argumentsFrom_cut rfl hstep, run_argumentsFrom_cut hkind hstep, ← shifted_after hplace,
      map_eq_bind, map_eq_bind]
    have htext := join_between hstart hplace
    show w.Alike _ _ ((argumentsFrom (w.shift s.cursor.position + 1) inside fuel' >>= fun x => pure
      (Token.join (w.right.stream.between _ (w.shift _)) :: x)).run _ _)
    rw [htext, ← shift_succ hplace]
    refine (ih inside (hcut.weaken fun _ hb => hb.1) hstart').bind fun xs ys t ht => ?_
    exact .value ⟨fun hnil => congrArg _ (ht.texts hnil), ht.rests, Nat.le_of_succ_le ht.le⟩
  | take inside' =>
    rw [run_argumentsFrom_take rfl hstep, run_argumentsFrom_take hkind hstep, ← shifted_after hplace]
    have htake := h.next rfl (ne_eof_of_step (by rw [hstep]; simp)) fun b b' hb hnext =>
      hb.take hstep hnext
    exact (ih inside' htake hstart).weaken fun _ _ _ => Scanned.later

end ArgumentsAlike

/-- In both sources the scan of arguments ends at the same place. -/
theorem alike_argumentsFrom {start fuel fuel' : Nat} (hbase : base.count .lt ≤ 1) (hstart : start ≠ w.place)
    (h : w.Stands (inside.Tracks base) s) (hfuel : (w.left.view s).remaining ≤ fuel)
    (hfuel' : (w.right.view (w.shifted s)).remaining ≤ fuel') :
    w.Alike (w.Scanned s base) ((argumentsFrom start inside fuel).run w.left s)
      ((argumentsFrom (w.shift start) inside fuel').run w.right (w.shifted s)) :=
  Stands.scan_induction (C := fun inside => inside.Tracks base) (R := w.ArgumentsAlike base)
    (fun hplace h ih => ArgumentsAlike.pair hbase h hplace ih)
    (fun hplace h ih => ArgumentsAlike.token hbase h hplace ih) h hfuel hfuel' hstart

/-- Where a `<` stands, what follows it is scanned. -/
theorem alike_templateArguments_of_lt (hbase : base.count .lt ≤ 1) (hne : s.cursor.position ≠ w.place)
    (hlt : (w.left.view s).kind 0 = .lt) (h : w.Stands (fun b => b.opened = .lt :: base) (s.after 1)) :
    w.Alike (w.Scanned s base) (templateArguments.run w.left s)
      (templateArguments.run w.right (w.shifted s)) := by
  have hstart : s.cursor.position + 1 ≠ w.place := by
    refine Stands.ne_place (s := s.after 1) h fun b hb => ?_
    rw [Brackets.angles, hb, List.count_cons_self]
    exact Nat.succ_le_succ hbase
  have hlt' : (w.right.view (w.shifted s)).kind 0 = .lt := (kind_eq hne).trans hlt
  rw [templateArguments_eq, run_bind_ok (Consumes.skipOver hlt (by decide)), run_bind_ok run_position,
    run_bind_ok run_view, run_bind_ok (Consumes.skipOver hlt' (by decide)), run_bind_ok run_position,
    run_bind_ok run_view, ← shifted_after hne]
  refine (alike_argumentsFrom hbase hstart (h.weaken fun _ => .start) (Nat.le_refl _)
    (Nat.le_refl _)).bind fun xs ys t ht => ?_
  exact .value ⟨fun hnil => by rw [ht.texts hnil], ht.rests, Nat.le_of_succ_le ht.le⟩

theorem Rests.exists_base (h : w.Rests s) :
    ∃ base : List TokenKind, base.count .lt ≤ 1 ∧ w.Stands (fun b => b.opened = base) s := by
  by_cases hle : s.cursor.position ≤ w.place
  · obtain ⟨b, hb, hangles⟩ := h.brackets hle
    exact ⟨b.opened, hangles, h.bound, h.start, fun _ => ⟨b, hb, rfl⟩⟩
  · exact ⟨[], Nat.zero_le _, h.bound, h.start, fun hle' => (hle hle').elim⟩

/-- At rest arguments of a template end at rest. -/
theorem alike_templateArguments (h : w.Rests s) :
    w.Alike (fun _ _ t => w.Rests t ∧ s.cursor.position ≤ t.cursor.position)
      (templateArguments.run w.left s) (templateArguments.run w.right (w.shifted s)) := by
  have hne := h.ne_place
  by_cases hlt : (w.left.view s).kind 0 = .lt
  · obtain ⟨base, hbase, hbrackets⟩ := h.exists_base
    refine (alike_templateArguments_of_lt hbase hne hlt ?_).weaken fun _ _ _ ht => ⟨ht.rests, ht.le⟩
    refine hbrackets.next hlt (by decide) fun b b' hb hnext => ?_
    cases hnext
    exact congrArg (_ :: ·) hb
  · rw [templateArguments_eq]
    exact .refuse hne hlt

/-- The list begins with its `<`, after which nothing else is open. -/
theorem stands_list (h : s.cursor.position = w.opening) :
    s.cursor.position ≠ w.place ∧ (w.left.view s).kind 0 = .lt ∧
      w.Stands (fun b => b.opened = [.lt]) (s.after 1) := by
  refine ⟨?_, ?_, ?_, ?_, fun _ => ⟨{}, ?_, rfl⟩⟩
  · rw [h, opening, place]
    omega
  · show w.left.kindAt s.cursor.position = .lt
    rw [h, kindAt_opening]
  · exact Source.lt_of_kindAt (by rw [h, kindAt_opening]; decide)
  · rw [ParseState.position_after, h]
    exact Nat.lt_succ_self _
  · rw [ParseState.position_after, h, bracketsAt_opening]

/-- The arguments of the list itself. -/
theorem alike_templateArguments_list (h : s.cursor.position = w.opening) :
    w.Alike (fun xs ys _ => xs = ys) (templateArguments.run w.left s)
      (templateArguments.run w.right (w.shifted s)) := by
  obtain ⟨hne, hlt, hlist⟩ := stands_list h
  have hbase : ([] : List TokenKind).count .lt ≤ 1 := Nat.zero_le _
  exact (alike_templateArguments_of_lt hbase hne hlt hlist).weaken fun _ _ _ ht => ht.texts rfl

namespace Agrees

variable {α β : Type} {P : ParseState → Prop} {m : β → Prop} {p : Parse β}

/-- Arguments of which only the end matters. -/
theorem arguments (hp : w.Agrees anywhere m p) :
    w.Agrees P m (templateArguments >>= fun _ => p) := by
  refine fun s hs _ => (alike_templateArguments hs).bind fun _ _ t ht => ?_
  exact (hp t ht.1 trivial).weaken fun _ _ _ hu => ⟨hu.same, hu.rests, Nat.le_trans ht.2 hu.le,
    fun hx => Nat.lt_of_le_of_lt ht.2 (hu.moves hx)⟩

theorem attemptArguments (hp : w.Agrees anywhere m p) :
    w.Agrees P m (Parse.speculate templateArguments >>= fun _ => p) := by
  intro s hs _
  have hattempt := (alike_templateArguments hs).speculate
    (R := fun _ _ t => w.Rests t ∧ s.cursor.position ≤ t.cursor.position) (fun _ _ _ ht => ht)
    fun t ht => ⟨hs.congr ht, Nat.le_of_eq ht.symm⟩
  refine hattempt.bind fun _ _ t ht => ?_
  exact (hp t ht.1 trivial).weaken fun _ _ _ hu => ⟨hu.same, hu.rests, Nat.le_trans ht.2 hu.le,
    fun hx => Nat.lt_of_le_of_lt ht.2 (hu.moves hx)⟩

end Agrees

/-! ### Groups -/

/-- Above the brackets `base` so many parentheses are open. -/
abbrev InGroup (base : List TokenKind) (depth : Nat) (b : Brackets) : Prop :=
  Brackets.Above (· == .lparen) base (depth + 1) b.opened

/-- The scan of a group ends alike in both sources. -/
def GroupAlike (w : SplitAngles) (depth : Nat) (s : ParseState) (fuel fuel' : Nat) : Prop :=
  w.Alike (w.Arrives s never) ((skipGroup .lparen .rparen fuel (depth + 1)).run w.left s)
    ((skipGroup .lparen .rparen fuel' (depth + 1)).run w.right (w.shifted s))

namespace GroupAlike

variable {depth fuel fuel' : Nat}

/-- At the pair no parenthesis stands in either source. -/
theorem pair (hplace : s.cursor.position = w.place)
    (ih : ∀ depth, w.GroupAlike depth (s.after 1) fuel fuel') :
    w.GroupAlike depth s (fuel + 1) (fuel' + 2) := by
  obtain ⟨hshr, hgt, hgt'⟩ := kinds_pair hplace
  unfold GroupAlike
  rw [run_skipGroup_next hshr nofun, run_skipGroup_next hgt nofun]
  show w.Alike _ _ ((skipGroup .lparen .rparen (fuel' + 1) _).run _ _)
  rw [run_skipGroup_next hgt' nofun, ← shifted_afterPair hplace]
  exact (ih depth).weaken fun _ _ _ => Arrives.later

/-- Elsewhere the same token stands in both sources. -/
theorem token (hbase : base.count .lt ≤ 1) (h : w.Stands (InGroup base depth) s)
    (hplace : s.cursor.position ≠ w.place)
    (ih : ∀ depth, w.Stands (InGroup base depth) (s.after 1) →
      w.GroupAlike depth (s.after 1) fuel fuel') : w.GroupAlike depth s (fuel + 1) (fuel' + 1) := by
  have hkind := kind_eq hplace
  unfold GroupAlike
  by_cases hend : (w.left.view s).kind 0 = .eof
  · rw [run_skipGroup_end hend, run_skipGroup_end (hkind.trans hend)]
    exact .expected ..
  have hnext := h.next rfl hend fun b b' hb hnext => hb.next rfl hnext
  rw [run_skipGroup_next rfl hend, run_skipGroup_next hkind hend, ← shifted_after hplace]
  by_cases hopen : (w.left.view s).kind 0 = .lparen
  · rw [hopen] at hnext ⊢
    exact (ih _ hnext).weaken fun _ _ _ => Arrives.later
  by_cases hclose : (w.left.view s).kind 0 = .rparen
  · rw [hclose] at hnext ⊢
    rw [if_neg (by decide), if_pos (by decide)]
    cases depth with
    | zero =>
      refine .value ⟨rfl, hnext.weaken fun b hb => ?_, Nat.le_succ _, nofun⟩
      rwa [Brackets.angles, show b.opened = base from hb]
    | succ depth => exact (ih _ hnext).weaken fun _ _ _ => Arrives.later
  · have hne (source : Source) (p q r : Parse Unit) (u : ParseState) :
        (if (w.left.view s).kind 0 == .lparen then p
          else if (w.left.view s).kind 0 == .rparen then q else r).run source u =
          r.run source u := by
      rw [if_neg (by simpa using hopen), if_neg (by simpa using hclose)]
    rw [hne, hne]
    rw [Brackets.depthAfter_of_ne hopen hclose] at hnext
    exact (ih _ hnext).weaken fun _ _ _ => Arrives.later

end GroupAlike

/-- A group in parentheses is taken up to the same place in both sources. -/
theorem alike_skipGroup {depth fuel fuel' : Nat} (hbase : base.count .lt ≤ 1)
    (h : w.Stands (InGroup base depth) s) (hfuel : (w.left.view s).remaining ≤ fuel)
    (hfuel' : (w.right.view (w.shifted s)).remaining ≤ fuel') :
    w.Alike (w.Arrives s never) ((skipGroup .lparen .rparen fuel (depth + 1)).run w.left s)
      ((skipGroup .lparen .rparen fuel' (depth + 1)).run w.right (w.shifted s)) :=
  Stands.scan_induction (C := InGroup base) (R := w.GroupAlike)
    (fun hplace _ ih => GroupAlike.pair hplace ih) (fun hplace h ih => GroupAlike.token hbase h hplace ih)
    h hfuel hfuel'

theorem Agrees.skipBalanced : w.Agrees anywhere never (Parse.skipBalanced .lparen .rparen) := by
  intro s hs _
  have hne := Rests.ne_place hs
  unfold Parse.skipBalanced
  by_cases hopen : (w.left.view s).kind 0 = .lparen
  · obtain ⟨base, hbase, hbrackets⟩ := Rests.exists_base hs
    have hnext : w.Stands (InGroup base 0) (s.after 1) := by
      refine hbrackets.next hopen nofun fun b b' hb hnext => ?_
      cases hnext
      exact ⟨[], .lparen, congrArg (_ :: ·) hb, rfl, rfl⟩
    have hopen' : (w.right.view (w.shifted s)).kind 0 = .lparen := (kind_eq hne).trans hopen
    have hceiling := w.ceiling
    have hleft := remaining_shifted w (s.after 1)
    have hright : (w.right.view (w.shifted (s.after 1))).remaining ≤ w.right.stream.size := Nat.sub_le ..
    rw [run_bind_ok (Consumes.skipOver hopen nofun), run_bind_ok run_settings,
      run_bind_ok (Consumes.skipOver hopen' nofun), run_bind_ok run_settings, ← shifted_after hne,
      w.settings]
    rw [w.settings] at hceiling
    refine (alike_skipGroup hbase hnext (by omega) (by omega)).weaken fun _ _ _ ht => ?_
    exact ⟨ht.same, ht.rests, Nat.le_of_succ_le ht.le, nofun⟩
  · exact .refuse hne hopen

end SplitAngles

end CTree
