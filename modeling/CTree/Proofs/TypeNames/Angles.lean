import CTree.Proofs.Opaque.TypeName
import CTree.Proofs.Resumption.Takes

/-!
# The angles of template arguments

Template arguments are read token by token, with a count of the `<` that are open. They are read just
where a `<` and tokens that close it come next (`templateArguments_ok_iff`). What is taken in this way is
balanced: outside of parentheses and brackets as many angles are closed as
are opened, and all are closed only with the last token. There is one exception, which is a fault: a `>>`
closes two angles and ends the arguments even where only one is open, and the `>` that closes nothing is
lost.
-/

namespace CTree

open Parse

/-- The angles among the tokens of a run that stand outside of its parentheses and brackets. -/
structure AngleCount where
  opened : Nat := 0
  closed : Nat := 0
  /-- How many parentheses and brackets are open. -/
  parens : Nat := 0
  deriving DecidableEq, Repr

namespace AngleCount

/-- The count with one more token; a `>>` closes two angles. -/
def next (n : AngleCount) (k : TokenKind) : AngleCount :=
  match k with
  | .lparen | .lbracket => { n with parens := n.parens + 1 }
  | .rparen | .rbracket => { n with parens := n.parens - 1 }
  | .lt => if n.parens = 0 then { n with opened := n.opened + 1 } else n
  | .gt => if n.parens = 0 then { n with closed := n.closed + 1 } else n
  | .shr => if n.parens = 0 then { n with closed := n.closed + 2 } else n
  | _ => n

/-- The count with the tokens of a run. -/
def after (n : AngleCount) (ts : List Token) : AngleCount :=
  ts.foldl (fun n t => n.next t.kind) n

/-- The angles of a run. -/
def of (ts : List Token) : AngleCount :=
  after {} ts

/-- Whether arguments may have a token of the given kind: none that belongs to statements or blocks, and
outside of parentheses and brackets none that closes one or joins two conditions. -/
def admits (n : AngleCount) (k : TokenKind) : Bool :=
  match k with
  | .semicolon | .lbrace | .rbrace | .eof => false
  | .rparen | .rbracket | .andAnd | .orOr => 0 < n.parens
  | _ => true

/-- Whether arguments may have the tokens of a run. -/
def admitsAll (n : AngleCount) : List Token → Bool
  | [] => true
  | t :: ts => n.admits t.kind && (n.next t.kind).admitsAll ts

/-- A `>>` ends the run where it closes one angle more than are open. -/
def Overcloses (n : AngleCount) (ts : List Token) : Prop :=
  ∃ before last, ts = before ++ [last] ∧ last.kind = .shr ∧
    (n.after before).opened = (n.after before).closed + 1 ∧
    (n.after ts).closed = (n.after ts).opened + 1

/-- The tokens may be those of arguments, and they close all angles, but not before the last of
them. -/
structure Closes (n : AngleCount) (ts : List Token) : Prop where
  admitted : n.admitsAll ts = true
  before : ∀ first, first <+: ts → first ≠ ts → (n.after first).closed < (n.after first).opened
  last : (n.after ts).closed = (n.after ts).opened ∨ n.Overcloses ts

namespace Closes

variable {n : AngleCount} {t : Token} {ts : List Token}

theorem cons_last (h : (n.next t.kind).Closes ts) :
    (n.after (t :: ts)).closed = (n.after (t :: ts)).opened ∨ n.Overcloses (t :: ts) := by
  refine h.last.imp id ?_
  rintro ⟨before, last, rfl, hlast, hopen, hclosed⟩
  exact ⟨t :: before, last, rfl, hlast, hopen, hclosed⟩

theorem cons (hadmits : n.admits t.kind = true) (hn : n.closed < n.opened)
    (h : (n.next t.kind).Closes ts) : n.Closes (t :: ts) where
  admitted := Bool.and_eq_true_iff.2 ⟨hadmits, h.admitted⟩
  before first hfirst hne := by
    cases first with
    | nil => exact hn
    | cons u first =>
      obtain ⟨rfl, hleading⟩ := List.cons_prefix_cons.1 hfirst
      exact h.before first hleading fun heq => hne (heq ▸ rfl)
  last := h.cons_last

theorem single (hadmits : n.admits t.kind = true) (hn : n.closed < n.opened)
    (h : (n.next t.kind).closed = (n.next t.kind).opened ∨
      t.kind = .shr ∧ n.opened = n.closed + 1 ∧
        (n.next t.kind).closed = (n.next t.kind).opened + 1) : n.Closes [t] where
  admitted := Bool.and_eq_true_iff.2 ⟨hadmits, rfl⟩
  before first hfirst hne := by
    cases first with
    | nil => exact hn
    | cons u first =>
      obtain ⟨rfl, hleading⟩ := List.cons_prefix_cons.1 hfirst
      exact (hne (by rw [List.prefix_nil.1 hleading])).elim
  last := by
    refine h.imp id ?_
    rintro ⟨hkind, hopen, hclosed⟩
    exact ⟨[], t, rfl, hkind, hopen, hclosed⟩

/-- Tokens that close all angles do not leave any open. -/
theorem opened_le (h : n.Closes ts) : (n.after ts).opened ≤ (n.after ts).closed := by
  rcases h.last with hclosed | ⟨-, -, -, -, -, hclosed⟩ <;> omega

/-- Where angles are still open after a token, those that follow it close them. -/
theorem tail (h : n.Closes (t :: ts)) (hn : (n.next t.kind).closed < (n.next t.kind).opened) :
    (n.next t.kind).Closes ts where
  admitted := (Bool.and_eq_true_iff.1 h.admitted).2
  before first hfirst hne := by
    refine h.before (t :: first) (List.cons_prefix_cons.2 ⟨rfl, hfirst⟩) fun heq => ?_
    exact hne (List.cons.inj heq).2
  last := by
    refine h.last.imp id ?_
    rintro ⟨before, last, heq, hlast, hopen, hclosed⟩
    cases before with
    | nil =>
      obtain ⟨rfl, rfl⟩ := List.cons.inj heq
      have hover : (n.next t.kind).closed = (n.next t.kind).opened + 1 := hclosed
      omega
    | cons u before =>
      obtain ⟨rfl, rfl⟩ := List.cons.inj heq
      exact ⟨before, last, rfl, hlast, hopen, hclosed⟩

/-- Where no angle is open after a token, no token follows it. -/
theorem tail_eq_nil (h : n.Closes (t :: ts))
    (hn : (n.next t.kind).opened ≤ (n.next t.kind).closed) : ts = [] := by
  cases ts with
  | nil => rfl
  | cons u ts =>
    have hopen : (n.next t.kind).closed < (n.next t.kind).opened := by
      refine h.before [t] (List.cons_prefix_cons.2 ⟨rfl, List.nil_prefix⟩) fun heq => ?_
      cases heq
    omega

end Closes

end AngleCount

/-! ### One token -/

namespace ArgumentNesting

variable {inside inside' : ArgumentNesting} {n : AngleCount} {k : TokenKind}

/-- The brackets that are open inside the arguments are those that the count says. -/
structure Counts (inside : ArgumentNesting) (n : AngleCount) : Prop where
  angles : n.opened = n.closed + inside.angles
  parens : n.parens = inside.parens
  pos : 0 < inside.angles

theorem Counts.closed_lt (h : inside.Counts n) : n.closed < n.opened := by
  have hangles := h.angles
  have hpos := h.pos
  omega

/-- The tokens that arguments may have are those at which the reading goes on. -/
theorem Counts.admits_iff (h : inside.Counts n) : n.admits k = true ↔ inside.step k ≠ .fail := by
  obtain ⟨angles, parens⟩ := inside
  have hparens : n.parens = parens := h.parens
  cases k with
  | semicolon | lbrace | rbrace | eof =>
    exact iff_of_false Bool.false_ne_true fun hstep => hstep rfl
  | rparen | rbracket | andAnd | orOr =>
    cases parens <;> simp [AngleCount.admits, step, hparens]
  | lt => cases parens <;> simp [AngleCount.admits, step]
  | gt | comma =>
    cases parens with
    | zero =>
      simp only [AngleCount.admits, step, true_iff]
      split <;> simp
    | succ p => simp [AngleCount.admits, step]
  | shr =>
    cases parens with
    | zero =>
      simp only [AngleCount.admits, step, true_iff]
      split
      · simp
      · split <;> simp
    | succ p => simp [AngleCount.admits, step]
  | _ =>
    refine iff_of_true rfl ?_
    intro hstep
    cases hstep

/-- Inside parentheses or brackets no angle counts. -/
theorem next_of_parens {p : Nat} (hn : n.parens = p + 1) (hk : k = .lt ∨ k = .gt ∨ k = .shr) :
    n.next k = n := by
  have hne : n.parens ≠ 0 := by omega
  rcases hk with rfl | rfl | rfl <;> exact if_neg hne

/-- Inside parentheses or brackets a token that is taken opens and closes no angle. -/
theorem Counts.takeInside {p : Nat} (h : inside.Counts n) (hp : inside.parens = p + 1)
    (hstep : inside.step k = .take inside') : inside'.Counts (n.next k) := by
  obtain ⟨angles, parens⟩ := inside
  obtain rfl : parens = p + 1 := hp
  have hangles : n.opened = n.closed + angles := h.angles
  have hparens : n.parens = p + 1 := h.parens
  cases k with
  | lparen | lbracket =>
    cases hstep
    exact ⟨hangles, congrArg (· + 1) hparens, h.pos⟩
  | rparen | rbracket =>
    cases hstep
    exact ⟨hangles, congrArg (· - 1) hparens, h.pos⟩
  | lt | gt | shr =>
    cases hstep
    rw [next_of_parens hparens (by simp)]
    exact ⟨hangles, hparens, h.pos⟩
  | semicolon | lbrace | rbrace | eof => cases hstep
  | _ =>
    cases hstep
    exact ⟨hangles, hparens, h.pos⟩

/-- Outside of parentheses and brackets a token that is taken opens and closes what the count says. -/
theorem Counts.takeOutside (h : inside.Counts n) (hp : inside.parens = 0)
    (hstep : inside.step k = .take inside') : inside'.Counts (n.next k) := by
  obtain ⟨angles, parens⟩ := inside
  obtain rfl : parens = 0 := hp
  have hangles : n.opened = n.closed + angles := h.angles
  have hparens : n.parens = 0 := h.parens
  have hpos : 0 < angles := h.pos
  cases k with
  | lparen | lbracket =>
    cases hstep
    exact ⟨hangles, congrArg (· + 1) hparens, hpos⟩
  | lt =>
    cases hstep
    rw [AngleCount.next, if_pos hparens]
    exact ⟨congrArg (· + 1) hangles, hparens, Nat.succ_pos _⟩
  | gt =>
    simp only [step] at hstep
    split at hstep
    · cases hstep
    · rename_i hmany
      cases hstep
      rw [AngleCount.next, if_pos hparens]
      have hleft : n.opened = n.closed + 1 + (angles - 1) := by omega
      have hsome : 0 < angles - 1 := by omega
      exact ⟨hleft, hparens, hsome⟩
  | shr =>
    simp only [step] at hstep
    split at hstep
    · cases hstep
    · split at hstep
      · cases hstep
      · rename_i hmany hne
        cases hstep
        rw [AngleCount.next, if_pos hparens]
        have hleft : n.opened = n.closed + 2 + (angles - 2) := by omega
        have hsome : 0 < angles - 2 := by omega
        exact ⟨hleft, hparens, hsome⟩
  | comma =>
    simp only [step] at hstep
    split at hstep
    · cases hstep
    · cases hstep
      exact ⟨hangles, hparens, hpos⟩
  | rparen | rbracket | andAnd | orOr | semicolon | lbrace | rbrace | eof => cases hstep
  | _ =>
    cases hstep
    exact ⟨hangles, hparens, hpos⟩

/-- A token that is taken opens and closes what the count says. -/
theorem Counts.take (h : inside.Counts n) (hstep : inside.step k = .take inside') :
    inside'.Counts (n.next k) := by
  cases hp : inside.parens with
  | zero => exact h.takeOutside hp hstep
  | succ p => exact h.takeInside hp hstep

/-- Only a comma stands between two arguments. -/
theorem eq_comma_of_step (hstep : inside.step k = .cut) : k = .comma := by
  unfold step at hstep
  split at hstep
  any_goals split at hstep
  any_goals split at hstep
  all_goals first
    | rfl
    | cases hstep

/-- Only a `>` or a `>>` ends the arguments, where one angle is open or two are. -/
theorem angles_of_step_close {extra : String} (hstep : inside.step k = .close extra) :
    k = .gt ∧ inside.angles ≤ 1 ∨ k = .shr ∧ inside.angles ≤ 2 := by
  unfold step at hstep
  split at hstep
  any_goals split at hstep
  any_goals split at hstep
  all_goals first
    | exact .inl ⟨rfl, ‹_›⟩
    | exact .inr ⟨rfl, by omega⟩
    | cases hstep

/-- Between two arguments nothing is opened or closed. -/
theorem Counts.cut (h : inside.Counts n) (hstep : inside.step k = .cut) :
    inside.Counts (n.next k) := by
  rw [eq_comma_of_step hstep]
  exact h

/-- The token that ends the arguments closes all angles, unless it is a `>>` where one is open. -/
theorem Counts.close {extra : String} (h : inside.Counts n) (hstep : inside.step k = .close extra) :
    (n.next k).closed = (n.next k).opened ∨
      k = .shr ∧ n.opened = n.closed + 1 ∧ (n.next k).closed = (n.next k).opened + 1 := by
  have hangles := h.angles
  have hpos := h.pos
  have hparens : n.parens = 0 := h.parens.trans (step_close hstep).2
  rcases angles_of_step_close hstep with ⟨rfl, hle⟩ | ⟨rfl, hle⟩
  · rw [AngleCount.next, if_pos hparens]
    exact .inl (by simp only; omega)
  · rw [AngleCount.next, if_pos hparens]
    rcases Nat.lt_or_ge 1 inside.angles with hmany | hone
    · exact .inl (by simp only; omega)
    · exact .inr ⟨rfl, by omega, by simp only; omega⟩

end ArgumentNesting

/-! ### A run -/

/-- A run of tokens is its first token and the run after it. -/
theorem TokenStream.between_cons (ts : TokenStream) {i j : Nat} (hi : i < ts.body.size)
    (hij : i < j) : ts.between i j = ts.get i :: ts.between (i + 1) j := by
  obtain ⟨k, hk⟩ : ∃ k, j - i = k + 1 := ⟨j - i - 1, by omega⟩
  have hk' : j - (i + 1) = k := by omega
  have hi' : i < ts.body.toList.length := hi
  rw [between, between, Array.toList_extract, Array.toList_extract, List.extract_eq_take_drop,
    List.extract_eq_take_drop, hk, hk', List.drop_eq_getElem_cons hi', List.take_succ_cons,
    ts.get_of_lt hi, Array.getElem_toList]

/-- From the index of a token on, that token is the first of a run. -/
theorem Source.between_of_token {source : Source} {s : ParseState} {i : Nat}
    (heof : (source.view s).kind 0 ≠ .eof) (hlt : s.cursor.position < i) :
    source.stream.between s.cursor.position i =
      (source.view s).token 0 :: source.stream.between (s.cursor.position + 1) i :=
  source.stream.between_cons (position_lt heof) hlt

namespace Parse

variable {α : Type} {source : Source} {s t : ParseState} {inside : ArgumentNesting}
  {n : AngleCount}

/-- Where a parser stops, it has kept the frame. -/
theorem KeepsFrame.of_run {p : Parse α} {r : Except Failure α} (hp : KeepsFrame source p)
    (hrun : p.run source s = (r, t)) : Frame source s t := by
  have hframe := hp s
  rwa [hrun] at hframe

theorem run_skip_of_token (heof : (source.view s).kind 0 ≠ .eof) :
    skip.run source s = (.ok (), s.after 1) := by
  rw [run_skip, Source.advance_of_token heof]
  rfl

theorem run_require_of_kind {k : TokenKind} {place : String} (hk : (source.view s).kind 0 = k)
    (heof : k ≠ .eof) :
    (require k place).run source s = (.ok ((source.view s).token 0), s.after 1) := by
  unfold require
  rw [run_bind_ok (run_check _), hk, beq_self_eq_true, if_pos rfl, run_advance,
    Source.advance_of_token (by rwa [hk])]
  rfl

/-- A token that had to stand here, and was taken, did stand here. -/
theorem of_run_require {k : TokenKind} {place : String} {token : Token} (hk : k ≠ .eof)
    (hrun : (require k place).run source s = (.ok token, t)) :
    (source.view s).kind 0 = k ∧ token = (source.view s).token 0 ∧ t = s.after 1 := by
  by_cases hkind : (source.view s).kind 0 = k
  · rw [run_require_of_kind hkind hk] at hrun
    cases hrun
    exact ⟨hkind, rfl, rfl⟩
  · unfold require at hrun
    rw [run_bind_ok (run_check _), beq_false_of_ne hkind] at hrun
    cases hrun

/-- Where arguments are read, nothing before them is read again. -/
theorem position_of_run_argumentsFrom {start fuel : Nat} {r : Except Failure (List String)}
    (hrun : (argumentsFrom start inside fuel).run source s = (r, t)) :
    s.cursor.position ≤ t.cursor.position :=
  ((Lockstep.argumentsFrom start inside fuel).keeps.of_run hrun).position

theorem ne_eof_of_admits {k : TokenKind} (h : n.admits k = true) : k ≠ .eof := by
  rintro rfl
  cases h

/-- The arguments close the angles that are open: each token that is taken is counted, and the last
one closes what is left. -/
theorem argumentsFrom_closes {start fuel : Nat} {arguments : List String} (hn : inside.Counts n)
    (hrun : (argumentsFrom start inside fuel).run source s = (.ok arguments, t)) :
    n.Closes (source.stream.between s.cursor.position t.cursor.position) := by
  induction fuel generalizing start inside n s arguments with
  | zero => cases hrun
  | succ fuel ih =>
    unfold argumentsFrom at hrun
    rw [run_bind_ok run_kind] at hrun
    by_cases hadmits : n.admits ((source.view s).kind 0) = true
    · have heof := ne_eof_of_admits hadmits
      -- One token further, the rest is a run of its own.
      have hnext {start' : Nat} {inside' : ArgumentNesting} {rest : List String}
          (hn' : inside'.Counts (n.next ((source.view s).kind 0)))
          (hrest : (argumentsFrom start' inside' fuel).run source (s.after 1) = (.ok rest, t)) :
          n.Closes (source.stream.between s.cursor.position t.cursor.position) := by
        rw [Source.between_of_token heof (position_of_run_argumentsFrom hrest)]
        exact (ih hn' hrest).cons hadmits hn.closed_lt
      cases hstep : inside.step ((source.view s).kind 0) with
      | fail => exact (hn.admits_iff.1 hadmits hstep).elim
      | close extra =>
        simp only [hstep, run_bind_ok (run_textSince _), run_bind_ok (run_skip_of_token heof)] at hrun
        cases hrun
        have hnone : source.stream.between (s.cursor.position + 1) (s.cursor.position + 1) = [] := by
          simp [TokenStream.between]
        rw [ParseState.position_after, Source.between_of_token heof (Nat.lt_succ_self _), hnone]
        exact .single hadmits hn.closed_lt (hn.close hstep)
      | cut =>
        simp only [hstep, run_bind_ok (run_textSince _), run_bind_ok (run_skip_of_token heof),
          run_bind_ok run_position] at hrun
        obtain ⟨rest, u, hrest, hdone⟩ := exists_of_run_bind hrun
        cases hdone
        exact hnext (hn.cut hstep) hrest
      | take inside' =>
        simp only [hstep, run_bind_ok (run_skip_of_token heof)] at hrun
        exact hnext (hn.take hstep) hrun
    · have hstep : inside.step ((source.view s).kind 0) = .fail :=
        Decidable.byContradiction fun h => hadmits (hn.admits_iff.2 h)
      rw [hstep] at hrun
      cases hrun

/-- Angles that are open are not closed by nothing. -/
theorem lt_of_closes {ts : TokenStream} {i j : Nat} (hn : n.closed < n.opened)
    (h : n.Closes (ts.between i j)) : i < j := by
  refine Nat.lt_of_not_le fun hle => ?_
  have hnone : ts.between i j = [] := by
    simp [TokenStream.between, Nat.sub_eq_zero_of_le hle]
  have hopen := h.opened_le
  rw [hnone] at hopen
  exact absurd hn (Nat.not_lt.2 hopen)

/-- Tokens that close the angles are read as arguments, up to the last of them. -/
theorem argumentsFrom_of_closes (start : Nat) {fuel j : Nat} (hn : inside.Counts n)
    (hj : j ≤ source.stream.body.size) (hfuel : j ≤ s.cursor.position + fuel)
    (hcloses : n.Closes (source.stream.between s.cursor.position j)) :
    ∃ arguments t, (argumentsFrom start inside fuel).run source s = (.ok arguments, t) ∧
      t.cursor.position = j := by
  have hlt := lt_of_closes hn.closed_lt hcloses
  induction fuel generalizing start inside n s with
  | zero => omega
  | succ fuel ih =>
    have hbetween : source.stream.between s.cursor.position j =
        (source.view s).token 0 :: source.stream.between (s.cursor.position + 1) j :=
      source.stream.between_cons (by omega) hlt
    rw [hbetween] at hcloses
    have hadmits : n.admits ((source.view s).kind 0) = true :=
      (Bool.and_eq_true_iff.1 hcloses.admitted).1
    have heof := ne_eof_of_admits hadmits
    -- One token further, the rest closes what is then open.
    have hnext {start' : Nat} {inside' : ArgumentNesting}
        (hn' : inside'.Counts (n.next ((source.view s).kind 0))) :
        ∃ rest t, (argumentsFrom start' inside' fuel).run source (s.after 1) = (.ok rest, t) ∧
          t.cursor.position = j := by
      have hrest := hcloses.tail hn'.closed_lt
      have hfuel' : j ≤ (s.after 1).cursor.position + fuel := by
        rw [ParseState.position_after]
        omega
      exact ih _ hn' hfuel' hrest (lt_of_closes hn'.closed_lt hrest)
    unfold argumentsFrom
    rw [run_bind_ok run_kind]
    cases hstep : inside.step ((source.view s).kind 0) with
    | fail => exact (hn.admits_iff.1 hadmits hstep).elim
    | close extra =>
      have hclosed : (n.next ((source.view s).kind 0)).opened ≤
          (n.next ((source.view s).kind 0)).closed := by
        rcases hn.close hstep with hclosed | ⟨-, -, hclosed⟩ <;> omega
      have hnone := congrArg List.length (hcloses.tail_eq_nil hclosed)
      have hlast : s.cursor.position + 1 = j := by
        simp only [TokenStream.between, Array.length_toList, Array.size_extract,
          List.length_nil] at hnone
        omega
      simp only [run_bind_ok (run_textSince _), run_bind_ok (run_skip_of_token heof)]
      exact ⟨_, _, rfl, hlast⟩
    | cut =>
      simp only [run_bind_ok (run_textSince _), run_bind_ok (run_skip_of_token heof),
        run_bind_ok run_position]
      obtain ⟨rest, t, hrest, hposition⟩ := hnext (hn.cut hstep)
      rw [run_bind_ok hrest]
      exact ⟨_, t, rfl, hposition⟩
    | take inside' =>
      simp only [run_bind_ok (run_skip_of_token heof)]
      exact hnext (hn.take hstep)

/-- Template arguments are a `<` and what closes it. -/
theorem of_run_templateArguments {arguments : List String}
    (hrun : templateArguments.run source s = (.ok arguments, t)) :
    (source.view s).kind 0 = .lt ∧ ∃ texts,
      (argumentsFrom (s.cursor.position + 1) {} (source.view (s.after 1)).remaining).run source
        (s.after 1) = (.ok texts, t) := by
  unfold templateArguments skipOver at hrun
  rw [bind_assoc] at hrun
  obtain ⟨token, u, hopen, hrun⟩ := exists_of_run_bind hrun
  obtain ⟨hkind, -, rfl⟩ := of_run_require (by decide) hopen
  rw [pure_bind, run_bind_ok run_position, run_bind_ok run_view] at hrun
  obtain ⟨texts, v, hrest, hdone⟩ := exists_of_run_bind hrun
  have hv : v = t := by
    split at hdone <;> exact congrArg Prod.snd hdone
  exact ⟨hkind, texts, hv ▸ hrest⟩

/-- A `<` opens one angle. -/
theorem counts_lt : ArgumentNesting.Counts {} { opened := 1 } :=
  ⟨rfl, rfl, Nat.zero_lt_one⟩

/-- Template arguments are read just where a `<` stands and tokens that close it come next, and they are
read up to the last of these. -/
theorem templateArguments_ok_iff {j : Nat} :
    (∃ arguments t, templateArguments.run source s = (.ok arguments, t) ∧ t.cursor.position = j) ↔
      (source.view s).kind 0 = .lt ∧ j ≤ source.stream.body.size ∧
        AngleCount.Closes { opened := 1 } (source.stream.between (s.cursor.position + 1) j) := by
  constructor
  · rintro ⟨arguments, t, hrun, rfl⟩
    obtain ⟨hkind, texts, hrest⟩ := of_run_templateArguments hrun
    have hinside := ((tokenFrames source).templateArguments.of_run hrun).inside
    have hlt : s.cursor.position < source.stream.body.size := by
      refine Source.position_lt ?_
      rw [hkind]
      decide
    exact ⟨hkind, by omega, argumentsFrom_closes counts_lt hrest⟩
  · rintro ⟨hkind, hj, hcloses⟩
    have hfuel : j ≤ (s.after 1).cursor.position + (source.view (s.after 1)).remaining := by
      have hremaining : (source.view (s.after 1)).remaining =
          source.stream.body.size + 1 - (s.cursor.position + 1) := rfl
      rw [ParseState.position_after]
      omega
    obtain ⟨texts, t, hrest, hposition⟩ := argumentsFrom_of_closes (s := s.after 1)
      (s.after 1).cursor.position counts_lt hj hfuel hcloses
    unfold templateArguments skipOver
    rw [bind_assoc, run_bind_ok (run_require_of_kind hkind (by decide)), pure_bind,
      run_bind_ok run_position, run_bind_ok run_view, run_bind_ok hrest]
    split
    · exact ⟨_, t, rfl, hposition⟩
    · exact ⟨_, t, rfl, hposition⟩

/-- Template arguments that are read are closed by the last of their tokens, and by none before it:
until then more angles are opened than closed. In the end they are as many, unless the last token is
a `>>` where one angle is open, which then closes one that is not. -/
theorem templateArguments_closes {arguments : List String}
    (hrun : templateArguments.run source s = (.ok arguments, t)) :
    let taken := source.stream.between s.cursor.position t.cursor.position
    (∀ first, first <+: taken → first ≠ [] → first ≠ taken →
      (AngleCount.of first).closed < (AngleCount.of first).opened) ∧
    ((AngleCount.of taken).closed = (AngleCount.of taken).opened ∨
      AngleCount.Overcloses {} taken) := by
  obtain ⟨hkind, texts, hrest⟩ := of_run_templateArguments hrun
  have heof : (source.view s).kind 0 ≠ .eof := by
    rw [hkind]
    decide
  have hopened : ArgumentNesting.Counts {} (AngleCount.next {} ((source.view s).kind 0)) := by
    rw [hkind]
    exact counts_lt
  have hcloses := argumentsFrom_closes hopened hrest
  rw [Source.between_of_token heof (position_of_run_argumentsFrom hrest)]
  refine ⟨fun first hfirst hne hproper => ?_, hcloses.cons_last⟩
  cases first with
  | nil => exact (hne rfl).elim
  | cons u first =>
    obtain ⟨rfl, hleading⟩ := List.cons_prefix_cons.1 hfirst
    exact hcloses.before first hleading fun heq => hproper (heq ▸ rfl)

/-- Where a `>>` ends the arguments and two angles are open, both are closed. -/
theorem templateArguments_closes_nested :
    let source := (Session.start {} "f<g<int>>(x);".toList).source
    let taken := source.stream.between 1 6
    (templateArguments.run source (ParseState.after {} 1)).1.toOption = some ["g<int>"] ∧
      taken.map Token.text = ["<", "g", "<", "int", ">>"] ∧
      (∀ first, first <+: taken → first ≠ [] → first ≠ taken →
        (AngleCount.of first).closed < (AngleCount.of first).opened) ∧
      (AngleCount.of taken).closed = (AngleCount.of taken).opened := by
  intro source taken
  obtain ⟨hresult, hposition, htaken, hcount⟩ :
      (templateArguments.run source (ParseState.after {} 1)).1.toOption = some ["g<int>"] ∧
      (templateArguments.run source (ParseState.after {} 1)).2.cursor.position = 6 ∧
      taken.map Token.text = ["<", "g", "<", "int", ">>"] ∧
      (AngleCount.of taken).closed ≠ (AngleCount.of taken).opened + 1 := by
    decide +kernel
  obtain ⟨hbefore, hlast⟩ := templateArguments_closes (run_of_toOption hresult)
  rw [hposition] at hbefore hlast
  refine ⟨hresult, htaken, hbefore, hlast.resolve_right ?_⟩
  rintro ⟨-, -, -, -, -, hclosed⟩
  exact hcount hclosed

/-- The arguments that are read in `a < b >> (c);` close an angle that they have not opened. -/
theorem templateArguments_unbalanced :
    ¬ ∀ (source : Source) (s t : ParseState) (arguments : List String),
      templateArguments.run source s = (.ok arguments, t) →
      let taken := source.stream.between s.cursor.position t.cursor.position
      (AngleCount.of taken).closed = (AngleCount.of taken).opened := by
  intro h
  let source := (Session.start {} "a < b >> (c);".toList).source
  obtain ⟨hresult, hposition, hcount⟩ :
      (templateArguments.run source (ParseState.after {} 1)).1.toOption = some ["b"] ∧
      (templateArguments.run source (ParseState.after {} 1)).2.cursor.position = 4 ∧
      (AngleCount.of (source.stream.between 1 4)).closed ≠
        (AngleCount.of (source.stream.between 1 4)).opened := by
    decide +kernel
  have hbalanced := h source (ParseState.after {} 1) _ _ (run_of_toOption hresult)
  rw [hposition] at hbalanced
  exact hcount hbalanced

end Parse

end CTree
