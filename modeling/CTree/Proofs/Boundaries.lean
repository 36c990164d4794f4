import CTree.Proofs.Resumption.Body

/-!
# Where a skip stops

After a failure tokens are skipped up to a boundary. `Boundary` says of the kinds of tokens that were
skipped and of the kind of the next one that the skip ends there, by counting braces and parentheses.
`run_synchronize_firstBoundary` says that a skip ends at the first boundary, if there is one among as many tokens as
the settings allow, and that no `}` is skipped whose `{` was not.
-/

namespace CTree

open Parse

/-- The kinds of so many tokens from an index on. -/
def Source.kindsFrom (source : Source) (i n : Nat) : List TokenKind :=
  (List.range n).map fun j => source.kindAt (i + j)

/-- As many braces are opened as are closed. -/
def BracesEven (ks : List TokenKind) : Prop :=
  ks.count .lbrace = ks.count .rbrace

/-- No parenthesis is left open. One that closes nothing does not count. -/
def ParensClosed (ks : List TokenKind) : Prop :=
  ∀ last, last <:+ ks → last.count .lparen ≤ last.count .rparen

/-- After tokens of the kinds `ks` a skip ends at a token of the given kind, and takes it or leaves it. -/
inductive Boundary (ks : List TokenKind) : TokenKind → Bool → Prop
  /-- The `;` of a statement or declaration. -/
  | semicolon (hbraces : BracesEven ks) (hparens : ParensClosed ks) : Boundary ks .semicolon true
  /-- The brace that closes the last one opened by the skip. -/
  | closing (h : ks.count .lbrace = ks.count .rbrace + 1) : Boundary ks .rbrace true
  /-- The brace of the enclosing body. -/
  | enclosing (h : BracesEven ks) : Boundary ks .rbrace false
  /-- The end of the source. -/
  | eof : Boundary ks .eof false

/-- A skip from the index `i` on ends at the token `n` places after it, and takes it or leaves it. -/
def Source.BoundaryAt (source : Source) (i n : Nat) (taken : Bool) : Prop :=
  Boundary (source.kindsFrom i n) (source.kindAt (i + n)) taken

/-- No brace among the kinds closes one that is not opened before it among them. -/
def BracesMatched (ks : List TokenKind) : Prop :=
  ∀ first, first <+: ks → first.count .rbrace ≤ first.count .lbrace

variable {source : Source} {s : ParseState} {ks : List TokenKind} {k : TokenKind} {taken : Bool}

theorem Source.kindsFrom_succ (i n : Nat) :
    source.kindsFrom i (n + 1) = source.kindsFrom i n ++ [source.kindAt (i + n)] := by
  simp [kindsFrom, List.range_succ]

/-! ### Braces -/

theorem bracesMatched_nil : BracesMatched [] := by
  intro first h
  rw [List.prefix_nil.1 h]
  exact Nat.le_refl _

/-- One more kind leaves the braces matched, unless it is a `}` and no brace is open. -/
theorem BracesMatched.concat (h : BracesMatched ks) (hk : k = .rbrace → ¬ BracesEven ks) :
    BracesMatched (ks ++ [k]) := by
  intro first hfirst
  rcases List.prefix_concat_iff.1 hfirst with rfl | hfirst
  · have hall := h ks List.prefix_rfl
    by_cases hbrace : k = .rbrace
    · have hne : ks.count .lbrace ≠ ks.count .rbrace := hk hbrace
      subst hbrace
      simp only [List.count_append, List.count_singleton]
      simp
      omega
    · have hcount : [k].count .rbrace = 0 := List.count_eq_zero.2 (by simpa using Ne.symm hbrace)
      simp only [List.count_append, hcount]
      omega
  · exact h first hfirst

/-- Up to a boundary, the braces are matched. -/
theorem bracesMatched_of_no_boundary {i n : Nat}
    (h : ∀ m < n, ∀ taken, ¬ source.BoundaryAt i m taken) : BracesMatched (source.kindsFrom i n) := by
  induction n with
  | zero => exact bracesMatched_nil
  | succ n ih =>
    rw [Source.kindsFrom_succ]
    refine (ih fun m hm => h m (Nat.lt_succ_of_lt hm)).concat fun hk heven => ?_
    have hboundary : source.BoundaryAt i n false := by
      rw [Source.BoundaryAt, hk]
      exact .enclosing heven
    exact h n (Nat.lt_succ_self n) false hboundary

/-- A boundary that is taken leaves the braces matched. -/
theorem Boundary.bracesMatched (h : Boundary ks k true) (hks : BracesMatched ks) :
    BracesMatched (ks ++ [k]) := by
  refine hks.concat fun hk heven => ?_
  subst hk
  cases h with
  | closing h =>
    have heven : ks.count .lbrace = ks.count .rbrace := heven
    omega

/-! ### One step -/

/-- The counters of a skip are right for the kinds of tokens that it has taken. The counter of
    parentheses is the largest excess of opened ones at the end. -/
structure Nesting.Counts (inside : Nesting) (ks : List TokenKind) : Prop where
  braces : ks.count .lbrace = ks.count .rbrace + inside.braces
  parens_le : ∀ last, last <:+ ks → last.count .lparen ≤ last.count .rparen + inside.parens
  parens_eq : ∃ last, last <:+ ks ∧ last.count .lparen = last.count .rparen + inside.parens

namespace Nesting.Counts

variable {inside inside' : Nesting}

theorem start : Counts {} [] where
  braces := rfl
  parens_le last h := by
    rw [List.suffix_nil.1 h]
    exact Nat.le_refl _
  parens_eq := ⟨[], List.suffix_rfl, rfl⟩

theorem bracesEven_iff (h : inside.Counts ks) : BracesEven ks ↔ inside.braces = 0 := by
  have hbraces := h.braces
  unfold BracesEven
  omega

theorem parensClosed_iff (h : inside.Counts ks) : ParensClosed ks ↔ inside.parens = 0 := by
  constructor
  · intro hclosed
    obtain ⟨last, hlast, heq⟩ := h.parens_eq
    have hle := hclosed last hlast
    omega
  · intro hzero last hlast
    have hle := h.parens_le last hlast
    omega

/-- The counters after one more kind, if they are right for the kinds before it. -/
theorem concat (h : inside.Counts ks)
    (hbraces : [k].count .lbrace + inside.braces = [k].count .rbrace + inside'.braces)
    (hparens : inside'.parens = inside.parens + [k].count .lparen - [k].count .rparen)
    (hone : [k].count .lparen + [k].count .rparen ≤ 1) :
    inside'.Counts (ks ++ [k]) where
  braces := by
    have hbefore := h.braces
    rw [List.count_append, List.count_append]
    omega
  parens_le last hlast := by
    rcases List.suffix_concat_iff.1 hlast with rfl | ⟨last', rfl, hlast'⟩
    · exact Nat.zero_le _
    · have hle := h.parens_le last' hlast'
      rw [List.count_append, List.count_append]
      omega
  parens_eq := by
    obtain ⟨last, hlast, heq⟩ := h.parens_eq
    -- A parenthesis that closes nothing leaves no excess but that of no token at all.
    by_cases hnone : inside.parens < [k].count .rparen
    · refine ⟨[], List.nil_suffix, ?_⟩
      simp only [List.count_nil]
      omega
    · refine ⟨last ++ [k], List.suffix_concat_iff.2 (.inr ⟨last, rfl, hlast⟩), ?_⟩
      rw [List.count_append, List.count_append]
      omega

end Nesting.Counts

/-- Before a token of the given kind a skip stops, or takes the token and stops, where it is a boundary of
that sort, or takes and counts it, where it is none. -/
def Nesting.Decides (inside : Nesting) (ks : List TokenKind) (k : TokenKind) : Prop :=
  (inside.step k = .stop ∧ Boundary ks k false) ∨
    (inside.step k = .takeAndStop ∧ Boundary ks k true) ∨
    ∃ inside', inside.step k = .take inside' ∧ k ≠ .eof ∧ inside'.Counts (ks ++ [k]) ∧
      ∀ taken, ¬ Boundary ks k taken

namespace Nesting.Counts

variable {inside : Nesting}

/-- A kind that a skip does not look at changes no counter. -/
theorem decides_of_not_bounds (h : inside.Counts ks) (hk : k.bounds = false) : inside.Decides ks k := by
  have hcount (k' : TokenKind) (hk' : k'.bounds = true) : [k].count k' = 0 := by
    refine List.count_eq_zero.2 fun hmem => ?_
    rw [List.mem_singleton.1 hmem, hk] at hk'
    cases hk'
  refine .inr (.inr ⟨inside, step_of_not_bounds inside hk, ?_, h.concat ?_ ?_ ?_, ?_⟩)
  · rintro rfl
    cases hk
  · rw [hcount .lbrace rfl, hcount .rbrace rfl]
  · rw [hcount .lparen rfl, hcount .rparen rfl]
    rfl
  · rw [hcount .lparen rfl, hcount .rparen rfl]
    exact Nat.zero_le 1
  · intro taken hboundary
    cases hboundary <;> cases hk

theorem decides_semicolon (h : inside.Counts ks) : inside.Decides ks .semicolon := by
  by_cases hzero : inside.braces = 0 ∧ inside.parens = 0
  · have hboundary := Boundary.semicolon (h.bracesEven_iff.2 hzero.1) (h.parensClosed_iff.2 hzero.2)
    exact .inr (.inl ⟨by simp [step, hzero], hboundary⟩)
  · have hstep : inside.step .semicolon = .take inside := by simpa [step] using hzero
    refine .inr (.inr ⟨inside, hstep, by decide, h.concat rfl rfl (by decide), ?_⟩)
    rintro taken (⟨heven, hclosed⟩ | _)
    exact hzero ⟨h.bracesEven_iff.1 heven, h.parensClosed_iff.1 hclosed⟩

theorem decides_rbrace (h : inside.Counts ks) : inside.Decides ks .rbrace := by
  obtain ⟨braces, parens⟩ := inside
  have hbraces : ks.count .lbrace = ks.count .rbrace + braces := h.braces
  match braces, hbraces with
  | 0, hbraces => exact .inl ⟨rfl, .enclosing hbraces⟩
  | 1, hbraces => exact .inr (.inl ⟨rfl, .closing hbraces⟩)
  | b + 2, hbraces =>
    refine .inr (.inr ⟨⟨b + 1, parens⟩, rfl, by decide, h.concat ?_ rfl (by decide), ?_⟩)
    · show 0 + (b + 2) = 1 + (b + 1)
      omega
    · rintro taken (_ | hclosing | heven)
      · omega
      · have heven : ks.count .lbrace = ks.count .rbrace := heven
        omega

/-- Whatever the next kind is, the counters decide as the boundaries do. -/
theorem decides (h : inside.Counts ks) (k : TokenKind) : inside.Decides ks k := by
  cases hk : k.bounds with
  | false => exact h.decides_of_not_bounds hk
  | true =>
    obtain rfl | rfl | rfl | rfl | rfl | rfl : k = .eof ∨ k = .semicolon ∨ k = .rbrace ∨
        k = .lbrace ∨ k = .lparen ∨ k = .rparen := by
      cases k <;> first | (cases hk; done) | decide
    · exact .inl ⟨rfl, .eof⟩
    · exact h.decides_semicolon
    · exact h.decides_rbrace
    · have hcounts : Counts { inside with braces := inside.braces + 1 } (ks ++ [.lbrace]) := by
        refine h.concat ?_ rfl (by decide)
        show 1 + inside.braces = 0 + (inside.braces + 1)
        omega
      exact .inr (.inr ⟨_, rfl, by decide, hcounts, fun _ hboundary => by cases hboundary⟩)
    · have hcounts : Counts { inside with parens := inside.parens + 1 } (ks ++ [.lparen]) :=
        h.concat rfl rfl (by decide)
      exact .inr (.inr ⟨_, rfl, by decide, hcounts, fun _ hboundary => by cases hboundary⟩)
    · have hcounts : Counts { inside with parens := inside.parens - 1 } (ks ++ [.rparen]) :=
        h.concat rfl rfl (by decide)
      exact .inr (.inr ⟨_, rfl, by decide, hcounts, fun _ hboundary => by cases hboundary⟩)

end Nesting.Counts

/-! ### The whole skip -/

/-- A skip that has taken so many tokens and found no boundary goes on to the first one, if that is among
the tokens that it may still look at, and takes all of these otherwise. -/
theorem Parse.run_skipToBoundary_cases {inside : Nesting} {j : Nat} (fuel : Nat)
    (hcounts : inside.Counts (source.kindsFrom s.cursor.position j))
    (hnone : ∀ m < j, ∀ taken, ¬ source.BoundaryAt s.cursor.position m taken) :
    (∃ n taken, n < j + fuel ∧ source.BoundaryAt s.cursor.position n taken ∧
        (∀ m < n, ∀ taken', ¬ source.BoundaryAt s.cursor.position m taken') ∧
        (skipToBoundary fuel inside).run source (s.after j) =
          (.ok true, s.after (n + taken.toNat))) ∨
      (∀ m < j + fuel, ∀ taken, ¬ source.BoundaryAt s.cursor.position m taken) ∧
        (skipToBoundary fuel inside).run source (s.after j) = (.ok false, s.after (j + fuel)) := by
  induction fuel generalizing inside j with
  | zero => exact .inr ⟨hnone, rfl⟩
  | succ fuel ih =>
    have hkind : (source.view (s.after j)).kind 0 = source.kindAt (s.cursor.position + j) := rfl
    have hskip (hk : (source.view (s.after j)).kind 0 ≠ .eof) :
        skip.run source (s.after j) = (.ok (), s.after (j + 1)) := by
      rw [run_skip, Source.advance_of_token hk]
      rfl
    unfold skipToBoundary
    rw [run_bind_ok run_kind, hkind]
    rcases hcounts.decides (source.kindAt (s.cursor.position + j)) with
      ⟨hstep, hboundary⟩ | ⟨hstep, hboundary⟩ | ⟨inside', hstep, hk, hcounts', hno⟩
    · rw [hstep]
      exact .inl ⟨j, false, by omega, hboundary, hnone, rfl⟩
    · have hk : source.kindAt (s.cursor.position + j) ≠ .eof := by
        intro heof
        rw [heof] at hboundary
        cases hboundary
      rw [hstep]
      exact .inl ⟨j, true, by omega, hboundary, hnone, run_bind_ok (hskip hk)⟩
    · have hnone' : ∀ m < j + 1, ∀ taken, ¬ source.BoundaryAt s.cursor.position m taken := by
        intro m hm
        rcases Nat.lt_succ_iff_lt_or_eq.1 hm with hm | rfl
        · exact hnone m hm
        · exact hno
      rw [← Source.kindsFrom_succ] at hcounts'
      have hrest := ih hcounts' hnone'
      rw [show j + 1 + fuel = j + (fuel + 1) by omega] at hrest
      rw [hstep]
      show _ ∨ _ ∧ (skip >>= fun _ => skipToBoundary fuel inside').run source (s.after j) = _
      rw [run_bind_ok (hskip hk)]
      exact hrest

/-- A skip ends at the first boundary among as many tokens as the settings allow, and reports nothing; if
there is none, it takes all of these tokens and reports that. The tokens it takes have no `}` whose `{` is
not among them, so the brace that closes the enclosing body is never taken. -/
theorem Parse.run_synchronize_firstBoundary (source : Source) (s : ParseState) :
    let start := s.cursor.position
    let limit := source.settings.maxIterations
    ∃ t, synchronize.run source s = (.ok (), t) ∧
      ((∃ n taken, n < limit ∧ source.BoundaryAt start n taken ∧
          (∀ m < n, ∀ taken', ¬ source.BoundaryAt start m taken') ∧
          t = s.after (n + taken.toNat)) ∨
        (∀ m < limit, ∀ taken, ¬ source.BoundaryAt start m taken) ∧
          t = (s.after limit).record (Diagnostic.ofFailure source.text
            ⟨.tooMany limit .recovery, (source.stream.get (start + limit)).offset⟩)) ∧
      BracesMatched (source.kindsFrom start (t.cursor.position - start)) := by
  intro start limit
  have htaken (n : Nat) : (s.after n).cursor.position - start = n := Nat.add_sub_cancel_left ..
  have hnone : ∀ m < 0, ∀ taken, ¬ source.BoundaryAt s.cursor.position m taken :=
    fun m hm => (Nat.not_lt_zero m hm).elim
  have hcases := run_skipToBoundary_cases limit .start hnone
  rw [Nat.zero_add] at hcases
  unfold synchronize
  rw [run_bind_ok run_settings]
  rcases hcases with ⟨n, taken, hlt, hboundary, hfirst, hrun⟩ | ⟨hnone, hrun⟩
  · have hmatched : BracesMatched (source.kindsFrom start n) := bracesMatched_of_no_boundary hfirst
    refine ⟨_, run_bind_ok hrun, .inl ⟨n, taken, hlt, hboundary, hfirst, rfl⟩, ?_⟩
    rw [htaken]
    cases taken with
    | false => exact hmatched
    | true =>
      rw [Bool.toNat_true, Source.kindsFrom_succ]
      exact Boundary.bracesMatched hboundary hmatched
  · refine ⟨_, run_bind_ok hrun, .inr ⟨hnone, rfl⟩, ?_⟩
    show BracesMatched (source.kindsFrom start ((s.after limit).cursor.position - start))
    rw [htaken]
    exact bracesMatched_of_no_boundary hnone

end CTree
