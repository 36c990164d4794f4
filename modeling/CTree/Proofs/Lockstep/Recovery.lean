import CTree.Proofs.Lockstep.Token

/-!
# Recovery in lockstep

The loops that skip tokens stop at the end of the source at the latest, so a ceiling beyond the
number of tokens that are left makes no difference to them. An attempt never fails, and it takes a
token, whatever becomes of what it attempts.
-/

namespace CTree

open Parse

variable {α : Type} {a b : Source} {n k : Nat} {P : ParseState → Prop} {m : α → Prop}
  {p q : Parse α} {s t : ParseState}

/-! ### Tokens to spare -/

namespace Source

/-- Fewer tokens are left after one is taken. -/
theorem remaining_advance {i : Nat} (h : (a.view s).kind 0 ≠ .eof)
    (hi : (a.view s).remaining ≤ i + 1) :
    (a.view { s with cursor := s.cursor.advance a.stream }).remaining ≤ i := by
  rw [advance_of_token h]
  have hlt := position_lt h
  have hsize : a.stream.size = a.stream.body.size + 1 := rfl
  simp only [View.remaining, Source.view] at hi ⊢
  omega

/-- The last token is always left. -/
theorem remaining_ne_zero (h : s.cursor.position ≤ a.stream.body.size) :
    ¬ (a.view s).remaining ≤ 0 := by
  have hsize : a.stream.size = a.stream.body.size + 1 := rfl
  simp only [View.remaining, Source.view]
  omega

end Source

namespace Roomy

theorem advance (h : Roomy a b n k s) :
    Roomy a b n k { s with cursor := s.cursor.advance a.stream } :=
  h.after (.advance a s) h.calm

/-- The ceiling on rounds is beyond the tokens that are left. -/
theorem remaining_le (h : Roomy a b n k s) : (a.view s).remaining ≤ a.settings.maxIterations ∧
    (a.view s).remaining ≤ b.settings.maxIterations := by
  have hsize : (a.view s).remaining ≤ a.stream.size := Nat.sub_le ..
  have ha := h.ample.iterations
  have hb := h.ample'.iterations
  rw [h.twin.stream] at hb
  omega

end Roomy

/-! ### Boundaries -/

/-- A skip that may take all tokens that are left finds a boundary, and no larger number of tokens
    changes what it does. -/
theorem skipToBoundary_same {i i' : Nat} (hroom : Roomy a b n k s)
    (h : (a.view s).remaining ≤ i) (h' : (a.view s).remaining ≤ i') (nesting : Nesting) :
    ∃ t, (skipToBoundary i' nesting).run b s = (.ok true, t) ∧
      (skipToBoundary i nesting).run a s = (.ok true, t) ∧ Roomy a b n k t := by
  -- At the latest the end of the text is a boundary, and neither fuel is used up before it.
  induction i generalizing i' s nesting with
  | zero => exact (Source.remaining_ne_zero hroom.inside h).elim
  | succ i ih =>
    cases i' with
    | zero => exact (Source.remaining_ne_zero hroom.inside h').elim
    | succ i' =>
      unfold skipToBoundary
      rw [run_bind_ok run_kind, run_bind_ok run_kind, hroom.twin.view_eq]
      split
      · exact ⟨s, rfl, rfl, hroom⟩
      · rw [run_bind_ok run_skip, run_bind_ok run_skip, hroom.twin.stream]
        exact ⟨_, rfl, rfl, hroom.advance⟩
      · rename_i inside hstep
        have htoken : (a.view s).kind 0 ≠ .eof := by
          intro heof
          rw [heof] at hstep
          cases hstep
        rw [run_bind_ok run_skip, run_bind_ok run_skip, hroom.twin.stream]
        exact ih hroom.advance (Source.remaining_advance htoken h)
          (Source.remaining_advance htoken h') inside

namespace Lockstep

theorem skipToBoundary (fuel : Nat) (nesting : Nesting) :
    Lockstep a b n P k never (skipToBoundary fuel nesting) (skipToBoundary fuel nesting) := by
  induction fuel generalizing P nesting with
  | zero => exact .pure _
  | succ fuel ih =>
    unfold Parse.skipToBoundary
    refine .kind fun t => ?_
    split
    · exact .pure _
    · exact .bind skipAnywhere fun _ => .pure _
    · exact .bind skipAnywhere fun _ => ih _

theorem synchronize : Lockstep a b n P k never Parse.synchronize Parse.synchronize where
  toFramed := by
    refine Lockstep.toFramed (b := a) (n := 0) (k := 1) (q := Parse.synchronize) ?_
    unfold Parse.synchronize
    refine .settings (.bind (skipToBoundary _ _) fun found => ?_)
    -- Without room the skip may be cut short, which is then reported.
    cases found with
    | true => exact .pure _
    | false =>
      refine .ofFramed ⟨?_, fun _ => .record .., fun _ _ h => h.elim⟩
      exact .exhaustion fun e he => .report he
  same {s} _ hroom := by
    obtain ⟨ha, hb⟩ := hroom.remaining_le
    obtain ⟨t, hrun', hrun, hroom'⟩ := skipToBoundary_same hroom ha hb {}
    unfold Parse.synchronize
    rw [run_bind_ok run_settings, run_bind_ok run_settings, run_bind_ok hrun, run_bind_ok hrun']
    exact (Lockstep.pure (P := anywhere) ()).same trivial hroom'

end Lockstep

/-! ### Attempts -/

namespace Parse

theorem run_skipToBoundary_ok (fuel : Nat) (nesting : Nesting) :
    ∃ x t, (skipToBoundary fuel nesting).run a s = (.ok x, t) := by
  induction fuel generalizing s nesting with
  | zero => exact ⟨_, _, rfl⟩
  | succ fuel ih =>
    unfold skipToBoundary
    rw [run_bind_ok run_kind]
    split
    · exact ⟨_, _, rfl⟩
    · exact ⟨_, _, rfl⟩
    · rw [run_bind_ok run_skip]
      exact ih _

/-- Skipping to a boundary never fails. -/
theorem run_synchronize_ok : ∃ t, synchronize.run a s = (.ok (), t) := by
  unfold synchronize
  obtain ⟨x, t, h⟩ := run_skipToBoundary_ok (a := a) (s := s) a.settings.maxIterations {}
  rw [run_bind_ok run_settings, run_bind_ok h]
  cases x with
  | true => exact ⟨_, rfl⟩
  | false => exact ⟨_, rfl⟩

/-- The state in which the skip to a boundary begins: the failure is reported, and the cursor is
    back where the parser began. -/
def backAt (source : Source) (e : Failure) (start : Nat) (t : ParseState) : ParseState :=
  let u := t.record (Diagnostic.ofFailure source.text e)
  { u with cursor := u.cursor.rewind start }

/-- A parser that fails is replaced by a skip to a boundary from where it began. -/
theorem run_recovering_failed {e : Failure} (h : p.run a s = (.error e, t)) :
    (recovering p).run a s =
      (.ok none, (synchronize.run a (backAt a e s.cursor.position t)).2) := by
  obtain ⟨u, hu⟩ := run_synchronize_ok (a := a) (s := backAt a e s.cursor.position t)
  rw [run_recovering_error h, hu]
  have hrecover : (recover s.cursor.position e).run a t = (.ok (), u) := by
    unfold recover
    rw [run_bind_ok (run_report e), run_bind_ok (run_modify _)]
    exact hu
  rw [run_bind_ok hrecover, run_pure]

/-- Recovering never fails. -/
theorem run_recovering_total (p : Parse α) (s : ParseState) :
    ∃ o u, (recovering p).run a s = (.ok o, u) := by
  rcases h : p.run a s with ⟨e | x, t⟩
  · exact ⟨none, _, run_recovering_failed h⟩
  · exact ⟨some x, t, run_recovering_ok h⟩

end Parse

/-- A failed parser leaves nothing behind but diagnostics and type names. -/
theorem Frame.backAt (h : Frame a s t) (e : Failure) :
    Frame a s (backAt a e s.cursor.position t) := by
  have hrecord := h.trans (.record a t (Diagnostic.ofFailure a.text e))
  have hmin : min s.cursor.position t.cursor.position = s.cursor.position :=
    Nat.min_eq_left h.position
  have hback := hrecord.restart
  rw [← hmin] at hback
  exact hback

/-- What fails is undone but for its diagnostics and type names, and the skip after it moves on. -/
theorem Frame.recovering (h : Frame a s (p.run a s).2) :
    Frame a s ((recovering p).run a s).2 := by
  have hskip : ∀ u, Frame a u (synchronize.run a u).2 := fun _ =>
    (Lockstep.synchronize (b := a) (n := 0) (k := 0) (P := anywhere)).frame trivial
  rcases hrun : p.run a s with ⟨e | x, t⟩
  · rw [hrun] at h
    rw [run_recovering_failed hrun]
    exact (h.backAt e).trans (hskip _)
  · rw [hrun] at h
    rwa [run_recovering_ok hrun]

namespace Lockstep

theorem recovering (h : Lockstep a b n P k m p q) :
    Lockstep a b n P k never (Parse.recovering p) (Parse.recovering q) where
  toAccounted :=
    h.toAccounted.recovering (synchronize (b := a) (n := 0) (k := 0) (P := anywhere)).toAccounted
  frame hs := (h.frame hs).recovering
  moves _ _ h := h.elim
  same {s} hs hroom := by
    obtain ⟨heq, hcalm⟩ := h.same hs hroom
    have hf := h.frame hs
    rcases hrun : p.run a s with ⟨e | x, t⟩
    · rw [hrun] at heq hcalm hf
      have hcalm' : ∀ d ∈ (backAt a e s.cursor.position t).diagnostics,
          ¬ IsCeilingMessage d.message := by
        intro d hd
        rcases Array.mem_push.1 hd with hd | rfl
        · exact hcalm.diagnostics d hd
        · exact hcalm.failure e rfl
      have hback : backAt b e s.cursor.position t = backAt a e s.cursor.position t := by
        unfold backAt
        rw [hroom.twin.text]
      obtain ⟨heq', hcalm''⟩ := (synchronize (P := anywhere)).same trivial
        (hroom.after (hf.backAt e) hcalm')
      rw [run_recovering_failed hrun, run_recovering_failed heq, hback, heq']
      exact ⟨rfl, by simp, hcalm''.diagnostics⟩
    · rw [hrun] at heq hcalm
      rw [run_recovering_ok hrun, run_recovering_ok heq]
      exact ⟨rfl, by simp, hcalm.diagnostics⟩

theorem ensureProgress (start : Nat) :
    Lockstep a b n P k never (Parse.ensureProgress start) (Parse.ensureProgress start) := by
  unfold Parse.ensureProgress
  refine .mark fun i => .check ?_ ?_
  · split
    · exact skipAnywhere
    · exact .pure _
  · split
    · exact skipAnywhere
    · exact .pure _

theorem attemptAnywhere (h : Lockstep a b n P k m p q) :
    Lockstep a b n P k never (Parse.attempt p) (Parse.attempt q) := by
  unfold Parse.attempt
  exact .mark fun start => .bind h.recovering fun x => .bind (ensureProgress start) fun _ => .pure _

end Lockstep

namespace Parse

/-- A token is taken at the given index only; at the end there is none to take. -/
theorem run_ensureProgress (start : Nat) : (ensureProgress start).run a s =
    (.ok (), if s.cursor.position = start then
      { s with cursor := s.cursor.advance a.stream } else s) := by
  unfold ensureProgress
  rw [run_bind_ok run_position, run_bind_ok run_atEnd]
  by_cases hstart : s.cursor.position = start
  · rw [if_pos hstart]
    by_cases hend : (a.view s).kind 0 = .eof
    · rw [Source.advance_of_end hend, if_neg (by simp [hend]), run_pure]
    · rw [if_pos (by simp [hend, hstart]), run_skip]
  · rw [if_neg (by simp [hstart]), if_neg hstart, run_pure]

/-- An attempt that moved is over when the recovery is, and one that did not takes a token. -/
theorem run_attempt {o : Option α} (h : (recovering p).run a s = (.ok o, t)) :
    (attempt p).run a s =
      (.ok o, if t.cursor.position = s.cursor.position then
        { t with cursor := t.cursor.advance a.stream } else t) := by
  unfold attempt
  rw [run_bind_ok run_position, run_bind_ok h]
  rw [run_bind_ok (run_ensureProgress _), run_pure]

end Parse

theorem Frame.attempt (h : Frame a s (p.run a s).2) : Frame a s ((attempt p).run a s).2 := by
  have hrecovered := h.recovering
  obtain ⟨o, t, hrun⟩ := run_recovering_total (a := a) p s
  rw [hrun] at hrecovered
  rw [run_attempt hrun]
  split
  · exact hrecovered.trans (.advance a t)
  · exact hrecovered

namespace Lockstep

/-- An attempt takes a token, since it does not start at the end. -/
theorem attempt (hP : a.BeforeToken P) (h : Lockstep a b n P k m p q) :
    Lockstep a b n P k always (Parse.attempt p) (Parse.attempt q) :=
  { h.attemptAnywhere with
    moves := by
      intro s o t hs hrun _
      have hf := h.recovering.frame hs
      obtain ⟨o', u, hu⟩ := run_recovering_total (a := a) p s
      rw [hu] at hf
      rw [run_attempt hu] at hrun
      obtain ⟨-, rfl⟩ := Prod.mk.inj hrun
      split
      · rename_i hstay
        have htoken : (a.view u).kind 0 ≠ .eof := by
          rw [Source.kind_of_position_eq hstay]
          exact hP s hs
        rw [Source.advance_of_token htoken]
        show s.cursor.position < u.cursor.position + 1
        omega
      · rename_i hmoved
        have := hf.position
        exact Nat.lt_of_le_of_ne hf.position (Ne.symm hmoved) }

/-! ### Tokens that do not belong -/

/-- A token that is skipped is reported. -/
theorem skipToken {m : Unit → Prop} (hP : a.Takes n k P m) (place : String) :
    Lockstep a b n P k m (Parse.skipToken place) (Parse.skipToken place) := by
  unfold Parse.skipToken
  refine .peek fun t ht => ?_
  have hmessage : IsPlain ("Unexpected " ++ t.describe ++ " " ++ place) := by
    rw [String.append_assoc, String.append_assoc]
    exact isPlain_append rfl (by decide) (by decide) (by decide)
  have hshows : a.Shows ⟨.unexpected ("Unexpected " ++ t.describe ++ " " ++ place), t.offset⟩ :=
    ⟨t, ht, rfl, hmessage.own⟩
  refine (report hshows hmessage.calm).bindKnowing
    (R := fun _ t => a.BeforeToken P → (a.view t).kind 0 ≠ .eof) ?_
    (fun _ hx => hx.elim) fun _ _ => skip ?_
  · intro s _ t hs hrun hP
    rw [run_report] at hrun
    cases hrun
    exact hP s hs
  · exact hP.imp (fun hP _ ht => ht hP) id

theorem closeBrace (place : String) :
    Lockstep a b n P k never (Parse.closeBrace place) (Parse.closeBrace place) := by
  unfold Parse.closeBrace
  refine .bindBool (accept .rbrace nofun) (.pure _) ?_
  refine .expectation fun e hshows he => .check ?_ ?_
  · exact report hshows he
  · exact fail hshows he

end Lockstep

/-! ### Groups -/

namespace Parse

variable {opening closing : TokenKind} {i depth : Nat}

theorem run_skipGroup_end (h : (a.view s).kind 0 = .eof) :
    (skipGroup opening closing (i + 1) depth).run a s =
      (expected closing.describe : Parse Unit).run a s := by
  unfold skipGroup
  rw [run_bind_ok run_kind, h]
  rfl

theorem run_skipGroup_token (h : (a.view s).kind 0 ≠ .eof) :
    (skipGroup opening closing (i + 1) depth).run a s =
      (if (a.view s).kind 0 == opening then skipGroup opening closing i (depth + 1)
      else if (a.view s).kind 0 == closing then
        if depth ≤ 1 then pure () else skipGroup opening closing i (depth - 1)
      else skipGroup opening closing i depth : Parse Unit).run a
        { s with cursor := s.cursor.advance a.stream } := by
  rw [skipGroup, run_bind_ok run_kind, if_neg (by simpa using h)]
  exact run_bind_ok run_skip

end Parse

/-- A group is skipped alike whatever number of tokens it may take, if all that are left are
    allowed; and then no ceiling is reached. -/
theorem skipGroup_same {opening closing : TokenKind} {i i' : Nat} (hroom : Roomy a b n k s)
    (h : (a.view s).remaining ≤ i) (h' : (a.view s).remaining ≤ i') (depth : Nat) :
    (skipGroup opening closing i' depth).run b s = (skipGroup opening closing i depth).run a s ∧
      Calm ((skipGroup opening closing i depth).run a s) := by
  induction i generalizing i' s depth with
  | zero => exact (Source.remaining_ne_zero hroom.inside h).elim
  | succ i ih =>
    cases i' with
    | zero => exact (Source.remaining_ne_zero hroom.inside h').elim
    | succ i' =>
      have hview := hroom.twin.view_eq s
      by_cases heof : (a.view s).kind 0 = .eof
      · rw [run_skipGroup_end heof, run_skipGroup_end (by rwa [hview])]
        exact (Lockstep.expected (P := anywhere) (m := never) _).same trivial hroom
      · rw [run_skipGroup_token heof, run_skipGroup_token (by rwa [hview]), hview,
          hroom.twin.stream]
        have hleft := Source.remaining_advance heof h
        have hleft' := Source.remaining_advance heof h'
        split
        · exact ih hroom.advance hleft hleft' _
        · split
          · split
            · exact (Lockstep.pure (P := anywhere) ()).same trivial hroom.advance
            · exact ih hroom.advance hleft hleft' _
          · exact ih hroom.advance hleft hleft' _

namespace Lockstep

theorem skipGroupFramed (opening closing : TokenKind) (fuel depth : Nat) :
    Framed a P never (skipGroup opening closing fuel depth) := by
  refine Lockstep.toFramed (b := a) (n := 0) (k := 1) (q := skipGroup opening closing fuel depth) ?_
  induction fuel generalizing P depth with
  | zero => exact .ofFramed (framed_of_ceiling (fun _ => rfl) rfl)
  | succ fuel ih =>
    unfold skipGroup
    refine .kind fun t => ?_
    split
    · exact expected _
    · refine .bind skipAnywhere fun _ => ?_
      split
      · exact ih _
      · split
        · split
          · exact .pure _
          · exact ih _
        · exact ih _

theorem skipGroup (opening closing : TokenKind) (depth : Nat) :
    Lockstep a b n P k never (Parse.skipGroup opening closing a.settings.maxIterations depth)
      (Parse.skipGroup opening closing b.settings.maxIterations depth) :=
  { skipGroupFramed opening closing _ depth with
    same := fun _ hroom => skipGroup_same hroom hroom.remaining_le.1 hroom.remaining_le.2 depth }

theorem skipBalanced (opening closing : TokenKind) (h : opening ≠ .eof) :
    Lockstep a b n P k always (Parse.skipBalanced opening closing)
      (Parse.skipBalanced opening closing) := by
  unfold Parse.skipBalanced
  exact .andThen (skipOver opening "" h) fun _ => .settings (skipGroup opening closing 1)

theorem skipWithGroup : Lockstep a b n P k never Parse.skipWithGroup Parse.skipWithGroup := by
  unfold Parse.skipWithGroup
  refine .bind skipAnywhere fun _ => .test fun paren => ?_
  split
  · exact (skipBalanced _ _ (by decide)).still
  · exact .pure _

end Lockstep

end CTree
