import CTree.Proofs.Declarators.Consumes
import CTree.Proofs.Lockstep.Recovery
import CTree.Parse.Session

/-!
# Groups in parentheses

Two loops look for the parenthesis that closes a group: one only looks ahead, the other takes the group.
Each counts the parentheses that are open. `View.counts` are these counts as integers, which might be
negative, and both loops are told by them alone: the group ends where the count comes to zero. Hence the
loops agree wherever their ceilings let them go so far, and neither count is ever negative.
-/

namespace CTree

open Parse

/-- A token of some kind leads a scan from so many open parentheses to so many others. -/
inductive TokenKind.Leads : TokenKind → Nat → Nat → Prop
  | opens {depth} : Leads .lparen depth (depth + 1)
  | closes {depth} : Leads .rparen (depth + 1) depth
  | passes {k depth} : k ≠ .eof → k ≠ .lparen → k ≠ .rparen → Leads k depth depth

/-- While parentheses are open, a token ends the source, closes the last of them, or leads on to where some
are open still. -/
theorem TokenKind.leads_cases (k : TokenKind) {depth : Nat} (h : 0 < depth) :
    k = .eof ∨ (k = .rparen ∧ depth = 1) ∨ ∃ next, 0 < next ∧ k.Leads depth next := by
  by_cases heof : k = .eof
  · exact .inl heof
  by_cases hopen : k = .lparen
  · subst hopen
    exact .inr (.inr ⟨depth + 1, Nat.succ_pos depth, .opens⟩)
  by_cases hclose : k = .rparen
  · subst hclose
    obtain ⟨depth, rfl⟩ := Nat.exists_eq_add_of_lt h
    rw [Nat.zero_add]
    cases depth with
    | zero => exact .inr (.inl ⟨rfl, rfl⟩)
    | succ depth => exact .inr (.inr ⟨depth + 1, Nat.succ_pos depth, .closes⟩)
  · exact .inr (.inr ⟨depth, h, .passes heof hopen hclose⟩)

theorem TokenKind.Leads.ne_eof {k : TokenKind} {depth next : Nat} (h : k.Leads depth next) : k ≠ .eof := by
  cases h with
  | opens | closes => decide
  | passes heof => exact heof

namespace View

/-- The counts of open parentheses that a scan comes to, one for each token that it counts. It starts at a
place with a count, goes on for the given number of tokens at most, and ends at the parenthesis after
which nothing is open, or before the end of the source. -/
def counts (v : View) : Nat → Nat → Int → List Int
  | 0, _, _ => []
  | fuel + 1, n, count =>
    if v.kind n = .eof then []
    else if v.kind n = .lparen then (count + 1) :: v.counts fuel (n + 1) (count + 1)
    else if v.kind n = .rparen then
      (count - 1) :: if count - 1 = 0 then [] else v.counts fuel (n + 1) (count - 1)
    else count :: v.counts fuel (n + 1) count

variable {v : View} {fuel n depth next : Nat}

/-! ### One token -/

theorem counts_eof (h : v.kind n = .eof) (count : Int) : v.counts fuel n count = [] := by
  cases fuel with
  | zero => rfl
  | succ fuel => rw [counts, if_pos h]

theorem counts_last (h : v.kind n = .rparen) : v.counts (fuel + 1) n 1 = [0] := by
  rw [counts, h]
  rfl

theorem counts_next (h : (v.kind n).Leads depth next) (hnext : 0 < next) :
    v.counts (fuel + 1) n depth = (next : Int) :: v.counts fuel (n + 1) next := by
  rw [counts]
  generalize v.kind n = k at h
  cases h with
  | opens => rfl
  | closes =>
    have hdepth : ((next + 1 : Nat) : Int) - 1 = next := by omega
    rw [if_neg (by decide), if_neg (by decide), if_pos rfl, hdepth, if_neg (by omega)]
  | passes heof hopen hclose => rw [if_neg heof, if_neg hopen, if_neg hclose]

theorem closingFrom_eof (h : v.kind n = .eof) (depth : Nat) : v.closingFrom fuel n depth = none := by
  cases fuel with
  | zero => rfl
  | succ fuel => rw [closingFrom, h]

theorem closingFrom_last (h : v.kind n = .rparen) : v.closingFrom (fuel + 1) n 1 = some n := by
  rw [closingFrom, h]
  rfl

theorem closingFrom_next (h : (v.kind n).Leads depth next) (hnext : 0 < next) :
    v.closingFrom (fuel + 1) n depth = v.closingFrom fuel (n + 1) next := by
  rw [closingFrom]
  generalize v.kind n = k at h
  cases h with
  | opens => rfl
  | closes => exact if_neg (by omega)
  | passes heof hopen hclose =>
    split
    · contradiction
    · contradiction
    · contradiction
    · rfl

/-! ### Whole scans -/

theorem zero_mem_cons {cs : List Int} (h : 0 < next) : 0 ∈ (next : Int) :: cs ↔ 0 ∈ cs := by
  rw [List.mem_cons, or_iff_right (by omega)]

theorem counts_nonneg (h : 0 < depth) : ∀ c ∈ v.counts fuel n depth, 0 ≤ c := by
  induction fuel generalizing n depth with
  | zero => exact fun c hc => absurd hc List.not_mem_nil
  | succ fuel ih =>
    rcases (v.kind n).leads_cases h with heof | ⟨hlast, rfl⟩ | ⟨next, hnext, hleads⟩
    · rw [counts_eof heof]
      exact fun c hc => absurd hc List.not_mem_nil
    · rw [Int.natCast_one, counts_last hlast]
      simp
    · rw [counts_next hleads hnext]
      exact List.forall_mem_cons.2 ⟨Int.natCast_nonneg next, ih hnext⟩

/-- A scan that comes to zero does so within every number of tokens that is large enough. -/
theorem counts_eq_of_zero_mem {fuel' : Nat} (h : 0 < depth) (hzero : 0 ∈ v.counts fuel n depth)
    (hlength : (v.counts fuel n depth).length ≤ fuel') :
    v.counts fuel' n depth = v.counts fuel n depth := by
  induction fuel generalizing n depth fuel' with
  | zero => exact absurd hzero List.not_mem_nil
  | succ fuel ih =>
    rcases (v.kind n).leads_cases h with heof | ⟨hlast, rfl⟩ | ⟨next, hnext, hleads⟩
    · rw [counts_eof heof, counts_eof heof]
    · rw [Int.natCast_one, counts_last hlast, List.length_singleton] at hlength
      obtain ⟨fuel', rfl⟩ := Nat.exists_eq_add_of_le' hlength
      rw [Int.natCast_one, counts_last hlast, counts_last hlast]
    · rw [counts_next hleads hnext, zero_mem_cons hnext] at hzero
      rw [counts_next hleads hnext, List.length_cons] at hlength
      obtain ⟨fuel', rfl⟩ := Nat.exists_eq_add_of_le' (Nat.le_of_add_left_le hlength)
      rw [counts_next hleads hnext, counts_next hleads hnext,
        ih hnext hzero (Nat.le_of_succ_le_succ hlength)]

/-- Looking ahead finds the token at which the count comes to zero, if one does. -/
theorem closingFrom_eq_some_iff {m : Nat} (h : 0 < depth) : v.closingFrom fuel n depth = some m ↔
    0 ∈ v.counts fuel n depth ∧ m + 1 = n + (v.counts fuel n depth).length := by
  induction fuel generalizing n depth with
  | zero => simp [closingFrom, counts]
  | succ fuel ih =>
    rcases (v.kind n).leads_cases h with heof | ⟨hlast, rfl⟩ | ⟨next, hnext, hleads⟩
    · simp [closingFrom_eof heof, counts_eof heof]
    · rw [Int.natCast_one, closingFrom_last hlast, counts_last hlast]
      simp [eq_comm]
    · rw [closingFrom_next hleads hnext, counts_next hleads hnext, zero_mem_cons hnext, ih hnext,
        List.length_cons, Nat.add_assoc, Nat.add_comm 1]

/-- Looking ahead from an opening parenthesis counts it first, and nothing is open before it. -/
theorem counts_of_lparen (h : v.kind n = .lparen) :
    v.counts (fuel + 1) n 0 = 1 :: v.counts fuel (n + 1) 1 :=
  counts_next (show (v.kind n).Leads 0 1 from h ▸ .opens) Nat.one_pos

theorem matchingParen_eq_some_iff {limit m : Nat} (h : v.kind n = .lparen) :
    v.matchingParen limit n = some m ↔
      0 ∈ v.counts (limit - 1) (n + 1) 1 ∧ m = n + (v.counts (limit - 1) (n + 1) 1).length := by
  rw [matchingParen, h, beq_self_eq_true, if_pos rfl]
  cases limit with
  | zero => simp [closingFrom, counts]
  | succ limit =>
    have hrest : v.closingFrom limit (n + 1) 1 = some m ↔
        0 ∈ v.counts limit (n + 1) 1 ∧ m + 1 = n + 1 + (v.counts limit (n + 1) 1).length :=
      closingFrom_eq_some_iff Nat.one_pos
    rw [closingFrom_next (show (v.kind n).Leads 0 1 from h ▸ .opens) Nat.one_pos, hrest,
      Nat.add_right_comm, Nat.add_right_cancel_iff, Nat.add_sub_cancel]

end View

namespace Parse

variable {source : Source} {s : ParseState} {fuel depth next : Nat}

theorem run_skipGroup_next {opening closing : TokenKind} {k : TokenKind}
    (hk : (source.view s).kind 0 = k) (hend : k ≠ .eof) :
    (skipGroup opening closing (fuel + 1) depth).run source s =
      (if k == opening then skipGroup opening closing fuel (depth + 1)
      else if k == closing then
        if depth ≤ 1 then pure () else skipGroup opening closing fuel (depth - 1)
      else skipGroup opening closing fuel depth : Parse Unit).run source (s.after 1) := by
  rw [run_skipGroup_token (hk ▸ hend), hk, Source.advance_of_token (hk ▸ hend)]
  rfl

theorem run_skipGroup_of_leads (h : ((source.view s).kind 0).Leads depth next) (hnext : 0 < next) :
    (skipGroup .lparen .rparen (fuel + 1) depth).run source s =
      (skipGroup .lparen .rparen fuel next).run source (s.after 1) := by
  rw [run_skipGroup_next rfl h.ne_eof]
  generalize (source.view s).kind 0 = k at h
  cases h with
  | opens => rfl
  | closes =>
    show (if next + 1 ≤ 1 then pure () else skipGroup .lparen .rparen fuel next : Parse Unit).run _ _ = _
    rw [if_neg (by omega)]
  | passes _ hopen hclose => rw [if_neg (by simpa using hopen), if_neg (by simpa using hclose)]

/-- Taking a group takes the tokens that are counted, and succeeds if the count comes to zero. -/
theorem run_skipGroup_counts (h : 0 < depth) (n : Nat) :
    ∃ r, (skipGroup .lparen .rparen fuel depth).run source (s.after n) =
        (r, s.after (n + ((source.view s).counts fuel n depth).length)) ∧
      (r = .ok () ↔ 0 ∈ (source.view s).counts fuel n depth) := by
  induction fuel generalizing n depth with
  | zero => exact ⟨_, rfl, by simp [View.counts]⟩
  | succ fuel ih =>
    have hkind : (source.view (s.after n)).kind 0 = (source.view s).kind n := rfl
    rcases ((source.view s).kind n).leads_cases h with heof | ⟨hlast, rfl⟩ | ⟨next, hnext, hleads⟩
    · rw [View.counts_eof heof, run_skipGroup_end (hkind.trans heof), run_expected]
      exact ⟨_, rfl, by simp⟩
    · rw [Int.natCast_one, View.counts_last hlast, run_skipGroup_next (hkind.trans hlast) (by decide),
        ParseState.after_after]
      exact ⟨.ok (), rfl, by simp⟩
    · obtain ⟨r, hrun, hr⟩ := ih hnext (n + 1)
      rw [View.counts_next hleads hnext, View.zero_mem_cons hnext, List.length_cons,
        run_skipGroup_of_leads hleads hnext, ParseState.after_after, hrun, Nat.add_assoc,
        Nat.add_comm 1]
      exact ⟨r, rfl, hr⟩

theorem run_skipBalanced_counts (h : (source.view s).kind 0 = .lparen) :
    ∃ r, (skipBalanced .lparen .rparen).run source s =
        (r, s.after (1 + ((source.view s).counts source.settings.maxIterations 1 1).length)) ∧
      (r = .ok () ↔ 0 ∈ (source.view s).counts source.settings.maxIterations 1 1) := by
  unfold skipBalanced
  rw [run_bind_ok (Consumes.skipOver h (by decide)), run_bind_ok run_settings]
  exact run_skipGroup_counts Nat.one_pos 1

/-- Looking ahead for the parenthesis that closes a group, and taking the group, agree as far as their
ceilings let both of them go. Where looking ahead finds the parenthesis, the group up to it is taken, and
where a group is taken, looking ahead finds its end. The counts that tell what both of them do are never
negative. -/
theorem run_skipBalanced_agrees (h : (source.view s).kind 0 = .lparen) :
    let v := source.view s
    let ahead := source.settings.maxLookahead
    let rounds := source.settings.maxIterations
    (∀ n, v.matchingParen ahead 0 = some n → n ≤ rounds →
      (skipBalanced .lparen .rparen).run source s = (.ok (), s.after (n + 1))) ∧
    (∀ n t, (skipBalanced .lparen .rparen).run source s = (.ok (), t) →
      t.cursor.position = s.cursor.position + (n + 1) → n < ahead →
      v.matchingParen ahead 0 = some n) ∧
    (∀ n, v.matchingParen ahead 0 = some n ↔
      0 ∈ v.counts ahead 0 0 ∧ n + 1 = (v.counts ahead 0 0).length) ∧
    (∃ r, (skipBalanced .lparen .rparen).run source s =
        (r, s.after (1 + (v.counts rounds 1 1).length)) ∧ (r = .ok () ↔ 0 ∈ v.counts rounds 1 1)) ∧
    (∀ c ∈ v.counts ahead 0 0, 0 ≤ c) ∧ ∀ c ∈ v.counts rounds 1 1, 0 ≤ c := by
  intro v ahead rounds
  have hlook (n : Nat) : v.matchingParen ahead 0 = some n ↔
      0 ∈ v.counts (ahead - 1) 1 1 ∧ n = (v.counts (ahead - 1) 1 1).length := by
    rw [View.matchingParen_eq_some_iff h, Nat.zero_add, Nat.zero_add]
  obtain ⟨r, hrun, hr⟩ := run_skipBalanced_counts h
  -- Past the opening parenthesis both scans count alike, and one that comes to zero needs no more rounds.
  have hsame (i j : Nat) (hzero : 0 ∈ v.counts i 1 1) (hle : (v.counts i 1 1).length ≤ j) :
      v.counts j 1 1 = v.counts i 1 1 :=
    View.counts_eq_of_zero_mem Nat.one_pos hzero hle
  have hnonneg (i : Nat) : ∀ c ∈ v.counts i 1 1, 0 ≤ c := View.counts_nonneg Nat.one_pos
  refine ⟨fun n hn hle => ?_, fun n t ht hposition hlt => ?_, fun n => ?_, ⟨r, hrun, hr⟩, ?_,
    hnonneg rounds⟩
  · obtain ⟨hzero, rfl⟩ := (hlook n).1 hn
    have hcounts := hsame _ _ hzero hle
    rw [hrun, hr.2 (hcounts ▸ hzero), hcounts, Nat.add_comm]
  · rw [hrun] at ht
    cases ht
    have hzero := hr.1 rfl
    have hlength : 1 + (v.counts rounds 1 1).length = n + 1 := Nat.add_left_cancel hposition
    obtain rfl : (v.counts rounds 1 1).length = n := by omega
    have hcounts := hsame _ (ahead - 1) hzero (Nat.le_sub_one_of_lt hlt)
    rw [hlook, hcounts]
    exact ⟨hzero, rfl⟩
  · rw [hlook]
    cases ahead with
    | zero => simp [View.counts]
    | succ ahead =>
      rw [View.counts_of_lparen h, Nat.add_sub_cancel, List.mem_cons, or_iff_right (by decide),
        List.length_cons, Nat.add_right_cancel_iff]
  · cases ahead with
    | zero => exact fun c hc => absurd hc List.not_mem_nil
    | succ ahead =>
      rw [View.counts_of_lparen h]
      exact List.forall_mem_cons.2 ⟨by decide, hnonneg ahead⟩

/-- The group in front of `d` has a group inside of it. -/
theorem run_skipBalanced_agrees_nested :
    let source := (Session.start {} "(a (b) c) d".toList).source
    (source.view {}).kind 0 = .lparen ∧
    (source.view {}).matchingParen source.settings.maxLookahead 0 = some 6 ∧
    6 ≤ source.settings.maxIterations ∧
    (skipBalanced .lparen .rparen).run source {} = (.ok (), ParseState.after {} 7) ∧
    ∀ c ∈ (source.view {}).counts source.settings.maxLookahead 0 0, 0 ≤ c := by
  intro source
  have hopen : (source.view {}).kind 0 = .lparen := by decide +kernel
  have hclose : (source.view {}).matchingParen source.settings.maxLookahead 0 = some 6 := by
    decide +kernel
  have hrounds : 6 ≤ source.settings.maxIterations := by decide
  obtain ⟨htaken, -, -, -, hcounts, -⟩ := run_skipBalanced_agrees hopen
  exact ⟨hopen, hclose, hrounds, htaken 6 hclose hrounds, hcounts⟩

end Parse

end CTree
