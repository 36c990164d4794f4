import CTree.Proofs.Lockstep.Grammar

/-!
# Parameters and blocks in lockstep

A run of statements takes a token for each statement that it counts, so it never gets to a ceiling
that is beyond the number of tokens.
-/

namespace CTree

namespace Grammar

/-- A round counts at most one statement more. -/
theorem statementRound_some {a : Source} {g : Grammar} {stop : TokenKind → Bool}
    {count count' : Nat} {found : List Stmt} {s t : ParseState}
    (h : (g.statementRound stop count).run a s = (.ok (some (found, count')), t)) :
    count' ≤ count + 1 := by
  unfold statementRound at h
  rw [Parse.run_bind_ok Parse.run_kind] at h
  split at h
  · cases h
  · rw [Parse.run_bind_ok Parse.run_settings] at h
    by_cases hceiling : a.settings.maxStatements ≤ count
    · rw [if_pos hceiling] at h
      cases h
    · rw [if_neg hceiling] at h
      obtain ⟨x, u, -, h⟩ := Parse.exists_of_run_bind h
      split at h
      · cases h
        exact Nat.le_refl _
      · cases h
        exact Nat.le_succ _

namespace InStep

open Lockstep

variable {a b : Source} {n k : Nat} {P : ParseState → Prop} {g g' : Grammar}

section Parameters

variable (hg : InStep a b n g g')
include hg

/-! ### Parameters and blocks -/

theorem typedParameter : Lockstep a b n P k never g.typedParameter g'.typedParameter := by
  unfold Grammar.typedParameter
  refine .bind specifiers fun _ => .bind typeName fun type => ?_
  refine .bind (acceptAnywhere .ellipsis) fun pack => ?_
  refine .bind (declaredName nameOrNone nameOrNone fun _ hx => hx) fun declared => ?_
  refine .bind (bracketTexts _) fun type => ?_
  exact .bind (optionalAfter .assign hg.expression.still nofun).still fun default? => .pure _

theorem parameter : Lockstep a b n P k never g.parameter g'.parameter := by
  unfold Grammar.parameter
  refine .bind (acceptAnywhere .ellipsis) fun pack => ?_
  split
  · exact .pure _
  · exact hg.typedParameter

theorem parameters : Lockstep a b n P k always g.parameters g'.parameters := by
  unfold Grammar.parameters
  refine .andThen (skipOver .lparen _ nofun) fun _ => ?_
  refine .bind (acceptAnywhere .rparen) fun none => ?_
  split
  · exact .pure _
  · refine .test fun void => .checkAhead fun alone => ?_
    split
    · exact .bind skipAnywhere fun _ => .bind skipAnywhere fun _ => .pure _
    · refine .bind (separated hg.parameter) fun ps => ?_
      exact .bind (skipOverAnywhere .rparen _) fun _ => .pure _

end Parameters

section Blocks

variable (hg : InStep a b n g g')
include hg

theorem statementRound (stop : TokenKind → Bool) {count : Nat}
    (hcount : ∀ {s}, P s → Roomy a b n (k + 2) s → count ≤ s.cursor.position) :
    Lockstep a b n P (k + 2) present (g.statementRound stop count)
      (g'.statementRound stop count) := by
  unfold Grammar.statementRound
  refine .lookAt (fun v => v.kind 0) (fun _ _ => rfl) fun t => ?_
  split
  · exact .result Bool.false_ne_true
  · rename_i hgo
    have htoken : t ≠ .eof := by
      rintro rfl
      exact hgo rfl
    refine .settings (.below ?_ (framed_of_ceiling (fun _ => rfl) rfl) ?_)
    · exact fun hs hroom => (hroom.round_lt (hcount hs.1 hroom)).1
    · refine .andThen (attempt (fun s hs => hs.2 ▸ htoken) hg.parseStatement) fun x => ?_
      split
      · exact .pure _
      · exact .pure _

theorem statements (stop : TokenKind → Bool) :
    Lockstep a b n P (k + 2) never (g.statements stop) (g'.statements stop) := by
  unfold Grammar.statements
  refine rounds (fun count s => count ≤ s.cursor.position) (fun x => (hg.statementRound stop fun hs _ => hs).still)
    (fun {count s found count' t} hs hrun => ?_) fun _ _ => Nat.zero_le _
  have hmove := (hg.statementRound (k := k) stop fun hs _ => hs).moves hs hrun rfl
  have hcount := statementRound_some hrun
  show count' ≤ t.cursor.position
  omega

theorem block : Lockstep a b n P k always g.block g'.block := by
  unfold Grammar.block
  refine .andThen (skipOver .lbrace _ nofun) fun _ => ?_
  refine .bind (strictly (hg.statements _)) fun body => ?_
  exact .bind (closeBrace _) fun _ => .pure _

theorem functionBody : Lockstep a b n P k always g.functionBody g'.functionBody := by
  unfold Grammar.functionBody
  refine .test fun brace => ?_
  split
  · exact .andThen hg.block fun body => .pure _
  · exact .andThen (skipOver .semicolon _ nofun) fun _ => .pure _

end Blocks
end InStep

end Grammar

end CTree
