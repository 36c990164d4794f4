import CTree.Proofs.Lockstep.Declarator

/-!
# Templates, assertions and directives in lockstep
-/

namespace CTree

/-! ### Heads -/

section Heads

open Parse

variable {a b : Source} {n k : Nat} {s : ParseState}

/-- A skip to a body that may take all tokens that are left finds one, and no larger number of
    tokens changes what it does. -/
theorem skipToBody_same {i i' : Nat} (hroom : Roomy a b n k s)
    (h : (a.view s).remaining ≤ i) (h' : (a.view s).remaining ≤ i') (parens : Nat) :
    ∃ t, (skipToBody i' parens).run b s = (.ok true, t) ∧
      (skipToBody i parens).run a s = (.ok true, t) ∧ Roomy a b n k t := by
  induction i generalizing i' s parens with
  | zero => exact (Source.remaining_ne_zero hroom.inside h).elim
  | succ i ih =>
    cases i' with
    | zero => exact (Source.remaining_ne_zero hroom.inside h').elim
    | succ i' =>
      unfold skipToBody
      rw [run_bind_ok run_kind, run_bind_ok run_kind, hroom.twin.view_eq]
      have hgo : (a.view s).kind 0 ≠ .eof → ∀ parens,
          ∃ t, (skip >>= fun _ => skipToBody i' parens).run b s = (.ok true, t) ∧
            (skip >>= fun _ => skipToBody i parens).run a s = (.ok true, t) ∧
            Roomy a b n k t := by
        intro htoken parens
        rw [run_bind_ok run_skip, run_bind_ok run_skip, hroom.twin.stream]
        exact ih hroom.advance (Source.remaining_advance htoken h)
          (Source.remaining_advance htoken h') parens
      split
      · exact ⟨s, rfl, rfl, hroom⟩
      · exact ⟨s, rfl, rfl, hroom⟩
      · exact ⟨s, rfl, rfl, hroom⟩
      · rename_i hkind
        exact hgo (by rw [hkind]; decide) _
      · rename_i hkind
        exact hgo (by rw [hkind]; decide) _
      · rename_i hkind _ _ _ _
        exact hgo hkind _

end Heads

namespace Lockstep

variable {a b : Source} {n k : Nat} {P : ParseState → Prop}

theorem skipToBody (fuel parens : Nat) :
    Lockstep a b n P k never (Parse.skipToBody fuel parens) (Parse.skipToBody fuel parens) := by
  induction fuel generalizing P parens with
  | zero => exact .pure _
  | succ fuel ih =>
    unfold Parse.skipToBody
    refine .kind fun t => ?_
    split
    · exact .pure _
    · exact .pure _
    · exact .pure _
    · exact .bind skipAnywhere fun _ => ih _
    · exact .bind skipAnywhere fun _ => ih _
    · exact .bind skipAnywhere fun _ => ih _

theorem headText : Lockstep a b n P k never Parse.headText Parse.headText where
  toFramed := by
    refine Lockstep.toFramed (b := a) (n := 0) (k := 1) (q := Parse.headText) ?_
    unfold Parse.headText
    refine .mark fun start => .settings (.bind (skipToBody _ _) fun found => ?_)
    cases found with
    | true => exact textSince
    | false => exact .ofFramed (framed_of_ceiling (fun _ => rfl) rfl)
  same {s} _ hroom := by
    obtain ⟨ha, hb⟩ := hroom.remaining_le
    obtain ⟨t, hrun', hrun, hroom'⟩ := skipToBody_same hroom ha hb 0
    unfold Parse.headText
    rw [Parse.run_bind_ok Parse.run_position, Parse.run_bind_ok Parse.run_position,
      Parse.run_bind_ok Parse.run_settings, Parse.run_bind_ok Parse.run_settings,
      Parse.run_bind_ok hrun, Parse.run_bind_ok hrun']
    exact (textSince (P := anywhere)).same trivial hroom'

/-! ### Parameters of templates -/

theorem skipDefault (fuel : Nat) (inside : ArgumentNesting) :
    Lockstep a b n P k never (Parse.skipDefault fuel inside) (Parse.skipDefault fuel inside) := by
  induction fuel generalizing P inside with
  | zero => exact .pure _
  | succ fuel ih =>
    unfold Parse.skipDefault
    refine .kind fun t => ?_
    split
    · exact expected _
    · exact .pure _
    · exact .bind skipAnywhere fun _ => ih _

theorem templateDefault :
    Lockstep a b n P k never Parse.templateDefault Parse.templateDefault := by
  unfold Parse.templateDefault
  refine .mark fun start => .view fun v => .bind (skipDefault _ _) fun _ => .mark fun stop => ?_
  split
  · exact .bind (expected _) fun _ => textSince
  · exact textSince

theorem templateParameterKind :
    Lockstep a b n P k never Parse.templateParameterKind Parse.templateParameterKind := by
  unfold Parse.templateParameterKind
  refine .kind fun t => ?_
  split
  · exact .bind advanceAnywhere fun t => .pure _
  · exact .bind advanceAnywhere fun t => .pure _
  · refine .bind skipAnywhere fun _ => .bind templateArguments.still fun _ => .kind fun t => ?_
    split
    · exact .bind skipAnywhere fun _ => .pure _
    · exact .bind skipAnywhere fun _ => .pure _
    · exact expected _
  · exact leniently typeName

theorem templateParameter :
    Lockstep a b n P k never Parse.templateParameter Parse.templateParameter := by
  unfold Parse.templateParameter
  refine .bind templateParameterKind fun kind => .bind (acceptAnywhere .ellipsis) fun isPack => ?_
  refine .bind nameOrNone fun name => ?_
  exact .bind (optionalAfter .assign templateDefault nofun).still fun default? => .pure _

theorem strictTemplateParameters : Lockstep a b n P k always Parse.strictTemplateParameters
    Parse.strictTemplateParameters := by
  unfold Parse.strictTemplateParameters
  refine .andThen (skipOver .lt _ nofun) fun _ => .bind (acceptAnywhere .gt) fun none => ?_
  split
  · exact .pure _
  · refine .bind (separated templateParameter) fun ps => ?_
    exact .bind (skipOverAnywhere .gt _) fun _ => .pure _

theorem templateParameters :
    Lockstep a b n P k never Parse.templateParameters Parse.templateParameters := by
  unfold Parse.templateParameters
  refine .test fun angle => ?_
  split
  · refine .bind (speculate strictTemplateParameters).still fun ps? => ?_
    split
    · exact .pure _
    · exact .bind templateArguments.still fun arguments => .pure _
  · exact .pure _

/-! ### Declarations that a head shows -/

theorem templateClass : Lockstep a b n P k never Parse.templateClass Parse.templateClass := by
  unfold Parse.templateClass
  refine .bind advanceAnywhere fun t => .bind (name _).still fun name => ?_
  refine .bind (register _) fun _ => .test fun angle => ?_
  split
  · refine .bind templateArguments.still fun _ => .test fun isForward => ?_
    exact .bind (baseClasses _) fun bases => .pure _
  · exact .test fun isForward => .bind (baseClasses _) fun bases => .pure _

theorem templateUsing : Lockstep a b n P k never Parse.templateUsing Parse.templateUsing := by
  unfold Parse.templateUsing
  refine .bind skipAnywhere fun _ => .bind (name _).still fun name => ?_
  refine .bind (skipOverAnywhere .assign _) fun _ => .mark fun start => ?_
  refine .bind (skipWhile _) fun _ => .bind (register _) fun _ => ?_
  exact .bind textSince fun text => .pure _

/-! ### Directives -/

theorem directive {m : Decl → Prop} (hP : a.Takes n k P m) :
    Lockstep a b n P k m Parse.directive Parse.directive := by
  unfold Parse.directive
  refine .taking hP advance fun t => ?_
  split
  · exact .pure _
  · refine .mark fun start => .bind ?_ fun stop => ?_
    · exact reading (fun source _ => Text.logicalEnd source.text t.offset) (fun _ _ => rfl)
        fun hroom => by rw [hroom.twin.text]
    · refine .bind (iterate (fun _ => .test fun ended => .peek fun t _ => ?_) _) fun _ => ?_
      · split
        · exact .bind skipAnywhere fun _ => .pure _
        · exact .pure _
      · refine .bind (reading (fun source v => source.exactText start v.cursor.position)
          (fun _ _ => rfl) fun hroom => ?_) fun text => .pure _
        simp only [Source.exactText, hroom.twin.view_eq, hroom.twin.stream, hroom.twin.text]

theorem assertionMessage :
    Lockstep a b n P k never Grammar.assertionMessage Grammar.assertionMessage := by
  unfold Grammar.assertionMessage
  refine .bind (acceptAnywhere .comma) fun comma => ?_
  split
  · exact .bind (requireAnywhere .stringLiteral _) fun t => .pure _
  · exact .pure _

end Lockstep

namespace Grammar

namespace InStep

open Lockstep

variable {a b : Source} {n k : Nat} {P : ParseState → Prop} {g g' : Grammar}
  (hg : InStep a b n g g')
include hg

theorem templateFunction :
    Lockstep a b n P k always g.templateFunction g'.templateFunction := by
  unfold Grammar.templateFunction
  refine .bind specifiers fun specs => .bind typeName fun type => ?_
  refine .andThen qualifiedName fun name => .andThen hg.parameters fun ps => ?_
  exact .bind functionQualifiers fun q => .pure _

theorem templateHead : Lockstep a b n P k never g.templateHead g'.templateHead := by
  unfold Grammar.templateHead
  refine .kind fun t => ?_
  split
  · exact templateClass
  · exact templateClass
  · exact templateClass
  · exact templateUsing
  · exact hg.templateFunction.still

theorem template {m : Decl → Prop} (hP : a.Takes n k P m) :
    Lockstep a b n P k m g.template g'.template := by
  unfold Grammar.template
  refine .taking hP skip fun _ => .bind templateParameters fun ps => ?_
  refine .bind (rereading headText (leniently hg.templateHead).speculateStill) fun head => ?_
  refine .test fun brace => ?_
  split
  · refine .bind (skipBalanced _ _ (by decide)).still fun _ => ?_
    exact .bind (acceptAnywhere .semicolon) fun _ => .pure _
  · exact .bind (skipOverAnywhere .semicolon _) fun _ => .pure _

/-! ### Assertions -/

theorem staticAssertion :
    Lockstep a b n P k always g.staticAssertion g'.staticAssertion := by
  unfold Grammar.staticAssertion
  refine .andThen (skipOver .kwStaticAssert _ nofun) fun _ => ?_
  refine .andThen (skipOver .lparen _ nofun) fun _ => ?_
  refine .andThen hg.expression fun condition => .bind Lockstep.assertionMessage fun _ => ?_
  refine .bind (skipOverAnywhere .rparen _) fun _ => ?_
  exact .bind (skipOverAnywhere .semicolon _) fun _ => .pure _

end InStep

end Grammar

end CTree
