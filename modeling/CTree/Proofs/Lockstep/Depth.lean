import CTree.Proofs.Lockstep.Statement

/-!
# Grammars of different depths in lockstep

`Grammar.ofDepth` ties the rules together once for each construct that may be opened. So what holds of
all rules of one grammar holds of the nonterminals of the next, and two grammars of different depths
read alike as long as the shallower one does not run out of constructs.
-/

namespace CTree

namespace Grammar

namespace InStep

open Lockstep

variable {a b b' : Source} {n : Nat} {g g' g'' : Grammar}

/-- One construct more. -/
theorem step (h : InStep a b n g g') : InStep a b (n + 1) ⟨fun r => Parse.nested (g.rule r)⟩
    ⟨fun r => Parse.nested (g'.rule r)⟩ where
  parseAssignment := .nested h.assignment
  parseConditional := .nested h.conditional
  parseUnary := .nested h.unary
  parseElements := .nested h.elements
  parseStatement := .nested h.statement
  parseMembers owner bases access := .nested (h.members owner bases access)
  parseItems := .nested (h.items true)
  parseItem := .nested h.item

/-- Where nothing can be opened, any two grammars are in lockstep whose first keeps the frame. -/
theorem lower (h : InStep a b n g g') : InStep a b' 0 g g'' where
  parseAssignment := .ofFramed (h.parseAssignment (k := 0)).toFramed
  parseConditional := .ofFramed (h.parseConditional (k := 0)).toFramed
  parseUnary := .ofFramed (h.parseUnary (k := 0)).toFramed
  parseElements := .ofFramed (h.parseElements (k := 0)).toFramed
  parseStatement := .ofFramed (h.parseStatement (k := 0)).toFramed
  parseMembers owner bases access := .ofFramed (h.parseMembers (k := 0) owner bases access).toFramed
  parseItems := .ofFramed (h.parseItems (k := 0)).toFramed
  parseItem := .ofFramed (h.parseItem (k := 0)).toFramed

/-- A grammar that opens nothing fails wherever it is asked to. -/
theorem ofDepth_zero : InStep a b 0 (ofDepth 0) g where
  parseAssignment := .ofFramed (framed_of_ceiling (fun _ => rfl) rfl)
  parseConditional := .ofFramed (framed_of_ceiling (fun _ => rfl) rfl)
  parseUnary := .ofFramed (framed_of_ceiling (fun _ => rfl) rfl)
  parseElements := .ofFramed (framed_of_ceiling (fun _ => rfl) rfl)
  parseStatement := .ofFramed (framed_of_ceiling (fun _ => rfl) rfl)
  parseMembers _ _ _ := .ofFramed (framed_of_ceiling (fun _ => rfl) rfl)
  parseItems := .ofFramed (framed_of_ceiling (fun _ => rfl) rfl)
  parseItem := .ofFramed (framed_of_ceiling (fun _ => rfl) rfl)

end InStep

/-- A grammar of any depth keeps the frame. -/
theorem ofDepth_framed (a : Source) (i : Nat) : InStep a a 0 (ofDepth i) (ofDepth i) := by
  induction i with
  | zero => exact .ofDepth_zero
  | succ i ih => exact ih.step.lower

/-- Grammars that open at least `n` constructs are in lockstep while no more are needed. -/
theorem ofDepth_inStep (a b : Source) {n i j : Nat} (hi : n ≤ i) (hj : n ≤ j) :
    InStep a b n (ofDepth i) (ofDepth j) := by
  -- The induction is on what is needed: the depths may differ, and only have to be as large.
  induction n generalizing i j with
  | zero => exact (ofDepth_framed a i).lower
  | succ n ih =>
    cases i with
    | zero => exact (Nat.not_succ_le_zero n hi).elim
    | succ i =>
      cases j with
      | zero => exact (Nat.not_succ_le_zero n hj).elim
      | succ j => exact (ih (Nat.le_of_succ_le_succ hi) (Nat.le_of_succ_le_succ hj)).step

end Grammar

end CTree
