import CTree.Parse.Member
import CTree.Proofs.Lockstep.Lookahead
import CTree.Proofs.Lockstep.Recovery

/-!
# Type names in lockstep

The parsers that open no construct: specifiers, type names, qualified names, and what stands around
parameters.
-/

namespace CTree

namespace Lockstep

variable {a b : Source} {n k : Nat} {P : ParseState → Prop} {m : String → Prop}
  {m' : String × String → Prop}

/-! ### Type names -/

theorem specifiers : Lockstep a b n P k never Parse.specifiers Parse.specifiers := by
  unfold Parse.specifiers
  refine iterate (fun s => .view fun v => ?_) _
  split
  · exact .bind skipAnywhere fun _ => .pure _
  · exact .pure _

theorem argumentsFrom (start : Nat) (inside : ArgumentNesting) (fuel : Nat) :
    Lockstep a b n P k never (Parse.argumentsFrom start inside fuel)
      (Parse.argumentsFrom start inside fuel) := by
  induction fuel generalizing P start inside with
  | zero => exact expected _
  | succ fuel ih =>
    unfold Parse.argumentsFrom
    refine .kind fun t => ?_
    split
    · exact expected _
    · exact .bind textSince fun text => .bind skipAnywhere fun _ => .pure _
    · refine .bind textSince fun text => .bind skipAnywhere fun _ => ?_
      exact .mark fun i => .bind (ih i inside) fun rest => .pure _
    · exact .bind skipAnywhere fun _ => ih start _

theorem templateArguments :
    Lockstep a b n P k always Parse.templateArguments Parse.templateArguments := by
  unfold Parse.templateArguments
  refine .andThen (skipOver .lt _ nofun) fun _ => .mark fun i => .view fun v => ?_
  refine .bind (argumentsFrom i {} _) fun arguments => ?_
  split
  · exact .pure _
  · exact .pure _

theorem plainSegment (path : TypePath) :
    Lockstep a b n P k never (Parse.plainSegment path) (Parse.plainSegment path) := by
  unfold Parse.plainSegment
  refine .test fun colons => .checkAhead fun named => ?_
  split
  · exact .bind skipAnywhere fun _ => .bind advanceAnywhere fun t => .pure _
  · exact .pure _

theorem typeSegment (path : TypePath) :
    Lockstep a b n P k never (Parse.typeSegment path) (Parse.typeSegment path) := by
  unfold Parse.typeSegment
  refine .isCpp fun cpp => .test fun angle => ?_
  split
  · exact .bind templateArguments.speculate.still fun _ => plainSegment path
  · exact plainSegment path

theorem globalScope : Lockstep a b n P k never Parse.globalScope Parse.globalScope := by
  unfold Parse.globalScope
  refine .bind (acceptAnywhere .colonColon) fun global => ?_
  split
  · exact .pure _
  · exact .pure _

theorem typePath : Lockstep a b n P k always Parse.typePath Parse.typePath := by
  unfold Parse.typePath
  refine .bind globalScope fun scope => ?_
  exact .andThen (name _) fun first => iterate typeSegment _

theorem namedType : Lockstep a b n P k never Parse.namedType Parse.namedType := by
  unfold Parse.namedType
  refine .bind typePath.still fun path => .view fun v => ?_
  split
  · exact .pure _
  · refine unexpected ?_
    rw [String.append_assoc]
    exact isPlain_append rfl (by decide) (by decide) (by decide)

theorem bareCore : Lockstep a b n P k never Parse.bareCore Parse.bareCore := by
  unfold Parse.bareCore
  refine .kind fun t => ?_
  split
  any_goals exact .bind skipAnywhere fun _ => .bind typePath.still fun _ => .pure _
  · exact .bind skipAnywhere fun _ => (skipBalanced _ _ (by decide)).still
  · exact namedType
  · exact namedType
  · split
    · exact skipWhile _
    · exact expected _

theorem typeCore : Lockstep a b n P k never Parse.typeCore Parse.typeCore := by
  unfold Parse.typeCore
  exact .bind (skipWhile _) fun _ => .bind bareCore fun _ => skipWhile _

theorem typeName : Lockstep a b n P k never Parse.typeName Parse.typeName := by
  unfold Parse.typeName
  refine .mark fun start => .bind typeCore fun _ => ?_
  exact .bind (skipWhile _) fun _ => textSince

theorem nameSegment (path : String) :
    Lockstep a b n P k never (Parse.nameSegment path) (Parse.nameSegment path) := by
  unfold Parse.nameSegment
  refine .test fun colons => .checkAhead fun named => ?_
  split
  · exact .bind skipAnywhere fun _ => .bind advanceAnywhere fun t => .pure _
  · exact .pure _

theorem qualifiedName : Lockstep a b n P k always Parse.qualifiedName Parse.qualifiedName := by
  unfold Parse.qualifiedName
  refine .isCpp fun cpp => ?_
  split
  · exact .bind globalScope fun scope => .andThen (name _) fun first => iterate nameSegment _
  · exact .bind (.pure _) fun scope => .andThen (name _) fun first => iterate nameSegment _

theorem emptyBrackets : Lockstep a b n P k never Parse.emptyBrackets Parse.emptyBrackets := by
  unfold Parse.emptyBrackets
  refine .test fun opening => .checkAhead fun closing => ?_
  split
  · exact .bind skipAnywhere fun _ => .bind skipAnywhere fun _ => .pure _
  · exact .pure _

/-! ### Around parameters -/

theorem functionPointer {p q : Parse String} (h : Lockstep a b n anywhere k never p q) :
    Lockstep a b n P k always (Parse.functionPointer p) (Parse.functionPointer q) := by
  unfold Parse.functionPointer
  refine .bind skipAnywhere fun _ => .bind skipAnywhere fun _ => .bind h fun name => ?_
  refine .andThen (skipOver .rparen _ nofun) fun _ => .mark fun start => ?_
  exact .andThen (skipBalanced _ _ (by decide)) fun _ => .bind textSince fun text => .pure _

theorem atFunctionPointer :
    Lockstep a b n P k never Parse.atFunctionPointer Parse.atFunctionPointer := by
  unfold Parse.atFunctionPointer
  exact .test fun _ => .checkAhead fun _ => .pure _

theorem declaredName {p p' q q' : Parse String} (hp : Lockstep a b n anywhere k never p q)
    (hp' : Lockstep a b n anywhere k m p' q') (hm : ∀ x, m' x → m x.1):
    Lockstep a b n P k m' (Parse.declaredName p p') (Parse.declaredName q q') := by
  unfold Parse.declaredName
  refine .bind atFunctionPointer fun pointer => ?_
  split
  · exact (functionPointer hp).any
  · exact hp'.bindCases (fun name _ => .pure _) fun name hname => .result fun h => hname (hm _ h)

theorem bracketTexts (text : String) :
    Lockstep a b n P k never (Parse.bracketTexts text) (Parse.bracketTexts text) := by
  unfold Parse.bracketTexts
  refine iterate (fun text => .test fun bracket => ?_) text
  split
  · refine .mark fun start => .bind (skipBalanced _ _ (by decide)).still fun _ => ?_
    exact .bind textSince fun more => .pure _
  · exact .pure _

theorem functionQualifier (q : FunctionQualifiers) :
    Lockstep a b n P k never (Parse.functionQualifier q) (Parse.functionQualifier q) := by
  unfold Parse.functionQualifier
  refine .kind fun t => ?_
  split
  · exact .bind skipWithGroup fun _ => .pure _
  · exact .bind skipWithGroup fun _ => .pure _
  · refine .isCpp fun cpp => ?_
    split
    · exact .bind skipAnywhere fun _ => .bind typeName fun type => .pure _
    · exact .pure _
  · refine .view fun v => ?_
    split
    · exact .bind skipAnywhere fun _ => .pure _
    · exact .bind skipAnywhere fun _ => .bind skipAnywhere fun _ => .pure _
    · exact .pure _

theorem functionQualifiers :
    Lockstep a b n P k never Parse.functionQualifiers Parse.functionQualifiers := by
  unfold Parse.functionQualifiers
  exact iterate functionQualifier _

end Lockstep

end CTree
