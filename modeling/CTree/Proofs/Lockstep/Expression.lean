import CTree.Proofs.Lockstep.Block

/-!
# Expressions in lockstep
-/

namespace CTree

/-! ### Parts of expressions that need no grammar -/

namespace Lockstep

variable {a b : Source} {n k : Nat} {P : ParseState → Prop}

theorem intLiteral {m : Expr → Prop} (hP : a.Takes n k P m) :
    Lockstep a b n P k m Parse.intLiteral Parse.intLiteral := by
  unfold Parse.intLiteral
  refine .takingToken hP fun t ht => ?_
  split
  · exact .pure _
  · have hshows : a.Shows ⟨.invalidLiteral t.text, t.offset⟩ := ⟨t, ht, rfl, trivial⟩
    exact .bind (report hshows (not_ceiling_invalidLiteral _)) fun _ => .pure _

theorem stringLiterals : Lockstep a b n (a.At .stringLiteral) k always Parse.stringLiterals
    Parse.stringLiterals := by
  unfold Parse.stringLiterals
  refine (iterateAlways (fun value => .test fun more => ?_) (.checkTrue (fun _ hs => hs) ?_)).map
    fun _ hx => hx
  · split
    · exact .bind advanceAnywhere fun t => .pure _
    · exact .pure _
  · exact .andThen (advance (Source.takes_at (by decide))) fun t => .pure _

theorem typeInParentheses (place : String) :
    Lockstep a b n P k always (Parse.typeInParentheses place) (Parse.typeInParentheses place) := by
  unfold Parse.typeInParentheses
  refine .bind skipAnywhere fun _ => .bind typeName fun type => ?_
  exact .andThen (skipOver .rparen _ nofun) fun _ => .pure _

theorem parenthesizedType :
    Lockstep a b n P k present Parse.parenthesizedType Parse.parenthesizedType := by
  unfold Parse.parenthesizedType
  refine .test fun paren => .view fun v => ?_
  split
  · exact speculate (typeInParentheses _)
  · exact .result Bool.false_ne_true

theorem castHead : Lockstep a b n P k always Parse.castHead Parse.castHead := by
  unfold Parse.castHead
  refine .andThen (typeInParentheses _) fun type => .kind fun t => ?_
  split
  · exact .pure _
  · exact unexpected (isPlain_of_head rfl (by decide) (by decide) (by decide))

theorem castType : Lockstep a b n P k present Parse.castType Parse.castType := by
  unfold Parse.castType
  refine strictly (.view fun v => ?_)
  split
  · exact speculate castHead
  · exact .result Bool.false_ne_true

theorem argumentsBeforeUse :
    Lockstep a b n P k always Parse.argumentsBeforeUse Parse.argumentsBeforeUse := by
  unfold Parse.argumentsBeforeUse
  refine .andThen templateArguments fun arguments => .kind fun t => ?_
  split
  any_goals exact .pure _
  exact unexpected (isPlain_of_head rfl (by decide) (by decide) (by decide))

theorem usedTemplateArguments :
    Lockstep a b n P k present Parse.usedTemplateArguments Parse.usedTemplateArguments := by
  unfold Parse.usedTemplateArguments
  exact speculate argumentsBeforeUse

theorem memberName : Lockstep a b n P k always Parse.memberName Parse.memberName := by
  unfold Parse.memberName
  refine .bindBool (accept .tilde nofun) ?_ ?_
  · exact .bind (name _).still fun destructor => .pure _
  · refine .bind (acceptAnywhere .kwTemplate) fun _ => .isCpp fun cpp => ?_
    split
    · exact qualifiedName
    · exact name _

end Lockstep

namespace Grammar

namespace InStep

open Lockstep

variable {a b : Source} {n k : Nat} {P : ParseState → Prop} {g g' : Grammar}

theorem templateName (path : String) :
    Lockstep a b n P k never (Grammar.templateName path) (Grammar.templateName path) := by
  unfold Grammar.templateName
  refine .isCpp fun cpp => .test fun angle => ?_
  split
  · exact .pure _
  · refine .bind usedTemplateArguments.still fun arguments? => ?_
    split
    · exact .pure _
    · refine .test fun colons => .checkAhead fun named => ?_
      split
      · exact .bind skipAnywhere fun _ => .bind qualifiedName.still fun rest => .pure _
      · exact .pure _

theorem operation {p q : Nat → Parse Expr}
    (h : ∀ {P k} level, Lockstep a b n P k always (p level) (q level)) (least : Nat)
    (left : Expr) : Lockstep a b n P k never (Grammar.operation p least left)
      (Grammar.operation q least left) := by
  unfold Grammar.operation
  refine .kind fun t => ?_
  split
  · split
    · exact .pure _
    · exact .bind skipAnywhere fun _ => .andThen (h _) fun right => .pure _
  · exact .pure _

theorem lambdaQualifier (q : Bool × Option String) :
    Lockstep a b n P k never (Grammar.lambdaQualifier q) (Grammar.lambdaQualifier q) := by
  unfold Grammar.lambdaQualifier
  refine .kind fun t => ?_
  split
  · exact .bind skipAnywhere fun _ => .pure _
  · exact .bind skipAnywhere fun _ => .pure _
  · exact .bind skipWithGroup fun _ => .pure _
  · exact .bind skipAnywhere fun _ => .bind (leniently typeName) fun type => .pure _
  · exact .pure _

section Operands

variable (hg : InStep a b n g g')
include hg

/-! ### Operands -/

theorem namedCast (cast : CastKind) :
    Lockstep a b n P k always (g.namedCast cast) (g'.namedCast cast) := by
  unfold Grammar.namedCast
  refine .andThen templateArguments fun arguments => .andThen (skipOver .lparen _ nofun) fun _ => ?_
  refine .andThen hg.expression fun operand => ?_
  exact .andThen (skipOver .rparen _ nofun) fun _ => .pure _

theorem nameExpression : Lockstep a b n P k always g.nameExpression g'.nameExpression := by
  unfold Grammar.nameExpression
  refine .andThen qualifiedName fun path => ?_
  split
  · exact .pure _
  · split
    · refine .test fun angle => ?_
      split
      · exact (hg.namedCast _).still
      · exact templateName path
    · exact templateName path

theorem typeidOf : Lockstep a b n P k always g.typeidOf g'.typeidOf := by
  unfold Grammar.typeidOf
  refine .bind skipAnywhere fun _ => .bindOption parenthesizedType (fun type => .pure _) ?_
  refine .andThen (skipOver .lparen _ nofun) fun _ => .andThen hg.expression fun operand => ?_
  exact .andThen (skipOver .rparen _ nofun) fun _ => .pure _

theorem newSize : Lockstep a b n P k never g.newSize g'.newSize := by
  unfold Grammar.newSize
  refine .bindBool (accept .lbracket nofun) ?_ (.pure _)
  refine .andThen hg.expression fun size => ?_
  exact .andThen (skipOver .rbracket _ nofun) fun _ => .pure _

theorem newArguments : Lockstep a b n P k never g.newArguments g'.newArguments := by
  unfold Grammar.newArguments
  refine .bindBool (accept .lparen nofun) (hg.arguments .rparen nofun).still (.test fun brace => ?_)
  split
  · exact hg.initializerList.still
  · exact .pure _

theorem newObject {m : Expr → Prop} (hP : a.Takes n k P m) :
    Lockstep a b n P k m g.newObject g'.newObject := by
  unfold Grammar.newObject
  refine .taking hP skip fun _ => .bindBool (accept .lparen nofun) ?_ ?_
  · refine .andThen (hg.arguments .rparen nofun) fun _ => .bind (leniently typeName) fun type => ?_
    exact .bind hg.newSize fun size? => .bind hg.newArguments fun values => .pure _
  · refine .bind (leniently typeName) fun type => ?_
    exact .bind hg.newSize fun size? => .bind hg.newArguments fun values => .pure _

theorem deletion {m : Expr → Prop} (hP : a.Takes n k P m) :
    Lockstep a b n P k m g.deletion g'.deletion := by
  unfold Grammar.deletion
  refine .taking hP skip fun _ => .bind emptyBrackets fun isArray => ?_
  exact .andThen hg.parseUnary fun operand => .pure _

theorem capture : Lockstep a b n P k never g.capture g'.capture := by
  unfold Grammar.capture
  refine .kind fun t => ?_
  split
  · exact .bind skipAnywhere fun _ => .pure _
  · refine .bind skipAnywhere fun _ => .test fun named => ?_
    split
    · exact .bind advanceAnywhere fun t => .bind (acceptAnywhere .ellipsis) fun _ => .pure _
    · exact .pure _
  · exact .bind skipAnywhere fun _ => .pure _
  · refine .checkAhead fun this => ?_
    split
    · exact .bind skipAnywhere fun _ => .bind skipAnywhere fun _ => .pure _
    · exact expected _
  · refine .bind advanceAnywhere fun t => .bind (acceptAnywhere .ellipsis) fun _ => ?_
    exact .bind (optionalAfter .assign hg.expression.still nofun).still fun init? => .pure _
  · exact expected _

theorem lambda : Lockstep a b n P k always g.lambda g'.lambda := by
  unfold Grammar.lambda
  refine .bind skipAnywhere fun _ => .bind (commaList _ hg.capture) fun captures => ?_
  refine .andThen (skipOver .rbracket _ nofun) fun _ => .test fun paren => ?_
  split
  · refine .bind (leniently hg.parameters).still fun ps => ?_
    exact .bind (iterate lambdaQualifier _) fun q => .andThen hg.block fun body => .pure _
  · refine .bind (.pure _) fun ps => ?_
    exact .bind (iterate lambdaQualifier _) fun q => .andThen hg.block fun body => .pure _

theorem primary : Lockstep a b n P k always g.primary g'.primary := by
  unfold Grammar.primary
  refine .kind fun t => ?_
  split
  · exact intLiteral (Source.takes_at (by decide))
  · exact intLiteral (Source.takes_at (by decide))
  · exact intLiteral (Source.takes_at (by decide))
  · exact .andThen (advance (Source.takes_at (by decide))) fun t => .pure _
  · exact stringLiterals
  · exact .andThen (advance (Source.takes_at (by decide))) fun t => .pure _
  · exact .andThen (skip (Source.takes_at (by decide))) fun _ => .pure _
  · exact .andThen (skip (Source.takes_at (by decide))) fun _ => .pure _
  · exact .andThen (skip (Source.takes_at (by decide))) fun _ => .pure _
  · exact .andThen (skip (Source.takes_at (by decide))) fun _ => .pure _
  · refine .andThen (skip (Source.takes_at (by decide))) fun _ => ?_
    refine .andThen hg.commaExpression fun value => ?_
    exact .andThen (skipOver .rparen _ nofun) fun _ => .pure _
  · exact hg.bracedList
  · refine .isCpp fun cpp => ?_
    split
    · exact hg.lambda
    · exact expected _
  · exact hg.newObject (Source.takes_at (by decide))
  · exact hg.deletion (Source.takes_at (by decide))
  · exact hg.typeidOf
  · exact hg.nameExpression
  · exact hg.nameExpression
  · refine .checkAhead fun call => ?_
    split
    · rename_i hcall
      have htoken : t ≠ .eof := by
        rintro rfl
        cases hcall
      exact .andThen (advance (Source.takes_at htoken)) fun t => .pure _
    · exact expected _

end Operands

section Operators

variable (hg : InStep a b n g g')
include hg

/-! ### Operators -/

theorem suffix (operand : Expr) :
    Lockstep a b n P k never (g.suffix operand) (g'.suffix operand) := by
  unfold Grammar.suffix
  refine .kind fun t => ?_
  split
  · refine .andThen (skip (Source.takes_at (by decide))) fun _ => ?_
    exact .andThen (hg.arguments .rparen nofun) fun values => .pure _
  · refine .andThen (skip (Source.takes_at (by decide))) fun _ => ?_
    refine .andThen hg.commaExpression fun position => ?_
    exact .andThen (skipOver .rbracket _ nofun) fun _ => .pure _
  · exact .bind advanceAnywhere fun t => .bind memberName.still fun name => .pure _
  · exact .bind advanceAnywhere fun t => .bind memberName.still fun name => .pure _
  · refine .andThen (advance (Source.takes_at (by decide))) fun t => ?_
    exact .andThen hg.parseUnary fun pointer => .pure _
  · refine .andThen (advance (Source.takes_at (by decide))) fun t => ?_
    exact .andThen hg.parseUnary fun pointer => .pure _
  · exact .bind skipAnywhere fun _ => .pure _
  · exact .bind skipAnywhere fun _ => .pure _
  · refine .isCpp fun cpp => .view fun v => ?_
    split
    · exact .bind hg.initializerList.still fun es => .pure _
    · exact .pure _
  · exact .pure _

theorem suffixed : Lockstep a b n P k always g.suffixed g'.suffixed := by
  unfold Grammar.suffixed
  exact .andThen hg.primary fun operand => iterate hg.suffix operand

theorem sizeofOf {m : Expr → Prop} (hP : a.Takes n k P m) :
    Lockstep a b n P k m g.sizeofOf g'.sizeofOf := by
  unfold Grammar.sizeofOf
  refine .taking hP skip fun _ => .bind (acceptAnywhere .ellipsis) fun pack => ?_
  split
  · refine .bind (skipOverAnywhere .lparen _) fun _ => .bind (name _).still fun pack => ?_
    exact .bind (skipOverAnywhere .rparen _) fun _ => .pure _
  · refine .bind parenthesizedType.still fun type? => ?_
    split
    · exact .pure _
    · exact .andThen hg.parseUnary fun operand => .pure _

theorem castOperand : Lockstep a b n P (k + 1) always g.castOperand g'.castOperand := by
  unfold Grammar.castOperand
  refine .test fun brace => ?_
  split
  · exact hg.bracedList
  · exact hg.parseUnary

theorem unary : Lockstep a b n P k always g.unary g'.unary := by
  unfold Grammar.unary
  refine .kind fun t => ?_
  split
  · rename_i op hop
    have htoken : t ≠ .eof := by
      rintro rfl
      cases hop
    refine .andThen (skip (Source.takes_at htoken)) fun _ => ?_
    exact .andThen hg.parseUnary fun operand => .pure _
  · refine .kind fun t => ?_
    split
    · exact hg.sizeofOf (Source.takes_at (by decide))
    · refine .bindOption castType (fun type => ?_) hg.suffixed
      exact .andThen hg.castOperand fun operand => .pure _
    · exact hg.suffixed

theorem binary (levels least : Nat) :
    Lockstep a b n P k always (g.binary levels least) (g'.binary levels least) := by
  induction levels generalizing P k least with
  | zero => exact hg.unary
  | succ levels ih =>
    unfold Grammar.binary
    exact .andThen hg.unary fun first => iterate (fun left => operation ih least left) first

/-- The last part of a choice is a construct of its own, after a token. -/
theorem conditional : Lockstep a b n P k always g.conditional g'.conditional := by
  unfold Grammar.conditional
  refine .andThen (hg.binary _ _) fun condition => .bindBool (accept .question nofun) ?_ (.pure _)
  refine .andThen hg.commaExpression fun yes => .andThen (skipOver .colon _ nofun) fun _ => ?_
  exact .andThen hg.parseAssignment fun no => .pure _

theorem assignment : Lockstep a b n P k always g.assignment g'.assignment := by
  unfold Grammar.assignment
  refine .andThen hg.conditional fun target => .kind fun t => ?_
  split
  · exact .pure _
  · refine .bind skipAnywhere fun _ => .test fun brace => ?_
    split
    · exact .andThen hg.bracedList fun value => .pure _
    · exact .andThen hg.parseAssignment fun value => .pure _

/-! ### Initializers -/

theorem element : Lockstep a b n P (k + 1) never g.element g'.element := by
  unfold Grammar.element
  refine .view fun v => ?_
  split
  · refine .bind skipAnywhere fun _ => .bind advanceAnywhere fun field => ?_
    refine .bind skipAnywhere fun _ => .andThen hg.initializer fun value => .pure _
  · exact hg.initializer.still

theorem elements : Lockstep a b n P (k + 1) always g.elements g'.elements := by
  unfold Grammar.elements
  refine .bind (commaList _ hg.element) fun es => ?_
  exact .andThen (skipOver .rbrace _ nofun) fun _ => .pure _

end Operators

end InStep

end Grammar

end CTree
