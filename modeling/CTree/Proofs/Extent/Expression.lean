import CTree.Proofs.Extent.Nodes

/-!
# Expressions that fit

Every rule for expressions gives nodes that fit, if the nonterminals that it uses do. The statements of a body
are counted as they are read, so that no body is longer than the settings allow.
-/

namespace CTree

open Parse

variable {source : Source}

/-- Every nonterminal gives nodes that fit. -/
structure Grammar.Fits (source : Source) (g : Grammar) : Prop where
  parseAssignment : Yields source (Expr.AllFit source) (g.parse .assignment)
  parseConditional : Yields source (Expr.AllFit source) (g.parse .conditional)
  parseUnary : Yields source (Expr.AllFit source) (g.parse .unary)
  parseElements : Yields source (Each (Expr.AllFit source)) (g.parse .elements)
  parseStatement : Yields source (Maybe (Stmt.AllFit source)) (g.parse .statement)
  parseMembers : ∀ owner bases access, source.InLine owner →
    Yields source (Each (Decl.AllFit source)) (g.parse (.members owner bases access))
  parseItems : Yields source (Each (Stmt.AllFit source)) (g.parse .items)
  parseItem : Yields source (Maybe (Stmt.AllFit source)) (g.parse .item)

namespace Grammar

namespace Fits

variable {g : Grammar} (hg : g.Fits source)

section Lists

include hg

/-! ### Expressions and lists of them -/

theorem expression : Yields source (Expr.AllFit source) g.expression := by
  unfold Grammar.expression
  exact hg.parseAssignment.strictly

theorem commaExpression : Yields source (Expr.AllFit source) g.commaExpression := by
  unfold Grammar.commaExpression
  refine hg.expression.bind fun first hfirst => .iterate (fun left hleft => ?_) hfirst
  unfold Grammar.moreComma
  refine .after fun more => ?_
  split
  · exact hg.expression.bind fun right hright => .pure (Maybe.some (Expr.fits_binary hleft hright))
  · exact .pure Maybe.none

theorem initializerList : Yields source (Each (Expr.AllFit source)) g.initializerList := by
  unfold Grammar.initializerList
  exact .after fun _ => hg.parseElements

theorem bracedList : Yields source (Expr.AllFit source) g.bracedList := by
  unfold Grammar.bracedList
  exact hg.initializerList.bind fun es hes => .pure (Expr.fits_initializers hes)

theorem initializer : Yields source (Expr.AllFit source) g.initializer := by
  unfold Grammar.initializer
  refine .after fun brace => ?_
  split
  · exact hg.bracedList
  · exact hg.expression

theorem arguments (closing : TokenKind) :
    Yields source (Each (Expr.AllFit source)) (g.arguments closing) := by
  unfold Grammar.arguments
  refine .after fun closed => ?_
  split
  · exact .pure Each.nil
  · have hargument : Yields source (Expr.AllFit source) g.argument := by
      unfold Grammar.argument
      exact hg.initializer.bind fun value hvalue => .after fun _ => .pure hvalue
    exact (Yields.separated hargument).bind fun values hvalues => .after fun _ => .pure hvalues

theorem dimensions : Yields source (fun ds => ∀ e, some e ∈ ds → e.AllFit source) g.dimensions := by
  unfold Grammar.dimensions
  refine (Yields.collect (m := Maybe (Expr.AllFit source)) ?_).mono fun ds hds e he => hds _ he e rfl
  refine .after fun opening => ?_
  split
  · refine .after fun closing => ?_
    split
    · exact .pure (Maybe.some Maybe.none)
    · refine hg.expression.bind fun size hsize => .after fun _ => ?_
      exact .pure (Maybe.some (Maybe.some hsize))
  · exact .pure Maybe.none

/-! ### Parameters -/

theorem parameter : Yields source (Parameter.AllFit source) g.parameter := by
  unfold Grammar.parameter
  refine .after fun any => ?_
  split
  · exact .pure (Parameter.fits (.const (by decide)) .empty Maybe.none)
  · unfold Grammar.typedParameter
    refine .after fun _ => Source.InLine.typeName.bind fun type htype => .after fun pack => ?_
    have hpack : source.InLine (type ++ if pack = true then "..." else "") := by
      refine htype.append ?_
      split <;> exact .const (by decide)
    refine (Source.InLine.declaredName .nameOrNone .nameOrNone).bind fun r hr => ?_
    refine (Source.InLine.bracketTexts (hpack.append hr.2)).bind fun type htype => ?_
    refine (hg.expression.optionalAfter .assign).bind fun default? hdefault => ?_
    exact .pure (Parameter.fits htype hr.1 hdefault)

theorem parameters : Yields source (Each (Parameter.AllFit source)) g.parameters := by
  unfold Grammar.parameters
  refine .after fun _ => .after fun empty => ?_
  split
  · exact .pure Each.nil
  · refine .after fun void => .after fun closing => ?_
    split
    · exact .after fun _ => .after fun _ => .pure Each.nil
    · exact (Yields.separated hg.parameter).bind fun ps hps => .after fun _ => .pure hps

/-! ### Bodies -/

/-- A round reads at most one statement. It counts the one that it reads, and it reads none when as many are
counted as the settings allow. -/
theorem statementRound (stop : TokenKind → Bool) (count : Nat) :
    Yields source (Maybe fun found => Each (Stmt.AllFit source) found.1 ∧
      count + found.1.length = found.2 ∧ (count ≤ source.settings.maxStatements →
        found.2 ≤ source.settings.maxStatements)) (g.statementRound stop count) := by
  unfold Grammar.statementRound
  refine .after fun k => ?_
  split
  · exact .pure Maybe.none
  · refine .settings ?_
    dsimp only
    split
    · exact .failure fun s => ⟨_, s, rfl⟩
    · rename_i hcount
      refine hg.parseStatement.attempt.bind fun s? hs => ?_
      split
      · rename_i s
        exact .pure (Maybe.some ⟨Each.single (hs _ rfl s rfl), rfl, fun _ => Nat.lt_of_not_le hcount⟩)
      · exact .pure (Maybe.some ⟨Each.nil, rfl, id⟩)

theorem statements (stop : TokenKind → Bool) : Yields source (BodyFits source) (g.statements stop) := by
  have hrounds (fuel count : Nat) (hcount : count ≤ source.settings.maxStatements) :
      Yields source (fun body => count + body.length ≤ source.settings.maxStatements ∧
        Each (Stmt.AllFit source) body) (roundsFor (g.statementRound stop) fuel count) := by
    induction fuel generalizing count with
    | zero => exact .pure ⟨hcount, Each.nil⟩
    | succ fuel ih =>
      unfold roundsFor
      refine (hg.statementRound stop count).bind fun found? hfound => ?_
      rcases found? with _ | ⟨found, next⟩
      · exact .pure ⟨hcount, Each.nil⟩
      · obtain ⟨heach, hsum, hnext⟩ := hfound _ rfl
        refine (ih _ (hnext hcount)).bind fun rest hrest => .pure ⟨?_, Each.append heach hrest.2⟩
        rw [List.length_append, ← Nat.add_assoc, hsum]
        exact hrest.1
  unfold Grammar.statements Parse.rounds
  refine .after fun v => (hrounds _ 0 (Nat.zero_le _)).mono fun body hbody => ?_
  exact ⟨by rw [← Nat.zero_add body.length]; exact hbody.1, hbody.2⟩

theorem block : Yields source (BodyFits source) g.block := by
  unfold Grammar.block
  refine .after fun _ => (hg.statements _).strictly.bind fun body hbody => ?_
  exact .after fun _ => .pure hbody

theorem functionBody : Yields source (Maybe (BodyFits source)) g.functionBody := by
  unfold Grammar.functionBody
  refine .after fun brace => ?_
  split
  · exact hg.block.bind fun body hbody => .pure (Maybe.some hbody)
  · exact .after fun _ => .pure Maybe.none

end Lists

/-! ### Operands -/

theorem intLiteral : Yields source (Expr.AllFit source) intLiteral := by
  have hint (value : Int64) : (Expr.int value).AllFit source := Expr.fits_atom rfl (.int _) rfl
  unfold Parse.intLiteral
  refine .after fun t => ?_
  split
  · exact .pure (hint _)
  · exact .after fun _ => .pure (hint _)

/-- A literal takes one line, and so do literals that stand side by side. -/
theorem stringLiterals : Yields source (Expr.AllFit source) stringLiterals := by
  have hquoted {value : String} (h : source.InLine value) : (Expr.string value).AllFit source :=
    Expr.fits_atom rfl ((Source.InLine.append (.const (by decide)) h).append (.const (by decide))) rfl
  unfold Parse.stringLiterals
  refine .map (m := source.InLine) ?_ fun value => hquoted
  refine .iterate (fun value hvalue => .after fun more => ?_) .empty
  split
  · exact Source.InLine.advance.bind fun t ht => .pure (Maybe.some (hvalue.append ht.body))
  · exact .pure Maybe.none

theorem charLiteral : Yields source (Expr.AllFit source)
    (do return .char (String.ofList (Literal.body (← advance).text.toList))) := by
  refine Source.InLine.advance.bind fun t ht => .pure (Expr.fits_atom rfl ?_ rfl)
  exact (Source.InLine.append (.const (by decide)) ht.body).append (.const (by decide))

theorem templateName {path : String} (hpath : source.InLine path) :
    Yields source (Expr.AllFit source) (Grammar.templateName path) := by
  have hname := Expr.fits_identifier hpath
  unfold Grammar.templateName
  refine .after fun cpp => .after fun angle => ?_
  split
  · exact .pure hname
  · have harguments : Yields source (Maybe (Each source.InLine)) usedTemplateArguments := by
      refine Yields.speculate (Source.InLine.templateArguments.bind fun arguments h => .after fun k => ?_)
      split <;> first | exact .pure h | exact .unexpected _
    refine harguments.bind fun arguments? h => ?_
    split
    · exact .pure hname
    · rename_i arguments
      have htext := Source.InLine.templateText hpath (h _ rfl)
      refine .after fun colons => .after fun named => ?_
      split
      · refine .after fun _ => Source.InLine.qualifiedName.bind fun rest hrest => .pure ?_
        exact Expr.fits_identifier ((htext.append (.const (by decide))).append hrest)
      · exact .pure (Expr.fits_atom rfl htext rfl)

section Operands

include hg

theorem nameExpression : Yields source (Expr.AllFit source) g.nameExpression := by
  unfold Grammar.nameExpression
  refine Source.InLine.qualifiedName.bind fun path hpath => ?_
  split
  · exact .pure (Expr.fits_atom rfl .empty rfl)
  · split
    · rename_i cast _
      refine .after fun angle => ?_
      split
      · unfold Grammar.namedCast
        refine Source.InLine.templateArguments.bind fun arguments h => .after fun _ => ?_
        refine hg.expression.bind fun operand hoperand => .after fun _ => .pure ?_
        exact Expr.fits_cast (.intercalate (.const (by decide)) h) hoperand
      · exact templateName hpath
    · exact templateName hpath

theorem typeidOf : Yields source (Expr.AllFit source) g.typeidOf := by
  unfold Grammar.typeidOf
  refine .after fun _ => Source.InLine.parenthesizedType.bind fun type? htype => ?_
  split
  · exact .pure (Expr.fits_typeid_type (htype _ rfl))
  · refine .after fun _ => hg.expression.bind fun operand hoperand => .after fun _ => .pure ?_
    exact Expr.fits_typeid_value hoperand

theorem newObject : Yields source (Expr.AllFit source) g.newObject := by
  have hsize : Yields source (Maybe (Expr.AllFit source)) g.newSize := by
    unfold Grammar.newSize
    refine .after fun array => ?_
    split
    · exact hg.expression.bind fun size h => .after fun _ => .pure (Maybe.some h)
    · exact .pure Maybe.none
  have harguments : Yields source (Each (Expr.AllFit source)) g.newArguments := by
    unfold Grammar.newArguments
    refine .after fun parens => ?_
    split
    · exact hg.arguments _
    · refine .after fun braces => ?_
      split
      · exact hg.initializerList
      · exact .pure Each.nil
  have hobject : Yields source (Expr.AllFit source) (do
      let type ← Parse.leniently Parse.typeName
      let size? ← g.newSize
      return .new type (← g.newArguments) size? size?.isSome) :=
    Source.InLine.typeName.leniently.bind fun type htype => hsize.bind fun size? hsize =>
      harguments.bind fun es hes => .pure (Expr.fits_new htype hes hsize)
  unfold Grammar.newObject
  refine .after fun _ => .after fun placed => ?_
  dsimp only
  split
  · exact .after fun _ => hobject
  · exact hobject

theorem deletion : Yields source (Expr.AllFit source) g.deletion := by
  unfold Grammar.deletion
  refine .after fun _ => .after fun isArray => hg.parseUnary.bind fun operand h => .pure ?_
  exact Expr.fits_delete h

theorem capture : Yields source (fun c => Node.AllFit source (.capture c)) g.capture := by
  have hcapture (name : String) (byReference isThis : Bool) {init? : Option Expr}
      (h : Maybe (Expr.AllFit source) init?) :
      Node.AllFit source (.capture ⟨name, byReference, isThis, init?⟩) :=
    .intro ⟨List.forall_mem_nil _, .empty⟩ (Node.forall_mem_optional.2 h)
  unfold Grammar.capture
  refine .after fun k => ?_
  split
  · exact .after fun _ => .pure (hcapture _ _ _ Maybe.none)
  · refine .after fun _ => .after fun named => ?_
    split
    · exact .after fun t => .after fun _ => .pure (hcapture _ _ _ Maybe.none)
    · exact .pure (hcapture _ _ _ Maybe.none)
  · exact .after fun _ => .pure (hcapture _ _ _ Maybe.none)
  · refine .after fun this => ?_
    split
    · exact .after fun _ => .after fun _ => .pure (hcapture _ _ _ Maybe.none)
    · exact .expected _
  · refine .after fun t => .after fun _ => ?_
    exact (hg.expression.optionalAfter .assign).bind fun init? h => .pure (hcapture _ _ _ h)
  · exact .expected _

theorem lambda : Yields source (Expr.AllFit source) g.lambda := by
  have hqualifiers : Yields source (fun q : Bool × Option String => Maybe source.InLine q.2)
      (iterate Grammar.lambdaQualifier (false, none)) := by
    refine .iterate (fun q hq => ?_) Maybe.none
    unfold Grammar.lambdaQualifier
    refine .after fun k => ?_
    split
    · exact .after fun _ => .pure (Maybe.some hq)
    · exact .after fun _ => .pure (Maybe.some hq)
    · exact .after fun _ => .pure (Maybe.some hq)
    · refine .after fun _ => Source.InLine.typeName.leniently.bind fun type h => ?_
      exact .pure (Maybe.some (Maybe.some h))
    · exact .pure Maybe.none
  unfold Grammar.lambda
  refine .after fun _ => (Yields.commaList _ hg.capture).bind fun captures hcaptures => .after fun _ => ?_
  refine .after fun parens => ?_
  have hrest {ps : List Parameter} (hps : Each (Parameter.AllFit source) ps) :
      Yields source (Expr.AllFit source) (do
        let q ← iterate Grammar.lambdaQualifier (false, none)
        return .lambda captures ps q.2 (← g.block) q.1) :=
    hqualifiers.bind fun q hq => hg.block.bind fun body hbody =>
      .pure (Expr.fits_lambda hcaptures hps hq hbody)
  dsimp only
  split
  · exact hg.parameters.leniently.bind fun ps hps => hrest hps
  · exact hrest Each.nil

theorem primary : Yields source (Expr.AllFit source) g.primary := by
  have hword {e : Expr} (hbodies : e.bodies = []) (hlabel : source.InLine e.detail) (hparts : e.parts = []) :
      Yields source (Expr.AllFit source) (do skip; return e) :=
    .after fun _ => .pure (Expr.fits_atom hbodies hlabel hparts)
  unfold Grammar.primary
  refine .after fun k => ?_
  split
  · exact intLiteral
  · exact intLiteral
  · exact intLiteral
  · exact .after fun t => .pure (Expr.fits_atom rfl (.real _) rfl)
  · exact stringLiterals
  · exact charLiteral
  · exact hword rfl (.const (by decide)) rfl
  · exact hword rfl (.const (by decide)) rfl
  · exact hword rfl .empty rfl
  · exact hword rfl .empty rfl
  · exact .after fun _ => hg.commaExpression.bind fun value hvalue => .after fun _ => .pure hvalue
  · exact hg.bracedList
  · refine .after fun cpp => ?_
    split
    · exact hg.lambda
    · exact .expected _
  · exact hg.newObject
  · exact hg.deletion
  · exact hg.typeidOf
  · exact hg.nameExpression
  · exact hg.nameExpression
  · refine .after fun call => ?_
    split
    · exact Source.InLine.advance.bind fun t ht => .pure (Expr.fits_identifier ht)
    · exact .expected _

/-! ### Operators -/

theorem suffix {operand : Expr} (hoperand : operand.AllFit source) :
    Yields source (Maybe (Expr.AllFit source)) (g.suffix operand) := by
  unfold Grammar.suffix
  refine .after fun k => ?_
  have hmember : Yields source (Maybe (Expr.AllFit source)) (do
      let arrow := (← advance).kind == .arrow
      return some (.member operand arrow (← memberName))) :=
    .after fun t => Source.InLine.memberName.bind fun name hname =>
      .pure (Maybe.some (Expr.fits_member hoperand hname))
  have hpointer : Yields source (Maybe (Expr.AllFit source)) (do
      let arrow := (← advance).kind == .arrowStar
      return some (.memberPointer operand arrow (← g.parse .unary))) :=
    .after fun t => hg.parseUnary.bind fun pointer hpointer =>
      .pure (Maybe.some (Expr.fits_memberPointer hoperand hpointer))
  split
  · refine .after fun _ => (hg.arguments _).bind fun es hes => ?_
    exact .pure (Maybe.some (Expr.fits_call hoperand hes))
  · refine .after fun _ => hg.commaExpression.bind fun position hposition => .after fun _ => ?_
    exact .pure (Maybe.some (Expr.fits_index hoperand hposition))
  · exact hmember
  · exact hmember
  · exact hpointer
  · exact hpointer
  · exact .after fun _ => .pure (Maybe.some (Expr.fits_unary hoperand))
  · exact .after fun _ => .pure (Maybe.some (Expr.fits_unary hoperand))
  · refine .after fun cpp => .after fun v => ?_
    split
    · exact hg.initializerList.bind fun es hes => .pure (Maybe.some (Expr.fits_call hoperand hes))
    · exact .pure Maybe.none
  · exact .pure Maybe.none

theorem suffixed : Yields source (Expr.AllFit source) g.suffixed := by
  unfold Grammar.suffixed
  exact hg.primary.bind fun operand hoperand => .iterate (fun e he => hg.suffix he) hoperand

theorem sizeofOf : Yields source (Expr.AllFit source) g.sizeofOf := by
  unfold Grammar.sizeofOf
  refine .after fun _ => .after fun pack => ?_
  split
  · refine .after fun _ => (Source.InLine.name _).bind fun name hname => .after fun _ => .pure ?_
    exact Expr.fits_sizeof_type (hname.append (.const (by decide)))
  · refine Source.InLine.parenthesizedType.bind fun type? htype => ?_
    split
    · exact .pure (Expr.fits_sizeof_type (htype _ rfl))
    · exact hg.parseUnary.bind fun operand hoperand => .pure (Expr.fits_sizeof_value hoperand)

theorem castOperand : Yields source (Expr.AllFit source) g.castOperand := by
  unfold Grammar.castOperand
  refine .after fun brace => ?_
  split
  · exact hg.bracedList
  · exact hg.parseUnary

theorem unary : Yields source (Expr.AllFit source) g.unary := by
  unfold Grammar.unary
  refine .after fun k => ?_
  split
  · exact .after fun _ => hg.parseUnary.bind fun operand hoperand => .pure (Expr.fits_unary hoperand)
  · refine .after fun k => ?_
    split
    · exact hg.sizeofOf
    · refine Source.InLine.castType.bind fun type? htype => ?_
      split
      · exact hg.castOperand.bind fun operand hoperand => .pure (Expr.fits_cast (htype _ rfl) hoperand)
      · exact hg.suffixed
    · exact hg.suffixed

theorem binary (levels least : Nat) : Yields source (Expr.AllFit source) (g.binary levels least) := by
  induction levels generalizing least with
  | zero => exact hg.unary
  | succ levels ih =>
    unfold Grammar.binary
    refine hg.unary.bind fun first hfirst => .iterate (fun left hleft => ?_) hfirst
    unfold Grammar.operation
    refine .after fun k => ?_
    split
    · split
      · exact .pure Maybe.none
      · refine .after fun _ => (ih _).bind fun right hright => ?_
        exact .pure (Maybe.some (Expr.fits_binary hleft hright))
    · exact .pure Maybe.none

theorem conditional : Yields source (Expr.AllFit source) g.conditional := by
  unfold Grammar.conditional
  refine (hg.binary _ _).bind fun condition hcondition => .after fun choice => ?_
  split
  · refine hg.commaExpression.bind fun yes hyes => .after fun _ => ?_
    exact hg.parseAssignment.bind fun no hno => .pure (Expr.fits_conditional hcondition hyes hno)
  · exact .pure hcondition

theorem assignment : Yields source (Expr.AllFit source) g.assignment := by
  unfold Grammar.assignment
  refine hg.conditional.bind fun target htarget => .after fun k => ?_
  split
  · exact .pure htarget
  · refine .after fun _ => .after fun brace => ?_
    dsimp only
    split
    · exact hg.bracedList.bind fun value hvalue => .pure (Expr.fits_binary htarget hvalue)
    · exact hg.parseAssignment.bind fun value hvalue => .pure (Expr.fits_binary htarget hvalue)

/-! ### Initializers -/

theorem element : Yields source (Expr.AllFit source) g.element := by
  unfold Grammar.element
  refine .after fun v => ?_
  split
  · refine .after fun _ => Source.InLine.advance.bind fun t ht => .after fun _ => ?_
    refine hg.initializer.bind fun value hvalue => .pure (Expr.fits_binary ?_ hvalue)
    exact Expr.fits_identifier (.append (.const (by decide)) ht)
  · exact hg.initializer

theorem elements : Yields source (Each (Expr.AllFit source)) g.elements := by
  unfold Grammar.elements
  exact (Yields.commaList _ hg.element).bind fun es hes => .after fun _ => .pure hes

end Operands

end Fits

end Grammar

end CTree
