import CTree.Proofs.Containment.Yields
import CTree.Proofs.Tree.Sound

/-!
# Expressions of C

`Node.IsC` says of a node that C has its form. Two forms that C does not have begin with a word that
C reads as a name: the values `true`, `false` and `this` are then names like any others, but the
name of a cast with a `<` after it is read as a cast in C as well.
-/

namespace CTree

open Content Parse

/-! ### Nodes of C -/

/-- The name of a cast stands somewhere in a source, with a `<` after it. -/
def Source.NamesCast (source : Source) (cast : CastKind) : Prop :=
  ∃ i, (source.stream.get i).kind = .identifier ∧ (source.stream.get i).text = cast.word ∧
    (source.stream.get (i + 1)).kind = .lt

/-- Expressions of C. -/
def Expr.IsC (source : Source) : Expr → Prop
  | .bool _ | .memberPointer .. | .new .. | .delete .. | .this | .typeid _ | .templateId ..
  | .lambda .. => False
  | .binary op _ _ => op ≠ .threeWay
  | .cast kind _ _ => kind = .parenthesized ∨ source.NamesCast kind
  | _ => True

/-- Statements of C. -/
def Stmt.IsC : Stmt → Prop
  | .rangeLoop .. | .trying .. | .throwing _ => False
  | _ => True

/-- Declarations of C; the members of a class are the same in both dialects. -/
def Decl.IsC : Decl → Prop
  | .operator _ | .friend _ | .namespaceBlock .. | .usingAlias .. | .usingName _
  | .usingNamespace _ | .template .. | .staticAssert .. => False
  | .classType c => c.key ≠ .classKey
  | _ => True

namespace Node

/-- Nodes of C. -/
def IsC (source : Source) : Node → Prop
  | .expr e => e.IsC source
  | .stmt s => s.IsC
  | .decl d => d.IsC
  | _ => True

/-- All nodes of a tree are nodes of C. -/
abbrev AllC (source : Source) (n : Node) : Prop :=
  n.Everywhere (IsC source)

variable {source : Source} {n : Node}

/-- A node of C with nothing but nodes of C in its fields. -/
theorem AllC.intro (h : n.IsC source) (hfields : Every (AllC source) n.fields) : n.AllC source := by
  refine .ofChildren h fun m hm => ?_
  obtain ⟨f, hf, hmem⟩ := mem_children.1 hm
  exact hfields f hf m hmem

theorem AllC.inside (h : n.AllC source) : Every (AllC source) n.fields :=
  fun f hf m hm => Everywhere.children h m (mem_children.2 ⟨f, hf, hm⟩)

end Node

/-- All nodes of an expression are nodes of C. -/
abbrev Expr.AllC (source : Source) (e : Expr) : Prop :=
  Node.AllC source (.expr e)

/-- All nodes of a statement are nodes of C. -/
abbrev Stmt.AllC (source : Source) (s : Stmt) : Prop :=
  Node.AllC source (.stmt s)

/-- All nodes of a declaration are nodes of C. -/
abbrev Decl.AllC (source : Source) (d : Decl) : Prop :=
  Node.AllC source (.decl d)

/-- All nodes of a parameter are nodes of C. -/
abbrev Parameter.AllC (source : Source) (p : Parameter) : Prop :=
  Node.AllC source (.parameter p)

variable {source : Source}

/-- A name is an expression of C. -/
theorem Expr.allC_identifier (name : String) : (Expr.identifier name).AllC source :=
  .intro trivial (by simp [Node.fields, Expr.fields])

theorem BinaryOp.ofKind?_ne_threeWay {k : TokenKind} {op : BinaryOp} {level : Nat}
    (hk : k.inC = true) (h : BinaryOp.ofKind? k = some (op, level)) : op ≠ .threeWay := by
  rintro rfl
  cases k <;> cases h
  exact absurd hk (by decide)

theorem BinaryOp.assignmentOfKind?_ne_threeWay {k : TokenKind} {op : BinaryOp}
    (h : BinaryOp.assignmentOfKind? k = some op) : op ≠ .threeWay := by
  rintro rfl
  cases k <;> cases h

/-- Every nonterminal gives nodes of C. -/
structure Grammar.OfC (source : Source) (g : Grammar) : Prop where
  isC : source.OfC
  parseAssignment : Yields source (Expr.AllC source) (g.parse .assignment)
  parseConditional : Yields source (Expr.AllC source) (g.parse .conditional)
  parseUnary : Yields source (Expr.AllC source) (g.parse .unary)
  parseElements : Yields source (Each (Expr.AllC source)) (g.parse .elements)
  parseStatement : Yields source (Maybe (Stmt.AllC source)) (g.parse .statement)
  parseMembers : ∀ owner bases access,
    Yields source (Each (Decl.AllC source)) (g.parse (.members owner bases access))
  parseItems : Yields source (Each (Stmt.AllC source)) (g.parse .items)
  parseItem : Yields source (Maybe (Stmt.AllC source)) (g.parse .item)

namespace Grammar

namespace OfC

variable {g : Grammar} (hg : g.OfC source)

section Lists

include hg

/-! ### Expressions and lists of them -/

theorem expression : Yields source (Expr.AllC source) g.expression := by
  unfold Grammar.expression
  exact hg.parseAssignment.strictly

theorem commaExpression : Yields source (Expr.AllC source) g.commaExpression := by
  unfold Grammar.commaExpression
  refine hg.expression.bind fun first hfirst => .iterate (fun left hleft => ?_) hfirst
  unfold Grammar.moreComma
  refine .after fun more => ?_
  split
  · refine hg.expression.bind fun right hright => .pure (Maybe.some ?_)
    exact .intro (by simp [Node.IsC, Expr.IsC]) (by simp [Node.fields, Expr.fields, hleft, hright])
  · exact .pure Maybe.none

theorem initializerList : Yields source (Each (Expr.AllC source)) g.initializerList := by
  unfold Grammar.initializerList
  exact .after fun _ => hg.parseElements

theorem bracedList : Yields source (Expr.AllC source) g.bracedList := by
  unfold Grammar.bracedList
  refine hg.initializerList.bind fun es hes => .pure (.intro trivial ?_)
  simpa [Node.fields, Expr.fields] using hes

theorem initializer : Yields source (Expr.AllC source) g.initializer := by
  unfold Grammar.initializer
  refine .after fun brace => ?_
  split
  · exact hg.bracedList
  · exact hg.expression

theorem arguments (closing : TokenKind) :
    Yields source (Each (Expr.AllC source)) (g.arguments closing) := by
  unfold Grammar.arguments
  refine .after fun closed => ?_
  split
  · exact .pure Each.nil
  · have hargument : Yields source (Expr.AllC source) g.argument := by
      unfold Grammar.argument
      exact hg.initializer.bind fun value hvalue => .after fun _ => .pure hvalue
    exact (Yields.separated hargument).bind fun values hvalues => .after fun _ => .pure hvalues

theorem dimensions : Yields source (fun ds => ∀ e, some e ∈ ds → e.AllC source) g.dimensions := by
  unfold Grammar.dimensions
  refine (Yields.collect (m := Maybe (Expr.AllC source)) ?_).mono fun ds hds e he => hds _ he e rfl
  refine .after fun opening => ?_
  split
  · refine .after fun closing => ?_
    split
    · exact .pure (Maybe.some Maybe.none)
    · refine hg.expression.bind fun size hsize => .after fun _ => ?_
      exact .pure (Maybe.some (Maybe.some hsize))
  · exact .pure Maybe.none

/-! ### Parameters and blocks -/

theorem parameter : Yields source (Parameter.AllC source) g.parameter := by
  unfold Grammar.parameter
  refine .after fun any => ?_
  split
  · exact .pure (.intro trivial (by simp [Node.fields]))
  · unfold Grammar.typedParameter
    refine .after fun _ => .after fun type => .after fun pack => .after fun name => ?_
    refine .after fun type => (hg.expression.optionalAfter .assign).bind fun default? hdefault => ?_
    exact .pure (.intro trivial (by simpa [Node.fields] using hdefault))

theorem parameters : Yields source (Each (Parameter.AllC source)) g.parameters := by
  unfold Grammar.parameters
  refine .after fun _ => .after fun empty => ?_
  split
  · exact .pure Each.nil
  · refine .after fun void => .after fun closing => ?_
    split
    · exact .after fun _ => .after fun _ => .pure Each.nil
    · exact (Yields.separated hg.parameter).bind fun ps hps => .after fun _ => .pure hps

theorem statements (stop : TokenKind → Bool) :
    Yields source (Each (Stmt.AllC source)) (g.statements stop) := by
  unfold Grammar.statements
  refine .rounds (fun count => ?_) 0
  unfold Grammar.statementRound
  refine .after fun k => ?_
  split
  · exact .pure Maybe.none
  · refine .after fun limit => ?_
    dsimp only
    split
    · exact .failure fun s => ⟨_, s, rfl⟩
    · refine hg.parseStatement.attempt.bind fun s? hs => ?_
      split
      · rename_i s
        exact .pure (Maybe.some (Each.single (hs _ rfl s rfl)))
      · exact .pure (Maybe.some Each.nil)

theorem block : Yields source (Each (Stmt.AllC source)) g.block := by
  unfold Grammar.block
  refine .after fun _ => (hg.statements _).strictly.bind fun body hbody => ?_
  exact .after fun _ => .pure hbody

theorem functionBody : Yields source (Maybe (Each (Stmt.AllC source))) g.functionBody := by
  unfold Grammar.functionBody
  refine .after fun brace => ?_
  split
  · exact hg.block.bind fun body hbody => .pure (Maybe.some hbody)
  · exact .after fun _ => .pure Maybe.none

end Lists

/-! ### Operands -/

theorem intLiteral : Yields source (Expr.AllC source) intLiteral := by
  have hint : ∀ value, (Expr.int value).AllC source :=
    fun value => .intro trivial (by simp [Node.fields, Expr.fields])
  unfold Parse.intLiteral
  refine .after fun t => ?_
  split
  · exact .pure (hint _)
  · exact .after fun _ => .pure (hint _)

theorem stringLiterals : Yields source (Expr.AllC source) stringLiterals := by
  unfold Parse.stringLiterals
  exact Yields.any.map fun value _ => .intro trivial (by simp [Node.fields, Expr.fields])

/-- No `::` stands in a source of C, so a name with its scopes is one token. -/
theorem run_qualifiedName (hc : source.OfC) {s t : ParseState} {path : String}
    (hrun : qualifiedName.run source s = (.ok path, t)) :
    (source.view s).kind 0 = .identifier ∧ path = ((source.view s).token 0).text ∧
      t.cursor.position = s.cursor.position + 1 := by
  have hsegment : ∀ u path, (nameSegment path).run source u = (.ok none, u) := by
    intro u path
    have hne : ((source.view u).kind 0 == .colonColon) = false := by
      refine beq_eq_false_iff_ne.2 fun heq => ?_
      have hin : ((source.view u).kind 0).inC = true := hc.kinds _
      rw [heq] at hin
      exact absurd hin (by decide)
    unfold nameSegment
    rw [run_bind_ok (run_check _), hne]
    rfl
  have hcpp : (source.view s).isCpp = false := by
    show (source.settings.dialect == .cpp) = false
    rw [hc.dialect]
    rfl
  unfold qualifiedName at hrun
  rw [run_bind_ok run_isCpp, hcpp] at hrun
  obtain ⟨scope, u, hscope, hrun⟩ := exists_of_run_bind hrun
  cases hscope
  obtain ⟨first, u, hfirst, hrest⟩ := exists_of_run_bind hrun
  have hstop : (iterate nameSegment ("" ++ first)).run source u = (.ok ("" ++ first), u) := by
    unfold iterate
    rw [run_bind_ok run_view, iterateFor, run_bind_ok (hsegment _ _)]
    rfl
  rw [hstop, String.empty_append] at hrest
  cases hrest
  unfold Parse.name at hfirst
  obtain ⟨token, v, htoken, hlast⟩ := exists_of_run_bind hfirst
  cases hlast
  unfold require at htoken
  rw [run_bind_ok (run_check _)] at htoken
  split at htoken
  · rename_i hkind
    have hkind : (source.view s).kind 0 = .identifier := beq_iff_eq.1 hkind
    rw [run_advance, Source.advance_of_token (by rw [hkind]; decide)] at htoken
    cases htoken
    exact ⟨hkind, rfl, rfl⟩
  · rw [run_expected] at htoken
    cases htoken

theorem templateName (hc : source.OfC) (path : String) :
    Yields source (Expr.AllC source) (Grammar.templateName path) := by
  unfold Grammar.templateName
  refine .isCpp hc (.after fun angle => ?_)
  exact .pure (Expr.allC_identifier path)

section Operands

include hg

theorem namedCast {cast : CastKind} (h : source.NamesCast cast) :
    Yields source (Expr.AllC source) (g.namedCast cast) := by
  unfold Grammar.namedCast
  refine .after fun _ => .after fun _ => hg.expression.bind fun operand hoperand => ?_
  refine .after fun _ => .pure (.intro (.inr h) ?_)
  simpa [Node.fields, Expr.fields] using hoperand

theorem nameExpression : Yields source (Expr.AllC source) g.nameExpression := by
  intro s e u hrun
  unfold Grammar.nameExpression at hrun
  obtain ⟨path, t, hpath, hrest⟩ := exists_of_run_bind hrun
  obtain ⟨hkind, htext, hposition⟩ := run_qualifiedName hg.isC hpath
  split at hrest
  · cases hrest
    exact .intro trivial (by simp [Node.fields, Expr.fields])
  · split at hrest
    · rename_i cast hcast
      rw [run_bind_ok (run_check _)] at hrest
      split at hrest
      · rename_i hangle
        have hword : cast.word = path := by
          unfold CastKind.ofName? at hcast
          simpa using List.find?_some hcast
        have hafter : (source.stream.get (s.cursor.position + 1)).kind = .lt := by
          rw [← hposition]
          exact beq_iff_eq.1 hangle
        refine hg.namedCast ⟨s.cursor.position, hkind, ?_, hafter⟩ t e u hrest
        rw [hword, htext]
        rfl
      · exact templateName hg.isC path t e u hrest
    · exact templateName hg.isC path t e u hrest

theorem primary : Yields source (Expr.AllC source) g.primary := by
  unfold Grammar.primary
  refine .kind hg.isC fun k hk => ?_
  split
  · exact intLiteral
  · exact intLiteral
  · exact intLiteral
  · exact .after fun t => .pure (.intro trivial (by simp [Node.fields, Expr.fields]))
  · exact stringLiterals
  · exact .after fun t => .pure (.intro trivial (by simp [Node.fields, Expr.fields]))
  · exact absurd hk (by decide)
  · exact absurd hk (by decide)
  · exact absurd hk (by decide)
  · exact absurd hk (by decide)
  · exact .after fun _ => hg.commaExpression.bind fun value hvalue => .after fun _ => .pure hvalue
  · exact hg.bracedList
  · exact .isCpp hg.isC (.expected _)
  · exact absurd hk (by decide)
  · exact absurd hk (by decide)
  · exact absurd hk (by decide)
  · exact hg.nameExpression
  · exact hg.nameExpression
  · refine .after fun call => ?_
    split
    · exact .after fun t => .pure (Expr.allC_identifier _)
    · exact .expected _

/-! ### Operators -/

/-- Whatever is read after an operand, the operand stays as it was. -/
theorem suffix {operand : Expr} (hoperand : operand.AllC source) :
    Yields source (Maybe (Expr.AllC source)) (g.suffix operand) := by
  have hmember : ∀ arrow, Yields source (Maybe (Expr.AllC source))
      (do return some (Expr.member operand arrow (← Parse.memberName))) := by
    intro arrow
    refine .after fun name => .pure (Maybe.some (.intro trivial ?_))
    simpa [Node.fields, Expr.fields] using hoperand
  have hstep : ∀ op : UnaryOp, (Expr.unary op .after operand).AllC source := by
    intro op
    exact .intro trivial (by simpa [Node.fields, Expr.fields] using hoperand)
  unfold Grammar.suffix
  refine .kind hg.isC fun k hk => ?_
  split
  · refine .after fun _ => (hg.arguments .rparen).bind fun values hvalues => ?_
    refine .pure (Maybe.some (.intro trivial ?_))
    simpa [Node.fields, Expr.fields] using ⟨hoperand, hvalues⟩
  · refine .after fun _ => hg.commaExpression.bind fun position hposition => .after fun _ => ?_
    refine .pure (Maybe.some (.intro trivial ?_))
    simpa [Node.fields, Expr.fields] using ⟨hoperand, hposition⟩
  · exact .after fun t => hmember _
  · exact .after fun t => hmember _
  · exact absurd hk (by decide)
  · exact absurd hk (by decide)
  · exact .after fun _ => .pure (Maybe.some (hstep .inc))
  · exact .after fun _ => .pure (Maybe.some (hstep .dec))
  · exact .isCpp hg.isC (.after fun v => .pure Maybe.none)
  · exact .pure Maybe.none

theorem suffixed : Yields source (Expr.AllC source) g.suffixed := by
  unfold Grammar.suffixed
  exact hg.primary.bind fun operand hoperand => .iterate (fun e he => hg.suffix he) hoperand

theorem sizeofOf : Yields source (Expr.AllC source) g.sizeofOf := by
  have htype : ∀ name, (Expr.sizeof (.type name)).AllC source :=
    fun name => .intro trivial (by simp [Node.fields, Expr.fields, Query.fields])
  unfold Grammar.sizeofOf
  refine .after fun _ => .after fun pack => ?_
  split
  · exact .after fun _ => .after fun name => .after fun _ => .pure (htype _)
  · refine .after fun type? => ?_
    split
    · exact .pure (htype _)
    · refine hg.parseUnary.bind fun operand hoperand => .pure (.intro trivial ?_)
      simpa [Node.fields, Expr.fields, Query.fields] using hoperand

theorem castOperand : Yields source (Expr.AllC source) g.castOperand := by
  unfold Grammar.castOperand
  refine .after fun brace => ?_
  split
  · exact hg.bracedList
  · exact hg.parseUnary

theorem unary : Yields source (Expr.AllC source) g.unary := by
  unfold Grammar.unary
  refine .after fun k => ?_
  split
  · refine .after fun _ => hg.parseUnary.bind fun operand hoperand => .pure (.intro trivial ?_)
    simpa [Node.fields, Expr.fields] using hoperand
  · refine .after fun k => ?_
    split
    · exact hg.sizeofOf
    · refine .after fun type? => ?_
      split
      · refine hg.castOperand.bind fun operand hoperand => .pure (.intro (.inl rfl) ?_)
        simpa [Node.fields, Expr.fields] using hoperand
      · exact hg.suffixed
    · exact hg.suffixed

theorem binary (levels least : Nat) : Yields source (Expr.AllC source) (g.binary levels least) := by
  -- A right operand has one level less to go through, from whichever level it may begin.
  induction levels generalizing least with
  | zero => exact hg.unary
  | succ levels ih =>
    unfold Grammar.binary
    refine hg.unary.bind fun first hfirst => .iterate (fun left hleft => ?_) hfirst
    unfold Grammar.operation
    refine .kind hg.isC fun k hk => ?_
    split
    · rename_i op level hop
      split
      · exact .pure Maybe.none
      · refine .after fun _ => (ih _).bind fun right hright => .pure (Maybe.some ?_)
        refine .intro (BinaryOp.ofKind?_ne_threeWay hk hop) ?_
        simpa [Node.fields, Expr.fields] using ⟨hleft, hright⟩
    · exact .pure Maybe.none

theorem conditional : Yields source (Expr.AllC source) g.conditional := by
  unfold Grammar.conditional
  refine (hg.binary _ _).bind fun condition hcondition => .after fun choice => ?_
  split
  · refine hg.commaExpression.bind fun yes hyes => .after fun _ => ?_
    refine hg.parseAssignment.bind fun no hno => .pure (.intro trivial ?_)
    simpa [Node.fields, Expr.fields] using ⟨hcondition, hyes, hno⟩
  · exact .pure hcondition

theorem assignment : Yields source (Expr.AllC source) g.assignment := by
  unfold Grammar.assignment
  refine hg.conditional.bind fun target htarget => .after fun k => ?_
  split
  · exact .pure htarget
  · rename_i op hop
    have hassign : ∀ {value : Expr}, value.AllC source →
        (Expr.binary op target value).AllC source := by
      intro value hvalue
      refine .intro (BinaryOp.assignmentOfKind?_ne_threeWay hop) ?_
      simpa [Node.fields, Expr.fields] using ⟨htarget, hvalue⟩
    refine .after fun _ => .after fun brace => ?_
    dsimp only
    split
    · exact hg.bracedList.bind fun value hvalue => .pure (hassign hvalue)
    · exact hg.parseAssignment.bind fun value hvalue => .pure (hassign hvalue)

/-! ### Initializers -/

theorem element : Yields source (Expr.AllC source) g.element := by
  unfold Grammar.element
  refine .after fun v => ?_
  split
  · refine .after fun _ => .after fun field => .after fun _ => ?_
    refine hg.initializer.bind fun value hvalue => .pure (.intro (by simp [Node.IsC, Expr.IsC]) ?_)
    simpa [Node.fields, Expr.fields] using ⟨Expr.allC_identifier _, hvalue⟩
  · exact hg.initializer

theorem elements : Yields source (Each (Expr.AllC source)) g.elements := by
  unfold Grammar.elements
  exact (Yields.commaList _ hg.element).bind fun es hes => .after fun _ => .pure hes

end Operands

end OfC

end Grammar

end CTree
