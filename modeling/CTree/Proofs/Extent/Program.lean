import CTree.Proofs.Extent.Member
import CTree.Proofs.Tree.Program

/-!
# Programs that fit

Whatever the text, the settings and the passes before it, all nodes of a program fit.
-/

namespace CTree

open Parse

variable {source : Source}

namespace Grammar

namespace Fits

variable {g : Grammar} (hg : g.Fits source)

/-! ### Parts of statements -/

theorem rangeHead : Yields source (Stmt.AllFit source) Parse.rangeHead := by
  unfold Parse.rangeHead
  refine .leniently (.after fun specs => Source.InLine.typeName.bind fun type htype => ?_)
  have hrest {name : String} (hname : source.InLine name) : Yields source (Stmt.AllFit source) (do
      skipOver .colon "in range-for"
      return .var ⟨type, name, none, specs.storage?, []⟩) :=
    .after fun _ => .pure (Stmt.fits_var htype hname .storage Maybe.none fun e he => nomatch he)
  refine .after fun bracket => ?_
  dsimp only
  split
  · refine .after fun start => .after fun _ => ?_
    exact (Source.InLine.textSince start).bind fun name hname => hrest hname
  · exact (Source.InLine.name _).bind fun name hname => hrest hname

theorem caught : Yields source (Source.InLine.Both source) Parse.caught := by
  unfold Parse.caught
  refine .after fun any => ?_
  split
  · exact .pure ⟨.const (by decide), .empty⟩
  · refine .leniently (.after fun _ => Source.InLine.typeName.bind fun type htype => ?_)
    exact Source.InLine.nameOrNone.bind fun name hname => .pure ⟨htype, hname⟩

section Statements

include hg

theorem expressionStatement : Yields source (Stmt.AllFit source) g.expressionStatement := by
  unfold Grammar.expressionStatement
  exact hg.commaExpression.bind fun value h => .after fun _ => .pure (Stmt.fits_ofExpr h)

theorem expressionUnless (k : TokenKind) :
    Yields source (Maybe (Expr.AllFit source)) (g.expressionUnless k) := by
  unfold Grammar.expressionUnless
  refine .after fun missing => ?_
  split
  · exact .pure Maybe.none
  · exact hg.commaExpression.map fun value hvalue => Maybe.some hvalue

theorem condition (keyword : String) : Yields source (Expr.AllFit source) (g.condition keyword) := by
  unfold Grammar.condition
  exact .after fun _ => hg.commaExpression.bind fun value h => .after fun _ => .pure h

theorem branch : Yields source (Stmt.AllFit source) g.branch := by
  unfold Grammar.branch
  refine hg.parseStatement.bind fun s? hs => .pure ?_
  cases s? with
  | none => exact Stmt.fits_block Each.nil
  | some s => exact hs s rfl

theorem valueJump (place : String) : Yields source (Maybe (Expr.AllFit source)) (g.valueJump place) := by
  unfold Grammar.valueJump
  exact .after fun _ => (hg.expressionUnless _).bind fun value? h => .after fun _ => .pure h

/-! ### Choices and loops -/

theorem ifElse : Yields source (Stmt.AllFit source) g.ifElse := by
  unfold Grammar.ifElse
  refine .after fun _ => .after fun _ => (hg.condition _).bind fun c hc => hg.branch.bind fun yes hyes => ?_
  refine (hg.branch.optionalAfter .kwElse).bind fun no? hno => .pure (Stmt.fits rfl .empty ?_)
  exact List.forall_mem_append.2 ⟨Each.cons hc (Each.single hyes), Node.forall_mem_optional.2 hno⟩

theorem whileLoop : Yields source (Stmt.AllFit source) g.whileLoop := by
  unfold Grammar.whileLoop
  refine .after fun _ => (hg.condition _).bind fun c hc => hg.branch.bind fun body hbody => ?_
  exact .pure (Stmt.fits rfl .empty (Each.cons hc (Each.single hbody)))

theorem doLoop : Yields source (Stmt.AllFit source) g.doLoop := by
  unfold Grammar.doLoop
  refine .after fun _ => hg.branch.bind fun body hbody => .after fun _ => (hg.condition _).bind fun c hc => ?_
  exact .after fun _ => .pure (Stmt.fits rfl .empty (Each.cons hbody (Each.single hc)))

theorem forLoop : Yields source (Stmt.AllFit source) g.forLoop := by
  have hinit : Yields source (Maybe (Stmt.AllFit source)) g.loopInit := by
    unfold Grammar.loopInit
    refine .after fun missing => ?_
    split
    · exact .pure Maybe.none
    · refine hg.declaration?.bind fun s? hs => ?_
      split
      · exact .pure hs
      · exact hg.expressionStatement.bind fun s hs => .pure (Maybe.some hs)
  have hclauses : Yields source (Stmt.AllFit source) g.clauseLoop := by
    unfold Grammar.clauseLoop
    refine hinit.bind fun init? hinit => (hg.expressionUnless _).bind fun condition? hcondition => ?_
    refine .after fun _ => (hg.expressionUnless _).bind fun step? hstep => .after fun _ => ?_
    refine hg.branch.bind fun body hbody => .pure (Stmt.fits rfl .empty ?_)
    simp only [Stmt.parts, List.forall_mem_append, Node.forall_mem_optional, List.forall_mem_singleton]
    exact ⟨⟨⟨hinit, hcondition⟩, hstep⟩, hbody⟩
  have hrange {head : Stmt} (hhead : head.AllFit source) :
      Yields source (Stmt.AllFit source) (g.rangeLoop head) := by
    unfold Grammar.rangeLoop
    refine hg.expression.bind fun range hrange => .after fun _ => hg.branch.bind fun body hbody => ?_
    exact .pure (Stmt.fits rfl .empty (Each.cons hhead (Each.cons hrange (Each.single hbody))))
  unfold Grammar.forLoop
  refine .after fun _ => .after fun _ => .after fun cpp => ?_
  split
  · refine rangeHead.speculate.bind fun head? hhead => ?_
    split
    · exact hrange (hhead _ rfl)
    · exact hclauses
  · exact hclauses

/-! ### Switches and exceptions -/

theorem arm : Yields source (fun a => Node.AllFit source (.arm a)) g.arm := by
  have hvalue : Yields source (Maybe (Expr.AllFit source)) g.armValue := by
    unfold Grammar.armValue
    refine .after fun k => ?_
    split
    · refine .after fun _ => hg.parseConditional.bind fun value hvalue => ?_
      exact .after fun _ => .pure (Maybe.some hvalue)
    · exact .after fun _ => .after fun _ => .pure Maybe.none
    · exact .expected _
  unfold Grammar.arm
  refine hvalue.bind fun value? hvalue => (hg.statements _).bind fun body hbody => ?_
  refine .pure (.intro ⟨List.forall_mem_singleton.2 hbody.1, .empty⟩ ?_)
  simp only [Node.parts, List.forall_mem_append, Node.forall_mem_optional, List.forall_mem_map]
  exact ⟨hvalue, hbody.2⟩

theorem switch : Yields source (Stmt.AllFit source) g.switch := by
  have hnext : Yields source (Maybe (Maybe fun a => Node.AllFit source (.arm a))) g.nextArm := by
    unfold Grammar.nextArm
    refine .after fun k => ?_
    split
    · exact .pure Maybe.none
    · exact hg.arm.attempt.bind fun a? ha => .pure (Maybe.some ha)
  unfold Grammar.switch
  refine .after fun _ => (hg.condition _).bind fun c hc => .after fun _ => ?_
  refine (Yields.collect hnext).bind fun arms harms => .after fun _ => .pure (Stmt.fits rfl ?_ ?_)
  · exact .words (Each.cons (.nat _) (Each.single (.const (by decide))))
  · refine Each.cons hc (List.forall_mem_map.2 fun a ha => ?_)
    obtain ⟨a?, hmem, rfl⟩ := List.mem_filterMap.1 ha
    exact harms _ hmem a rfl

theorem trying : Yields source (Stmt.AllFit source) g.trying := by
  have hhandler : Yields source (Maybe fun h => Node.AllFit source (.handler h)) g.handler? := by
    unfold Grammar.handler?
    refine .after fun here => ?_
    split
    · refine .after fun _ => caught.bind fun r hr => .after fun _ => hg.block.bind fun body hbody => ?_
      refine .pure (Maybe.some (.intro ⟨List.forall_mem_singleton.2 hbody.1, .trimEnd (.words ?_)⟩ ?_))
      · exact Each.cons hr.1 (Each.single hr.2)
      · exact List.forall_mem_map.2 hbody.2
    · exact .pure Maybe.none
  unfold Grammar.trying
  refine .after fun _ => hg.block.bind fun body hbody => (Yields.collect hhandler).bind fun hs hhs => ?_
  have htrying : (Stmt.trying body hs).AllFit source := by
    refine .intro ⟨List.forall_mem_singleton.2 hbody.1, .empty⟩ ?_
    simp only [Node.parts, Stmt.parts, List.forall_mem_append, List.forall_mem_map]
    exact ⟨hbody.2, hhs⟩
  dsimp only
  split
  · exact .after fun _ => .pure htrying
  · exact .pure htrying

/-! ### All statements -/

theorem plainStatement : Yields source (Stmt.AllFit source) g.plainStatement := by
  unfold Grammar.plainStatement
  refine hg.namedDeclaration?.bind fun s? hs => ?_
  split
  · exact .pure (hs _ rfl)
  · refine hg.declaration?.bind fun s? hs => ?_
    split
    · exact .pure (hs _ rfl)
    · exact hg.expressionStatement

theorem statement : Yields source (Maybe (Stmt.AllFit source)) g.statement := by
  have hsome {p : Parse Stmt} (h : Yields source (Stmt.AllFit source) p) :
      Yields source (Maybe (Stmt.AllFit source)) (some <$> p) :=
    h.map fun s hs => Maybe.some hs
  have hjump {s : Stmt} (place : String) (hs : s.AllFit source) :
      Yields source (Stmt.AllFit source) (jump s place) := by
    unfold jump
    exact .after fun _ => .after fun _ => .pure hs
  unfold Grammar.statement
  refine .after fun k => ?_
  split
  · exact .after fun _ => .pure Maybe.none
  · exact hg.block.bind fun body hbody => .pure (Maybe.some (Stmt.fits_block hbody.2))
  · exact hsome hg.ifElse
  · exact hsome hg.whileLoop
  · exact hsome hg.doLoop
  · exact hsome hg.forLoop
  · exact hsome hg.switch
  · refine (hg.valueJump _).bind fun value? h => .pure (Maybe.some (Stmt.fits rfl .empty ?_))
    exact Node.forall_mem_optional.2 h
  · exact hsome (hjump _ (Stmt.fits rfl .empty (List.forall_mem_nil _)))
  · exact hsome (hjump _ (Stmt.fits rfl .empty (List.forall_mem_nil _)))
  · refine .after fun _ => (Source.InLine.name _).bind fun label hlabel => .after fun _ => .pure ?_
    exact Maybe.some (Stmt.fits rfl hlabel (List.forall_mem_nil _))
  · exact hsome hg.trying
  · refine (hg.valueJump _).bind fun value? h => .pure (Maybe.some (Stmt.fits rfl .empty ?_))
    exact Node.forall_mem_optional.2 h
  · exact .after fun k => .unexpected _
  · exact .after fun k => .unexpected _
  · refine .after fun colon => ?_
    split
    · have hname : Yields source source.InLine labelName := by
        unfold labelName
        exact Source.InLine.advance.bind fun t ht => .after fun _ => .pure ht
      refine hname.bind fun name hname => .pure (Maybe.some ?_)
      exact Stmt.fits rfl hname (List.forall_mem_nil _)
    · exact hsome hg.plainStatement
  · exact hsome hg.plainStatement

/-! ### Grammars of every depth -/

/-- One construct more. -/
theorem step : Grammar.Fits source ⟨fun r => Parse.nested (g.rule r)⟩ where
  parseAssignment := hg.assignment.nested
  parseConditional := hg.conditional.nested
  parseUnary := hg.unary.nested
  parseElements := hg.elements.nested
  parseStatement := hg.statement.nested
  parseMembers _ bases access howner := (hg.members howner bases access).nested
  parseItems := (hg.items true).nested
  parseItem := hg.item.nested

end Statements

end Fits

theorem fits_ofDepth (source : Source) (depth : Nat) : (ofDepth depth).Fits source := by
  induction depth with
  | zero =>
    have hfails {α : Type} (r : Nonterminal α) {m : α → Prop} :
        Yields source m ((ofDepth 0).parse r) := .failure fun s => ⟨_, s, rfl⟩
    exact ⟨hfails _, hfails _, hfails _, hfails _, hfails _, fun _ _ _ _ => hfails _, hfails _, hfails _⟩
  | succ depth ih => exact ih.step

end Grammar

/-- All nodes of a program fit that is read in any pass over a source. -/
theorem Session.fits_pass (settings : Settings) (text : List Char) (passes : List String) (name : String) :
    Each (Stmt.AllFit (start settings text).source)
      (((start settings text).afterPasses passes).parse name).1.body := by
  obtain ⟨hsource, -⟩ := frame_afterPasses (start settings text) passes
  rw [parse_eq_run, hsource]
  have hgrammar := Grammar.fits_ofDepth (start settings text).source settings.maxDepth
  rcases hrun : ((Grammar.ofDepth settings.maxDepth).items false).run (start settings text).source
      ((start settings text).afterPasses passes).state with ⟨e | body, t⟩
  · rw [show (start settings text).source.settings = settings from rfl, hrun]
    exact Each.nil
  · rw [show (start settings text).source.settings = settings from rfl, hrun]
    exact hgrammar.items false _ body t hrun

end CTree
