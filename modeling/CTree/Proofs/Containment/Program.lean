import CTree.Proofs.Containment.Declaration
import CTree.Proofs.Tree.Program

/-!
# Programs of C

Whatever the text, the settings and the passes before it: what is read in C is made of nodes of C.
-/

namespace CTree

open Content Parse

variable {source : Source}

theorem Stmt.allC_ofExpr {e : Expr} (h : e.AllC source) : (ofExpr e).AllC source := by
  unfold ofExpr
  split
  · rename_i op left right
    have hboth : left.AllC source ∧ right.AllC source := by
      simpa [Node.fields, Expr.fields] using h.inside
    obtain ⟨hleft, hright⟩ := hboth
    split
    · exact .intro trivial (by simpa [Node.fields, Stmt.fields] using ⟨hleft, hright⟩)
    · exact .intro trivial (by simpa [Node.fields, Stmt.fields] using h)
  · exact .intro trivial (by simpa [Node.fields, Stmt.fields] using h)

namespace Grammar

namespace OfC

variable {g : Grammar} (hg : g.OfC source)

section Statements

include hg

/-! ### Parts of statements -/

theorem expressionStatement : Yields source (Stmt.AllC source) g.expressionStatement := by
  unfold Grammar.expressionStatement
  refine hg.commaExpression.bind fun value hvalue => .after fun _ => .pure ?_
  exact Stmt.allC_ofExpr hvalue

theorem expressionUnless (k : TokenKind) :
    Yields source (Maybe (Expr.AllC source)) (g.expressionUnless k) := by
  unfold Grammar.expressionUnless
  refine .after fun missing => ?_
  split
  · exact .pure Maybe.none
  · exact hg.commaExpression.map fun value hvalue => Maybe.some hvalue

theorem condition (keyword : String) : Yields source (Expr.AllC source) (g.condition keyword) := by
  unfold Grammar.condition
  refine .after fun _ => hg.commaExpression.bind fun value hvalue => ?_
  exact .after fun _ => .pure hvalue

theorem branch : Yields source (Stmt.AllC source) g.branch := by
  unfold Grammar.branch
  refine hg.parseStatement.bind fun s? hs => .pure ?_
  cases s? with
  | none => exact Stmt.allC_block Each.nil
  | some s => exact hs s rfl

/-! ### Choices, loops and switches -/

theorem ifElse : Yields source (Stmt.AllC source) g.ifElse := by
  unfold Grammar.ifElse
  refine .after fun _ => .after fun _ => (hg.condition _).bind fun c hc => ?_
  refine hg.branch.bind fun yes hyes => (hg.branch.optionalAfter .kwElse).bind fun no? hno => ?_
  exact .pure (.intro trivial (by simpa [Node.fields, Stmt.fields] using ⟨hc, hyes, hno⟩))

theorem whileLoop : Yields source (Stmt.AllC source) g.whileLoop := by
  unfold Grammar.whileLoop
  refine .after fun _ => (hg.condition _).bind fun c hc => hg.branch.bind fun body hbody => ?_
  exact .pure (.intro trivial (by simpa [Node.fields, Stmt.fields] using ⟨hc, hbody⟩))

theorem doLoop : Yields source (Stmt.AllC source) g.doLoop := by
  unfold Grammar.doLoop
  refine .after fun _ => hg.branch.bind fun body hbody => .after fun _ => ?_
  refine (hg.condition _).bind fun c hc => .after fun _ => .pure (.intro trivial ?_)
  simpa [Node.fields, Stmt.fields] using ⟨hbody, hc⟩

theorem forLoop : Yields source (Stmt.AllC source) g.forLoop := by
  have hinit : Yields source (Maybe (Stmt.AllC source)) g.loopInit := by
    unfold Grammar.loopInit
    refine .after fun missing => ?_
    split
    · exact .pure Maybe.none
    · refine hg.declaration?.bind fun s? hs => ?_
      split
      · exact .pure hs
      · exact hg.expressionStatement.bind fun s hs => .pure (Maybe.some hs)
  have hclauses : Yields source (Stmt.AllC source) g.clauseLoop := by
    unfold Grammar.clauseLoop
    refine hinit.bind fun init? hinit => (hg.expressionUnless _).bind fun condition? hcondition => ?_
    refine .after fun _ => (hg.expressionUnless _).bind fun step? hstep => .after fun _ => ?_
    refine hg.branch.bind fun body hbody => .pure (.intro trivial ?_)
    simpa [Node.fields, Stmt.fields] using ⟨hinit, hcondition, hstep, hbody⟩
  unfold Grammar.forLoop
  exact .after fun _ => .after fun _ => .isCpp hg.isC hclauses

theorem switch : Yields source (Stmt.AllC source) g.switch := by
  have hvalue : Yields source (Maybe (Expr.AllC source)) g.armValue := by
    unfold Grammar.armValue
    refine .after fun k => ?_
    split
    · refine .after fun _ => hg.parseConditional.bind fun value hvalue => ?_
      exact .after fun _ => .pure (Maybe.some hvalue)
    · exact .after fun _ => .after fun _ => .pure Maybe.none
    · exact .expected _
  have harm : Yields source (fun a => Node.AllC source (.arm a)) g.arm := by
    unfold Grammar.arm
    refine hvalue.bind fun value? hvalue => (hg.statements endsArm).bind fun body hbody => ?_
    exact .pure (.intro trivial (by simpa [Node.fields] using ⟨hvalue, hbody⟩))
  have hnext : Yields source (Maybe (Maybe fun a => Node.AllC source (.arm a))) g.nextArm := by
    unfold Grammar.nextArm
    refine .after fun k => ?_
    split
    · exact .pure Maybe.none
    · exact harm.attempt.bind fun a? ha => .pure (Maybe.some ha)
  unfold Grammar.switch
  refine .after fun _ => (hg.condition _).bind fun c hc => .after fun _ => ?_
  refine (Yields.collect hnext).bind fun arms harms => .after fun _ => .pure (.intro trivial ?_)
  have hall : Each (fun a => Node.AllC source (.arm a)) (arms.filterMap id) := by
    intro a ha
    obtain ⟨a?, hmem, rfl⟩ := List.mem_filterMap.1 ha
    exact harms _ hmem a rfl
  simp only [Node.fields, Stmt.fields, every_cons, every_nil, toNodes_ofExpr, toNodes_nodes,
    List.forall_mem_singleton, List.forall_mem_map, and_true]
  exact ⟨hc, hall⟩

/-! ### All statements -/

theorem plainStatement : Yields source (Stmt.AllC source) g.plainStatement := by
  unfold Grammar.plainStatement
  refine hg.namedDeclaration?.bind fun s? hs => ?_
  split
  · rename_i s
    exact .pure (hs s rfl)
  · refine hg.declaration?.bind fun s? hs => ?_
    split
    · rename_i s
      exact .pure (hs s rfl)
    · exact hg.expressionStatement

theorem statement : Yields source (Maybe (Stmt.AllC source)) g.statement := by
  have hjump : ∀ {s : Stmt} {place : String}, s.IsC → s.fields = [] →
      Yields source (Maybe (Stmt.AllC source)) (some <$> jump s place) := by
    intro s place hs hfields
    unfold jump
    refine .map (m := Stmt.AllC source) ?_ fun s hs => Maybe.some hs
    exact .after fun _ => .after fun _ => .pure (.intro hs (by simp [Node.fields, hfields]))
  have hplain : Yields source (Maybe (Stmt.AllC source)) (some <$> g.plainStatement) :=
    hg.plainStatement.map fun s hs => Maybe.some hs
  unfold Grammar.statement
  refine .kind hg.isC fun k hk => ?_
  split
  · exact .after fun _ => .pure Maybe.none
  · exact hg.block.bind fun body hbody => .pure (Maybe.some (Stmt.allC_block hbody))
  · exact hg.ifElse.map fun s hs => Maybe.some hs
  · exact hg.whileLoop.map fun s hs => Maybe.some hs
  · exact hg.doLoop.map fun s hs => Maybe.some hs
  · exact hg.forLoop.map fun s hs => Maybe.some hs
  · exact hg.switch.map fun s hs => Maybe.some hs
  · have hvalue : Yields source (Maybe (Expr.AllC source)) (g.valueJump "after return value") := by
      unfold Grammar.valueJump
      exact .after fun _ => (hg.expressionUnless _).bind fun value? hv => .after fun _ => .pure hv
    refine hvalue.bind fun value? hvalue => .pure (Maybe.some (.intro trivial ?_))
    simpa [Node.fields, Stmt.fields] using hvalue
  · exact hjump trivial rfl
  · exact hjump trivial rfl
  · refine .after fun _ => .after fun label => .after fun _ => .pure (Maybe.some ?_)
    exact .intro trivial (by simp [Node.fields, Stmt.fields])
  · exact absurd hk (by decide)
  · exact absurd hk (by decide)
  · exact .after fun k => .unexpected _
  · exact .after fun k => .unexpected _
  · refine .after fun colon => ?_
    split
    · refine .after fun name => .pure (Maybe.some ?_)
      exact .intro trivial (by simp [Node.fields, Stmt.fields])
    · exact hplain
  · exact hplain

/-! ### Grammars of every depth -/

/-- One construct more. -/
theorem step : Grammar.OfC source ⟨fun r => Parse.nested (g.rule r)⟩ where
  isC := hg.isC
  parseAssignment := hg.assignment.nested
  parseConditional := hg.conditional.nested
  parseUnary := hg.unary.nested
  parseElements := hg.elements.nested
  parseStatement := hg.statement.nested
  parseMembers owner bases access := (hg.members owner bases access).nested
  parseItems := (hg.items true).nested
  parseItem := hg.item.nested

end Statements

end OfC

theorem ofC_ofDepth (hc : source.OfC) (depth : Nat) : (ofDepth depth).OfC source := by
  induction depth with
  | zero =>
    have hfails : ∀ {α : Type} (r : Nonterminal α) {m : α → Prop},
        Yields source m ((ofDepth 0).parse r) := fun _ => .failure fun s => ⟨_, s, rfl⟩
    exact ⟨hc, hfails _, hfails _, hfails _, hfails _, hfails _, fun _ _ _ => hfails _,
      hfails _, hfails _⟩
  | succ depth ih => exact ih.step

end Grammar

/-- Whatever is read in C is made of nodes of C: none of the nodes that only C++ has occurs, in no
    pass over any text. A cast is one by a type in parentheses, or else the name of the cast stands
    in the text with a `<` after it, where C has a comparison. -/
theorem program_allC (settings : Settings) (hdialect : settings.dialect = .c) (text : List Char)
    (passes : List String) (name : String) :
    Node.Everywhere (Node.IsC (Session.start settings text).source)
      (.program (((Session.start settings text).afterPasses passes).parse name).1) := by
  obtain ⟨hsource, -⟩ := Session.frame_afterPasses (Session.start settings text) passes
  have hc : (Session.start settings text).source.OfC := Session.ofC_start hdialect text
  rw [Session.parse_eq_run, hsource]
  have hgrammar := Grammar.ofC_ofDepth hc (Session.start settings text).source.settings.maxDepth
  refine Node.AllC.intro trivial ?_
  rcases hrun : ((Grammar.ofDepth (Session.start settings text).source.settings.maxDepth).items
      false).run (Session.start settings text).source
      ((Session.start settings text).afterPasses passes).state with ⟨e | body, t⟩
  · simp [Node.fields, Except.toOption]
  · have hbody := hgrammar.items false _ body t hrun
    simpa [Node.fields, Except.toOption] using hbody

/-- In the text `const_cast<y>(z);` the cast is there because its name is. -/
theorem program_allC_namedCast :
    let settings : Settings := { dialect := .c }
    let text := "const_cast<y>(z);".toList
    settings.dialect = .c ∧ Node.Everywhere (Node.IsC (Session.start settings text).source)
      (.program (((Session.start settings text).afterPasses []).parse "f.c").1) :=
  ⟨rfl, program_allC { dialect := .c } rfl _ [] "f.c"⟩

/-- The kind of the cast that a statement is, if it is one. -/
def Stmt.castKind? : Stmt → Option CastKind
  | .expr (.cast kind _ _) => some kind
  | _ => none

/-- A cast by name is read in C, where the guard that keeps template arguments out of C is missing. -/
theorem namedCast_in_c : ¬ Node.Everywhere
    (fun n => ∀ kind type e, n = .expr (.cast kind type e) → kind = .parenthesized)
    (.program ((Session.start { dialect := .c } "const_cast<y>(z);".toList).parse "f.c").1) := by
  intro h
  have hread : (((Session.start { dialect := .c } "const_cast<y>(z);".toList).parse "f.c").1.body.map
      Stmt.castKind?) = [some .constCast] := by
    decide +kernel
  obtain ⟨s, hs, hcast⟩ := List.mem_map.1 (hread ▸ List.mem_singleton_self (some CastKind.constCast))
  unfold Stmt.castKind? at hcast
  split at hcast
  · rename_i kind type e
    cases hcast
    have hstmt : Node.stmt (.expr (.cast .constCast type e)) ∈ (Node.program _).children :=
      Node.mem_children.2 ⟨_, List.mem_cons_of_mem _ List.mem_cons_self, List.mem_map_of_mem hs⟩
    have hexpr : Node.expr (.cast .constCast type e) ∈
        (Node.stmt (.expr (.cast .constCast type e))).children :=
      Node.mem_children.2 ⟨_, List.mem_cons_self, List.mem_cons_self⟩
    exact absurd (h _ (.tail (.single hstmt) hexpr) .constCast type e rfl) nofun
  · cases hcast

end CTree
