import CTree.Proofs.Tree.Expression

/-!
# Sound declarators

What follows the type of a declaration. A declaration in a class keeps to what a class may hold, and
one outside of classes to what stands there.
-/

namespace CTree

open Parse

namespace Stmt

variable {known : KnownTypes} {room : Nat}

theorem sound_ofVariables {vs : List VarDecl} (h : Each (VarDecl.Sound known room) vs) :
    (ofVariables vs).Sound known room := by
  unfold ofVariables
  split
  · exact h _ List.mem_cons_self
  · exact sound_block.2 (List.forall_mem_map.2 h)

theorem sound_ofDecls {ds : List Decl} (h : Each (Decl.SoundFree known room) ds) :
    (ofDecls ds).Sound known room := by
  unfold ofDecls
  split
  · exact sound_decl.2 (h _ List.mem_cons_self)
  · exact sound_block.2 (List.forall_mem_map.2 fun d hd => sound_decl.2 (h d hd))

end Stmt

namespace Grammar

namespace Sound

open Lockstep

variable {source : Source} {known : KnownTypes} {room : Nat} {g : Grammar}
  (hg : g.Sound source known)
include hg

/-! ### Variables -/

theorem variableInit (type : String) :
    Gives source known room (Maybe (Expr.Sound known room)) (g.variableInit type) := by
  unfold Grammar.variableInit
  refine .after (acceptAnywhere .assign) fun assigned => ?_
  split
  · exact hg.initializer.map fun value => Maybe.some
  · refine .look (fun _ => rfl) fun cpp => .look (fun _ => rfl) fun brace => ?_
    split
    · exact hg.bracedList.map fun value => Maybe.some
    · refine .after (acceptAnywhere .lparen) fun direct => ?_
      split
      · refine (hg.arguments .rparen).bind fun values => .pure fun hvalues => Maybe.some ?_
        exact Expr.sound_call.2 ⟨Expr.sound_of_isAtom rfl, hvalues⟩
      · exact .pure Maybe.none

theorem variableDecls (specs : Specifiers) (type : String) :
    Gives source known room (Each (VarDecl.Sound known room)) (g.variableDecls specs type) := by
  have hvariable : ∀ type, Gives source known room (VarDecl.Sound known room)
      (g.variableOf specs.storage? type) := by
    intro type
    unfold Grammar.variableOf
    refine .after qualifiedName fun name => hg.dimensions.bind fun dimensions => ?_
    refine (hg.variableInit type).bind fun init? => .pure fun hinit hdimensions => ?_
    exact Stmt.sound_var.2 ⟨hinit, hdimensions⟩
  unfold Grammar.variableDecls
  refine (Gives.chain hvariable (Lockstep.takeTexts _ _).keeps type).bind fun vs => ?_
  exact .after (skipOverAnywhere .semicolon _) fun _ => .pure id

/-! ### Functions -/

/-- The rest of a function is sound if its parameters are. -/
theorem functionRest (specs : Specifiers) (type name : String) (ps : List Parameter) :
    Gives source known room (fun f => Each (Parameter.Sound known room) ps →
      (Decl.function f).Sound known room) (g.functionRest specs type name ps) := by
  unfold Grammar.functionRest
  refine .after functionQualifiers fun q => hg.functionBody.bind fun body? => ?_
  exact .pure fun hbody hps => Decl.sound_function.2 ⟨hps, hbody⟩

theorem functionOrVariable (specs : Specifiers) (type : String) :
    Gives source known room (Stmt.Sound known room) (g.functionOrVariable specs type) := by
  unfold Grammar.functionOrVariable
  refine .after qualifiedName fun name => hg.parameters.strictly.speculate.bind fun ps? => ?_
  split
  · rename_i ps
    refine (hg.functionRest specs type name ps).bind fun f => .pure fun hf hps => ?_
    exact Stmt.sound_decl.2 ⟨hf (hps ps rfl), rfl⟩
  · have harguments : Gives source known room (Each (Expr.Sound known room)) g.directArguments := by
      unfold Grammar.directArguments
      refine .after (skipOverAnywhere .lparen _) fun _ => ?_
      refine (hg.arguments .rparen).bind fun values => ?_
      exact .after (skipOverAnywhere .semicolon _) fun _ => .pure id
    refine harguments.speculate.bind fun values? => ?_
    split
    · rename_i values
      refine .pure fun hvalues _ => Stmt.sound_var.2 ⟨Maybe.some ?_, fun e he => nomatch he⟩
      exact Expr.sound_call.2 ⟨Expr.sound_of_isAtom rfl, hvalues values rfl⟩
    · refine hg.parameters.leniently.bind fun ps => ?_
      refine (hg.functionRest specs type name ps).bind fun f => .pure fun hf hps _ _ => ?_
      exact Stmt.sound_decl.2 ⟨hf hps, rfl⟩

theorem freeOperator (type : String) : Gives source known room
    (fun o => (Decl.operator o).Sound known room) (g.freeOperator type) := by
  unfold Grammar.freeOperator
  refine .after (iterate (fun _ => ?_) ()) fun _ => ?_
  · refine .test fun owner => ?_
    split
    · exact .bind skipAnywhere fun _ => .bind skipAnywhere fun _ => .pure _
    · exact .pure _
  · refine .after (skipOverAnywhere .kwOperator _) fun _ => .after operatorSymbol fun symbol => ?_
    refine hg.parameters.leniently.bind fun ps => .after functionQualifiers fun q => ?_
    refine hg.functionBody.bind fun body? => .pure fun hbody hps => ?_
    exact Decl.sound_operator.2 ⟨hps, hbody⟩

/-! ### Constructors and destructors -/

theorem memberInit (bases : List BaseClass) :
    Gives source known room (MemberInit.Sound known room) (g.memberInit bases) := by
  have hvalues : Gives source known room (Each (Expr.Sound known room)) g.memberInitValues := by
    unfold Grammar.memberInitValues
    refine .after (acceptAnywhere .lparen) fun parens => ?_
    split
    · exact hg.arguments .rparen
    · refine .look (fun _ => rfl) fun braces => ?_
      split
      · refine hg.initializerList.mono ?_
        rintro es ⟨inner, hlt, hes⟩ e he
        exact (hes e he).mono (Nat.le_of_lt hlt)
      · exact .failure fun _ => ⟨_, rfl⟩
  unfold Grammar.memberInit
  refine .after memberInitPath fun path => hvalues.bind fun values => ?_
  refine .after (acceptAnywhere .ellipsis) fun _ => .look (fun _ => rfl) fun isKnown => ?_
  exact .pure fun h => MemberInit.sound_iff.2 h

theorem constructorRest (name : String) (access : Access) (isExplicit : Bool)
    (ps : List Parameter) (bases : List BaseClass) : Gives source known room
      (fun c => Each (Parameter.Sound known room) ps → (Decl.constructor c).Sound known room)
      (g.constructorRest name access isExplicit ps bases) := by
  have hrest : ∀ inits, Gives source known room
      (fun c => Each (MemberInit.Sound known room) inits → Each (Parameter.Sound known room) ps →
        (Decl.constructor c).Sound known room)
      (do return ConstructorDecl.mk name access isExplicit ps inits (← g.functionBody)) := by
    intro inits
    refine hg.functionBody.bind fun body? => .pure fun hbody hinits hps => ?_
    exact Decl.sound_constructor.2 ⟨hps, hinits, hbody⟩
  unfold Grammar.constructorRest
  refine .after functionQualifiers fun _ => .after (acceptAnywhere .colon) fun colon => ?_
  dsimp only
  split
  · exact (Gives.separated (hg.memberInit bases)).bind hrest
  · exact (Gives.pure Each.nil).bind hrest

theorem destructorRest (name : String) (access : Access) (isVirtual : Bool) :
    Gives source known room (fun d => (Decl.destructor d).Sound known room)
      (g.destructorRest name access isVirtual) := by
  unfold Grammar.destructorRest
  refine hg.parameters.bind fun _ => .after functionQualifiers fun _ => ?_
  refine hg.functionBody.bind fun body? => .pure fun hbody _ => ?_
  exact Decl.sound_destructor.2 hbody

end Sound

end Grammar

end CTree
