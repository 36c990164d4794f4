import CTree.Proofs.Tree.Member

/-!
# Sound declarations and items
-/

namespace CTree

open Parse

namespace Grammar

namespace Sound

open Lockstep

variable {source : Source} {known : KnownTypes} {room : Nat} {g : Grammar}
  (hg : g.Sound source known)
include hg

/-! ### Declarations that begin with a type -/

theorem declaration? :
    Gives source known room (Maybe (Stmt.Sound known room)) g.declaration? := by
  unfold Grammar.declaration?
  refine .after declarationHead.speculateStill fun head? => ?_
  split
  · exact .pure Maybe.none
  · refine (hg.freeOperator _).bind fun o => .pure fun ho => Maybe.some ?_
    exact Stmt.sound_decl.2 ⟨ho, rfl⟩
  · exact (hg.functionOrVariable _ _).map fun s hs => Maybe.some hs
  · refine (hg.variableDecls _ _).bind fun vs => .pure fun hvs => ?_
    exact Maybe.some (Stmt.sound_ofVariables hvs)

theorem special? :
    Gives source known room (Maybe (Decl.SoundFree known room)) g.special? := by
  have hrest : ∀ path, Gives source known room (Decl.SoundFree known room) (g.specialRest path) := by
    intro path
    unfold Grammar.specialRest
    split
    · exact (hg.destructorRest _ _ _).bind fun d => .pure fun hd => ⟨hd, rfl⟩
    · refine hg.parameters.leniently.bind fun ps => ?_
      exact (hg.constructorRest _ _ _ ps _).bind fun c => .pure fun hc hps => ⟨hc hps, rfl⟩
  unfold Grammar.special?
  refine .look (fun _ => rfl) fun cpp => .after atSpecial fun here => ?_
  split
  · exact .pure Maybe.none
  · refine .after (speculate specialPath) fun path? => ?_
    split
    · exact .pure Maybe.none
    · exact (hrest _).map fun d => Maybe.some

theorem definitionRest (t : TypeDefinition) : Gives source known room
    (fun s => t.decl.SoundAnywhere known room → s.Sound known room) (g.definitionRest t) := by
  unfold Grammar.definitionRest
  refine .after (acceptAnywhere .semicolon) fun bare => ?_
  split
  · exact .pure fun ht => Stmt.sound_decl.2 ht.2
  · refine .look (fun _ => rfl) fun atEnd => ?_
    split
    · refine .look (fun _ => rfl) fun e => .bind (.any fun s => .record source s _) fun _ => ?_
      exact .pure fun _ ht => Stmt.sound_decl.2 ht.2
    · refine .after (definitionMarks _) fun type => (hg.variableDecls {} type).bind fun vs => ?_
      refine .pure fun hvs ht => Stmt.sound_block.2 ?_
      exact Each.cons (Stmt.sound_decl.2 ht.2) (List.forall_mem_map.2 hvs)

/-! ### Declarations with a keyword of their own -/

theorem namespaceDeclaration :
    Gives source known room (Decl.SoundFree known room) g.namespaceDeclaration := by
  unfold Grammar.namespaceDeclaration Grammar.namespaceRest
  refine .after skipAnywhere fun _ => .after namespaceName fun name => ?_
  refine .after (acceptAnywhere .assign) fun target? => ?_
  split
  · refine .after qualifiedName fun target => .after (skipOverAnywhere .semicolon _) fun _ => ?_
    exact .pure ⟨Decl.sound_of_isAtom rfl, rfl⟩
  · refine .after (skipOverAnywhere .lbrace _) fun _ => hg.parseItems.bind fun body => ?_
    refine .after (closeBrace _) fun _ => .pure ?_
    rintro ⟨inner, hlt, hbody⟩
    exact ⟨Decl.sound_namespaceBlock hlt hbody, rfl⟩

theorem linkage : Gives source known room (Stmt.Sound known room) g.linkage := by
  unfold Grammar.linkage
  refine .after skipAnywhere fun _ => .after skipAnywhere fun _ => ?_
  refine .after (acceptAnywhere .lbrace) fun several => ?_
  split
  · refine hg.parseItems.bind fun body => .after (closeBrace _) fun _ => .pure ?_
    rintro ⟨inner, hlt, hbody⟩
    exact Stmt.sound_block.2 fun s hs => (hbody s hs).mono (Nat.le_of_lt hlt)
  · refine hg.parseItem.bind fun s? => .pure fun hs => ?_
    cases s? with
    | none => exact Stmt.sound_block.2 (List.forall_mem_nil _)
    | some s => exact hs s rfl

theorem namedDeclaration? :
    Gives source known room (Maybe (Stmt.Sound known room)) g.namedDeclaration? := by
  have hfree : ∀ {p : Parse Decl}, Gives source known room (Decl.SoundFree known room) p →
      Gives source known room (Maybe (Stmt.Sound known room)) (do return some (.decl (← p))) :=
    fun hp => hp.bind fun d => .pure fun hd => Maybe.some (Stmt.sound_decl.2 hd)
  have hanywhere : ∀ {p : Parse Decl}, Gives source known room (Decl.SoundAnywhere known room) p →
      Gives source known room (Maybe (Stmt.Sound known room)) (do return some (.decl (← p))) :=
    fun hp => hfree (hp.mono fun d hd => hd.2)
  unfold Grammar.namedDeclaration?
  refine hg.typeDefinition?.bind fun t? => ?_
  split
  · rename_i t
    exact (hg.definitionRest t).map fun s hs ht => Maybe.some (hs (ht t rfl))
  · refine .mono (m := Maybe (Stmt.Sound known room)) ?_ fun _ hs _ => hs
    refine .look (fun _ => rfl) fun k => .look (fun _ => rfl) fun next => ?_
    split
    · exact hfree hg.namespaceDeclaration
    · exact .after skipAnywhere fun _ => hfree hg.namespaceDeclaration
    · exact hanywhere hg.template
    · refine hg.typedefs.bind fun ds => .pure fun hds => Maybe.some ?_
      exact Stmt.sound_ofDecls fun d hd => (hds d hd).2
    · exact hanywhere usingDeclaration
    · exact hg.linkage.map fun s hs => Maybe.some hs
    · exact hanywhere hg.staticAssertion
    · split
      · exact hanywhere directive
      · exact .pure Maybe.none

/-! ### Items -/

theorem item : Gives source known room (Maybe (Stmt.Sound known room)) g.item := by
  unfold Grammar.item
  refine hg.namedDeclaration?.bind fun s? => ?_
  split
  · exact .pure id
  · refine hg.special?.bind fun d? => ?_
    split
    · rename_i d
      exact .pure fun hd _ => Maybe.some (Stmt.sound_decl.2 (hd d rfl))
    · refine hg.declaration?.bind fun s? => ?_
      split
      · exact .pure fun hs _ _ => hs
      · exact hg.parseStatement.mono fun _ hs _ _ _ => hs

theorem items (inNamespace : Bool) :
    Gives source known room (Each (Stmt.Sound known room)) (g.items inNamespace) := by
  unfold Grammar.items
  refine .rounds (fun round => ?_) 0
  unfold Grammar.itemRound
  refine .look (fun _ => rfl) fun k => ?_
  split
  · exact .pure Maybe.none
  · split
    · exact .pure Maybe.none
    · refine .after (skipToken source.takes_nothing _) fun _ => ?_
      exact .pure (Maybe.some Each.nil)
  · refine .look (fun _ => rfl) fun limit => ?_
    dsimp only
    split
    · refine .look (fun _ => rfl) fun e => .bind (.any fun s => .record source s _) fun _ => ?_
      exact .pure fun _ => Maybe.none
    · refine hg.item.attempt.bind fun s? => .pure fun hs => Maybe.some fun s hmem => ?_
      have hjoin : s?.join = some s := Option.mem_toList.1 hmem
      exact hs _ (Option.join_eq_some_iff.1 hjoin) s rfl

end Sound

end Grammar

end CTree
