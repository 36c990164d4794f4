import CTree.Proofs.Tree.Definition

/-!
# Sound members of classes

A head is tried before it is known what the member is, and the parameters in it are kept; the rest
of the member is sound if they are.
-/

namespace CTree

open Parse

/-- The parameters in the head of a member are in order. -/
def MemberHead.Sound (known : KnownTypes) (room : Nat) : MemberHead → Prop
  | .constructor _ ps | .operator _ _ ps | .method _ _ _ ps => Each (Parameter.Sound known room) ps
  | .destructor _ | .field .. => True

/-- A demand takes nothing, whether or not it is met. -/
theorem Parse.keepsFrame_demand {source : Source} {c : TokenKind → Bool} {message : String} :
    KeepsFrame source (demand c message) := by
  intro s
  unfold demand
  rw [run_bind_ok run_kind]
  split <;> exact .refl source s

namespace Grammar

namespace Sound

open Lockstep

variable {source : Source} {known : KnownTypes} {room : Nat} {g : Grammar}

/-! ### Heads -/

theorem destructorHead (owner : String) :
    Gives source known room (MemberHead.Sound known room) (destructorHead owner) := by
  unfold Parse.destructorHead
  refine .after specifiers fun specs => .after (skipOverAnywhere .tilde _) fun _ => ?_
  refine .after (Lockstep.name _) fun name => ?_
  dsimp only
  split
  · exact .failure fun _ => ⟨_, rfl⟩
  · refine .look (fun _ => rfl) fun paren => ?_
    split
    · exact .pure trivial
    · exact .failure fun _ => ⟨_, rfl⟩

theorem fieldHead : Gives source known room (MemberHead.Sound known room) fieldHead := by
  unfold Parse.fieldHead
  refine .after specifiers fun specs => .after typeName fun type => ?_
  have hname : Lockstep source source 0 anywhere 3 never
      (Parse.declaredName (Parse.name "in function pointer member")
        (Parse.name "in member declaration"))
      (Parse.declaredName (Parse.name "in function pointer member")
        (Parse.name "in member declaration")) :=
    declaredName (Lockstep.name _).still (Lockstep.name _).still fun _ hx => hx
  refine .after hname fun declared => .afterKeeping keepsFrame_demand fun _ => ?_
  exact .pure trivial

section Heads

variable (hg : g.Sound source known)
include hg

theorem constructorHead (owner : String) :
    Gives source known room (MemberHead.Sound known room) (g.constructorHead owner) := by
  unfold Grammar.constructorHead
  refine .after specifiers fun specs => .after (Lockstep.name _) fun name => ?_
  refine .look (fun _ => rfl) fun paren => ?_
  dsimp only
  split
  · exact .failure fun _ => ⟨_, rfl⟩
  · refine hg.parameters.bind fun ps => .afterKeeping keepsFrame_demand fun _ => ?_
    exact .pure id

theorem operatorHead :
    Gives source known room (MemberHead.Sound known room) g.operatorHead := by
  have hrest : ∀ type, Gives source known room (MemberHead.Sound known room) (do
      Parse.skipOver .kwOperator
      let symbol ← Parse.operatorSymbol
      let ps ← g.parameters
      return .operator (if type.isEmpty then symbol else type) symbol ps) := by
    intro type
    refine .after (skipOverAnywhere .kwOperator _) fun _ => .after operatorSymbol fun symbol => ?_
    exact hg.parameters.bind fun ps => .pure id
  unfold Grammar.operatorHead
  refine .after specifiers fun _ => .look (fun _ => rfl) fun typeless => ?_
  dsimp only
  split
  · exact hrest ""
  · exact .after typeName hrest

theorem methodHead : Gives source known room (MemberHead.Sound known room) g.methodHead := by
  unfold Grammar.methodHead
  refine .after specifiers fun specs => .after typeName fun type => ?_
  refine .after (Lockstep.name _) fun name => .afterKeeping keepsFrame_demand fun _ => ?_
  refine hg.parameters.bind fun ps => .afterKeeping keepsFrame_demand fun _ => ?_
  exact .pure id

theorem memberHead (owner : String) :
    Gives source known room (Maybe (MemberHead.Sound known room)) (g.memberHead owner) := by
  unfold Grammar.memberHead
  refine .firstOf fun p hp => ?_
  obtain ⟨head, hhead, rfl⟩ := List.mem_map.1 hp
  simp only [List.mem_cons, List.not_mem_nil, or_false] at hhead
  rcases hhead with rfl | rfl | rfl | rfl | rfl
  · exact (hg.constructorHead owner).leniently
  · exact (destructorHead owner).leniently
  · exact hg.operatorHead.leniently
  · exact hg.methodHead.leniently
  · exact fieldHead.leniently

end Heads

section Members

variable (hg : g.Sound source known)
include hg

/-! ### Members -/

theorem fieldOf (specs : Specifiers) (access : Access) (declared : String × String) :
    Gives source known room (fun f => (Decl.field f).SoundMember known room)
      (g.fieldOf specs access declared) := by
  have hinit : Gives source known room (Maybe (Expr.Sound known room)) g.fieldInit := by
    unfold Grammar.fieldInit
    refine .after (acceptAnywhere .assign) fun assigned => ?_
    split
    · exact hg.initializer.map fun value => Maybe.some
    · refine .look (fun _ => rfl) fun brace => ?_
      split
      · exact hg.bracedList.map fun value => Maybe.some
      · exact .pure Maybe.none
  unfold Grammar.fieldOf
  refine hg.dimensions.bind fun dimensions => ?_
  refine (hg.parseConditional.optionalAfter .colon).bind fun bitWidth? => ?_
  refine hinit.bind fun init? => .pure fun hinit hwidth hdimensions => ⟨?_, rfl⟩
  exact Decl.sound_field.2 ⟨hinit, hdimensions, hwidth⟩

theorem fields (specs : Specifiers) (access : Access) (type name : String) :
    Gives source known room (Each (Decl.SoundMember known room))
      (g.fields specs access type name) := by
  unfold Grammar.fields
  have hnext : Lockstep source source 0 anywhere 3 never
      (do
        let type ← Parse.takeTexts TokenKind.isPointerMark (TypeText.base type)
        return (type, ← Parse.name "in member declaration"))
      (do
        let type ← Parse.takeTexts TokenKind.isPointerMark (TypeText.base type)
        return (type, ← Parse.name "in member declaration")) :=
    .bind (Lockstep.takeTexts _ _) fun type => .bind (Lockstep.name _).still fun name => .pure _
  refine (Gives.chain (hg.fieldOf specs access) hnext.keeps (type, name)).bind fun fs => ?_
  refine .after (skipOverAnywhere .semicolon _) fun _ => .pure fun hfs => ?_
  exact List.forall_mem_map.2 hfs

/-- The rest of a member is sound if its head is. -/
theorem memberRest (owner : String) (bases : List BaseClass) (access : Access)
    (head : MemberHead) : Gives source known room
      (fun ds => head.Sound known room → Each (Decl.SoundMember known room) ds)
      (g.memberRest owner bases access head) := by
  have hone : ∀ {d : Decl}, d.Sound known room → d.isOutside = false →
      Each (Decl.SoundMember known room) [d] :=
    fun hd houtside => Each.single ⟨hd, houtside⟩
  cases head with
  | constructor specs ps =>
    refine (hg.constructorRest owner access specs.isExplicit ps bases).bind fun c => ?_
    exact .pure fun hc hps => hone (hc hps) rfl
  | destructor specs =>
    refine (hg.destructorRest ("~" ++ owner) access specs.isVirtual).bind fun d => ?_
    exact .pure fun hd _ => hone hd rfl
  | operator type symbol ps =>
    refine .after functionQualifiers fun q => hg.functionBody.bind fun body? => ?_
    exact .pure fun hbody hps => hone (Decl.sound_operator.2 ⟨hps, hbody⟩) rfl
  | method specs type name ps =>
    refine .after functionQualifiers fun q => hg.functionBody.bind fun body? => ?_
    exact .pure fun hbody hps => hone (Decl.sound_method.2 ⟨hps, hbody⟩) rfl
  | field specs type name => exact (hg.fields specs access type name).mono fun _ hds _ => hds

theorem nestedTypeRest (access : Access) (t : TypeDefinition) : Gives source known room
    (fun ds => t.decl.SoundAnywhere known room → Each (Decl.SoundMember known room) ds)
    (g.nestedTypeRest access t) := by
  unfold Grammar.nestedTypeRest
  refine .after (acceptAnywhere .semicolon) fun bare => ?_
  split
  · exact .pure fun ht => Each.single ht.1
  · refine .after (Lockstep.takeTexts _ _) fun type => .after (Lockstep.name _) fun name => ?_
    exact (hg.fields {} access type name).bind fun ds => .pure fun hds ht => Each.cons ht.1 hds

theorem plainMember (owner : String) (bases : List BaseClass) (access : Access) :
    Gives source known room (Each (Decl.SoundMember known room))
      (g.plainMember owner bases access) := by
  have hone : ∀ {p : Parse Decl}, Gives source known room (Decl.SoundAnywhere known room) p →
      Gives source known room (Each (Decl.SoundMember known room)) (do return [← p]) :=
    fun hp => hp.bind fun d => .pure fun hd => Each.single hd.1
  unfold Grammar.plainMember
  refine .look (fun _ => rfl) fun k => ?_
  split
  · exact .after skipAnywhere fun _ => .pure Each.nil
  · exact hg.typedefs.mono fun ds hds d hd => (hds d hd).1
  · exact hone usingDeclaration
  · exact hone hg.template
  · exact hone hg.staticAssertion
  · refine .bind (m := (Decl.SoundMember known room)) ?_ fun d => ?_
    · unfold Parse.friend
      refine .after skipAnywhere fun _ => .look (fun _ => rfl) fun start => ?_
      refine .look (fun _ => rfl) fun v => .after (skipToBody _ _) fun _ => ?_
      refine .after textSince fun text => .look (fun _ => rfl) fun brace => ?_
      have hfriend : (Decl.friend text).SoundMember known room := ⟨Decl.sound_of_isAtom rfl, rfl⟩
      dsimp only
      split
      · exact .after (skipBalanced _ _ (by decide)) fun _ => .pure hfriend
      · exact .after (skipOverAnywhere .semicolon _) fun _ => .pure hfriend
    · exact .pure fun hd => Each.single hd
  · split
    · exact hone directive
    · refine (hg.memberHead owner).bind fun head? => ?_
      split
      · rename_i head
        refine (hg.memberRest owner bases access head).mono fun ds hds hhead => hds ?_
        exact hhead head rfl
      · refine .after (skipToken source.takes_nothing _) fun _ => ?_
        exact .pure fun _ => Each.nil

theorem member (owner : String) (bases : List BaseClass) (access : Access) :
    Gives source known room (fun r => Each (Decl.SoundMember known room) r.2)
      (g.member owner bases access) := by
  unfold Grammar.member
  refine .after Lockstep.accessLabel fun access? => ?_
  split
  · exact .pure Each.nil
  · refine hg.typeDefinition?.bind fun t? => ?_
    split
    · rename_i t
      refine (hg.nestedTypeRest access t).bind fun ds => .pure fun hds ht => ?_
      exact hds (ht t rfl)
    · exact (hg.plainMember owner bases access).bind fun ds => .pure fun hds _ => hds

theorem members (owner : String) (bases : List BaseClass) (access : Access) :
    Gives source known room (Each (Decl.SoundMember known room)) (g.members owner bases access) := by
  unfold Grammar.members
  refine .rounds (fun round => ?_) _
  unfold Grammar.memberRound
  refine .look (fun _ => rfl) fun k => ?_
  dsimp only
  split
  · exact .pure Maybe.none
  · refine .look (fun _ => rfl) fun limit => ?_
    split
    · exact .failure fun _ => ⟨_, rfl⟩
    · refine (hg.member owner bases round.2).attempt.bind fun r? => .pure fun hr => Maybe.some ?_
      cases r? with
      | none => exact Each.nil
      | some r => exact hr r rfl

end Members

end Sound

end Grammar

end CTree
