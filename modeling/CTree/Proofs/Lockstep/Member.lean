import CTree.Proofs.Lockstep.Template

/-!
# Members in lockstep

Every head of a member takes a token, and where no head can be read the cursor is still where it
was, at a token that is then skipped. So a member always takes a token.
-/

namespace CTree

namespace Parse

variable {α : Type} {a : Source} {s t : ParseState}

/-- Where none of several parsers succeeds, nothing has moved. -/
theorem position_of_firstOf_none {ps : List (Parse α)} (hps : ∀ p ∈ ps, ∀ s, Frame a s (p.run a s).2)
    (h : (firstOf ps).run a s = (.ok none, t)) : t.cursor.position = s.cursor.position := by
  induction ps generalizing s with
  | nil =>
    cases h
    rfl
  | cons p ps ih =>
    unfold firstOf at h
    obtain ⟨o, u, hu, hrest⟩ := exists_of_run_bind h
    cases o with
    | some x => cases hrest
    | none =>
      rw [ih (fun q hq => hps q (List.mem_cons_of_mem _ hq)) hrest]
      rcases hp : p.run a s with ⟨e | x, v⟩
      · rw [run_speculate_error hp] at hu
        rw [← (Prod.mk.inj hu).2]
        rfl
      · rw [run_speculate_ok hp] at hu
        cases hu

end Parse

namespace Lockstep

variable {α β : Type} {a b : Source} {n k : Nat} {P : ParseState → Prop} {m : α → Prop}
  {p q : Parse α}

theorem firstOfNil :
    Lockstep a b n P k present (Parse.firstOf (α := α) []) (Parse.firstOf []) := by
  unfold Parse.firstOf
  exact .result Bool.false_ne_true

theorem firstOfCons {ps qs : List (Parse α)} (h : Lockstep a b n P k always p q)
    (hs : Lockstep a b n anywhere k present (Parse.firstOf ps) (Parse.firstOf qs)) :
    Lockstep a b n P k present (Parse.firstOf (p :: ps)) (Parse.firstOf (q :: qs)) := by
  unfold Parse.firstOf
  exact .bindOption h.speculate (fun x => .pure _) hs

theorem demand (c : TokenKind → Bool) {message : String} (hmessage : IsPlain message) :
    Lockstep a b n P k never (Parse.demand c message) (Parse.demand c message) := by
  unfold Parse.demand
  refine .kind fun t => ?_
  split
  · exact .pure _
  · exact unexpected hmessage

/-! ### Heads that need no grammar -/

theorem destructorHead (owner : String) :
    Lockstep a b n P k always (Parse.destructorHead owner) (Parse.destructorHead owner) := by
  unfold Parse.destructorHead
  refine .bind specifiers fun specs => .andThen (skipOver .tilde _ nofun) fun _ => ?_
  refine .bind (name _).still fun name => ?_
  have hparen : Lockstep a b n anywhere 3 never
      (do
        unless ← Parse.check .lparen do
          Parse.expected "'(' after destructor name"
        return MemberHead.destructor specs)
      (do
        unless ← Parse.check .lparen do
          Parse.expected "'(' after destructor name"
        return MemberHead.destructor specs) := by
    refine .test fun paren => ?_
    split
    · exact .pure _
    · exact .bind (expected _) fun _ => .pure _
  split
  · refine .bind (unexpected ?_) fun _ => hparen
    exact isPlain_of_head rfl (by decide) (by decide) (by decide)
  · exact hparen

theorem fieldHead : Lockstep a b n P k always Parse.fieldHead Parse.fieldHead := by
  unfold Parse.fieldHead
  refine .bind specifiers fun specs => .bind typeName fun type => ?_
  have hname : Lockstep a b n anywhere k always
      (Parse.declaredName (Parse.name "in function pointer member")
        (Parse.name "in member declaration"))
      (Parse.declaredName (Parse.name "in function pointer member")
        (Parse.name "in member declaration")) :=
    declaredName (name _).still (name _) fun _ hx => hx
  refine .andThen hname fun declared => ?_
  exact .bind (demand _ (isPlain_of_head rfl (by decide) (by decide) (by decide))) fun _ => .pure _

theorem friend {m : Decl → Prop} (hP : a.Takes n k P m) :
    Lockstep a b n P k m Parse.friend Parse.friend := by
  unfold Parse.friend
  refine .taking hP skip fun _ => .mark fun start => .view fun v => ?_
  refine .bind (skipToBody _ _) fun _ => .bind textSince fun text => .test fun brace => ?_
  split
  · exact .bind (skipBalanced _ _ (by decide)).still fun _ => .pure _
  · exact .bind (skipOverAnywhere .semicolon _) fun _ => .pure _

theorem accessLabel : Lockstep a b n P k present Grammar.accessLabel Grammar.accessLabel := by
  unfold Grammar.accessLabel
  refine .checkAhead fun label => ?_
  split
  · refine .kind fun t => ?_
    split
    · rename_i access haccess
      have htoken : t ≠ .eof := by
        rintro rfl
        cases haccess
      exact .andThen (skip (Source.takes_at htoken)) fun _ => .bind skipAnywhere fun _ => .pure _
    · exact .result Bool.false_ne_true
  · exact .result Bool.false_ne_true

end Lockstep

namespace Grammar

variable {a : Source} {g : Grammar} {s t : ParseState}

/-- Where no label stands, nothing changes. -/
theorem state_of_accessLabel_none (h : accessLabel.run a s = (.ok none, t)) : t = s := by
  unfold accessLabel at h
  rw [Parse.run_bind_ok (Parse.run_checkAhead _ _)] at h
  split at h
  · rw [Parse.run_bind_ok Parse.run_kind] at h
    split at h
    · cases h
    · cases h
      rfl
  · cases h
    rfl

/-- Where no type is defined, nothing changes. -/
theorem state_of_typeDefinition?_none (h : g.typeDefinition?.run a s = (.ok none, t)) : t = s := by
  unfold typeDefinition? at h
  rw [Parse.run_bind_ok (Parse.run_lookAhead _)] at h
  split at h
  · obtain ⟨c, u, -, hrest⟩ := Parse.exists_of_run_bind h
    cases hrest
  · rw [Parse.run_bind_ok Parse.run_view] at h
    split at h
    · obtain ⟨e, u, -, hrest⟩ := Parse.exists_of_run_bind h
      cases hrest
    · cases h
      rfl

/-- A round counts one more. -/
theorem memberRound_some {owner : String} {bases : List BaseClass} {x y : Nat × Access}
    {found : List Decl} (h : (g.memberRound owner bases x).run a s = (.ok (some (found, y)), t)) :
    y.1 = x.1 + 1 := by
  unfold memberRound at h
  rw [Parse.run_bind_ok Parse.run_kind] at h
  split at h
  · cases h
  · rw [Parse.run_bind_ok Parse.run_settings] at h
    by_cases hceiling : a.settings.maxIterations ≤ x.1
    · rw [if_pos hceiling] at h
      cases h
    · rw [if_neg hceiling] at h
      obtain ⟨o, u, -, hrest⟩ := Parse.exists_of_run_bind h
      cases hrest
      rfl

namespace InStep

open Lockstep

variable {a b : Source} {n k : Nat} {P : ParseState → Prop} {g g' : Grammar}

section Heads

variable (hg : InStep a b n g g')
include hg

/-! ### Heads -/

theorem constructorHead (owner : String) :
    Lockstep a b n P k always (g.constructorHead owner) (g'.constructorHead owner) := by
  unfold Grammar.constructorHead
  refine .bind specifiers fun specs => .andThen (name _) fun name => .test fun paren => ?_
  split
  · refine .bind (unexpected ?_) fun _ => .bind hg.parameters.still fun ps => ?_
    · exact isPlain_of_head rfl (by decide) (by decide) (by decide)
    · exact .bind (demand _ (isPlain_of_head rfl (by decide) (by decide) (by decide))) fun _ => .pure _
  · refine .bind hg.parameters.still fun ps => ?_
    exact .bind (demand _ (isPlain_of_head rfl (by decide) (by decide) (by decide))) fun _ => .pure _

theorem operatorHead : Lockstep a b n P k always g.operatorHead g'.operatorHead := by
  unfold Grammar.operatorHead
  refine .bind specifiers fun _ => .test fun typeless => ?_
  split
  · refine .bind (.pure _) fun type => .andThen (skipOver .kwOperator _ nofun) fun _ => ?_
    exact .bind operatorSymbol fun symbol => .bind hg.parameters.still fun ps => .pure _
  · refine .bind typeName fun type => .andThen (skipOver .kwOperator _ nofun) fun _ => ?_
    exact .bind operatorSymbol fun symbol => .bind hg.parameters.still fun ps => .pure _

theorem methodHead : Lockstep a b n P k always g.methodHead g'.methodHead := by
  unfold Grammar.methodHead
  refine .bind specifiers fun specs => .bind typeName fun type => .andThen (name _) fun name => ?_
  refine .bind (demand _ (isPlain_of_head rfl (by decide) (by decide) (by decide))) fun _ => ?_
  refine .bind hg.parameters.still fun ps => ?_
  exact .bind (demand _ (isPlain_of_head rfl (by decide) (by decide) (by decide))) fun _ => .pure _

theorem memberHead (owner : String) :
    Lockstep a b n P k present (g.memberHead owner) (g'.memberHead owner) := by
  unfold Grammar.memberHead
  refine .firstOfCons (leniently (hg.constructorHead owner)) ?_
  refine .firstOfCons (leniently (destructorHead owner)) ?_
  refine .firstOfCons (leniently hg.operatorHead) ?_
  refine .firstOfCons (leniently hg.methodHead) ?_
  exact .firstOfCons (leniently fieldHead) firstOfNil

/-- Where no head can be read, the cursor stays where it is. -/
theorem position_of_memberHead_none {owner : String} {s t : ParseState}
    (h : (g.memberHead owner).run a s = (.ok none, t)) :
    t.cursor.position = s.cursor.position := by
  refine Parse.position_of_firstOf_none (fun p hp s => ?_) h
  obtain ⟨head, hhead, rfl⟩ := List.mem_map.1 hp
  simp only [List.mem_cons, List.not_mem_nil, or_false] at hhead
  rcases hhead with rfl | rfl | rfl | rfl | rfl
  · exact (leniently (hg.constructorHead (k := 0) owner)).frame (P := anywhere) trivial
  · exact (leniently (destructorHead (b := b) (n := n) (k := 0) owner)).frame (P := anywhere) trivial
  · exact (leniently (hg.operatorHead (k := 0))).frame (P := anywhere) trivial
  · exact (leniently (hg.methodHead (k := 0))).frame (P := anywhere) trivial
  · exact (leniently (fieldHead (b := b) (n := n) (k := 0))).frame (P := anywhere) trivial

end Heads

section Members

variable (hg : InStep a b n g g')
include hg

/-! ### Members -/

theorem fieldInit : Lockstep a b n P k never g.fieldInit g'.fieldInit := by
  unfold Grammar.fieldInit
  refine .bindBool (accept .assign nofun) (.andThen hg.initializer fun value => .pure _) ?_
  refine .test fun brace => ?_
  split
  · exact .andThen hg.bracedList fun es => .pure _
  · exact .pure _

theorem fieldOf (specs : Specifiers) (access : Access) (declared : String × String) :
    Lockstep a b n P k never (g.fieldOf specs access declared)
      (g'.fieldOf specs access declared) := by
  unfold Grammar.fieldOf
  refine .bind hg.dimensions fun dimensions => ?_
  refine .bind (optionalAfter .colon hg.parseConditional.still nofun).still fun bitWidth? => ?_
  exact .bind hg.fieldInit fun init? => .pure _

theorem fields (specs : Specifiers) (access : Access) (type name : String) :
    Lockstep a b n P k always (g.fields specs access type name)
      (g'.fields specs access type name) := by
  unfold Grammar.fields
  refine .bind (chain (hg.fieldOf specs access) ?_ _) fun fs => ?_
  · exact .bind (takeTexts _ _) fun type => .bind (Lockstep.name _).still fun name => .pure _
  · exact .andThen (skipOver .semicolon _ nofun) fun _ => .pure _

theorem memberRest (owner : String) (bases : List BaseClass) (access : Access)
    (head : MemberHead) : Lockstep a b n P k always (g.memberRest owner bases access head)
      (g'.memberRest owner bases access head) := by
  unfold Grammar.memberRest
  split
  · exact .andThen (hg.constructorRest _ _ _ _ _) fun d => .pure _
  · exact .andThen (hg.destructorRest _ _ _) fun d => .pure _
  · exact .bind functionQualifiers fun q => .andThen hg.functionBody fun body? => .pure _
  · exact .bind functionQualifiers fun q => .andThen hg.functionBody fun body? => .pure _
  · exact hg.fields _ _ _ _

theorem nestedTypeRest (access : Access) (t : TypeDefinition) :
    Lockstep a b n P k always (g.nestedTypeRest access t) (g'.nestedTypeRest access t) := by
  unfold Grammar.nestedTypeRest
  refine .bindBool (accept .semicolon nofun) (.pure _) ?_
  refine .bind (takeTexts _ _) fun type => .andThen (name _) fun name => ?_
  exact .andThen (hg.fields _ _ _ _) fun ds => .pure _

theorem plainMember {m : List Decl → Prop} (owner : String) (bases : List BaseClass)
    (access : Access) (hP : a.Takes n k P m) :
    Lockstep a b n P k m (g.plainMember owner bases access)
      (g'.plainMember owner bases access) := by
  unfold Grammar.plainMember
  refine .lookAt (fun v => v.kind 0) (fun _ _ => rfl) fun t => ?_
  have hP' : a.Takes n k (fun s => P s ∧ (a.view s).kind 0 = t) m := hP.weaken fun _ hs => hs.1
  split
  · exact .taking hP' skip fun _ => .pure _
  · exact hg.typedefs.any
  · exact .andThen usingDeclaration fun d => .pure _
  · exact .taking hP' hg.template fun d => .pure _
  · exact .andThen hg.staticAssertion fun d => .pure _
  · exact .taking hP' friend fun d => .pure _
  · split
    · exact .taking hP' directive fun d => .pure _
    · refine (hg.memberHead owner).bindOptionKnowing
        (Q := fun u => a.BeforeToken P → (a.view u).kind 0 ≠ .eof) (fun {s u} hs hrun hP => ?_)
        (fun head => (hg.memberRest owner bases access head).still) ?_
      · rw [Source.kind_of_position_eq (hg.position_of_memberHead_none hrun)]
        exact hP s hs.1
      · have hQ : a.Takes n k (fun u => a.BeforeToken P → (a.view u).kind 0 ≠ .eof) m :=
          hP.imp (fun hP u hu => hu hP) id
        exact .taking hQ (fun h => skipToken h _) fun _ => .pure _

theorem member {m : Access × List Decl → Prop} (owner : String) (bases : List BaseClass)
    (access : Access) (hP : a.Takes n k P m) :
    Lockstep a b n P k m (g.member owner bases access) (g'.member owner bases access) := by
  unfold Grammar.member
  refine Lockstep.accessLabel.bindOptionKnowing (Q := P) (fun hs hrun => ?_)
    (fun access => .pure _) ?_
  · rwa [state_of_accessLabel_none hrun]
  · refine hg.typeDefinition?.bindOptionKnowing (Q := P) (fun hs hrun => ?_) (fun t => ?_) ?_
    · rwa [state_of_typeDefinition?_none hrun]
    · exact .bind (hg.nestedTypeRest _ _).still fun ds => .pure _
    · exact .taking hP (hg.plainMember owner bases access) fun ds => .pure _

/-- A round of members. -/
theorem memberRound (owner : String) (bases : List BaseClass) (access : Access) {round : Nat}
    (hround : ∀ {s}, P s → Roomy a b n k s → round ≤ s.cursor.position) :
    Lockstep a b n P k present (g.memberRound owner bases (round, access))
      (g'.memberRound owner bases (round, access)) := by
  unfold Grammar.memberRound
  refine .lookAt (fun v => v.kind 0) (fun _ _ => rfl) fun t => ?_
  split
  · exact .result Bool.false_ne_true
  · rename_i hgo
    have htoken : t ≠ .eof := by
      rintro rfl
      exact hgo rfl
    refine .settings (.below (fun hs hroom => (hroom.round_lt (hround hs.1 hroom)).2)
      (framed_of_ceiling (fun _ => rfl) rfl) ?_)
    have hP : a.BeforeToken fun s => P s ∧ (a.view s).kind 0 = t := fun s hs => hs.2 ▸ htoken
    exact .andThen (attempt (m := always) hP (hg.member owner bases access (.inl hP)))
      fun x => .pure _

theorem members (owner : String) (bases : List BaseClass) (access : Access) :
    Lockstep a b n P k never (g.members owner bases access) (g'.members owner bases access) := by
  unfold Grammar.members
  refine rounds (fun x s => x.1 ≤ s.cursor.position)
    (fun x => (hg.memberRound owner bases x.2 fun hs _ => hs).still)
    (fun {x s found y t} hs hrun => ?_) fun _ _ => Nat.zero_le _
  have hmove := (hg.memberRound (k := k) owner bases x.2 fun hs _ => hs).moves hs hrun rfl
  have hround := memberRound_some hrun
  show y.1 ≤ t.cursor.position
  omega

end Members

end InStep

end Grammar

end CTree
