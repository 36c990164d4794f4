import CTree.Proofs.Lockstep.Member

/-!
# Declarations and items in lockstep

What begins like a declaration is only looked at until its form is known; from then on it is read for
good, and a token is taken.
-/

namespace CTree

namespace Lockstep

variable {a b : Source} {n k : Nat} {P : ParseState → Prop}

/-! ### Heads that need no grammar -/

theorem formedType : Lockstep a b n P k never Parse.formedType Parse.formedType := by
  unfold Parse.formedType
  refine .bind typeName fun type => ?_
  refine .lookAhead (fun _ _ _ h h' => View.declarationForm_ample h h') fun form? => ?_
  split
  · exact .pure _
  · exact unexpected (isPlain_of_head rfl (by decide) (by decide) (by decide))

theorem declarationHead :
    Lockstep a b n P k never Parse.declarationHead Parse.declarationHead := by
  unfold Parse.declarationHead
  refine .bind specifiers fun specs => .view fun v => ?_
  split
  · exact .bind formedType fun formed => .pure _
  · exact .bind (expected _) fun _ => .bind formedType fun formed => .pure _

theorem specialSegment (path : SpecialPath) :
    Lockstep a b n P k never (Parse.specialSegment path) (Parse.specialSegment path) := by
  unfold Parse.specialSegment
  split
  · exact .pure _
  · refine .bind (acceptAnywhere .colonColon) fun more => ?_
    split
    · refine .bind (acceptAnywhere .tilde) fun destructor => ?_
      split
      · exact .bind (name _).still fun name => .pure _
      · exact .bind (name _).still fun name => .pure _
    · exact .pure _

theorem specialPath : Lockstep a b n P k always Parse.specialPath Parse.specialPath := by
  unfold Parse.specialPath
  refine .bind specifiers fun _ => .andThen (name _) fun first => ?_
  refine .bind (iterate specialSegment _) fun path => .test fun paren => ?_
  split
  · exact .pure _
  · exact unexpected (isPlain_of_head rfl (by decide) (by decide) (by decide))

theorem atSpecial : Lockstep a b n P k never Parse.atSpecial Parse.atSpecial := by
  unfold Parse.atSpecial
  refine .kind fun t => ?_
  split
  · exact .pure _
  · exact .pure _
  · exact reading (fun _ v => v.kind 1 == .colonColon) (fun _ _ => rfl)
      fun hroom => by rw [hroom.twin.view_eq]
  · exact .pure _

theorem definitionMarks (type : String) :
    Lockstep a b n P k never (Parse.definitionMarks type) (Parse.definitionMarks type) := by
  unfold Parse.definitionMarks
  refine iterate (fun type => .kind fun t => ?_) type
  split
  · exact .bind advanceAnywhere fun t => .pure _
  · exact .bind advanceAnywhere fun t => .pure _
  · exact .bind advanceAnywhere fun t => .pure _
  · exact .pure _

theorem namespaceName : Lockstep a b n P k never Parse.namespaceName Parse.namespaceName := by
  unfold Parse.namespaceName
  refine .test fun named => ?_
  split
  · exact qualifiedName.still
  · exact .pure _

end Lockstep

namespace Grammar

/-- A round counts at most one more, and finds at most one item. -/
theorem itemRound_some {a : Source} {g : Grammar} {inNamespace : Bool} {round round' : Nat}
    {found : List Stmt} {s t : ParseState}
    (h : (g.itemRound inNamespace round).run a s = (.ok (some (found, round')), t)) :
    round' ≤ round + 1 ∧ found.length ≤ 1 := by
  unfold itemRound at h
  rw [Parse.run_bind_ok Parse.run_kind] at h
  split at h
  · cases h
  · split at h
    · cases h
    · obtain ⟨x, u, -, hrest⟩ := Parse.exists_of_run_bind h
      cases hrest
      exact ⟨Nat.le_succ _, Nat.zero_le _⟩
  · rw [Parse.run_bind_ok Parse.run_settings] at h
    by_cases hceiling : a.settings.maxIterations ≤ round
    · rw [if_pos hceiling] at h
      cases h
    · rw [if_neg hceiling] at h
      obtain ⟨x, u, -, hrest⟩ := Parse.exists_of_run_bind h
      cases hrest
      refine ⟨Nat.le_refl _, ?_⟩
      rcases x.join with _ | s
      · exact Nat.zero_le _
      · exact Nat.le_refl _

namespace InStep

open Lockstep

variable {a b : Source} {n k : Nat} {P : ParseState → Prop} {g g' : Grammar}

section Declarations

variable (hg : InStep a b n g g')
include hg

theorem declaration? : Lockstep a b n P k present g.declaration? g'.declaration? := by
  unfold Grammar.declaration?
  refine .bind declarationHead.speculateStill fun head? => ?_
  split
  · exact .result Bool.false_ne_true
  · exact .andThen (hg.freeOperator _) fun d => .pure _
  · exact (hg.functionOrVariable _ _).map fun _ _ => trivial
  · exact .andThen (hg.variableDecls _ _) fun vs => .pure _

theorem specialRest (path : SpecialPath) :
    Lockstep a b n P k always (g.specialRest path) (g'.specialRest path) := by
  unfold Grammar.specialRest
  split
  · exact .andThen (hg.destructorRest _ _ _) fun d => .pure _
  · refine .andThen (leniently hg.parameters) fun ps => ?_
    exact .andThen (hg.constructorRest _ _ _ _ _) fun d => .pure _

theorem special? : Lockstep a b n P k present g.special? g'.special? := by
  unfold Grammar.special?
  refine .isCpp fun cpp => .bind atSpecial fun special => ?_
  split
  · exact .result Bool.false_ne_true
  · refine .bindOption (speculate specialPath) (fun path => ?_) (.result Bool.false_ne_true)
    exact .bind (hg.specialRest path).still fun d => .pure _

theorem definitionRest (t : TypeDefinition) :
    Lockstep a b n P k never (g.definitionRest t) (g'.definitionRest t) := by
  unfold Grammar.definitionRest
  refine .bind (acceptAnywhere .semicolon) fun bare => ?_
  split
  · exact .pure _
  · refine .check ?_ ?_
    · exact .expectation fun e hshows he => .bind (report hshows he) fun _ => .pure _
    · refine .bind (definitionMarks _) fun type => ?_
      exact .bind (hg.variableDecls _ _).still fun vs => .pure _

theorem namespaceRest : Lockstep a b n P k never g.namespaceRest g'.namespaceRest := by
  unfold Grammar.namespaceRest
  refine .bind namespaceName fun name => .bind (acceptAnywhere .assign) fun target? => ?_
  split
  · refine .bind qualifiedName.still fun target => ?_
    exact .bind (skipOverAnywhere .semicolon _) fun _ => .pure _
  · refine .andThen (skipOver .lbrace _ nofun) fun _ => .bind hg.parseItems fun body => ?_
    exact .bind (closeBrace _) fun _ => .pure _

theorem namespaceDeclaration {m : Decl → Prop} (hP : a.Takes n k P m) :
    Lockstep a b n P k m g.namespaceDeclaration g'.namespaceDeclaration := by
  unfold Grammar.namespaceDeclaration
  exact .taking hP skip fun _ => hg.namespaceRest

theorem linkage {m : Stmt → Prop} (hP : a.Takes n k P m) :
    Lockstep a b n P k m g.linkage g'.linkage := by
  unfold Grammar.linkage
  refine .taking hP skip fun _ => .bind skipAnywhere fun _ => ?_
  refine .bind (acceptAnywhere .lbrace) fun several => ?_
  split
  · exact .bind hg.parseItems fun body => .bind (closeBrace _) fun _ => .pure _
  · exact .andThen hg.parseItem fun s? => .pure _

theorem namedDeclaration? :
    Lockstep a b n P k present g.namedDeclaration? g'.namedDeclaration? := by
  unfold Grammar.namedDeclaration?
  refine .bindOption hg.typeDefinition? (fun t => (hg.definitionRest t).map fun _ h => h) ?_
  refine .kind fun t => .kindAhead fun next => ?_
  split
  · exact .andThen (hg.namespaceDeclaration (Source.takes_at (by decide))) fun d => .pure _
  · refine .andThen (skip (Source.takes_at (by decide))) fun _ => .bind ?_ fun d => .pure _
    exact .bind skipAnywhere fun _ => hg.namespaceRest
  · exact .andThen (hg.template (Source.takes_at (by decide))) fun d => .pure _
  · exact .andThen hg.typedefs fun ds => .pure _
  · exact .andThen usingDeclaration fun d => .pure _
  · exact (hg.linkage (Source.takes_at (by decide))).map fun _ _ => trivial
  · exact .andThen hg.staticAssertion fun d => .pure _
  · split
    · rename_i hdirective
      have htoken : t ≠ .eof := by
        rintro rfl
        cases hdirective
      exact .andThen (directive (Source.takes_at htoken)) fun d => .pure _
    · exact .result Bool.false_ne_true

end Declarations

section Items

variable (hg : InStep a b n g g')
include hg

/-! ### Items -/

theorem item : Lockstep a b n P (k + 2) always g.item g'.item := by
  unfold Grammar.item
  refine .bindOption hg.namedDeclaration? (fun s => .pure _) ?_
  refine .bindOption hg.special? (fun d => .pure _) ?_
  refine .bindOption hg.declaration? (fun s => .pure _) ?_
  exact hg.parseStatement

/-- A round of items. One that is skipped is not counted. -/
theorem itemRound (inNamespace : Bool) {round : Nat}
    (hround : ∀ {s}, P s → Roomy a b n (k + 2) s → round ≤ s.cursor.position) :
    Lockstep a b n P (k + 2) present (g.itemRound inNamespace round)
      (g'.itemRound inNamespace round) := by
  unfold Grammar.itemRound
  refine .lookAt (fun v => v.kind 0) (fun _ _ => rfl) fun t => ?_
  split
  · exact .result Bool.false_ne_true
  · split
    · exact .result Bool.false_ne_true
    · exact .andThen (skipToken (.inl fun s hs => hs.2 ▸ by decide) _) fun _ => .pure _
  · rename_i htoken _
    have hP : a.BeforeToken fun s => P s ∧ (a.view s).kind 0 = t := fun s hs => hs.2 ▸ htoken
    refine .settings (.below (fun hs hroom => (hroom.round_lt (hround hs.1 hroom)).2) ?_ ?_)
    · refine ⟨.exhaustion fun e he => .bind (.report he) fun _ => .pure _, fun _ => .record ..,
        fun _ hrun hx => ?_⟩
      cases hrun
      cases hx
    · exact .andThen (attempt hP hg.item) fun x => .pure _

theorem items (inNamespace : Bool) :
    Lockstep a b n P (k + 2) never (g.items inNamespace) (g'.items inNamespace) := by
  unfold Grammar.items
  refine rounds (fun round s => round ≤ s.cursor.position)
    (fun round => (hg.itemRound inNamespace fun hs _ => hs).still)
    (fun {round s found round' t} hs hrun => ?_) fun _ _ => Nat.zero_le _
  have hmove := (hg.itemRound (k := k) inNamespace fun hs _ => hs).moves hs hrun rfl
  have hround := (itemRound_some hrun).1
  show round' ≤ t.cursor.position
  omega

end Items

end InStep

end Grammar

end CTree
