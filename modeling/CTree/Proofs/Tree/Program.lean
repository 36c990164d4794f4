import CTree.Proofs.Tree.Statement

/-!
# Programs are sound

What a session reads, pass after pass, is sound: every node is well-formed and stands where it may,
the types that are introduced are known from then on, and no way down the tree opens more constructs
than the settings allow.
-/

namespace CTree

open Content Parse

namespace Session

/-- The session after some more passes, each of which reads a program with the given name. -/
def afterPasses : List String → Session → Session
  | [], s => s
  | name :: names, s => afterPasses names (s.parse name).2

/-- The type names that are known. -/
def known (s : Session) : KnownTypes :=
  s.state.cursor.known

variable {s : Session}

theorem frame_parse (s : Session) (name : String) :
    Frame s.source s.state (s.parse name).2.state := by
  rw [parse_eq_run]
  exact (parserFrames s.source s.source.settings.maxDepth).declarations.items false s.state

theorem source_parse (s : Session) (name : String) : (s.parse name).2.source = s.source := by
  rw [parse_eq_run]

/-- The source stays what it is, and what it is compared with only moves on. -/
theorem frame_afterPasses (s : Session) (names : List String) :
    (s.afterPasses names).source = s.source ∧
      Frame s.source s.state (s.afterPasses names).state := by
  induction names generalizing s with
  | nil => exact ⟨rfl, .refl _ _⟩
  | cons name names ih =>
    obtain ⟨hsource, hframe⟩ := ih (s.parse name).2
    rw [source_parse] at hsource hframe
    exact ⟨hsource, (frame_parse s name).trans hframe⟩

/-- A program that is read where no construct is open is sound. -/
theorem sound_parse (hwords : s.source.NamesAreWords) (hdepth : s.state.cursor.depth = 0)
    (name : String) : Node.Sound (s.parse name).2.known false s.source.settings.maxDepth
      (.program (s.parse name).1) := by
  have hplain : ∀ {p : Program} {known : KnownTypes} {room : Nat},
      Each (Stmt.Sound known room) p.body → Node.Sound known false room (.program p) := by
    intro p known room hbody
    rw [Node.sound_iff_of_plain rfl]
    refine ⟨trivial, trivial, ?_⟩
    simpa [Node.fields, Node.isTemplate] using hbody
  rw [parse_eq_run]
  rcases hrun : ((Grammar.ofDepth s.source.settings.maxDepth).items false).run s.source s.state
    with ⟨e | body, t⟩
  · exact hplain Each.nil
  · have hgrammar := Grammar.sound_ofDepth hwords t.cursor.known s.source.settings.maxDepth
    have hroom : s.state.cursor.depth + s.source.settings.maxDepth = s.source.settings.maxDepth := by
      rw [hdepth, Nat.zero_add]
    exact hplain ((hgrammar.items false).value hroom hrun (List.Subset.refl _))

/-- Every pass over a text reads a sound program. -/
theorem sound_pass (settings : Settings) (text : List Char) (passes : List String) (name : String) :
    let r := ((start settings text).afterPasses passes).parse name
    Node.Sound r.2.known false settings.maxDepth (.program r.1) := by
  obtain ⟨hsource, hframe⟩ := frame_afterPasses (start settings text) passes
  have hwords : ((start settings text).afterPasses passes).source.NamesAreWords := by
    rw [hsource]
    exact namesAreWords_start settings text
  have hsound := sound_parse hwords hframe.depth name
  rwa [hsource] at hsound

end Session

/-! ### Well-formed programs -/

namespace Node

/-- Whether a node is a class. -/
def isClass : Node → Bool
  | .decl (.classType _) => true
  | _ => false

/-- What is for classes only stands right below a class, and what may not stand in a class does
    not. -/
def Placed (n : Node) : Prop :=
  ∀ d, .decl d ∈ n.children →
    (d.isMember = true → n.isClass = true) ∧ (n.isClass = true → d.isOutside = false)

/-- The shape of a node decides what stands right below it. -/
theorem WellFormed.placed {n : Node} (h : n.WellFormed) : n.Placed := by
  suffices hfields : Every (fun m => ∀ d, m = .decl d → (d.isMember = true → n.isClass = true) ∧
      (n.isClass = true → d.isOutside = false)) n.fields by
    intro d hd
    obtain ⟨f, hf, hm⟩ := mem_children.1 hd
    exact hfields f hf _ hm d rfl
  cases n with
  | expr e =>
    cases e <;> simp [fields, Expr.fields]
    case sizeof q | typeid q => simp [Query.fields]
  | stmt s =>
    cases s <;> simp [fields, Stmt.fields, VarDecl.fields]
    case decl d => simpa [isClass, WellFormed, Stmt.WellFormed] using h
  | decl d =>
    cases d <;> simp [fields, Decl.fields]
    case classType c => simpa [isClass, WellFormed, Decl.WellFormed] using h.2.1
    case typedef type synonym definition? =>
      cases definition? with
      | none => simp
      | some d => simpa [isClass, WellFormed, Decl.WellFormed] using h
    case template ps head declaration? =>
      cases declaration? with
      | none => simp
      | some d =>
        have hhead : d.IsHead := h
        cases d <;> simp [Decl.IsHead, Decl.isMember, isClass] at hhead ⊢
  | _ => simp [fields]

end Node

/-- Every program that is read is well-formed: all its nodes have the shape that they should have,
    and what belongs to classes stands there and nowhere else. -/
theorem program_wellFormed (settings : Settings) (text : List Char) (passes : List String)
    (name : String) : Node.Everywhere (fun n => n.WellFormed ∧ n.Placed)
      (.program (((Session.start settings text).afterPasses passes).parse name).1) := by
  intro n hn
  obtain ⟨_, _, hsound⟩ := (Session.sound_pass settings text passes name).everywhere n hn
  exact ⟨hsound.wellFormed, hsound.wellFormed.placed⟩

/-- Every type that a program introduces, anywhere in it, is known after the pass that reads the
    program; and no parser forgets a name, so it is known after all later passes. -/
theorem introduced_known (settings : Settings) (text : List Char) (passes : List String)
    (name : String) :
    let s := (Session.start settings text).afterPasses passes
    let r := s.parse name
    Node.Everywhere (Node.Introduces r.2.known) (.program r.1) ∧
      (∀ later, s.known.names ⊆ r.2.known.names ∧
        r.2.known.names ⊆ (r.2.afterPasses later).known.names) ∧
      ∀ {α : Type} (nonterminal : Nonterminal α) (depth : Nat) (t : ParseState),
        t.cursor.known.names ⊆
          (((Grammar.ofDepth depth).parse nonterminal).run s.source t).2.cursor.known.names := by
  intro s r
  refine ⟨fun n hn => ?_, fun later => ⟨?_, ?_⟩, fun nonterminal depth t => ?_⟩
  · obtain ⟨_, _, hsound⟩ := (Session.sound_pass settings text passes name).everywhere n hn
    exact hsound.introduces
  · exact (Session.frame_parse s name).known
  · exact (Session.frame_afterPasses r.2 later).2.known
  · exact ((parserFrames s.source depth).nonterminals nonterminal t).known

/-- The ceiling on depth bounds the trees: on no way from the root of a program down to a leaf are
    more constructs open than the settings allow. -/
theorem opened_le_maxDepth (settings : Settings) (text : List Char) (passes : List String)
    (name : String) : Node.OpensAtMost settings.maxDepth
      (.program (((Session.start settings text).afterPasses passes).parse name).1) := by
  intro way hway
  exact (Session.sound_pass settings text passes name).opened_le hway

end CTree
