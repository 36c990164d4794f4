import CTree.Outline
import CTree.Proofs.Visits.Parts

/-!
# Outlines as trees

The lines of an outline belong to a tree, which has the nodes that have a line of their own. The depth of a
line tells what it is inside of, so that the tree is read back from the lines.
-/

namespace CTree

/-- A text, and the trees inside of it. -/
inductive TextTree
  | node (text : String) (inside : List TextTree)

namespace TextTree

/-! ### Entries -/

/-- The texts of trees in order, each with its depth. -/
def entries (depth : Nat) : List TextTree → List (Nat × String)
  | [] => []
  | node text inside :: ts => (depth, text) :: (entries (depth + 1) inside ++ entries depth ts)

/-- The trees that have the given texts and depths. What is deeper than a text, up to the next one that is not,
is inside of it. -/
def ofEntries : List (Nat × String) → List TextTree
  | [] => []
  | (depth, text) :: es =>
    node text (ofEntries (es.takeWhile (depth < ·.1))) :: ofEntries (es.dropWhile (depth < ·.1))
termination_by es => es.length
decreasing_by
  · exact Nat.lt_succ_of_le (List.takeWhile_sublist _).length_le
  · exact Nat.lt_succ_of_le (List.dropWhile_sublist _).length_le

variable {ts us : List TextTree} {depth : Nat}

theorem entries_append : entries depth (ts ++ us) = entries depth ts ++ entries depth us := by
  induction ts with
  | nil => rw [entries, List.nil_append, List.nil_append]
  | cons t ts ih =>
    cases t
    rw [List.cons_append, entries, entries, ih, List.cons_append, List.append_assoc]

theorem entries_flatMap {α : Type} (f : α → List TextTree) (as : List α) :
    entries depth (as.flatMap f) = as.flatMap fun a => entries depth (f a) := by
  induction as with
  | nil => rw [List.flatMap_nil, List.flatMap_nil, entries]
  | cons a as ih => rw [List.flatMap_cons, List.flatMap_cons, entries_append, ih]

theorem le_of_mem_entries : ∀ e ∈ entries depth ts, depth ≤ e.1 := by
  induction depth, ts using entries.induct with
  | case1 depth =>
    rw [entries]
    exact List.forall_mem_nil _
  | case2 depth text inside ts ih ih' =>
    rw [entries]
    exact List.forall_mem_cons.2 ⟨Nat.le_refl _,
      List.forall_mem_append.2 ⟨fun e he => Nat.le_of_succ_le (ih e he), ih'⟩⟩

/-- The first of some entries is not inside of anything. -/
theorem takeWhile_entries (depth : Nat) (ts : List TextTree) : (entries depth ts).takeWhile (depth < ·.1) = [] ∧
    (entries depth ts).dropWhile (depth < ·.1) = entries depth ts := by
  cases ts with
  | nil => simp [entries]
  | cons t ts =>
    cases t
    simp [entries]

/-- The entries of trees determine the trees. -/
theorem ofEntries_entries : ofEntries (entries depth ts) = ts := by
  induction depth, ts using entries.induct with
  | case1 depth => rw [entries, ofEntries]
  | case2 depth text inside ts ih ih' =>
    have hinside : ∀ e ∈ entries (depth + 1) inside, decide (depth < e.1) = true :=
      fun e he => decide_eq_true (le_of_mem_entries e he)
    obtain ⟨htake, hdrop⟩ := takeWhile_entries depth ts
    rw [entries, ofEntries, List.takeWhile_append_of_pos hinside, List.dropWhile_append_of_pos hinside, htake,
      hdrop, List.append_nil, ih, ih']

/-! ### Lines -/

/-- The line of a text, with two spaces for each text around it. -/
def line (e : Nat × String) : String :=
  String.ofList (List.replicate (2 * e.1) ' ') ++ e.2

/-- What the spaces at the beginning of a line say. -/
def ofLine (line : String) : Nat × String :=
  ((line.toList.takeWhile (· == ' ')).length / 2, String.ofList (line.toList.dropWhile (· == ' ')))

/-- The lines of a tree. -/
def lines (t : TextTree) : List String :=
  (entries 0 [t]).map line

/-- The trees that have the given lines. -/
def ofLines (lines : List String) : List TextTree :=
  ofEntries (lines.map ofLine)

/-- The spaces are those in front of the text, if it does not begin with one itself. -/
theorem ofLine_line {e : Nat × String} (h : e.2.toList.head? ≠ some ' ') : ofLine (line e) = e := by
  obtain ⟨depth, text⟩ := e
  have hspaces : ∀ c ∈ List.replicate (2 * depth) ' ', (c == ' ') = true :=
    fun c hc => beq_iff_eq.2 (List.mem_replicate.1 hc).2
  have htext : text.toList.takeWhile (· == ' ') = [] ∧ text.toList.dropWhile (· == ' ') = text.toList := by
    generalize text.toList = cs at h
    cases cs with
    | nil => exact ⟨rfl, rfl⟩
    | cons c cs =>
      have hc : ¬ (c == ' ') = true := fun hc => h (congrArg some (beq_iff_eq.1 hc))
      exact ⟨List.takeWhile_cons_of_neg hc, List.dropWhile_cons_of_neg hc⟩
  rw [ofLine, line, String.toList_append, String.toList_ofList, List.takeWhile_append_of_pos hspaces,
    List.dropWhile_append_of_pos hspaces, htext.1, htext.2, List.append_nil, List.length_replicate,
    Nat.mul_div_cancel_left _ Nat.two_pos, String.ofList_toList]

/-- A tree is read back from its lines. -/
theorem ofLines_lines {t : TextTree} (h : ∀ e ∈ entries 0 [t], e.2.toList.head? ≠ some ' ') :
    ofLines t.lines = [t] := by
  have hentries : (entries 0 [t]).map (ofLine ∘ line) = entries 0 [t] :=
    (List.map_congr_left fun e he => ofLine_line (h e he)).trans (List.map_id _)
  rw [ofLines, lines, List.map_map, hentries, ofEntries_entries]

end TextTree

/-! ### Lines of a text -/

/-- The lines of a text in which a line feed ends each of them. -/
def Text.lines (text : String) : List String :=
  (text.toList.splitOn '\n').dropLast.map String.ofList

/-- A text that is written as a line takes as many lines as there are in it. -/
theorem Text.lines_join (texts : List String) : Text.lines (String.join (texts.map (· ++ "\n"))) =
    texts.flatMap fun text => (text.toList.splitOn '\n').map String.ofList := by
  have hsplit : (String.join (texts.map (· ++ "\n"))).toList.splitOn '\n' =
      (texts.flatMap fun text => text.toList.splitOn '\n') ++ [[]] := by
    induction texts with
    | nil => rfl
    | cons text texts ih =>
      have htoList : (String.join ((text :: texts).map (· ++ "\n"))).toList =
          text.toList ++ '\n' :: (String.join (texts.map (· ++ "\n"))).toList := by
        rw [List.map_cons, String.join_cons, String.toList_append, String.toList_append, List.append_assoc]
        rfl
      rw [htoList, List.splitOn_append_cons_self, ih, List.flatMap_cons, List.append_assoc]
  rw [Text.lines, hsplit, List.dropLast_concat, List.map_flatMap]

theorem Text.not_mem_of_mem_splitOn {cs : List Char} : ∀ piece ∈ cs.splitOn '\n', '\n' ∉ piece := by
  induction cs with
  | nil => simp
  | cons c cs ih =>
    rw [List.splitOn_cons_eq_if_modifyHead]
    split
    · exact List.forall_mem_cons.2 ⟨List.not_mem_nil, ih⟩
    · next hc =>
      obtain ⟨piece, pieces, hpieces⟩ := List.exists_cons_of_ne_nil (List.splitOn_ne_nil '\n' cs)
      rw [hpieces] at ih ⊢
      obtain ⟨hpiece, hrest⟩ := List.forall_mem_cons.1 ih
      refine List.forall_mem_cons.2 ⟨?_, hrest⟩
      rw [List.mem_cons, not_or]
      exact ⟨fun h => hc (beq_iff_eq.2 h.symm), hpiece⟩

/-- Texts that are written as lines are the lines if none of them takes more than one. -/
theorem Text.lines_join_eq_iff {texts : List String} :
    Text.lines (String.join (texts.map (· ++ "\n"))) = texts ↔ ∀ text ∈ texts, '\n' ∉ text.toList := by
  rw [lines_join]
  constructor
  · intro h text htext
    rw [← h] at htext
    obtain ⟨whole, -, hmem⟩ := List.mem_flatMap.1 htext
    obtain ⟨piece, hpiece, rfl⟩ := List.mem_map.1 hmem
    rw [String.toList_ofList]
    exact not_mem_of_mem_splitOn piece hpiece
  · intro h
    induction texts with
    | nil => rfl
    | cons text texts ih =>
      obtain ⟨htext, htexts⟩ := List.forall_mem_cons.1 h
      rw [List.flatMap_cons, ih htexts, List.splitOn_eq_singleton htext, List.map_singleton,
        String.ofList_toList, List.singleton_append]

/-! ### Labels -/

namespace Label

/-- The text is letters only, and some. -/
def isWord (kind : String) : Bool :=
  !kind.toList.isEmpty && kind.toList.all (·.isAlpha)

variable {l : Label}

theorem toList_line : ∃ rest, l.line.toList = l.kind.toList ++ rest ∧
    ('\n' ∈ rest ↔ '\n' ∈ l.detail.toList) := by
  unfold line
  split
  · next h => exact ⟨[], (List.append_nil _).symm, by rw [String.isEmpty_iff.1 h]; rfl⟩
  · refine ⟨" [".toList ++ l.detail.toList ++ "]".toList, by simp only [String.toList_append, List.append_assoc],
      ?_⟩
    simp

/-- A line begins with a letter. -/
theorem head?_line (h : isWord l.kind = true) : l.line.toList.head? ≠ some ' ' := by
  obtain ⟨rest, hline, -⟩ := l.toList_line
  rw [isWord, Bool.and_eq_true, List.all_eq_true] at h
  rw [hline]
  cases hkind : l.kind.toList with
  | nil => simp [hkind] at h
  | cons c cs =>
    intro hc
    have hletter := h.2 c (hkind ▸ List.mem_cons_self)
    rw [Option.some.inj hc] at hletter
    exact absurd hletter (by decide)

/-- A label takes one line if its detail does. -/
theorem lf_mem_line (h : isWord l.kind = true) : '\n' ∈ l.line.toList ↔ '\n' ∈ l.detail.toList := by
  obtain ⟨rest, hline, hrest⟩ := l.toList_line
  have hkind : '\n' ∉ l.kind.toList := fun hmem =>
    absurd (List.all_eq_true.1 (Bool.and_eq_true_iff.1 h).2 _ hmem) (by decide)
  rw [hline, List.mem_append, hrest, or_iff_right hkind]

end Label

/-! ### Nodes -/

namespace Node

/-- The trees of a node: those inside of it stand in the place of a node that has no line of its own. -/
def textTrees (n : Node) : List TextTree :=
  let inside := n.parts.attach.flatMap fun ⟨m, _⟩ => m.textTrees
  if n.isOutlined then [.node n.label.line inside] else inside
termination_by n
decreasing_by exact sizeOf_lt_of_mem_parts ‹_›

theorem textTrees_eq (n : Node) : n.textTrees =
    if n.isOutlined then [.node n.label.line (n.parts.flatMap textTrees)] else n.parts.flatMap textTrees := by
  rw [textTrees]
  simp [List.flatMap_subtype]

/-- A traversal goes to the nodes that have a line, in the order of the tree. -/
theorem entries_textTrees (n : Node) (depth : Nat) : TextTree.entries depth n.textTrees =
    (n.walk isOutlined depth).map fun (d, m) => (d, m.label.line) := by
  induction n using induction_parts generalizing depth with
  | step n ih =>
    rw [textTrees_eq, walk_eq_parts]
    split
    · rw [TextTree.entries, TextTree.entries_flatMap, TextTree.entries, List.append_nil, List.map_cons,
        List.map_flatMap]
      exact congrArg _ (List.flatMap_congr fun m hm => ih m hm (depth + 1))
    · rw [TextTree.entries_flatMap, List.map_flatMap]
      exact List.flatMap_congr fun m hm => ih m hm depth

/-- The kind of a node that has a line is a word. -/
theorem isWord_kind (n : Node) (h : n.isOutlined = true) : Label.isWord n.label.kind = true := by
  cases n with
  | expr e => cases e <;> (dsimp only [label, Expr.tag]; decide +kernel)
  | stmt s =>
    cases s
    case decl => cases h
    all_goals dsimp only [label, Stmt.tag]; decide +kernel
  | decl d => cases d <;> (dsimp only [label, Decl.tag]; decide +kernel)
  | arm a =>
    obtain ⟨value?, body⟩ := a
    cases value? <;> (dsimp [label, tag?]; decide +kernel)
  | program | parameter | handler => dsimp only [label]; decide +kernel
  | _ => cases h

end Node

/-- The tree of a program. -/
def Program.textTree (p : Program) : TextTree :=
  .node (Node.program p).label.line ((Node.program p).parts.flatMap Node.textTrees)

theorem Program.entries_textTree (p : Program) : TextTree.entries 0 [p.textTree] =
    ((Node.program p).walk Node.isOutlined 0).map fun (d, m) => (d, m.label.line) := by
  rw [← Node.entries_textTrees, Node.textTrees_eq]
  rfl

/-- An outline is the lines of the tree. -/
theorem Program.outline_eq (p : Program) : p.outline = String.join (p.textTree.lines.map (· ++ "\n")) := by
  rw [Program.outline, TextTree.lines, Program.entries_textTree, List.map_map, List.map_map]
  rfl

/-- Each line of the tree takes as many lines of the outline as there are in it. -/
theorem Program.lines_outline (p : Program) : Text.lines p.outline =
    p.textTree.lines.flatMap fun line => (line.toList.splitOn '\n').map String.ofList := by
  rw [Program.outline_eq, Text.lines_join]

end CTree
