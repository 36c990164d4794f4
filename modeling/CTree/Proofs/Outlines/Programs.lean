import CTree.Proofs.Directives
import CTree.Proofs.Extent.Program
import CTree.Proofs.Outlines.Trees

/-!
# Outlines of programs

The outline of a program has one line for each node, unless a detail takes more than one line. A detail has
the texts of tokens in it, and what belongs to a directive as it stands in the source. So if no token and no
directive takes more than one line, the tree of the program is read back from the lines.
-/

namespace CTree

/-! ### Directives of one line -/

namespace Text

/-- A logical line ends at a line feed or at the end of the text. -/
theorem exists_logicalEndFrom (offset : Nat) (escaped : Bool) (cs : List Char) : ∃ line rest,
    cs = line ++ rest ∧ logicalEndFrom offset escaped cs = offset + byteLength line ∧
      ∀ c ∈ rest.head?, c = '\n' := by
  induction cs generalizing offset escaped with
  | nil => exact ⟨[], [], rfl, rfl, fun c hc => nomatch hc⟩
  | cons c cs ih =>
    rw [logicalEndFrom]
    split
    · next hends =>
      have hfeed : c = '\n' := of_decide_eq_true (Bool.and_eq_true_iff.1 hends).1
      exact ⟨[], c :: cs, rfl, rfl, fun x hx => Option.some.inj hx ▸ hfeed⟩
    · obtain ⟨line, rest, rfl, hend, hrest⟩ := ih (offset + c.utf8Size) (if c = '\r' then escaped else c == '\\')
      refine ⟨c :: line, rest, rfl, ?_, hrest⟩
      rw [hend, byteLength_cons, Nat.add_assoc]

variable {pre line rest front mid back : List Char}

/-- What begins before a line feed, and has none in it, ends before it. -/
theorem byteLength_le_of_lineFeed (h : front ++ (mid ++ back) = line ++ rest)
    (hrest : ∀ c ∈ rest.head?, c = '\n') (hmid : '\n' ∉ mid) (hlt : byteLength front < byteLength line) :
    byteLength (front ++ mid) ≤ byteLength line := by
  obtain ⟨more, rfl, hmore⟩ := exists_eq_append h (Nat.le_of_lt hlt)
  rcases List.append_eq_append_iff.1 hmore with ⟨beyond, rfl, -⟩ | ⟨beyond, rfl, hbeyond⟩
  · simp only [byteLength_append]
    omega
  · cases beyond with
    | nil => simp
    | cons c beyond =>
      have hfeed : c = '\n' := hrest c (by rw [hbeyond]; rfl)
      exact absurd (List.mem_append_right _ (hfeed ▸ List.mem_cons_self)) hmid

/-- What begins and ends inside a part of a text is in it. -/
theorem subset_of_between (h : front ++ (mid ++ back) = pre ++ (line ++ rest))
    (hfirst : byteLength pre ≤ byteLength front) (hlast : byteLength (front ++ mid) ≤ byteLength (pre ++ line)) :
    mid ⊆ line := by
  obtain ⟨left, rfl, -⟩ := exists_eq_append h.symm hfirst
  rw [← List.append_assoc, ← List.append_assoc] at h
  obtain ⟨right, hline, -⟩ := exists_eq_append h hlast
  rw [List.append_assoc, List.append_assoc, List.append_cancel_left_eq] at hline
  rw [hline]
  exact fun c hc => List.mem_append_right _ (List.mem_append_left _ hc)

end Text

namespace Session

variable {settings : Settings} {text : List Char}

/-- The tokens of a session are those of the text. -/
theorem mem_tokens_get (settings : Settings) (text : List Char) (i : Nat) :
    (start settings text).source.stream.get i ∈ (tokenize settings.dialect text).tokens := by
  obtain ⟨ts, hbody, hlast, htokens, -⟩ := exists_stream_start settings text
  rw [htokens]
  by_cases hi : i < (start settings text).source.stream.body.size
  · rw [TokenStream.get_of_lt _ hi]
    refine List.mem_append_left _ ?_
    simp only [hbody, List.getElem_toArray, List.getElem_mem]
  · rw [TokenStream.get_of_le _ (Nat.le_of_not_lt hi), hlast]
    exact List.mem_append_right _ (List.mem_singleton_self _)

/-- The line of a directive, from its mark on. -/
theorem exists_line_get {i : Nat} (hi : i < (start settings text).source.stream.body.size) :
    let t := (start settings text).source.stream.get i
    ∃ pre line rest, text = pre ++ (line ++ rest) ∧ t.offset = Text.byteLength pre ∧
      Text.logicalEnd text t.offset = Text.byteLength (pre ++ line) ∧
      Text.slice t.offset (Text.logicalEnd text t.offset) text = line ∧ ∀ c ∈ rest.head?, c = '\n' := by
  intro t
  obtain ⟨-, pre, post, htext, hoffset⟩ := standsIn_get hi
  rw [Nat.zero_add] at hoffset
  obtain ⟨line, rest, hparts, hend, hrest⟩ :=
    Text.exists_logicalEndFrom (Text.byteLength pre) false (t.text.toList ++ post)
  have hlines : text = pre ++ (line ++ rest) := htext.trans (congrArg _ hparts)
  have hstop : Text.logicalEnd text t.offset = Text.byteLength pre + Text.byteLength line := by
    rw [hoffset, Text.logicalEnd]
    conv_lhs => rw [htext, Text.after_append]
    exact hend
  refine ⟨pre, line, rest, hlines, hoffset, hstop.trans (Text.byteLength_append pre line).symm, ?_, hrest⟩
  rw [hstop, hoffset]
  conv_lhs => rw [hlines, Text.slice_append]

/-- A token that begins before a line feed, and has none in it, ends before it. -/
theorem stop_le_of_lineFeed {i : Nat} {line rest : List Char}
    (hi : i < (start settings text).source.stream.body.size) (htext : text = line ++ rest)
    (hrest : ∀ c ∈ rest.head?, c = '\n')
    (hfree : '\n' ∉ ((start settings text).source.stream.get i).text.toList)
    (hlt : ((start settings text).source.stream.get i).offset < Text.byteLength line) :
    ((start settings text).source.stream.get i).stop ≤ Text.byteLength line := by
  obtain ⟨-, front, back, hstands, hfront⟩ := standsIn_get hi
  rw [Nat.zero_add] at hfront
  rw [hfront] at hlt
  have hle := Text.byteLength_le_of_lineFeed (hstands.symm.trans htext) hrest hfree hlt
  rw [Text.byteLength_append, ← hfront] at hle
  exact hle

/-- If no token takes more than one line, and no logical line of a directive without a path, then nothing does
that is read. -/
theorem lined_start (htokens : ∀ t ∈ (tokenize settings.dialect text).tokens, '\n' ∉ t.text.toList)
    (hdirectives : ∀ t ∈ (tokenize settings.dialect text).tokens, t.kind.isDirective = true →
      t.kind ≠ .includeDirective → '\n' ∉ Text.slice t.offset (Text.logicalEnd text t.offset) text) :
    (start settings text).source.Lined where
  token i := htokens _ (mem_tokens_get settings text i)
  directive i n hkind hinclude hline := by
    have hi : i < (start settings text).source.stream.body.size := Nat.lt_of_not_le fun hle => by
      rw [kind_eq_eof_iff.2 hle] at hkind
      cases hkind
    have hn : i + 1 + n ≤ (start settings text).source.stream.body.size := by
      cases n with
      | zero => exact hi
      | succ n => exact Nat.lt_of_not_le fun hle => (hline n (Nat.lt_succ_self n)).1 (kind_eq_eof_iff.2 hle)
    obtain ⟨value, hvalue, hspans⟩ := exactText_start hn
    rw [hvalue, String.toList_ofList]
    cases hspans with
    | none => exact List.not_mem_nil
    | @tokens n front _ back htext hfirst hlast =>
      obtain ⟨pre, line, rest, hlines, hoffset, hstop, hslice, hrest⟩ := exists_line_get hi
      have hfree : '\n' ∉ line := hslice ▸ hdirectives _ (mem_tokens_get settings text i) hkind hinclude
      have hle : Text.byteLength (front ++ value) ≤ Text.byteLength (pre ++ line) := by
        rw [hlast]
        refine stop_le_of_lineFeed hn (hlines.trans (List.append_assoc pre line rest).symm) hrest
          (htokens _ (mem_tokens_get settings text _)) ?_
        rw [← hstop]
        exact (hline n (Nat.lt_succ_self n)).2
      have hge : Text.byteLength pre ≤ Text.byteLength front := by
        rw [hfirst, ← hoffset]
        exact offset_le_offset (Nat.le_succ i)
      exact fun h => hfree (Text.subset_of_between (htext.symm.trans hlines) hge hle h)

end Session

/-! ### Lines of a program -/

namespace Node

variable {P : Node → Prop}

/-- A traversal shows what is in the tree. -/
theorem forall_mem_walk (shown : Node → Bool) {n : Node} (h : n.Everywhere P) (depth : Nat) :
    ∀ e ∈ n.walk shown depth, shown e.2 = true ∧ P e.2 := by
  induction n using induction_parts generalizing depth with
  | step n ih =>
    rw [walk_eq_parts]
    split
    · next hshown =>
      refine List.forall_mem_cons.2 ⟨⟨hshown, h n .refl⟩, List.forall_mem_flatMap.2 fun m hm => ?_⟩
      exact ih m hm (h.parts m hm) (depth + 1)
    · exact List.forall_mem_flatMap.2 fun m hm => ih m hm (h.parts m hm) depth

end Node

namespace Program

variable {p : Program}

theorem isWord_of_mem_walk :
    ∀ e ∈ (Node.program p).walk Node.isOutlined 0, Label.isWord e.2.label.kind = true :=
  fun e he => e.2.isWord_kind (Node.forall_mem_walk (P := fun _ => True) _ (fun _ _ => trivial) 0 e he).1

/-- The lines of the tree tell what is inside of what. -/
theorem ofLines_lines (p : Program) : TextTree.ofLines p.textTree.lines = [p.textTree] := by
  refine TextTree.ofLines_lines ?_
  rw [entries_textTree, List.forall_mem_map]
  exact fun e he => Label.head?_line (isWord_of_mem_walk e he)

/-- There is a line for each node exactly if no detail takes more than one. -/
theorem lines_outline_iff (p : Program) : Text.lines p.outline = p.textTree.lines ↔
    ∀ e ∈ (Node.program p).walk Node.isOutlined 0, '\n' ∉ e.2.label.detail.toList := by
  rw [outline_eq, Text.lines_join_eq_iff, TextTree.lines, entries_textTree, List.map_map, List.forall_mem_map]
  refine forall₂_congr fun e he => not_congr ?_
  rw [← Label.lf_mem_line (isWord_of_mem_walk e he)]
  simp [TextTree.line]

end Program

theorem Session.name_parse (s : Session) (name : String) : (s.parse name).1.name = name := by
  unfold parse
  dsimp only
  split <;> rfl

/-- The outline of a program is the lines of its tree, and they tell what is inside of what. It has one line for
each node if no detail takes more than one line, so it does if no token does and no logical line of a directive
other than `#include`. -/
theorem Session.outline_linePerNode (settings : Settings) (text : List Char) (passes : List String) (name : String) :
    let p := (((start settings text).afterPasses passes).parse name).1
    p.outline = String.join (p.textTree.lines.map (· ++ "\n")) ∧
      TextTree.ofLines p.textTree.lines = [p.textTree] ∧
      (Text.lines p.outline = p.textTree.lines ↔
        ∀ e ∈ (Node.program p).walk Node.isOutlined 0, '\n' ∉ e.2.label.detail.toList) ∧
      ('\n' ∉ name.toList →
        (∀ t ∈ (tokenize settings.dialect text).tokens, '\n' ∉ t.text.toList) →
        (∀ t ∈ (tokenize settings.dialect text).tokens, t.kind.isDirective = true →
          t.kind ≠ .includeDirective → '\n' ∉ Text.slice t.offset (Text.logicalEnd text t.offset) text) →
        Text.lines p.outline = p.textTree.lines) := by
  intro p
  refine ⟨p.outline_eq, p.ofLines_lines, p.lines_outline_iff, fun hname htokens hdirectives => ?_⟩
  have hlined := lined_start htokens hdirectives
  have hnode : (Node.program p).Everywhere fun n => '\n' ∉ n.label.detail.toList := by
    have hlabel : '\n' ∉ p.name.toList := by rwa [name_parse]
    refine .intro hlabel (List.forall_mem_map.2 fun s hs n hn => ?_)
    exact (fits_pass settings text passes name s hs n hn).label hlined
  exact p.lines_outline_iff.2 fun e he => (Node.forall_mem_walk _ hnode 0 e he).2

/-- Two lines of source, and a line for each of four nodes. -/
theorem Session.outline_linePerNode_define :
    let text := "#define A x\nint y = 1;".toList
    let p := ((start {} text).parse "translation_unit").1
    '\n' ∉ "translation_unit".toList ∧
      (∀ t ∈ (tokenize .cpp text).tokens, '\n' ∉ t.text.toList) ∧
      (∀ t ∈ (tokenize .cpp text).tokens, t.kind.isDirective = true →
        t.kind ≠ .includeDirective → '\n' ∉ Text.slice t.offset (Text.logicalEnd text t.offset) text) ∧
      Text.lines p.outline = p.textTree.lines := by
  intro text p
  have hname : '\n' ∉ "translation_unit".toList := by decide
  have htokens : ∀ t ∈ (tokenize .cpp text).tokens, '\n' ∉ t.text.toList := by decide +kernel
  have hdirectives : ∀ t ∈ (tokenize .cpp text).tokens, t.kind.isDirective = true →
      t.kind ≠ .includeDirective →
        '\n' ∉ Text.slice t.offset (Text.logicalEnd text t.offset) text := by decide +kernel
  exact ⟨hname, htokens, hdirectives,
    (outline_linePerNode {} text [] "translation_unit").2.2.2 hname htokens hdirectives⟩

/-- The text of a statement that is a string literal. -/
def Stmt.string? : Stmt → Option String
  | .expr (.string value) => some value
  | _ => none

/-- A string literal over two lines, whose node takes two lines of the outline. -/
theorem Session.outline_linePerNode_string :
    let p := ((start { dialect := .c } "\"a\\\nb\";".toList).parse "translation_unit").1
    (Text.lines p.outline).length ≠ ((Node.program p).walk Node.isOutlined 0).length := by
  intro p
  have hname : p.name = "translation_unit" := by decide +kernel
  have hread : p.body.map Stmt.string? = [some "a\\\nb"] := by decide +kernel
  have hbody : p.body = [.expr (.string "a\\\nb")] := by
    obtain ⟨s, hs, hstring⟩ := List.map_eq_singleton_iff.1 hread
    unfold Stmt.string? at hstring
    split at hstring
    · cases hstring
      exact hs
    · cases hstring
  have htree : p.textTree = .node "Program [translation_unit]"
      [.node "ExprStmt" [.node "StringLiteral [\"a\\\nb\"]" []]] := by
    have hparts : (Node.program p).parts = [.stmt (.expr (.string "a\\\nb"))] := by
      rw [Node.parts, hbody]
      rfl
    rw [Program.textTree, hparts, Node.label, hname]
    simp [Node.textTrees_eq, Node.isOutlined, Node.parts, Stmt.parts, Expr.parts]
    decide +kernel
  have hwalk : p.textTree.lines.length = ((Node.program p).walk Node.isOutlined 0).length := by
    rw [TextTree.lines, p.entries_textTree, List.length_map, List.length_map]
  rw [← hwalk, p.lines_outline, htree, TextTree.lines]
  simp only [TextTree.entries, List.append_nil]
  decide +kernel

end CTree
