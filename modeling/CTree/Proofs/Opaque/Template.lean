import CTree.Proofs.Lockstep.Recovery
import CTree.Proofs.Opaque.Head

/-!
# Bodies of templates

The body of a template is skipped, and nothing that is read before it looks past its brace. So two
sources that differ in the body only are read as the same template.
-/

namespace CTree

open Parse

variable {a b source : Source} {s t : ParseState} {i d n : Nat} {k opening closing : TokenKind}
  {ks : List TokenKind}

/-! ### Runs of tokens -/

/-- Each closing token closes one that is open, and so many that are open at the start and all that
    are opened later are closed. -/
def isBalanced (opening closing : TokenKind) : Nat → List TokenKind → Bool
  | d, [] => d == 0
  | d, k :: ks =>
    if k == opening then isBalanced opening closing (d + 1) ks
    else if k == closing then d != 0 && isBalanced opening closing (d - 1) ks
    else isBalanced opening closing d ks

/-- Braces, square brackets and `;`. -/
def TokenKind.isBarred : TokenKind → Bool
  | .lbrace | .rbrace | .lbracket | .rbracket | .semicolon => true
  | _ => false

/-- Tokens without braces, square brackets and `;`, and with their parentheses in pairs. -/
def isHeadText (ks : List TokenKind) : Bool :=
  ks.all (!·.isBarred) && isBalanced .lparen .rparen 0 ks

/-- Tokens of the given kinds stand at the index. -/
def Source.seesKinds (source : Source) : Nat → List TokenKind → Bool
  | _, [] => true
  | i, k :: ks => source.kindAt i == k && k != .eof && source.seesKinds (i + 1) ks

/-- At the index stands a template with the given parameters, head and body. -/
structure Source.TemplateAt (source : Source) (i : Nat) (parameters head body : List TokenKind) :
    Prop where
  sees : source.seesKinds i
    (.kwTemplate :: .lt :: parameters ++ .gt :: head ++ .lbrace :: body ++ [.rbrace])
  parameters : isHeadText parameters
  head : isHeadText head
  body : isBalanced .lbrace .rbrace 0 body

/-- The sources have the same settings and the same tokens up to the index, after the same text. -/
structure Source.AgreeUpTo (a b : Source) (stop : Nat) : Prop where
  settings : b.settings = a.settings
  tokens : ∀ i ≤ stop, b.stream.get i = a.stream.get i
  text : ∃ pre, pre <+: a.text ∧ pre <+: b.text ∧
    ∀ i ≤ stop, (a.stream.get i).offset ≤ Text.byteLength pre

/-! ### Texts with the same beginning -/

/-- What starts before a position is the same in all texts that begin alike up to it. -/
theorem Text.before_of_prefix {pre text : List Char} {n : Nat} (h : pre <+: text)
    (hn : n ≤ byteLength pre) : before n text = before n pre := by
  obtain ⟨post, rfl⟩ := h
  induction pre generalizing n with
  | nil =>
    obtain rfl : n = 0 := Nat.le_zero.1 hn
    cases post <;> rfl
  | cons c cs ih =>
    rw [List.cons_append, before, before]
    split
    · rfl
    · rw [byteLength_cons] at hn
      rw [ih (by omega)]

theorem Source.AgreeUpTo.place {stop : Nat} (h : a.AgreeUpTo b stop) (hi : i ≤ stop) :
    Text.place b.text (a.stream.get i).offset = Text.place a.text (a.stream.get i).offset := by
  obtain ⟨pre, ha, hb, hle⟩ := h.text
  unfold Text.place
  rw [Text.before_of_prefix ha (hle i hi), Text.before_of_prefix hb (hle i hi)]

/-! ### What stands where -/

namespace Source

theorem seesKinds_cons :
    source.seesKinds i (k :: ks) ↔ source.kindAt i = k ∧ k ≠ .eof ∧ source.seesKinds (i + 1) ks := by
  simp [seesKinds, and_assoc]

theorem seesKinds_append {ks' : List TokenKind} :
    source.seesKinds i (ks ++ ks') ↔
      source.seesKinds i ks ∧ source.seesKinds (i + ks.length) ks' := by
  induction ks generalizing i with
  | nil => simp [seesKinds]
  | cons k ks ih =>
    simp only [List.cons_append, seesKinds_cons, ih, List.length_cons, Nat.add_assoc,
      Nat.add_comm 1, and_assoc]

end Source

/-- The index of the brace of a template with the given parameters and head. -/
def templateBrace (i : Nat) (parameters head : List TokenKind) : Nat :=
  i + 2 + parameters.length + 1 + head.length

namespace Source.TemplateAt

variable {parameters head body : List TokenKind}

/-- What a template consists of. -/
theorem parts (h : source.TemplateAt i parameters head body) :
    source.kindAt i = .kwTemplate ∧ source.kindAt (i + 1) = .lt ∧
      source.seesKinds (i + 2) parameters ∧ source.kindAt (i + 2 + parameters.length) = .gt ∧
      source.seesKinds (i + 2 + parameters.length + 1) head ∧
      source.kindAt (templateBrace i parameters head) = .lbrace ∧
      source.seesKinds (templateBrace i parameters head + 1) (body ++ [.rbrace]) := by
  have hsees := h.sees
  simp only [List.cons_append, List.append_assoc, seesKinds_cons, seesKinds_append] at hsees
  obtain ⟨htemplate, -, hlt, -, hparameters, hgt, -, hhead, hbrace, -, hbody⟩ := hsees
  refine ⟨htemplate, hlt, hparameters, hgt, hhead, hbrace, ?_⟩
  rw [seesKinds_append, seesKinds_cons]
  exact hbody

end Source.TemplateAt

/-! ### The head -/

theorem TokenKind.isFlat_of_not_isBarred (hk : k.isBarred = false) (hopen : k ≠ .lparen)
    (hclose : k ≠ .rparen) (hend : k ≠ .eof) : k.isFlat := by
  cases k <;> first | rfl | contradiction

namespace SameHead

variable {w : SameHead}

/-- Tokens of a head before what stands before the brace. -/
theorem Within.before (hsees : w.left.seesKinds i ks) (hks : ∀ k ∈ ks, k.isBarred = false)
    (hbalanced : isBalanced .lparen .rparen d ks) (hrest : w.Within 0 (i + ks.length)) :
    w.Within d i := by
  induction ks generalizing i d with
  | nil =>
    obtain rfl : d = 0 := by simpa [isBalanced] using hbalanced
    exact hrest
  | cons k ks ih =>
    obtain ⟨hk, hend, hsees⟩ := Source.seesKinds_cons.1 hsees
    have hnext {d' : Nat} (h : isBalanced .lparen .rparen d' ks) : w.Within d' (i + 1) := by
      refine ih hsees (fun k' hk' => hks k' (List.mem_cons_of_mem _ hk')) h ?_
      rwa [Nat.add_assoc, Nat.add_comm 1, ← List.length_cons]
    rw [isBalanced] at hbalanced
    split at hbalanced
    · rename_i hopen
      exact .opening (hk.trans (beq_iff_eq.1 hopen)) (hnext hbalanced)
    · rename_i hopen
      split at hbalanced
      · rename_i hclose
        obtain ⟨hd, hbalanced⟩ := Bool.and_eq_true_iff.1 hbalanced
        obtain ⟨d, rfl⟩ : ∃ d', d = d' + 1 := Nat.exists_eq_succ_of_ne_zero (by simpa using hd)
        exact .closing (hk.trans (beq_iff_eq.1 hclose)) (hnext hbalanced)
      · rename_i hclose
        have hflat := TokenKind.isFlat_of_not_isBarred (hks k List.mem_cons_self)
          (by simpa using hopen) (by simpa using hclose) hend
        exact .flat (by rwa [hk]) (hnext hbalanced)

/-- The parentheses of a template are closed before its body. -/
theorem at_template {parameters head body : List TokenKind}
    (h : w.left.TemplateAt i parameters head body) (hstop : w.stop = templateBrace i parameters head) :
    w.At 0 0 .kwTemplate i := by
  obtain ⟨htemplate, hlt, hparameters, hgt, hhead, -, -⟩ := h.parts
  obtain ⟨hplain, hbalanced⟩ := Bool.and_eq_true_iff.1 h.parameters
  obtain ⟨hplain', hbalanced'⟩ := Bool.and_eq_true_iff.1 h.head
  have hbrace : w.Within 0 (i + 2 + parameters.length + 1 + head.length) := by
    have hwithin := Within.brace (w := w)
    rwa [hstop] at hwithin
  have hafter : w.Within 0 (i + 2 + parameters.length + 1) :=
    .before hhead (by simpa using hplain') hbalanced' hbrace
  have hclose : w.Within 0 (i + 2 + parameters.length) := .flat (by rw [hgt]; rfl) hafter
  have hopen : w.Within 0 (i + 1) :=
    .flat (by rw [hlt]; rfl) (.before hparameters (by simpa using hplain) hbalanced hclose)
  exact ⟨⟨.flat (by rw [htemplate]; rfl) hopen, Nat.zero_le _⟩, htemplate⟩

end SameHead

namespace Grammar

/-- A template up to its body. -/
def templateFront (g : Grammar) : Parse (List TemplateParameter × String × Option Decl) := do
  skip
  let ps ← templateParameters
  return (ps, ← g.readHead)

/-- The body of a template, or the `;` in its place. -/
def templateBody : Parse Unit := do
  if ← check .lbrace then
    skipBalanced .lbrace .rbrace
    let _ ← accept .semicolon
  else skipOver .semicolon "after template declaration"

theorem template_eq (g : Grammar) : g.template = do
    let (ps, head, declaration?) ← g.templateFront
    templateBody
    return .template ps head declaration? := by
  unfold template templateFront templateBody readHead
  simp only [bind_assoc, pure_bind]
  refine bind_congr fun _ => bind_congr fun ps => bind_congr fun x => bind_congr fun here => ?_
  cases here with
  | true =>
    rw [if_pos rfl, if_pos rfl, bind_assoc, bind_assoc]
    rfl
  | false => rfl

end Grammar

/-! ### The body -/

/-- A token that is not the end is taken. -/
theorem run_skip_of_kind (hk : (source.view s).kind 0 = k) (hend : k ≠ .eof) :
    skip.run source s = (.ok (), s.after 1) := by
  rw [run_skip, Source.advance_of_token (by rwa [hk])]
  rfl

/-- A group is skipped up to the token that closes it. -/
theorem run_skipGroup_balanced (hne : opening ≠ closing)
    (hsees : source.seesKinds s.cursor.position (ks ++ [closing]))
    (hbalanced : isBalanced opening closing d ks) (hroom : ks.length < n) :
    (skipGroup opening closing n (d + 1)).run source s = (.ok (), s.after (ks.length + 1)) := by
  obtain ⟨n, rfl⟩ : ∃ n', n = n' + 1 := Nat.exists_eq_succ_of_ne_zero (Nat.ne_zero_of_lt hroom)
  induction ks generalizing s d n with
  | nil =>
    obtain rfl : d = 0 := by simpa [isBalanced] using hbalanced
    obtain ⟨hk, hend, -⟩ := Source.seesKinds_cons.1 hsees
    have hkind : (source.view s).kind 0 = closing := hk
    have heof : (source.view s).kind 0 ≠ .eof := by rwa [hkind]
    rw [run_skipGroup_token heof, hkind, if_neg (by simpa using hne.symm), if_pos (by simp),
      if_pos (by decide), Source.advance_of_token heof]
    rfl
  | cons k ks ih =>
    obtain ⟨hk, hend, hsees⟩ := Source.seesKinds_cons.1 hsees
    have hkind : (source.view s).kind 0 = k := hk
    have heof : (source.view s).kind 0 ≠ .eof := by rwa [hkind]
    rw [List.length_cons] at hroom
    obtain ⟨n, rfl⟩ : ∃ n', n = n' + 1 := Nat.exists_eq_succ_of_ne_zero (by omega)
    have hrest {d' : Nat} (h : isBalanced opening closing d' ks) :
        (skipGroup opening closing (n + 1) (d' + 1)).run source (s.after 1) =
          (.ok (), s.after (ks.length + 1 + 1)) := by
      rw [ih hsees h n (by omega), ParseState.after_after, Nat.add_comm 1]
    rw [run_skipGroup_token heof, hkind, Source.advance_of_token heof]
    rw [isBalanced] at hbalanced
    split at hbalanced
    · rename_i hopen
      rw [if_pos hopen]
      exact hrest hbalanced
    · rename_i hopen
      rw [if_neg hopen]
      split at hbalanced
      · rename_i hclose
        obtain ⟨hd, hbalanced⟩ := Bool.and_eq_true_iff.1 hbalanced
        obtain ⟨d, rfl⟩ : ∃ d', d = d' + 1 := Nat.exists_eq_succ_of_ne_zero (by simpa using hd)
        rw [if_pos hclose, if_neg (by omega)]
        exact hrest hbalanced
      · rename_i hclose
        rw [if_neg hclose]
        exact hrest hbalanced

/-- The index after a `;`, if one stands there. -/
def Source.pastSemicolon (source : Source) (i : Nat) : Nat :=
  if source.kindAt i = .semicolon then i + 1 else i

theorem Grammar.run_templateBody (hk : source.kindAt s.cursor.position = .lbrace)
    (hsees : source.seesKinds (s.cursor.position + 1) (ks ++ [.rbrace]))
    (hbalanced : isBalanced .lbrace .rbrace 0 ks) (hroom : ks.length < source.settings.maxIterations) :
    templateBody.run source s =
      (.ok (), s.atPosition (source.pastSemicolon (s.cursor.position + ks.length + 2))) := by
  have hkind : (source.view s).kind 0 = .lbrace := hk
  have hskip : (skipBalanced .lbrace .rbrace).run source s = (.ok (), s.after (ks.length + 2)) := by
    unfold skipBalanced skipOver require
    rw [bind_assoc, bind_assoc, run_bind_ok (run_check _), hkind, beq_self_eq_true, if_pos rfl,
      run_bind_ok run_advance, Source.advance_of_token (by rw [hkind]; decide), pure_bind,
      run_bind_ok run_settings]
    refine (run_skipGroup_balanced (s := s.after 1) (by decide) hsees hbalanced hroom).trans ?_
    rw [ParseState.after_after, Nat.add_comm 1]
  unfold templateBody Parse.accept
  rw [run_bind_ok (run_check _), hkind, beq_self_eq_true, if_pos rfl, run_bind_ok hskip, bind_assoc,
    run_bind_ok (run_check _)]
  by_cases hafter : source.kindAt (s.cursor.position + ks.length + 2) = .semicolon
  · have hkind' : (source.view (s.after (ks.length + 2))).kind 0 = .semicolon := hafter
    rw [Source.pastSemicolon, if_pos hafter, hkind', beq_self_eq_true, if_pos rfl, bind_assoc,
      run_bind_ok (run_skip_of_kind hkind' (by decide)), ParseState.after_after]
    rfl
  · have hkind' : (source.view (s.after (ks.length + 2))).kind 0 ≠ .semicolon := hafter
    rw [Source.pastSemicolon, if_neg hafter, beq_false_of_ne hkind', if_neg (by decide)]
    rfl

/-! ### Outcomes -/

/-- Both outcomes are the same; after a success the cursors are at the given indices. -/
def SameOutcome {α : Type} (r r' : Except Failure α × ParseState) (i i' : Nat) : Prop :=
  (∃ (x : α) (t : ParseState), r = (.ok x, t.atPosition i) ∧ r' = (.ok x, t.atPosition i')) ∨
    ∃ e t, r = (.error e, t) ∧ r' = (.error e, t)

namespace Grammar

variable {w : SameHead} {g : Grammar}

/-- Up to its body a template is read alike, unless an alias follows its parameters. -/
theorem PassesInside.templateFront (hg : g.PassesInside w)
    (hs : w.At 0 i .kwTemplate s.cursor.position)
    (hhead : ∀ ps t, templateParameters.run w.left (s.after 1) = (.ok ps, t) →
      w.left.kindAt t.cursor.position ≠ .kwUsing) :
    g.templateFront.run w.right s = g.templateFront.run w.left s ∧
      ∀ x t, g.templateFront.run w.left s = (.ok x, t) → t.cursor.position = w.stop := by
  have hleft : (w.left.view s).kind 0 = .kwTemplate := hs.kind
  have hright : (w.right.view s).kind 0 = .kwTemplate := by rwa [w.kind_eq hs.within.le]
  have hin : w.In 0 0 (s.after 1).cursor.position := by
    have hnext := hs.within.next (by rw [hs.kind]; decide)
    rw [hs.kind] at hnext
    exact ⟨hnext, Nat.zero_le _⟩
  have hparameters := (Passes.templateParameters 0).same (s := s.after 1) hin
  unfold Grammar.templateFront
  rw [run_bind_ok (run_skip_of_kind hleft (by decide)),
    run_bind_ok (run_skip_of_kind hright (by decide))]
  rcases hrun : templateParameters.run w.left (s.after 1) with ⟨e | ps, t⟩
  · rw [hrun] at hparameters
    rw [run_bind_error hrun, run_bind_error hparameters]
    exact ⟨rfl, nofun⟩
  · rw [hrun] at hparameters
    rw [run_bind_ok hrun, run_bind_ok hparameters]
    have ht := (Passes.templateParameters 0).post (s := s.after 1) hin hrun
    have hrest : Confined w (fun j => w.In 0 0 j ∧ w.left.kindAt j ≠ .kwUsing)
        (do return (ps, ← g.readHead)) (do return (ps, ← g.readHead)) fun _ => w.In 0 w.stop :=
      hg.readHead.bind fun _ => .pure fun _ hj => hj
    refine ⟨hrest.same ⟨ht, hhead ps t hrun⟩, fun x u hu => ?_⟩
    have hend := hrest.post ⟨ht, hhead ps t hrun⟩ hu
    exact Nat.le_antisymm hend.within.le hend.le

/-- The body of a template does not matter: a template with another body in its place is read as the
    same template, with the same reports and the same names of types, and the cursor ends after the
    body and a `;` that follows it. What follows the parameters must not be an alias, whose text may
    go on into the body. -/
theorem template_body_unread {parameters head body body' : List TokenKind} (depth : Nat)
    (ha : a.TemplateAt s.cursor.position parameters head body)
    (hb : b.TemplateAt s.cursor.position parameters head body')
    (hagree : a.AgreeUpTo b (templateBrace s.cursor.position parameters head))
    (hroom : body.length < a.settings.maxIterations)
    (hroom' : body'.length < a.settings.maxIterations)
    (hhead : ∀ ps t, templateParameters.run a (s.after 1) = (.ok ps, t) →
      a.kindAt t.cursor.position ≠ .kwUsing) :
    SameOutcome ((ofDepth depth).template.run a s) ((ofDepth depth).template.run b s)
      (a.pastSemicolon (templateBrace s.cursor.position parameters head + body.length + 2))
      (b.pastSemicolon (templateBrace s.cursor.position parameters head + body'.length + 2)) := by
  obtain ⟨-, -, -, -, -, hbrace, hsees⟩ := ha.parts
  obtain ⟨-, -, -, -, -, hbrace', hsees'⟩ := hb.parts
  let w : SameHead :=
    { left := a
      right := b
      stop := templateBrace s.cursor.position parameters head
      settings := hagree.settings
      get := hagree.tokens
      place := fun i hi => hagree.place hi
      brace := hbrace }
  -- both runs are the same up to the brace, and then each skips its own body
  obtain ⟨hsame, hstop⟩ :=
    (PassesInside.ofDepth (w := w) depth).templateFront (w.at_template ha rfl) hhead
  rw [template_eq]
  rcases hrun : (ofDepth depth).templateFront.run a s with ⟨e | ⟨ps, text, declaration?⟩, t⟩
  · have hright : (ofDepth depth).templateFront.run b s = (.error e, t) := hsame.trans hrun
    rw [run_bind_error hrun, run_bind_error hright]
    exact .inr ⟨e, t, rfl, rfl⟩
  · have hright : (ofDepth depth).templateFront.run b s = (.ok (ps, text, declaration?), t) :=
      hsame.trans hrun
    have ht : t.cursor.position = templateBrace s.cursor.position parameters head := hstop _ t hrun
    rw [← hagree.settings] at hroom'
    rw [← ht] at hbrace hsees hbrace' hsees'
    rw [run_bind_ok hrun, run_bind_ok hright, run_bind_ok (run_templateBody hbrace hsees ha.body hroom),
      run_bind_ok (run_templateBody hbrace' hsees' hb.body hroom'), ht]
    exact .inl ⟨_, t, rfl, rfl⟩

/-- A function template whose body is a name, and the same template with an empty body. -/
theorem template_body_unread_function :
    let a := (Session.start {} "template<class T>void f()\x7bx\x7d".toList).source
    let b := (Session.start {} "template<class T>void f()\x7b\x7d;".toList).source
    a.TemplateAt 0 [.kwClass, .identifier] [.kwVoid, .identifier, .lparen, .rparen] [.identifier] ∧
      b.TemplateAt 0 [.kwClass, .identifier] [.kwVoid, .identifier, .lparen, .rparen] [] ∧
      SameOutcome ((ofDepth 48).template.run a {}) ((ofDepth 48).template.run b {})
        (a.pastSemicolon 12) (b.pastSemicolon 11) := by
  intro a b
  have ha : a.TemplateAt 0 [.kwClass, .identifier] [.kwVoid, .identifier, .lparen, .rparen]
      [.identifier] := by
    constructor <;> decide +kernel
  have hb : b.TemplateAt 0 [.kwClass, .identifier] [.kwVoid, .identifier, .lparen, .rparen] [] := by
    constructor <;> decide +kernel
  have hagree : a.AgreeUpTo b 9 :=
    { settings := by decide +kernel
      tokens := by decide +kernel
      text := ⟨"template<class T>void f()\x7b".toList, by decide +kernel, by decide +kernel,
        by decide +kernel⟩ }
  have hhead : ∀ ps t, templateParameters.run a (ParseState.after {} 1) = (.ok ps, t) →
      a.kindAt t.cursor.position ≠ .kwUsing := by
    intro ps t hrun
    have hkind : a.kindAt (templateParameters.run a (ParseState.after {} 1)).2.cursor.position ≠
        .kwUsing := by
      decide +kernel
    rwa [hrun] at hkind
  have hroom : [TokenKind.identifier].length < a.settings.maxIterations := by decide +kernel
  have hroom' : ([] : List TokenKind).length < a.settings.maxIterations := by decide +kernel
  clear_value a b
  exact ⟨ha, hb, template_body_unread 48 ha hb hagree hroom hroom' hhead⟩

/-- The text of the alias that a template shows. -/
def aliasShown? : Except Failure Decl → Option String
  | .ok (.template _ _ (some (.usingAlias text _))) => some text
  | _ => none

/-- Where the first `>` ends the parameters and an alias follows it, the body is part of the text of the
    alias, although the tokens before the brace can be cut at a later `>` so that no alias follows. -/
theorem template_alias_reads_body :
    ¬ ∀ (a b : Source) (s : ParseState) (parameters head body body' : List TokenKind),
      a.settings.dialect = .cpp →
      a.TemplateAt s.cursor.position parameters head body →
      b.TemplateAt s.cursor.position parameters head body' →
      a.AgreeUpTo b (templateBrace s.cursor.position parameters head) →
      body.length < a.settings.maxIterations → body'.length < a.settings.maxIterations →
      head ≠ [] → head.head? ≠ some .kwUsing →
      SameOutcome ((ofDepth a.settings.maxDepth).template.run a s)
        ((ofDepth a.settings.maxDepth).template.run b s)
        (a.pastSemicolon (templateBrace s.cursor.position parameters head + body.length + 2))
        (b.pastSemicolon (templateBrace s.cursor.position parameters head + body'.length + 2)) := by
  intro hclaim
  let a := (Session.start {} "template<class T>using A=x>void f()\x7by\x7d;".toList).source
  let b := (Session.start {} "template<class T>using A=x>void f()\x7b\x7d;".toList).source
  have ha : a.TemplateAt 0 [.kwClass, .identifier, .gt, .kwUsing, .identifier, .assign, .identifier]
      [.kwVoid, .identifier, .lparen, .rparen] [.identifier] := by
    constructor <;> decide +kernel
  have hb : b.TemplateAt 0 [.kwClass, .identifier, .gt, .kwUsing, .identifier, .assign, .identifier]
      [.kwVoid, .identifier, .lparen, .rparen] [] := by
    constructor <;> decide +kernel
  have hagree : a.AgreeUpTo b 14 :=
    { settings := by decide +kernel
      tokens := by decide +kernel
      text := ⟨"template<class T>using A=x>void f()\x7b".toList, by decide +kernel,
        by decide +kernel, by decide +kernel⟩ }
  have hcpp : a.settings.dialect = .cpp := by decide +kernel
  have hroom : [TokenKind.identifier].length < a.settings.maxIterations := by decide +kernel
  have hroom' : ([] : List TokenKind).length < a.settings.maxIterations := by decide +kernel
  have hdiffer : aliasShown? ((ofDepth a.settings.maxDepth).template.run a {}).1 ≠
      aliasShown? ((ofDepth a.settings.maxDepth).template.run b {}).1 := by
    decide +kernel
  clear_value a b
  rcases hclaim a b {} _ _ _ _ hcpp ha hb hagree hroom hroom' nofun nofun with
    ⟨x, t, hleft, hright⟩ | ⟨e, t, hleft, hright⟩
  · rw [hleft, hright] at hdiffer
    exact hdiffer rfl
  · rw [hleft, hright] at hdiffer
    exact hdiffer rfl

end Grammar

end CTree
