import CTree.Proofs.Printing.Heads
import CTree.Proofs.Printing.Reading

/-!
# From level to level

Each level of the grammar reads what the tighter levels read. So lexemes that are read as an
expression of one level are read as the same expression at every looser level, and, in parentheses,
at every level.
-/

namespace CTree

open Lexeme

variable {source : Source} {d l : Nat} {ws : List Lexeme} {w : Lexeme} {e : Expr}

/-! ### No type begins -/

theorem View.isQualifier_of_begins {k : TokenKind} (h : k.beginsExpression) :
    View.isQualifier k = false := by
  cases k <;> first | rfl | cases h

/-- Where an expression of C begins, no type does. -/
theorem Ready.startsType {s : ParseState} (hs : Ready source d s) {n : Nat}
    (h : ((source.view s).kind n).beginsExpression) : (source.view s).startsType n = false := by
  have hpast : (source.view s).past View.isQualifier n = n := by
    unfold View.past
    cases (source.view s).remaining with
    | zero => rfl
    | succ fuel => exact if_neg (by simp [View.isQualifier_of_begins h])
  have hknown (text : String) : (source.view s).isKnown text = false := by
    show s.cursor.known.names.contains text = false
    rw [hs.names]
    rfl
  have hlenient : (source.view s).lenient = false := hs.lenient
  have hkind : ((source.view s).token n).kind.beginsExpression := h
  unfold View.startsType
  simp only [hpast, hlenient, hknown, hs.isCpp]
  generalize ((source.view s).token n).kind = k at hkind ⊢
  cases k <;> first | rfl | cases hkind

namespace ReadsBefore

variable {α : Type} {rest : List Lexeme} {y : α} {q : TokenKind → Prop}

/-- A token that begins no expression does not stand where one does. -/
theorem checkBefore {k : TokenKind} {f : Bool → Parse α} (h : Begins TokenKind.beginsExpression ws)
    (hk : k.beginsExpression = false) (hf : ReadsBefore source d (f false) q ws y) :
    ReadsBefore source d (Parse.check k >>= f) q ws y := by
  obtain ⟨w, rest, rfl, hw, -⟩ := h
  have hne : w.kind ≠ k := by
    rintro rfl
    rw [hk] at hw
    cases hw
  refine .check ?_
  rwa [beq_false_of_ne hne]

theorem acceptBefore {k : TokenKind} {f : Bool → Parse α} (h : Begins TokenKind.beginsExpression ws)
    (hk : k.beginsExpression = false) (hf : ReadsBefore source d (f false) q ws y) :
    ReadsBefore source d (Parse.accept k >>= f) q ws y := by
  unfold Parse.accept
  rw [bind_assoc]
  refine checkBefore h hk ?_
  rwa [if_neg Bool.false_ne_true, pure_bind]

/-- No cast is read where an expression stands in parentheses. -/
theorem castType {f : Option String → Parse α} {w' : Lexeme} (hw' : w'.kind.beginsExpression)
    (hf : ReadsBefore source d (f none) q (w :: w' :: rest) y) :
    ReadsBefore source d (Parse.castType >>= f) q (w :: w' :: rest) y := by
  intro s hs hsees hnext
  have hkind : ((source.view s).kind 1).beginsExpression := by
    rw [show (source.view s).kind 1 = w'.kind from hsees.2.2.kindAt]
    exact hw'
  have hstate : ({ s with lenient := false } : ParseState) = s := by rw [← hs.lenient]
  have hnone : Parse.castType.run source s = (.ok none, s) := by
    rw [Parse.castType, Parse.strictly, Parse.run_withLeniency, hstate,
      Parse.run_bind_ok Parse.run_view, hs.startsType hkind]
    rfl
  rw [Parse.run_bind_ok hnone]
  exact hf s hs hsees hnext

/-- No type in parentheses is read where an expression stands. -/
theorem parenthesizedType {f : Option String → Parse α} (h : Begins TokenKind.beginsExpression ws)
    (hf : ReadsBefore source d (f none) q ws y) :
    ReadsBefore source d (Parse.parenthesizedType >>= f) q ws y := by
  obtain ⟨w, rest, rfl, -, hparen⟩ := h
  intro s hs hsees hnext
  have hkind : (source.view s).kind 0 = w.kind := hsees.kindAt
  have hnone : Parse.parenthesizedType.run source s = (.ok none, s) := by
    unfold Parse.parenthesizedType
    rw [Parse.run_bind_ok (Parse.run_check .lparen), hkind]
    by_cases hw : w.kind = .lparen
    · obtain ⟨w', rest', rfl, hw'⟩ := hparen hw
      have hbegins : ((source.view s).kind 1).beginsExpression := by
        rw [show (source.view s).kind 1 = w'.kind from hsees.2.2.kindAt]
        exact hw'
      rw [Parse.run_bind_ok Parse.run_view, hs.startsType hbegins, Bool.and_false]
      rfl
    · rw [beq_false_of_ne hw]
      rfl
  rw [Parse.run_bind_ok hnone]
  exact hf s hs hsees hnext

end ReadsBefore

/-! ### Operators by their tokens -/

namespace BinaryOp

variable {k : TokenKind} {op : BinaryOp} {n : Nat}

theorem extends?_of_ofKind? (h : ofKind? k = some (op, n)) : k.extends? = some (n + 2) := by
  cases k <;> cases h <;> rfl

theorem extends?_of_assignmentOfKind? (h : assignmentOfKind? k = some op) :
    k.extends? = some 1 := by
  cases k <;> cases h <;> rfl

theorem assignmentOfKind?_kind (h : op.isAssignment) : assignmentOfKind? op.kind = some op := by
  cases op <;> first | rfl | cases h

theorem ofKind?_kind (h : 3 ≤ op.level) : ofKind? op.kind = some (op, op.level - 2) := by
  cases op <;> first | rfl | exact absurd h (by decide)

/-- An assignment does not go on with anything of its own level or a tighter one. -/
theorem assignmentOfKind?_of_ends (h : Ends 1 k) : assignmentOfKind? k = none := by
  cases hk : assignmentOfKind? k with
  | none => rfl
  | some op =>
    have hlt := h 1 (extends?_of_assignmentOfKind? hk)
    omega

end BinaryOp

/-- No operation of the level `least`, or of a tighter one, begins. -/
theorem Reads.operationAfter {operand : Nat → Parse Expr} {least : Nat} (h : l ≤ least + 2) :
    Reads source d (Grammar.operation operand least e) l [] none := by
  unfold Grammar.operation
  refine .kindAfter fun k hk => ?_
  cases hop : BinaryOp.ofKind? k with
  | none => exact .pure none
  | some found =>
    obtain ⟨op, n⟩ := found
    have hlt := hk (n + 2) (BinaryOp.extends?_of_ofKind? hop)
    show Reads source d (if n < least then _ else _) l [] none
    rw [if_pos (by omega)]
    exact .pure none

/-- Nothing more stands after an operand. -/
theorem Reads.suffixAfter {g : Grammar} : Reads source d (g.suffix e) 14 [] none := by
  unfold Grammar.suffix
  refine .kindAfter fun k hk => ?_
  split
  case h_9 => exact .isCpp (.look (fun s => ⟨_, Parse.run_view⟩) fun v => .pure none)
  case h_10 => exact .pure none
  all_goals exact absurd (hk 14 rfl) (by decide)

/-! ### Lexemes that are read at a level -/

section ReadsAs

variable (source : Source) (ws : List Lexeme) (e : Expr)

/-- The lexemes are read as a target, or a value, of an assignment with what is on its right. -/
def AsAssignment : Prop :=
  ∀ d, ws.length ≤ d + 1 → Reads source d (Grammar.ofDepth d).assignment 1 ws e

/-- The lexemes are read as a choice, or as an operation by itself, before a token that an expression
    of the given level ends before. -/
def AsConditional (level : Nat) : Prop :=
  ∀ d, ws.length ≤ d + 1 → Reads source d (Grammar.ofDepth d).conditional level ws e

/-- The lexemes are read as an operand with what stands before it. -/
def AsUnary : Prop :=
  ∀ d, ws.length ≤ d + 1 → Reads source d (Grammar.ofDepth d).unary 13 ws e

/-- The lexemes are read on the way of a loop over commas. -/
def AsComma : Prop :=
  ∀ d, ws.length ≤ d →
    Leads source d (Grammar.ofDepth d).expression (Grammar.ofDepth d).moreComma 1 ws e

/-- The lexemes are read on the way of every loop over binary operators that takes the level. -/
def AsBinary (level : Nat) : Prop :=
  ∀ d n least, ws.length ≤ d + 1 → least + 2 ≤ level → 10 ≤ n + least →
    Leads source d (Grammar.ofDepth d).unary
      (Grammar.operation ((Grammar.ofDepth d).binary n) least) (level + 1) ws e

/-- The lexemes are read on the way of a loop over what stands after an operand. -/
def AsSuffixed : Prop :=
  ∀ d, ws.length ≤ d + 1 →
    Leads source d (Grammar.ofDepth d).primary (Grammar.ofDepth d).suffix 15 ws e

/-- The lexemes are read as the expression at the given level and at all that are looser. What is
    tighter than a choice may be the target of an assignment. -/
structure ReadsAs (level : Nat) : Prop where
  comma : AsComma source ws e
  assignment : 1 ≤ level → AsAssignment source ws e
  target : 3 ≤ level → AsConditional source ws e 2
  binary : ∀ l, 3 ≤ l → l ≤ 12 → l ≤ level → AsBinary source ws e l
  unary : 13 ≤ level → AsUnary source ws e
  suffixed : 14 ≤ level → AsSuffixed source ws e

end ReadsAs

/-! ### Lexemes that are read by nonterminals -/

/-- Lexemes that are read inside one more construct; there has to be one of them at least, since a
    construct is opened. -/
theorem AsAssignment.nonterminal (h : AsAssignment source ws e) (hws : ws ≠ [])
    (hd : ws.length ≤ d) : Reads source d ((Grammar.ofDepth d).parse .assignment) 1 ws e := by
  cases d with
  | zero => exact absurd (List.length_eq_zero_iff.1 (Nat.le_zero.1 hd)) hws
  | succ d => exact .nested (h d hd)

theorem AsUnary.nonterminal (h : AsUnary source ws e) (hws : ws ≠ []) (hd : ws.length ≤ d) :
    Reads source d ((Grammar.ofDepth d).parse .unary) 13 ws e := by
  cases d with
  | zero => exact absurd (List.length_eq_zero_iff.1 (Nat.le_zero.1 hd)) hws
  | succ d => exact .nested (h d hd)

theorem AsComma.commaExpression (h : AsComma source ws e) (hd : ws.length ≤ d) :
    Reads source d (Grammar.ofDepth d).commaExpression 0 ws e := by
  refine (h d hd).finish (by decide) (.acceptAfter ?_ (.pure none))
  exact fun hends => absurd (hends 0 rfl) (by decide)

/-! ### From tight to loose -/

namespace ReadsAs

variable {level : Nat}

theorem mono (h : ReadsAs source ws e l) (hle : level ≤ l) : ReadsAs source ws e level where
  comma := h.comma
  assignment h1 := h.assignment (Nat.le_trans h1 hle)
  target h3 := h.target (Nat.le_trans h3 hle)
  binary m h3 h12 hm := h.binary m h3 h12 (Nat.le_trans hm hle)
  unary h13 := h.unary (Nat.le_trans h13 hle)
  suffixed h14 := h.suffixed (Nat.le_trans h14 hle)

/-- What a loop over commas reads. -/
theorem ofComma (h : AsComma source ws e) : ReadsAs source ws e 0 where
  comma := h
  assignment h1 := absurd h1 (by decide)
  target h3 := absurd h3 (by decide)
  binary m h3 _ hm := by omega
  unary h13 := absurd h13 (by decide)
  suffixed h14 := absurd h14 (by decide)

/-- An assignment is the first thing that a loop over commas reads. -/
theorem ofAssignment (hws : ws ≠ []) (hlevel : level ≤ 2) (h : AsAssignment source ws e) :
    ReadsAs source ws e level where
  comma d hd := .first (.strictly (h.nonterminal hws hd))
  assignment _ := h
  target h3 := by omega
  binary m h3 _ hm := by omega
  unary h13 := by omega
  suffixed h14 := by omega

/-- A choice after which no assignment follows. -/
theorem asAssignment (h : AsConditional source ws e 1) : AsAssignment source ws e := by
  intro d hd
  unfold Grammar.assignment
  refine Reads.bindLast (h d hd) (Nat.le_refl 1) (.kindAfter fun k hk => ?_)
  rw [BinaryOp.assignmentOfKind?_of_ends hk]
  exact .pure e

/-- Operands that are not operations of a looser level, as the right operand of one. -/
theorem binaryReads (h : ReadsAs source ws e l) (h3 : 3 ≤ l) (h13 : l ≤ 13) (hd : ws.length ≤ d + 1)
    {n : Nat} (hn : 13 ≤ n + l) : Reads source d ((Grammar.ofDepth d).binary n (l - 2)) l ws e := by
  by_cases h12 : l ≤ 12
  · obtain ⟨n, rfl⟩ : ∃ n', n = n' + 1 := ⟨n - 1, by omega⟩
    exact (h.binary l h3 h12 (Nat.le_refl l) d n (l - 2) hd (by omega) (by omega)).finish
      (Nat.le_succ l) (.operationAfter (by omega))
  · obtain rfl : l = 13 := by omega
    have hunary := h.unary (Nat.le_refl 13) d hd
    cases n with
    | zero => exact hunary
    | succ n => exact hunary.bindLast (Nat.le_refl 13) (.stop (Reads.operationAfter (by decide)))

/-- Operations after which no choice follows. -/
theorem asTarget (h : AsBinary source ws e 3) : AsConditional source ws e 2 := by
  intro d hd
  unfold Grammar.conditional
  have hcondition : Reads source d ((Grammar.ofDepth d).binary BinaryOp.levels 1) 3 ws e :=
    (h d 9 1 hd (by decide) (by decide)).finish (by decide) (.operationAfter (by decide))
  refine hcondition.bindLast (by decide) (.acceptAfter ?_ (.pure e))
  exact fun hends => absurd (hends 2 rfl) (by decide)

/-- Operations are read as all that is looser. -/
theorem ofLoops (hws : ws ≠ [])
    (hbinary : ∀ m, 3 ≤ m → m ≤ 12 → m ≤ level → AsBinary source ws e m) (h3 : 3 ≤ level)
    (hunary : 13 ≤ level → AsUnary source ws e) (hsuffixed : 14 ≤ level → AsSuffixed source ws e) :
    ReadsAs source ws e level := by
  have htarget := asTarget (hbinary 3 (by decide) (by decide) h3)
  have hassignment := asAssignment fun d hd => (htarget d hd).weaken (by decide)
  exact ⟨(ofAssignment hws (Nat.le_refl 2) hassignment).comma, fun _ => hassignment,
    fun _ => htarget, hbinary, hunary, hsuffixed⟩

theorem ofBinary (hws : ws ≠ []) (h3 : 3 ≤ level) (h12 : level ≤ 12)
    (h : AsBinary source ws e level) : ReadsAs source ws e level := by
  refine ofLoops hws (fun m _ _ hm d n least hd hleast hn => ?_) h3 (by omega) (by omega)
  exact (h d n least hd (Nat.le_trans hleast hm) hn).weaken (Nat.succ_le_succ hm)

/-- An operand is the first thing that a loop over operations reads. -/
theorem ofUnary (hws : ws ≠ []) (h : AsUnary source ws e)
    (hsuffixed : 14 ≤ level → AsSuffixed source ws e) (h3 : 3 ≤ level) :
    ReadsAs source ws e level := by
  refine ofLoops hws (fun m _ h12 _ d n least hd _ _ => ?_) h3 (fun _ => h) hsuffixed
  exact .first ((h d hd).weaken (Nat.succ_le_succ h12))

/-- What stands after an operand is read before anything else; in particular no cast is. -/
theorem asUnary (hbegins : Begins TokenKind.beginsOperand ws) (h : AsSuffixed source ws e) :
    AsUnary source ws e := by
  intro d hd
  have hsuffixed : Reads source d (Grammar.ofDepth d).suffixed 13 ws e :=
    ((h d hd).finish (by decide) .suffixAfter).weaken (by decide)
  obtain ⟨w, rest, rfl, hw, hparen⟩ := hbegins
  have hop : UnaryOp.ofKind? w.kind = none := by
    generalize w.kind = k at hw
    cases k <;> first | rfl | cases hw
  unfold Grammar.unary
  refine .kind ?_
  rw [hop]
  refine .kind ?_
  split
  case h_1 hk =>
    rw [hk] at hw
    cases hw
  case h_2 hk =>
    obtain ⟨w', rest', rfl, hw'⟩ := hparen hk
    exact .castType hw' hsuffixed
  case h_3 => exact hsuffixed

theorem ofSuffixed (hbegins : Begins TokenKind.beginsOperand ws) (h : AsSuffixed source ws e) :
    ReadsAs source ws e 14 :=
  ofUnary hbegins.ne_nil (asUnary hbegins h) (fun _ => h) (by decide)

/-! ### Parentheses -/

/-- In parentheses, anything that is an expression is an operand. -/
theorem parenthesized (h : AsComma source ws e) :
    AsSuffixed source (spelled .lparen :: (ws ++ [spelled .rparen])) e := by
  intro d hd
  rw [List.length_cons, List.length_append, List.length_singleton] at hd
  refine .first ?_
  unfold Grammar.primary
  refine .kind (.skip (by decide) ?_)
  refine (h.commaExpression (by omega)).bind ?_ (.skipOver rfl (by decide) (.pure e))
  exact fun n hn => by cases hn

/-- An expression whose level is below the one that its place asks for stands in parentheses. -/
theorem enclose (hbegins : Begins TokenKind.beginsExpression ws) (h : ReadsAs source ws e l)
    {least : Nat} (hleast : least ≤ 14) : ReadsAs source (enclose least l ws) e least := by
  by_cases hle : least ≤ l
  · rw [Lexeme.enclose, if_pos hle]
    exact h.mono hle
  · have hparens := Begins.enclose_operand hbegins fun h' => absurd h' hle
    rw [Lexeme.enclose, if_neg hle] at hparens ⊢
    exact (ofSuffixed hparens (parenthesized h.comma)).mono hleast

end ReadsAs

end CTree
