import CTree.Proofs.Resumption.Takes

/-!
# Reading assignments of integers

A name, `=`, a decimal literal and `;` are read as an assignment in either dialect, whatever type names
are known and whatever was reported before. So it makes no difference what a failed statement before
them has left behind.
-/

namespace CTree

open Parse Lexeme

variable {source : Source} {s t : ParseState} {n : Nat}

/-! ### The operands of an assignment -/

/-- The kinds of the tokens after the operands of an assignment to a name. -/
def TokenKind.endsOperand : TokenKind → Bool
  | .assign | .semicolon => true
  | _ => false

/-- A name and the tokens that may stand after an operand. -/
structure AtName (source : Source) (s : ParseState) (text : String) : Prop where
  kind : (source.view s).kind 0 = .identifier
  text : ((source.view s).token 0).text = text
  next : ((source.view s).kind 1).endsOperand

namespace Takes

variable {g : Grammar} {text : String} {e : Expr}

/-- A name with no `<` after it has no template arguments. -/
theorem templateName (h : (source.view s).kind 0 ≠ .lt) :
    Takes source s 0 (Grammar.templateName text) (.identifier text) := by
  unfold Grammar.templateName
  refine look run_isCpp (look (run_check _) ?_)
  rw [beq_false_of_ne h, Bool.not_false, Bool.or_true]
  exact .pure _

theorem nameExpression (h : AtName source s text) (hnull : text ≠ "NULL") :
    Takes source s 1 g.nameExpression (.identifier text) := by
  have hnext (k : TokenKind) (hk : k.endsOperand = false) : (source.view s).kind 1 ≠ k := by
    intro heq
    have hends := h.next
    rw [heq, hk] at hends
    cases hends
  unfold Grammar.nameExpression
  refine (qualifiedName h.kind h.text (hnext _ rfl)).andLast fun t ht => ?_
  have hlt : (source.view t).kind 0 ≠ .lt := by
    rw [ht.kind]
    exact hnext _ rfl
  rw [beq_false_of_ne hnull, if_neg Bool.false_ne_true]
  split
  · refine look (run_check _) ?_
    rw [beq_false_of_ne hlt, if_neg Bool.false_ne_true]
    exact templateName hlt
  · exact templateName hlt

end Takes

/-- One token that is an operand, and a token after it that ends it. -/
structure AtOperand (source : Source) (g : Grammar) (s : ParseState) (e : Expr) : Prop where
  kind : (source.view s).kind 0 = .identifier ∨ (source.view s).kind 0 = .intLiteral
  next : ((source.view s).kind 1).endsOperand
  primary : Takes source s 1 g.primary e

namespace AtOperand

variable {g : Grammar} {e : Expr}

/-- The token after an operand, once it is taken. -/
theorem after (h : AtOperand source g s e) (ht : s.Past 1 t) :
    ((source.view t).kind 0).endsOperand := by
  rw [ht.kind]
  exact h.next

theorem suffixed (h : AtOperand source g s e) : Takes source s 1 g.suffixed e := by
  refine h.primary.andLast fun t ht => .stop ?_
  have hnext := h.after ht
  unfold Grammar.suffix
  rw [run_bind_ok run_kind]
  generalize (source.view t).kind 0 = k at hnext
  cases k <;> first | rfl | cases hnext

theorem unary (h : AtOperand source g s e) : Takes source s 1 g.unary e := by
  unfold Grammar.unary
  refine .look run_kind ?_
  rcases h.kind with hk | hk
  · rw [hk]
    refine .look run_kind ?_
    rw [hk]
    exact h.suffixed
  · rw [hk]
    refine .look run_kind ?_
    rw [hk]
    exact h.suffixed

/-- What ends an operand is no operator between operands. -/
theorem binary (h : AtOperand source g s e) (levels least : Nat) :
    Takes source s 1 (g.binary levels least) e := by
  cases levels with
  | zero => exact h.unary
  | succ levels =>
    refine h.unary.andLast fun t ht => .stop ?_
    have hnext := h.after ht
    unfold Grammar.operation
    rw [run_bind_ok run_kind]
    generalize (source.view t).kind 0 = k at hnext
    cases k <;> first | rfl | cases hnext

theorem conditional (h : AtOperand source g s e) : Takes source s 1 g.conditional e := by
  refine (h.binary _ _).andLast fun t ht => ?_
  have hnext := h.after ht
  have hquestion : (source.view t).kind 0 ≠ .question := by
    intro hk
    rw [hk] at hnext
    cases hnext
  exact (Takes.acceptOther hquestion).andLast fun _ _ => .pure e

end AtOperand

/-! ### Assignments -/

/-- An assignment of an integer to a name, as it is written. -/
structure IntAssignment where
  target : String
  /-- The text of the literal. -/
  literal : String
  deriving DecidableEq, Repr

namespace IntAssignment

/-- The value of the literal. One without a value has a substitute. -/
def value (a : IntAssignment) : Int64 :=
  match Literal.int a.literal.toList with
  | .ok value => value
  | .error fault => fault.substitute

/-- The assignment as a statement. -/
def stmt (a : IntAssignment) : Stmt :=
  .assign (.identifier a.target) .assign (.int a.value)

/-- The lexemes of the assignment. -/
def lexemes (a : IntAssignment) : List Lexeme :=
  [Lexeme.name a.target, spelled .assign, ⟨.intLiteral, a.literal⟩, spelled .semicolon]

/-- The name is none of the two that mean something else at the beginning of a statement. -/
def IsPlain (a : IntAssignment) : Prop :=
  a.target ≠ "NULL" ∧ a.target ≠ "thread_local"

instance (a : IntAssignment) : Decidable a.IsPlain :=
  inferInstanceAs (Decidable (_ ∧ _))

end IntAssignment

namespace Takes

variable {g : Grammar} {a : IntAssignment} {ws : List Lexeme}

/-- The literal is an operand, though it may be reported. -/
theorem intLiteral (hk : (source.view s).kind 0 = .intLiteral)
    (htext : ((source.view s).token 0).text = a.literal) :
    Takes source s 1 Parse.intLiteral (.int a.value) := by
  refine (advance (by rw [hk]; decide)).andLast fun t _ => ?_
  rw [htext, IntAssignment.value]
  cases Literal.int a.literal.toList with
  | ok value => exact .pure _
  | error fault =>
    refine ⟨_, run_bind_ok (run_report _), rfl, rfl, ?_⟩
    simp [ParseState.record]

theorem atLiteral (hsees : source.Sees s.cursor.position
      (⟨.intLiteral, a.literal⟩ :: spelled .semicolon :: ws)) :
    AtOperand source g s (.int a.value) where
  kind := .inr hsees.kindAt
  next := by
    rw [show (source.view s).kind 1 = .semicolon from hsees.2.2.kindAt]
    rfl
  primary := by
    have hk : (source.view s).kind 0 = .intLiteral := hsees.kindAt
    unfold Grammar.primary
    refine look run_kind ?_
    rw [hk]
    exact intLiteral hk hsees.text

theorem atTarget (ha : a.target ≠ "NULL") (hsees : source.Sees s.cursor.position
      (Lexeme.name a.target :: spelled .assign :: ws)) :
    AtOperand source g s (.identifier a.target) := by
  have hk : (source.view s).kind 0 = .identifier := hsees.kindAt
  have hnext : ((source.view s).kind 1).endsOperand := by
    rw [show (source.view s).kind 1 = .assign from hsees.2.2.kindAt]
    rfl
  refine ⟨.inl hk, hnext, ?_⟩
  unfold Grammar.primary
  refine look run_kind ?_
  rw [hk]
  exact nameExpression ⟨hk, hsees.text, hnext⟩ ha

/-- The value of an assignment is no assignment itself. -/
theorem value (hsees : source.Sees s.cursor.position
      (⟨.intLiteral, a.literal⟩ :: spelled .semicolon :: ws)) :
    Takes source s 1 g.assignment (.int a.value) := by
  refine (atLiteral hsees).conditional.andLast fun t ht => look run_kind ?_
  rw [ht.kind, show source.kindAt (s.cursor.position + 1 + 0) = .semicolon from hsees.2.2.kindAt]
  exact .pure _

theorem assignment {d : Nat} (ha : a.IsPlain) (hroom : s.cursor.depth < source.settings.maxDepth)
    (hsees : source.Sees s.cursor.position (a.lexemes ++ ws)) :
    Takes source s 3 (Grammar.ofDepth (d + 1)).assignment
      (.binary .assign (.identifier a.target) (.int a.value)) := by
  refine (atTarget ha.1 hsees).conditional.bind (m := 2) fun t ht => look run_kind ?_
  have hassign : source.Sees t.cursor.position
      (spelled .assign :: ⟨.intLiteral, a.literal⟩ :: spelled .semicolon :: ws) :=
    ht.sees [Lexeme.name a.target] hsees
  have hk : (source.view t).kind 0 = .assign := hassign.kindAt
  rw [hk]
  refine (skip (by rw [hk]; decide)).bind (m := 1) fun u hu => look (run_check _) ?_
  have hliteral : source.Sees u.cursor.position
      (⟨.intLiteral, a.literal⟩ :: spelled .semicolon :: ws) :=
    hu.sees [spelled .assign] hassign
  have hdepth : u.cursor.depth < source.settings.maxDepth := by
    rwa [hu.depth, ht.depth]
  rw [show (source.view u).kind 0 = .intLiteral from hliteral.kindAt]
  exact (nested hdepth (value hliteral)).andLast fun _ _ => .pure _

end Takes

/-! ### No declaration -/

namespace Takes

variable {text : String} {ws : List Lexeme}

/-- No token is taken where none of the class stands. -/
theorem skipNone {c : TokenKind → Bool} (h : c ((source.view s).kind 0) = false) :
    Takes source s 0 (skipWhile c) () := by
  refine stop ?_
  rw [run_bind_ok run_kind, h]
  rfl

/-- A known name is a type by itself. -/
theorem namedType (hknown : s.cursor.known.contains text = true) (hsees : source.Sees s.cursor.position
      (Lexeme.name text :: spelled .assign :: ws)) : Takes source s 1 namedType () := by
  have hk : (source.view s).kind 0 = .identifier := hsees.kindAt
  have hpath : Takes source s 1 typePath ⟨text, "" ++ text⟩ := by
    have hscope : Takes source s 0 globalScope "" := by
      refine (acceptOther ?_).andLast fun _ _ => .pure ""
      rw [hk]
      decide
    refine hscope.bind (m := 1) fun t ht => ?_
    have hseest : source.Sees t.cursor.position (Lexeme.name text :: spelled .assign :: ws) :=
      ht.sees [] hsees
    refine (name hseest.kindAt hseest.text).andLast fun u hu => stop ?_
    have hseesu : source.Sees u.cursor.position (spelled .assign :: ws) :=
      hu.sees [Lexeme.name text] hseest
    have hku : (source.view u).kind 0 = .assign := hseesu.kindAt
    unfold typeSegment plainSegment
    rw [run_bind_ok run_isCpp, run_bind_ok (run_check _), hku]
    rw [show (TokenKind.assign == TokenKind.lt) = false from rfl, Bool.and_false,
      if_neg Bool.false_ne_true, run_bind_ok (run_check _), hku, run_bind_ok (run_checkAhead _ _)]
    rfl
  refine hpath.andLast fun t ht => look run_view ?_
  have haccepts : (source.view t).accepts ⟨text, "" ++ text⟩ = true := by
    have hfirst : (source.view t).isKnown text = true := by
      show t.cursor.known.contains text = true
      rw [ht.cursor]
      exact hknown
    simp [View.accepts, hfirst]
  rw [haccepts, if_pos rfl]
  exact .pure ()

/-- A type is its core, if no mark of a pointer or reference comes after it. -/
theorem typeName (hcore : Takes source s n typeCore ())
    (hnext : isTypeSuffix (source.kindAt (s.cursor.position + n)) = false) :
    Takes source s n typeName (Token.join
      (source.stream.between s.cursor.position (s.cursor.position + n))) := by
  refine look run_position (hcore.andLast fun t ht => (skipNone ?_).andLast fun u hu => ?_)
  · rw [ht.kind]
    exact hnext
  · have hposition : u.cursor.position = s.cursor.position + n := (ht.trans hu).position
    refine of_run ?_
    rw [run_textSince, hposition]

/-- The core of a type is what stands between qualifiers. -/
theorem typeCore (hbare : Takes source s n bareCore ())
    (hk : View.isQualifier ((source.view s).kind 0) = false)
    (hnext : View.isQualifier (source.kindAt (s.cursor.position + n)) = false) :
    Takes source s n typeCore () := by
  have hbefore : (skipWhile View.isQualifier).run source s = (.ok (), s) := by
    unfold skipWhile
    rw [iterate, run_bind_ok run_view, iterateFor, bind_assoc, run_bind_ok run_kind, hk]
    rfl
  refine look hbefore (hbare.andLast fun t ht => skipNone ?_)
  rw [ht.kind]
  exact hnext

end Takes

namespace View

variable {v : View}

theorem past_eq_self {c : TokenKind → Bool} {n : Nat} (h : c (v.kind n) = false) :
    v.past c n = n := by
  unfold past
  cases v.remaining with
  | zero => rfl
  | succ fuel => exact if_neg (by rw [h]; exact Bool.false_ne_true)

/-- A name is looked at as a type if it is known. -/
theorem isKnown_of_startsType (h : v.startsType = true) (hlenient : v.lenient = false)
    (h0 : v.kind 0 = .identifier) (h1 : v.kind 1 ≠ .colonColon) : v.isKnown (v.token 0).text = true := by
  have hpast : v.past isQualifier 0 = 0 := past_eq_self (by rw [h0]; rfl)
  unfold startsType at h
  simp only [hpast, show (v.token 0).kind = .identifier from h0, hlenient, Nat.zero_add,
    beq_false_of_ne h1, Bool.and_false, Bool.or_false, Bool.false_or] at h
  exact h

/-- No operator is named where neither `operator` nor the name of an owner stands. -/
theorem atOperatorName_eq_false (h : v.kind 0 ≠ .kwOperator)
    (howner : ¬ (v.kind 0 = .identifier ∧ v.kind 1 = .colonColon)) : v.atOperatorName = false := by
  have howners : v.pastOwnersFor v.remaining 0 = 0 := by
    cases v.remaining with
    | zero => rfl
    | succ fuel => exact if_neg (by simpa using howner)
  unfold atOperatorName
  rw [howners]
  exact beq_false_of_ne h

/-- A name with parentheses, and a body or a `;` after them, is that of a function. -/
theorem declarationForm?_of_group {limit close : Nat} (h0 : v.kind 0 = .identifier)
    (h1 : v.kind 1 = .lparen) (hclose : v.matchingParen limit 1 = some close)
    (hafter : v.kind (close + 1) = .lbrace ∨ v.kind (close + 1) = .semicolon) :
    v.declarationForm? limit = some .function := by
  have hoperator : v.atOperatorName = false :=
    atOperatorName_eq_false (by simp [h0]) (by simp [h1])
  have hsegments : v.pastSegments 1 = 1 := by
    unfold pastSegments
    cases v.remaining with
    | zero => rfl
    | succ fuel => exact if_neg (by simp [h1])
  have hpast : v.past isHeadQualifier (close + 1) = close + 1 :=
    past_eq_self (by rcases hafter with h | h <;> rw [h] <;> rfl)
  rcases hafter with h | h <;>
    simp [declarationForm?, hoperator, shape, h0, hsegments, h1, hclose, hpast, h]

/-- What has no name at its beginning is no declarator. -/
theorem declarationForm?_of_assign (h0 : v.kind 0 = .assign) (limit : Nat) :
    v.declarationForm? limit = none := by
  have hoperator : v.atOperatorName = false := atOperatorName_eq_false (by simp [h0]) (by simp [h0])
  simp [declarationForm?, hoperator, shape, h0]

end View

/-- No declaration is read where a name is assigned to. If the name is that of a type, the `=` after
    it shows that nothing is declared. -/
theorem Grammar.run_declaration_of_target {g : Grammar} {text : String} {ws : List Lexeme}
    (hlenient : s.lenient = false) (htext : text ≠ "thread_local")
    (hsees : source.Sees s.cursor.position (Lexeme.name text :: spelled .assign :: ws)) :
    g.declaration?.run source s = (.ok none, s) := by
  have hk : (source.view s).kind 0 = .identifier := hsees.kindAt
  have hnext : (source.view s).kind 1 = .assign := hsees.2.2.kindAt
  have hspecifiers : specifiers.run source s = (.ok {}, s) := by
    refine run_specifiers_of_plain ?_ fun h => ?_
    · rw [hk]
      rfl
    · have heq : Lexeme.name text = Lexeme.name "thread_local" := hsees.2.1.symm.trans h
      exact htext (congrArg Lexeme.text heq)
  have hhead : ∃ e t, declarationHead.run source s = (.error e, t) ∧ e.isFatal = false := by
    unfold declarationHead
    rw [run_bind_ok hspecifiers, run_bind_ok run_view]
    cases hstarts : (source.view s).startsType with
    | false => exact ⟨_, _, rfl, rfl⟩
    | true =>
      have hknown : s.cursor.known.contains text = true := by
        rw [← show ((source.view s).token 0).text = text from hsees.text]
        exact View.isKnown_of_startsType hstarts hlenient hk (by rw [hnext]; decide)
      have hcore : Takes source s 1 typeCore () := by
        refine .typeCore (.look run_kind ?_) (by rw [hk]; rfl) ?_
        · rw [hk]
          exact .namedType hknown hsees
        · rw [show source.kindAt (s.cursor.position + 1) = .assign from hnext]
          rfl
      have hsuffix : isTypeSuffix (source.kindAt (s.cursor.position + 1)) = false := by
        rw [show source.kindAt (s.cursor.position + 1) = .assign from hnext]
        rfl
      obtain ⟨t, hrun, ht⟩ := Takes.typeName hcore hsuffix
      have hform : (source.view t).declarationForm? source.settings.maxLookahead = none :=
        View.declarationForm?_of_assign ((ht.kind 0).trans hnext) _
      have hformed : ∃ e, formedType.run source s = (.error e, t) ∧ e.isFatal = false := by
        unfold formedType
        rw [run_bind_ok hrun, run_bind_ok (run_lookAhead _), hform]
        exact ⟨_, rfl, rfl⟩
      obtain ⟨e, hformed, he⟩ := hformed
      exact ⟨e, t, run_bind_error hformed, he⟩
  obtain ⟨e, t, hrun, he⟩ := hhead
  have hnone : g.declaration?.run source s = (.ok none, t.backTo s) := by
    have hspeculate := run_speculate_error hrun
    rw [he, if_neg Bool.false_ne_true] at hspeculate
    unfold declaration?
    rw [run_bind_ok hspeculate]
    rfl
  rw [hnone, traceless_declaration? g s _ hnone]

/-! ### Statements -/

namespace Takes

variable {a : IntAssignment} {ws : List Lexeme} {d : Nat}

theorem expressionStatement (ha : a.IsPlain) (hlenient : s.lenient = false)
    (hroom : s.cursor.depth + 2 ≤ source.settings.maxDepth)
    (hsees : source.Sees s.cursor.position (a.lexemes ++ ws)) :
    Takes source s 4 (Grammar.ofDepth (d + 2)).expressionStatement a.stmt := by
  have hsemicolon : source.kindAt (s.cursor.position + 3) = .semicolon :=
    hsees.2.2.2.2.2.2.kindAt
  have hvalue : Takes source s 3 (Grammar.ofDepth (d + 2)).commaExpression
      (.binary .assign (.identifier a.target) (.int a.value)) := by
    refine Takes.andLast (strictly hlenient (nested (Nat.lt_of_succ_lt hroom) ?_)) fun t ht => stop ?_
    · exact assignment ha hroom hsees
    · have hk : (source.view t).kind 0 ≠ .comma := by
        rw [ht.kind, show source.kindAt (s.cursor.position + 3 + 0) = _ from hsemicolon]
        decide
      unfold Grammar.moreComma Parse.accept
      rw [bind_assoc, run_bind_ok (run_check _), beq_false_of_ne hk]
      rfl
  refine hvalue.bind (m := 1) fun t ht => ?_
  refine (skipOver ((ht.kind 0).trans hsemicolon) (by decide)).andLast fun _ _ => .pure _

theorem statementRule (ha : a.IsPlain) (hlenient : s.lenient = false)
    (hroom : s.cursor.depth + 2 ≤ source.settings.maxDepth)
    (hsees : source.Sees s.cursor.position (a.lexemes ++ ws)) :
    Takes source s 4 (Grammar.ofDepth (d + 2)).statement (some a.stmt) := by
  have hk : (source.view s).kind 0 = .identifier := hsees.kindAt
  have hlabel : (source.view s).kind 1 ≠ .colon := by
    rw [show (source.view s).kind 1 = .assign from hsees.2.2.kindAt]
    decide
  have hplain : Takes source s 4 (Grammar.ofDepth (d + 2)).plainStatement a.stmt := by
    have hnamed : ((source.view s).kind 0).beginsPlain := by
      rw [hk]
      rfl
    refine look (Grammar.run_namedDeclaration_of_plain hnamed) ?_
    refine look (Grammar.run_declaration_of_target hlenient ha.2 hsees) ?_
    exact expressionStatement ha hlenient hroom hsees
  refine look run_kind ?_
  rw [hk]
  refine look (run_checkAhead _ _) ?_
  rw [beq_false_of_ne hlabel]
  exact hplain.andLast fun _ _ => .pure _

/-- An assignment of an integer is read as such. -/
theorem statement (ha : a.IsPlain) (hlenient : s.lenient = false)
    (hroom : s.cursor.depth + 3 ≤ source.settings.maxDepth)
    (hsees : source.Sees s.cursor.position (a.lexemes ++ ws)) :
    Takes source s 4 ((Grammar.ofDepth (d + 3)).parse .statement) (some a.stmt) := by
  refine nested (by omega) (statementRule ha hlenient ?_ hsees)
  show s.cursor.depth + 1 + 2 ≤ _
  omega

end Takes

end CTree
