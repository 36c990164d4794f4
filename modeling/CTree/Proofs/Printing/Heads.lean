import CTree.Proofs.Printing.Scan

/-!
# What expressions begin with

An expression of C begins with an operator, `sizeof`, a name, an integer or a parenthesis, and where
it begins with a parenthesis another expression begins after that. So no type can be meant where an
expression begins. All lexemes of an expression are lexemes of C.
-/

namespace CTree

open Lexeme

/-! ### First lexemes -/

namespace TokenKind

/-- The kinds that an operand begins with. -/
def beginsOperand : TokenKind → Bool
  | .identifier | .intLiteral | .lparen => true
  | _ => false

/-- The kinds that an expression begins with. -/
def beginsExpression (k : TokenKind) : Bool :=
  k.beginsOperand || k == .kwSizeof || (UnaryOp.ofKind? k).isSome

end TokenKind

/-- The first lexeme is of a kind in a class, and an expression begins after an opening
    parenthesis. -/
def Begins (p : TokenKind → Bool) (ws : List Lexeme) : Prop :=
  ∃ w rest, ws = w :: rest ∧ p w.kind ∧
    (w.kind = .lparen → ∃ w' rest', rest = w' :: rest' ∧ w'.kind.beginsExpression)

namespace Begins

variable {p q : TokenKind → Bool} {ws : List Lexeme}

theorem ne_nil (h : Begins p ws) : ws ≠ [] := by
  obtain ⟨w, rest, rfl, -, -⟩ := h
  exact List.cons_ne_nil w rest

theorem mono (h : Begins p ws) (hpq : ∀ k, p k → q k) : Begins q ws := by
  obtain ⟨w, rest, rfl, hw, hparen⟩ := h
  exact ⟨w, rest, rfl, hpq _ hw, hparen⟩

theorem expression (h : Begins TokenKind.beginsOperand ws) :
    Begins TokenKind.beginsExpression ws :=
  h.mono fun k hk => by simp [TokenKind.beginsExpression, hk]

theorem append (h : Begins p ws) (more : List Lexeme) : Begins p (ws ++ more) := by
  obtain ⟨w, rest, rfl, hw, hparen⟩ := h
  refine ⟨w, rest ++ more, rfl, hw, fun hw' => ?_⟩
  obtain ⟨w', rest', rfl, hrest⟩ := hparen hw'
  exact ⟨w', rest' ++ more, rfl, hrest⟩

theorem cons {w : Lexeme} (hw : p w.kind) (hparen : w.kind ≠ .lparen) (rest : List Lexeme) :
    Begins p (w :: rest) :=
  ⟨w, rest, rfl, hw, fun h => (hparen h).elim⟩

/-- Lexemes in parentheses, or lexemes that begin an operand themselves. -/
theorem enclose_operand {least level : Nat} (h : Begins TokenKind.beginsExpression ws)
    (hlevel : least ≤ level → Begins TokenKind.beginsOperand ws) :
    Begins TokenKind.beginsOperand (enclose least level ws) := by
  unfold enclose
  split
  · rename_i hle
    exact hlevel hle
  · obtain ⟨w, rest, rfl, hw, -⟩ := h
    exact ⟨_, _, rfl, rfl, fun _ => ⟨w, _, rfl, hw⟩⟩

theorem enclose (h : Begins TokenKind.beginsExpression ws) (least level : Nat) :
    Begins TokenKind.beginsExpression (enclose least level ws) := by
  by_cases hle : least ≤ level
  · rwa [Lexeme.enclose, if_pos hle]
  · exact (enclose_operand h fun h' => (hle h').elim).expression

end Begins

theorem BinaryOp.level_le (op : BinaryOp) : op.level ≤ 12 := by
  cases op <;> decide

theorem BinaryOp.leftLevel_le (op : BinaryOp) : op.leftLevel ≤ 14 := by
  cases op <;> decide

theorem BinaryOp.rightLevel_le (op : BinaryOp) : op.rightLevel ≤ 14 := by
  cases op <;> decide

/-- An operator is the comma, an assignment, or one that stands between operands. -/
theorem BinaryOp.level_cases (op : BinaryOp) : op = .comma ∨
    (op.isAssignment ∧ op.level = 1 ∧ op.leftLevel = 3 ∧ op.rightLevel = 1) ∨
    (3 ≤ op.level ∧ op.leftLevel = op.level ∧ op.rightLevel = op.level + 1) := by
  cases op <;> decide

theorem Expr.level_le (e : Expr) : e.level ≤ 14 := by
  unfold Expr.level
  split
  · exact Nat.le_trans (BinaryOp.level_le _) (by decide)
  · decide
  · decide
  · decide
  · decide

theorem UnaryOp.ofKind?_kind (op : UnaryOp) : ofKind? op.kind = some op := by
  cases op <;> rfl

theorem UnaryOp.kind_ne_lparen (op : UnaryOp) : op.kind ≠ .lparen := by
  cases op <;> decide

namespace Expr.InC

/-- An expression of C begins like one, and like an operand if no operator stands before it. -/
theorem begins {e : Expr} (h : e.InC) : Begins TokenKind.beginsExpression e.lexemes ∧
    (14 ≤ e.level → Begins TokenKind.beginsOperand e.lexemes) := by
  -- What stands after an operand does not change how it begins.
  have hafter {e : Expr} (more : List Lexeme) (ih : Begins TokenKind.beginsExpression e.lexemes ∧
      (14 ≤ e.level → Begins TokenKind.beginsOperand e.lexemes)) :
      Begins TokenKind.beginsOperand (enclose 14 e.level e.lexemes ++ more) :=
    (Begins.enclose_operand ih.1 ih.2).append more
  induction h with
  | @identifier text h =>
    have hbegins : Begins TokenKind.beginsOperand [name text] := .cons rfl (fun h => by cases h) []
    exact ⟨hbegins.expression, fun _ => hbegins⟩
  | @int value h =>
    have hbegins : Begins TokenKind.beginsOperand [decimal value.toNatClampNeg] :=
      .cons rfl (fun h => by cases h) []
    exact ⟨hbegins.expression, fun _ => hbegins⟩
  | before op he ih =>
    refine ⟨.cons ?_ op.kind_ne_lparen _, fun hlevel => absurd hlevel (by simp [level])⟩
    simp [TokenKind.beginsExpression, spelled, op.ofKind?_kind]
  | after h he ih => exact ⟨(hafter _ ih).expression, fun _ => hafter _ ih⟩
  | sizeof he ih => exact ⟨.cons rfl (by decide) _, fun hlevel => absurd hlevel (by simp [level])⟩
  | call hf hes ih ihs => exact ⟨(hafter _ ih).expression, fun _ => hafter _ ih⟩
  | index he hi ih ihi => exact ⟨(hafter _ ih).expression, fun _ => hafter _ ih⟩
  | member arrow he h ih => exact ⟨(hafter _ ih).expression, fun _ => hafter _ ih⟩
  | @binary op h l r hl hr ihl ihr =>
    have hle : op.level ≤ 12 := op.level_le
    exact ⟨(ihl.1.enclose _ _).append _, fun hlevel => absurd hlevel (by simp [level]; omega)⟩
  | conditional hc hyes hno ihc ihyes ihno =>
    exact ⟨(ihc.1.enclose _ _).append _, fun hlevel => absurd hlevel (by simp [level])⟩

end Expr.InC

/-! ### All lexemes -/

theorem BinaryOp.kind_mem {op : BinaryOp} (h : op ≠ .threeWay) : op.kind ∈ Rule.spelledC := by
  cases op <;> first | decide | exact (h rfl).elim

theorem UnaryOp.kind_mem (op : UnaryOp) : op.kind ∈ Rule.spelledC := by
  cases op <;> decide

theorem Lexeme.scans_enclose {least level : Nat} {ws : List Lexeme} (h : ∀ w ∈ ws, w.Scans) :
    ∀ w ∈ enclose least level ws, w.Scans := by
  intro w hw
  unfold enclose at hw
  split at hw
  · exact h w hw
  · rcases List.mem_cons.1 hw with rfl | hw
    · exact scans_spelled (by decide)
    · rcases List.mem_append.1 hw with hw | hw
      · exact h w hw
      · obtain rfl := List.mem_singleton.1 hw
        exact scans_spelled (by decide)

theorem Expr.scans_moreLexemes {es : List Expr} (h : ∀ e ∈ es, ∀ w ∈ e.lexemes, w.Scans) :
    ∀ w ∈ moreLexemes es, w.Scans := by
  induction es with
  | nil => exact fun w hw => by cases hw
  | cons e es ih =>
    simp only [moreLexemes, List.forall_mem_cons, List.forall_mem_append] at h ⊢
    exact ⟨scans_spelled (by decide), scans_enclose h.1, ih h.2⟩

theorem Expr.scans_listLexemes {es : List Expr} (h : ∀ e ∈ es, ∀ w ∈ e.lexemes, w.Scans) :
    ∀ w ∈ listLexemes es, w.Scans := by
  cases es with
  | nil => exact fun w hw => by cases hw
  | cons e es =>
    simp only [listLexemes, List.forall_mem_cons, List.forall_mem_append] at h ⊢
    exact ⟨scans_enclose h.1, scans_moreLexemes h.2⟩

/-- An expression of C is written in lexemes of C. -/
theorem Expr.InC.scans {e : Expr} (h : e.InC) : ∀ w ∈ e.lexemes, w.Scans := by
  induction h with
  | identifier h =>
    simp only [Rule.isVariable, Bool.and_eq_true] at h
    simpa [lexemes] using scans_name h.1.1
  | int h => simpa [lexemes] using scans_decimal _
  | before op he ih =>
    simp only [lexemes, List.forall_mem_cons]
    exact ⟨scans_spelled op.kind_mem, scans_enclose ih⟩
  | @after op h e he ih =>
    simp only [lexemes, List.forall_mem_append, List.forall_mem_singleton]
    exact ⟨scans_enclose ih, scans_spelled op.kind_mem⟩
  | sizeof he ih =>
    simp only [lexemes, List.forall_mem_cons]
    exact ⟨scans_spelled (by decide), scans_enclose ih⟩
  | call hf hes ih ihs =>
    simp only [lexemes, List.forall_mem_append, List.forall_mem_cons]
    exact ⟨scans_enclose ih, scans_spelled (by decide), scans_listLexemes ihs,
      scans_spelled (by decide), List.forall_mem_nil _⟩
  | index he hi ih ihi =>
    simp only [lexemes, List.forall_mem_append, List.forall_mem_cons]
    exact ⟨scans_enclose ih, scans_spelled (by decide), ihi, scans_spelled (by decide),
      List.forall_mem_nil _⟩
  | member arrow he h ih =>
    simp only [lexemes, List.forall_mem_append, List.forall_mem_cons]
    exact ⟨scans_enclose ih, scans_spelled (by cases arrow <;> decide), scans_name h,
      List.forall_mem_nil _⟩
  | binary h hl hr ihl ihr =>
    simp only [lexemes, List.forall_mem_append, List.forall_mem_cons]
    exact ⟨scans_enclose ihl, scans_spelled (BinaryOp.kind_mem h), scans_enclose ihr⟩
  | conditional hc hyes hno ihc ihyes ihno =>
    simp only [lexemes, List.forall_mem_append, List.forall_mem_cons]
    exact ⟨scans_enclose ihc, scans_spelled (by decide), ihyes, scans_spelled (by decide),
      scans_enclose ihno⟩

end CTree
