import CTree.Parse.Session
import CTree.Proofs.Opaque.TypeName

/-!
# Expressions before the brace

In a head an expression stands in parentheses only, so that the brace never comes next, and no part of the
expression takes it.
-/

namespace CTree

open Parse

variable {α β : Type} {w : SameHead} {d i n m : Nat} {k : TokenKind}

/-! ### Looking ahead -/

namespace SameHead

variable {s : ParseState} {c : TokenKind → Bool}

/-- A look past tokens of a class ends at the brace at the latest. -/
theorem pastFor_eq (hc : c .lbrace = false) (h : s.cursor.position + n ≤ w.stop) {fuel fuel' : Nat}
    (hfuel : w.stop - (s.cursor.position + n) < fuel)
    (hfuel' : w.stop - (s.cursor.position + n) < fuel') :
    (w.right.view s).pastFor c fuel' n = (w.left.view s).pastFor c fuel n ∧
      s.cursor.position + (w.left.view s).pastFor c fuel n ≤ w.stop := by
  induction fuel generalizing fuel' n with
  | zero => exact (Nat.not_lt_zero _ hfuel).elim
  | succ fuel ih =>
    obtain ⟨fuel', rfl⟩ : ∃ m, fuel' = m + 1 := ⟨fuel' - 1, by omega⟩
    rw [View.pastFor, View.pastFor, w.kind_eq h]
    split
    · rename_i hin
      have hlt : s.cursor.position + n < w.stop := by
        refine w.lt_of_kind_ne h fun hk => ?_
        rw [hk, hc] at hin
        cases hin
      exact ih (by omega) (by omega) (by omega)
    · exact ⟨rfl, h⟩

theorem past_eq (hc : c .lbrace = false) (h : s.cursor.position + n ≤ w.stop) :
    (w.right.view s).past c n = (w.left.view s).past c n ∧
      s.cursor.position + (w.left.view s).past c n ≤ w.stop := by
  obtain ⟨hleft, hright⟩ := w.lt_remaining (s := s) (by omega)
  exact pastFor_eq hc h (by omega) (by omega)

theorem startsType_eq (h : s.cursor.position + n ≤ w.stop) :
    (w.right.view s).startsType n = (w.left.view s).startsType n := by
  obtain ⟨hpast, hle⟩ := past_eq (w := w) (s := s) (c := View.isQualifier) rfl h
  have htoken := w.token_eq hle
  have hnext (hk : (w.left.view s).kind ((w.left.view s).past View.isQualifier n) = .identifier) :
      (w.right.view s).kind ((w.left.view s).past View.isQualifier n + 1) =
        (w.left.view s).kind ((w.left.view s).past View.isQualifier n + 1) :=
    w.kind_eq (w.lt_of_kind_ne hle (by rw [hk]; decide))
  unfold View.startsType
  simp only [hpast, htoken, w.isCpp_eq]
  split <;> first
    | rfl
    | (rename_i hk
       rw [hnext hk]
       rfl)

end SameHead

/-! ### Types in parentheses -/

namespace Confined

variable {R : β → Nat → Prop}

/-- A look at whether a type begins after the parenthesis. -/
theorem startsType {f : Bool → Parse β}
    (hf : ∀ x, Confined w (w.At d i .lparen) (f x) (f x) R) :
    Confined w (w.At d i .lparen) (Parse.view >>= fun v => f (v.startsType 1))
      (Parse.view >>= fun v => f (v.startsType 1)) R := by
  refine viewing (fun {s} hs => ?_) fun v => hf _
  rw [w.startsType_eq (hs.within.lt (by rw [hs.kind]; decide))]

/-- A type in parentheses, which begin here. -/
theorem typeInParentheses (place : String) :
    Confined w (w.At d i .lparen) (Parse.typeInParentheses place) (Parse.typeInParentheses place)
      fun _ => w.In d i := by
  refine .skip (by decide) ((Passes.typeName.bind fun type => ?_) i)
  exact (Passes.skipOver (by decide) place).bind fun _ => .pure type

theorem castHead : Confined w (w.At d i .lparen) Parse.castHead Parse.castHead
    fun _ => w.In d i := by
  refine (typeInParentheses _).bind fun type => .kind fun k => ?_
  split
  · exact .pure fun _ hj => hj.toIn
  · exact .here (.unexpected _)

theorem castType : Confined w (w.At d i .lparen) Parse.castType Parse.castType
    fun x => x.elim (w.At d i .lparen) fun _ => w.In d i := by
  refine .withLeniency false
    (.startsType (f := fun x => if x = true then Parse.castHead.speculate else pure none) fun x => ?_)
  split
  · exact castHead.speculate
  · exact .pure fun _ hj => hj

end Confined

namespace Passes

/-- A type in parentheses, if there is one. -/
theorem parenthesizedType : Passes w d d parenthesizedType := by
  refine fun i => .check ?_ ?_
  · refine .startsType (f := fun x => if (true && x) = true
      then (typeInParentheses "after type").speculate else pure none) fun x => ?_
    split
    · refine (Confined.typeInParentheses _).speculate.weaken (fun _ hj => hj) fun x j hj => ?_
      cases x with
      | none => exact hj.toIn
      | some x => exact hj
    · exact .pure fun _ hj => hj.toIn
  · -- without a parenthesis the second look decides nothing
    exact
      { same := fun _ => rfl
        post := fun hs hrun => by
          cases hrun
          exact hs }

/-! ### Operands -/

theorem intLiteral (hk : k.isFlat) :
    Confined w (w.At d i k) Parse.intLiteral Parse.intLiteral fun _ => w.In d i := by
  refine .takeFlat hk fun t ht => ?_
  split
  · exact .pure fun _ hj => hj
  · exact (Confined.report ht rfl).bind fun _ => .pure fun _ hj => hj

theorem stringLiterals : Passes w d d stringLiterals := by
  refine (Passes.iterate (fun value i => .check ?_ ?_) "").map
  · exact .takeMoving (by decide) fun t _ _ => .pure fun _ hj => hj
  · exact .pure fun _ hj => hj

theorem argumentsBeforeUse : Passes w d d argumentsBeforeUse := by
  refine templateArguments.bind fun arguments => fun i => .kind fun k => .here ?_
  split
  · exact .pure fun _ hj => hj
  · exact .pure fun _ hj => hj
  · exact .pure fun _ hj => hj
  · exact .unexpected _

theorem memberName : Passes w d d memberName := by
  refine fun i => .accept (by decide) ?_ ?_
  · exact (name _).bind (fun _ => .pure _) i
  · refine ((accept (k := .kwTemplate) rfl).bind fun _ => fun i => .isCpp fun cpp => ?_) i
    split
    · exact qualifiedName i
    · exact name _ i

theorem emptyBrackets : Passes w d d emptyBrackets := by
  refine fun i => .checkTwo (by decide) ?_ (.pure fun _ hj => hj)
  exact (Confined.absent (.inr (.inl rfl))).before fun _ hj => hj.1

theorem templateName (path : String) : Passes w d d (Grammar.templateName path) := by
  refine fun i => .isCpp fun cpp => .checking fun before => ?_
  split
  · exact .pure fun _ hj => hj
  · refine argumentsBeforeUse.speculate.bind (fun arguments? => ?_) i
    cases arguments? with
    | none => exact .pure _
    | some arguments =>
      refine fun i => .checkTwo (by decide) (.skipTo (by decide) (.here ?_)) (.pure fun _ hj => hj)
      exact (qualifiedName.bind (fun _ => .pure _) (i + 1)).weaken (fun _ hj => hj)
        fun _ _ hj => hj.weaken

end Passes

/-! ### Expressions -/

/-- What the recursive part of a grammar reads inside parentheses does not get past them. -/
structure Grammar.PassesInside (w : SameHead) (g : Grammar) : Prop where
  assignment : ∀ d, Passes w (d + 1) (d + 1) (g.parse .assignment)
  unary : ∀ d, Passes w (d + 1) (d + 1) (g.parse .unary)

namespace Grammar.PassesInside

variable {g : Grammar}

section

variable (hg : g.PassesInside w)

include hg

theorem expression : Passes w (d + 1) (d + 1) g.expression :=
  (hg.assignment d).strictly

theorem moreComma (left : Expr) : Steps w (d + 1) (g.moreComma left) := by
  refine fun i => .acceptMoving (by decide) ?_ (.pure fun _ hj => hj)
  exact (hg.expression _).bind fun _ => .pure fun _ hj => hj

theorem commaExpression : Passes w (d + 1) (d + 1) g.commaExpression :=
  hg.expression.bind fun _ => .iterate hg.moreComma _

theorem initializer : Passes w (d + 1) (d + 1) g.initializer :=
  fun i => .checkInside (hg.expression i)

theorem argument : Passes w (d + 1) (d + 1) g.argument :=
  hg.initializer.bind fun _ => (Passes.accept rfl).bind fun _ => .pure _

/-- The arguments are read up to the parenthesis that closes them, and that is taken too. -/
theorem arguments : Passes w (d + 1) d (g.arguments .rparen) := by
  refine fun i => .accept (by decide) (.pure fun _ hj => hj) ?_
  exact (Passes.separated hg.argument).bind
    (fun _ => (Passes.skipOver (by decide) _).bind fun _ => .pure _) i

theorem namedCast (cast : CastKind) : Passes w d d (g.namedCast cast) :=
  Passes.templateArguments.bind fun _ => (Passes.skipOver (by decide) _).bind fun _ =>
    hg.expression.bind fun _ => (Passes.skipOver (by decide) _).bind fun _ => .pure _

theorem nameExpression : Passes w d d g.nameExpression := by
  refine Passes.qualifiedName.bind fun path => ?_
  split
  · exact .pure _
  · split
    · refine fun i => .check ?_ (Passes.templateName path i)
      exact .here (hg.namedCast _ i)
    · exact Passes.templateName path

theorem typeidOf :
    Confined w (w.At d i .kwTypeid) g.typeidOf g.typeidOf fun _ => w.In d i := by
  refine .skip (by decide) (Passes.parenthesizedType.bind (fun type? => ?_) i)
  cases type? with
  | some type => exact .pure _
  | none =>
    exact (Passes.skipOver (by decide) _).bind fun _ => hg.expression.bind fun _ =>
      (Passes.skipOver (by decide) _).bind fun _ => .pure _

omit hg in
theorem newSize : Passes w d d g.newSize :=
  fun _ => .acceptAbsent (.inr (.inl rfl)) (.pure fun _ hj => hj)

theorem newArguments : Passes w (d + 1) (d + 1) g.newArguments :=
  fun i => .accept (by decide) (hg.arguments i) (.checkInside (.pure fun _ hj => hj))

theorem newObject : Confined w (w.At (d + 1) i .kwNew) g.newObject g.newObject
    fun _ => w.In (d + 1) i := by
  have hrest : Passes w (d + 1) (d + 1) (do
      let type ← leniently typeName
      let size? ← g.newSize
      return Expr.new type (← g.newArguments) size? size?.isSome) :=
    Passes.typeName.leniently.bind fun _ => newSize.bind fun _ => hg.newArguments.bind fun _ =>
      .pure _
  refine .skip (by decide) (.accept (by decide) ?_ (hrest i))
  exact (hg.arguments.bind fun _ => hrest) i

theorem deletion : Confined w (w.At (d + 1) i .kwDelete) g.deletion g.deletion
    fun _ => w.In (d + 1) i :=
  .skip (by decide) ((Passes.emptyBrackets.bind fun _ => (hg.unary d).bind fun _ => .pure _) i)

theorem primary : Passes w (d + 1) (d + 1) g.primary := by
  refine fun i => .kind fun k => ?_
  split
  · exact Passes.intLiteral rfl
  · exact Passes.intLiteral rfl
  · exact Passes.intLiteral rfl
  · exact .take (by decide) fun t _ _ => .pure fun _ hj => hj
  · exact .here (Passes.stringLiterals i)
  · exact .take (by decide) fun t _ _ => .pure fun _ hj => hj
  · exact .skip (by decide) (.pure fun _ hj => hj)
  · exact .skip (by decide) (.pure fun _ hj => hj)
  · exact .skip (by decide) (.pure fun _ hj => hj)
  · exact .skip (by decide) (.pure fun _ hj => hj)
  · exact .skip (by decide) ((hg.commaExpression.bind fun _ =>
      (Passes.skipOver (by decide) _).bind fun _ => .pure _) i)
  · exact .inside fun hk => (hk rfl).elim
  · exact .absent (.inr (.inl rfl))
  · exact hg.newObject
  · exact hg.deletion
  · exact hg.typeidOf
  · exact .here (hg.nameExpression i)
  · exact .here (hg.nameExpression i)
  · refine .inside fun hk => .checkNext hk fun next => ?_
    split
    · rename_i hbuiltin
      have hflat := TokenKind.isFlat_of_isBuiltinType (Bool.and_eq_true_iff.1 hbuiltin).1
      exact .takeFlat hflat fun t _ => .pure fun _ hj => hj
    · exact .here (.expected _)

/-! ### What stands around an operand -/

theorem suffix (operand : Expr) : Steps w (d + 1) (g.suffix operand) := by
  refine fun i => .kind fun k => ?_
  split
  · exact .skipMoving (by decide) ((hg.arguments (i + 1)).bind fun _ => .pure fun _ hj => hj)
  · exact .absent (.inr (.inl rfl))
  · exact .takeMoving (by decide) fun t _ _ =>
      (Passes.memberName (i + 1)).bind fun _ => .pure fun _ hj => hj
  · exact .takeMoving (by decide) fun t _ _ =>
      (Passes.memberName (i + 1)).bind fun _ => .pure fun _ hj => hj
  · exact .takeMoving (by decide) fun t _ _ =>
      (hg.unary d (i + 1)).bind fun _ => .pure fun _ hj => hj
  · exact .takeMoving (by decide) fun t _ _ =>
      (hg.unary d (i + 1)).bind fun _ => .pure fun _ hj => hj
  · exact .skipMoving (by decide) (.pure fun _ hj => hj)
  · exact .skipMoving (by decide) (.pure fun _ hj => hj)
  · exact .inside fun hk => (hk rfl).elim
  · exact .pure fun _ hj => hj.toIn

theorem suffixed : Passes w (d + 1) (d + 1) g.suffixed :=
  hg.primary.bind fun _ => .iterate hg.suffix _

theorem sizeofOf : Confined w (w.At (d + 1) i .kwSizeof) g.sizeofOf g.sizeofOf
    fun _ => w.In (d + 1) i := by
  refine .skip (by decide) (.accept (by decide) ?_ ?_)
  · exact (Passes.skipOver (by decide) _).bind (fun _ => (Passes.name _).bind fun _ =>
      (Passes.skipOver (by decide) _).bind fun _ => .pure _) i
  · refine Passes.parenthesizedType.bind (fun type? => ?_) i
    cases type? with
    | some type => exact .pure _
    | none => exact (hg.unary d).bind fun _ => .pure _

theorem castOperand : Passes w (d + 1) (d + 1) g.castOperand :=
  fun i => .checkInside (hg.unary d i)

theorem rule_unary : Passes w (d + 1) (d + 1) g.unary := by
  refine fun i => .kind fun k => ?_
  split
  · rename_i op hop
    have hflat : k.isFlat := by
      cases k <;> first | rfl | cases hop
    exact .skipFlat hflat (((hg.unary d).bind fun _ => .pure _) i)
  · refine .kindHere ?_
    split
    · exact hg.sizeofOf
    · refine Confined.castType.bind fun type? => ?_
      cases type? with
      | some type => exact (hg.castOperand.bind fun _ => .pure _) i
      | none => exact .here (hg.suffixed i)
    · exact .here (hg.suffixed i)

/-! ### What stands between operands -/

omit hg in
theorem operation {operand : Nat → Parse Expr}
    (hoperand : ∀ level, Passes w (d + 1) (d + 1) (operand level)) (least : Nat) (left : Expr) :
    Steps w (d + 1) (operation operand least left) := by
  refine fun i => .kind fun k => ?_
  split
  · rename_i op level hop
    have hflat : k.isFlat := by
      cases k <;> first | rfl | cases hop
    split
    · exact .pure fun _ hj => hj.toIn
    · refine .skipFlatMoving hflat ?_
      exact (hoperand _ (i + 1)).bind fun _ => .pure fun _ hj => hj
  · exact .pure fun _ hj => hj.toIn

theorem binary (levels least : Nat) : Passes w (d + 1) (d + 1) (g.binary levels least) := by
  induction levels generalizing least with
  | zero => exact hg.rule_unary
  | succ levels ih => exact hg.rule_unary.bind fun _ => .iterate (operation ih least) _

theorem conditional : Passes w (d + 1) (d + 1) g.conditional := by
  refine (hg.binary _ _).bind fun condition => (Passes.accept rfl).bind fun choice => ?_
  split
  · exact hg.commaExpression.bind fun _ => (Passes.skipOver (by decide) _).bind fun _ =>
      (hg.assignment d).bind fun _ => .pure _
  · exact .pure _

theorem rule_assignment : Passes w (d + 1) (d + 1) g.assignment := by
  refine hg.conditional.bind fun target => fun i => .kind fun k => ?_
  split
  · exact .pure fun _ hj => hj.toIn
  · rename_i op hop
    have hflat : k.isFlat := by
      cases k <;> first | rfl | cases hop
    exact .skipFlat hflat (.checkInside (((hg.assignment d).bind fun _ => .pure _) i))

end

/-- What a grammar reads does not get past the parentheses if that holds of what it reads one
    construct deeper. -/
theorem ofDepth (depth : Nat) : (Grammar.ofDepth depth).PassesInside w := by
  induction depth with
  | zero =>
    have hdeep {α : Type} (r : Nonterminal α) (d : Nat) :
        Passes w d d ((Grammar.ofDepth 0).parse r) :=
      fun _ => .settings fun _ => .peek fun _ => .throw _
    exact
      { assignment := fun _ => hdeep _ _
        unary := fun _ => hdeep _ _ }
  | succ depth ih =>
    exact
      { assignment := fun _ => ih.rule_assignment.nested
        unary := fun _ => ih.rule_unary.nested }

end Grammar.PassesInside

end CTree
