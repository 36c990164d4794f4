import CTree.Proofs.Opaque.Expression

/-!
# Parameters before the brace

The parameters of a function, and the qualifiers after them. The default of a parameter is an expression in
parentheses: those of the list.
-/

namespace CTree

open Parse

variable {α β : Type} {w : SameHead} {d i n m : Nat} {k : TokenKind}

/-! ### Parameters of functions -/

namespace Confined

variable {R : β → Nat → Prop}

/-- Taking a token of a known kind and the group in parentheses after it. -/
theorem skipWithGroup (hk : k.isFlat) : Confined w (w.At d i k) Parse.skipWithGroup
    Parse.skipWithGroup fun _ => w.In d (i + 1) := by
  refine .skipFlatMoving hk (.check ?_ (.pure fun _ hj => hj))
  exact .here (Passes.skipBalanced (i + 1))

/-- Taking two tokens that are no parentheses and no braces. -/
theorem skipTwoFlat {P : Nat → Prop} {f f' : Unit → Parse β}
    (hP : ∀ j, P j → w.At d i k j ∧ k.isFlat ∧ (w.left.kindAt (j + 1)).isFlat)
    (hf : Confined w (w.In d (i + 1)) (f ()) (f' ()) R) :
    Confined w P (Parse.skip >>= fun _ => Parse.skip >>= f)
      (Parse.skip >>= fun _ => Parse.skip >>= f') R := by
  refine each fun j hj => ?_
  obtain ⟨hhere, hflat, hnext⟩ := hP j hj
  refine ⟨fun j' => w.At d i k j' ∧ w.left.kindAt (j' + 1) = w.left.kindAt (j + 1), ⟨hhere, rfl⟩, ?_⟩
  refine .skipTo (TokenKind.ne_lbrace_of_isFlat hflat) ?_
  rw [TokenKind.nest_of_isFlat hflat]
  exact .skipFlat hnext hf

end Confined

namespace Passes

theorem declaredName {inPointer plain : Parse String} (hpointer : Passes w (d + 1) (d + 1) inPointer)
    (hplain : Passes w d d plain) : Passes w d d (Parse.declaredName inPointer plain) := by
  unfold Parse.declaredName Parse.atFunctionPointer
  simp only [bind_assoc, pure_bind]
  refine fun i => .checkTwo (by decide) ?_ ((hplain.bind fun _ => .pure _) i)
  refine .skipTo (by decide) (.skip (by decide) ?_)
  have hrest : Passes w (d + 1) d (do
      let name ← inPointer
      Parse.skipOver .rparen "after function pointer name"
      let start ← position
      Parse.skipBalanced .lparen .rparen
      return (name, " (*)" ++ (← Parse.textSince start))) :=
    hpointer.bind fun _ => (skipOver (by decide) _).bind fun _ => fun i => .position fun start =>
      (skipBalanced.bind fun _ => (textSince start).bind fun _ => .pure _) i
  exact (hrest (i + 1)).weaken (fun _ hj => hj) fun _ _ hj => hj.weaken

theorem bracketTexts (text : String) : Passes w d d (Parse.bracketTexts text) := by
  refine .iterate (fun text i => .check (.absent (.inr (.inl rfl))) ?_) text
  exact .pure fun _ hj => hj

end Passes

namespace Grammar.PassesInside

variable {g : Grammar} (hg : g.PassesInside w)

include hg

theorem typedParameter : Passes w (d + 1) (d + 1) g.typedParameter := by
  refine Passes.specifiers.bind fun _ => Passes.typeName.bind fun type =>
    (Passes.accept rfl).bind fun pack => ?_
  split
  all_goals
    refine (Passes.declaredName .nameOrNone .nameOrNone).bind fun name => ?_
    refine (Passes.bracketTexts _).bind fun type => ?_
    exact (Passes.optionalAfter rfl hg.expression).bind fun _ => .pure _

theorem parameter : Passes w (d + 1) (d + 1) g.parameter := by
  refine (Passes.accept rfl).bind fun pack => ?_
  split
  · exact .pure _
  · exact hg.typedParameter

theorem parameters : Passes w d d g.parameters := by
  refine (Passes.skipOver (by decide) _).bind fun _ => fun i => ?_
  refine .accept (by decide) (.pure fun _ hj => hj) (.checkTwo (by decide) ?_ ?_)
  · exact .skipTo (by decide) (.skip (by decide) (.pure fun _ hj => hj.weaken))
  · exact (Passes.separated hg.parameter).bind
      (fun _ => (Passes.skipOver (by decide) _).bind fun _ => .pure _) i

end Grammar.PassesInside

/-! ### Qualifiers -/

theorem SameHead.functionQualifier?_eq {s : ParseState} (h : w.In d i s.cursor.position)
    (q : FunctionQualifiers) :
    (w.right.view s).functionQualifier? q = (w.left.view s).functionQualifier? q := by
  have hkind : (w.right.view s).kind 0 = (w.left.view s).kind 0 := w.kind_eq h.within.le
  have hnext (hk : (w.left.view s).kind 0 ≠ .lbrace) :
      (w.right.view s).token 1 = (w.left.view s).token 1 :=
    w.token_eq (h.within.lt hk)
  unfold View.functionQualifier? View.kind
  unfold View.kind at hkind hnext
  rw [hkind]
  generalize ((w.left.view s).token 0).kind = k at hnext
  cases k <;> first | rfl | rw [hnext nofun]

/-- A qualifier of a function is one token or two, and these are no parentheses. -/
theorem View.isFlat_of_functionQualifier? {v : View} {q q' : FunctionQualifiers}
    (h : v.functionQualifier? q = some (n, q')) :
    (v.kind 0).isFlat ∧ (n ≠ 1 → (v.kind 1).isFlat) := by
  unfold functionQualifier? at h
  generalize v.kind 0 = k at h
  generalize hk' : v.kind 1 = k' at h
  cases k
  case assign =>
    refine ⟨rfl, fun _ => ?_⟩
    cases k' <;> first | rfl | cases h
  all_goals first
    | cases h; done
    | (cases h
       exact ⟨rfl, fun hn => (hn rfl).elim⟩)

theorem Steps.functionQualifier (q : FunctionQualifiers) : Steps w d (functionQualifier q) := by
  refine fun i => .kind fun k => ?_
  split
  · exact (Confined.skipWithGroup rfl).bind fun _ => .pure fun _ hj => hj
  · exact (Confined.skipWithGroup rfl).bind fun _ => .pure fun _ hj => hj
  · refine .isCpp fun cpp => ?_
    split
    · exact .skipMoving (by decide) ((Passes.typeName (i + 1)).bind fun _ => .pure fun _ hj => hj)
    · exact .pure fun _ hj => hj.toIn
  · refine .view (fun {s} hs => ?_) fun v => ?_
    · simp only [w.functionQualifier?_eq hs.toIn]
    · split
      · rename_i q' hq
        refine .skipFlatOf ?_ (.pure fun _ hj => hj)
        rintro j ⟨hj, s, rfl, rfl⟩
        exact ⟨hj.toIn, (View.isFlat_of_functionQualifier? hq).1⟩
      · rename_i n q' hn hq
        refine .skipTwoFlat (k := k) ?_ (.pure fun _ hj => hj)
        rintro j ⟨hj, s, rfl, rfl⟩
        obtain ⟨hflat, hnext⟩ := View.isFlat_of_functionQualifier? hq
        have hkind : (w.left.view s).kind 0 = k := hj.kind
        exact ⟨hj, hkind ▸ hflat, hnext fun h => hn (h ▸ rfl)⟩
      · exact .pure fun _ hj => hj.1.toIn

theorem Passes.functionQualifiers : Passes w d d functionQualifiers :=
  .iterate .functionQualifier _

end CTree
