import CTree.Parse.Template
import CTree.Proofs.Opaque.Parameter

/-!
# Heads of templates

What is read of a template before its body: the parameters, the text of the head, and the declaration that
the head shows. An alias goes on up to its `;`, and so it is the one head that does not end at the brace.
-/

namespace CTree

open Parse

variable {α β : Type} {w : SameHead} {d i n m : Nat} {k : TokenKind}

/-! ### Defaults -/

namespace ArgumentNesting

variable {inside inside' : ArgumentNesting}

/-- Only outside of all parentheses a default ends. -/
theorem defaultStep_stop (h : inside.defaultStep k = .stop) : inside.parens = 0 := by
  unfold defaultStep at h
  split at h
  any_goals split at h
  any_goals cases h
  all_goals
    rename_i hzero
    exact of_decide_eq_true (Bool.and_eq_true_iff.1 hzero).2

/-- What is taken opens and closes the parentheses that it seems to. -/
theorem defaultStep_take (h : inside.defaultStep k = .take inside') (d : Nat) :
    k ≠ .lbrace ∧ k.nest (d + inside.parens) = d + inside'.parens := by
  cases k with
  | rparen =>
    simp only [defaultStep] at h
    split at h
    · rename_i hpos
      cases h
      exact ⟨nofun, Nat.add_sub_assoc hpos d⟩
    · cases h
  | comma | gt | shr =>
    simp only [defaultStep] at h
    split at h <;> first
      | (cases h
         exact ⟨nofun, rfl⟩)
      | cases h
  | lbrace | rbrace | semicolon | eof => cases h
  | _ =>
    cases h
    exact ⟨nofun, rfl⟩

end ArgumentNesting

/-- A default ends where its parentheses are closed, before the token that follows it. -/
theorem skipDefault_confined (inside : ArgumentNesting) (hn : w.stop - i < n)
    (hm : w.stop - i < m) :
    Confined w (w.In (d + inside.parens) i) (skipDefault n inside) (skipDefault m inside)
      fun _ => w.In d i := by
  induction n generalizing m i inside with
  | zero => exact (Nat.not_lt_zero _ hn).elim
  | succ n ih =>
    obtain ⟨m, rfl⟩ : ∃ m', m = m' + 1 := ⟨m - 1, by omega⟩
    unfold skipDefault
    refine .kind fun k => ?_
    cases hstep : inside.defaultStep k with
    | fail => exact .here (.expected _)
    | stop =>
      rw [inside.defaultStep_stop hstep]
      exact .pure fun _ hj => hj.toIn
    | take inside' =>
      obtain ⟨hk, hnest⟩ := inside.defaultStep_take hstep d
      refine .skipMoving hk ?_
      rw [hnest]
      exact .nextRound hn hm fun hn hm =>
        (ih inside' hn hm).weaken (fun _ hj => hj) fun _ _ hj => hj.weaken

namespace Passes

theorem templateDefault : Passes w d d templateDefault := by
  refine fun i => .position fun start => ?_
  have hskip : Passes w d d (Parse.view >>= fun v => skipDefault (v.remaining + 1) ⟨0, 0⟩) :=
    fun _ => .fuelled 1 fun _ _ _ hn hm => skipDefault_confined ⟨0, 0⟩ hn hm
  rw [← bind_assoc]
  refine (hskip i).bind fun _ => .position fun stop => ?_
  split
  · exact ((Passes.expected _).bind fun _ => textSince start) i
  · exact textSince start i

/-! ### Parameters -/

theorem templateParameterKind : Passes w d d templateParameterKind := by
  refine fun i => .kind fun k => ?_
  split
  · exact .take (by decide) fun t _ _ => .pure fun _ hj => hj
  · exact .take (by decide) fun t _ _ => .pure fun _ hj => hj
  · refine .skip (by decide) (templateArguments.bind (fun _ => fun i => .kind fun k => ?_) i)
    split
    · exact .skip (by decide) (.pure fun _ hj => hj)
    · exact .skip (by decide) (.pure fun _ hj => hj)
    · exact .here (.expected _)
  · exact .here (typeName.leniently i)

theorem templateParameter : Passes w d d templateParameter :=
  templateParameterKind.bind fun _ => (accept rfl).bind fun _ => nameOrNone.bind fun _ =>
    (optionalAfter rfl templateDefault).bind fun _ => .pure _

theorem strictTemplateParameters : Passes w d d strictTemplateParameters := by
  refine (skipOver (by decide) _).bind fun _ => (accept rfl).bind fun none => ?_
  split
  · exact .pure _
  · exact (separated templateParameter).bind fun _ => (skipOver (by decide) _).bind fun _ => .pure _

theorem templateParameters : Passes w d d templateParameters := by
  refine fun i => .checking fun here => ?_
  split
  · refine strictTemplateParameters.speculate.bind (fun ps? => ?_) i
    cases ps? with
    | some ps => exact .pure ps
    | none => exact templateArguments.map
  · exact .pure fun _ hj => hj

/-! ### Classes -/

theorem baseMark (mark : Access × Bool) : Steps w d (baseMark mark) := by
  refine fun i => .kind fun k => ?_
  split
  · exact .skipMoving (by decide) (.pure fun _ hj => hj)
  · split
    · rename_i access haccess
      have hflat : k.isFlat := by
        cases k <;> first | rfl | cases haccess
      exact .skipFlatMoving hflat (.pure fun _ hj => hj)
    · exact .pure fun _ hj => hj.toIn

theorem baseClass (default : Access) : Passes w d d (baseClass default) :=
  (iterate baseMark _).bind fun _ => typeName.leniently.bind fun _ => (accept rfl).bind fun _ =>
    .pure _

theorem baseClasses (key : ClassKey) : Passes w d d (baseClasses key) := by
  refine (accept rfl).bind fun here => ?_
  split
  · exact separated (baseClass _)
  · exact .pure _

/-- The class that a head shows; its keyword is the current token. -/
theorem templateClass (hk : k.isFlat) :
    Confined w (w.At d i k) templateClass templateClass fun _ => w.In d i := by
  refine .takeFlat hk fun t _ => ?_
  refine ((name _).bind fun name => fun i => (Confined.register name).bind fun _ => ?_) i
  have hrest : Passes w d d (do
      let isForward ← Parse.check .semicolon
      return Decl.classType (.ofKey (.ofKind t.kind) name (← Parse.baseClasses (.ofKind t.kind)) []
        isForward)) :=
    fun i => .check (.absent (by simp)) ((baseClasses _).bind (fun _ => .pure _) i)
  refine .checking fun arguments => ?_
  split
  · exact (templateArguments.bind fun _ => hrest) i
  · exact hrest i

end Passes

/-! ### Declarations -/

namespace Grammar.PassesInside

variable {g : Grammar} (hg : g.PassesInside w)

include hg

theorem templateFunction : Passes w d d g.templateFunction :=
  Passes.specifiers.bind fun _ => Passes.typeName.bind fun _ => Passes.qualifiedName.bind fun _ =>
    hg.parameters.bind fun _ => Passes.functionQualifiers.bind fun _ => .pure _

/-- A head that is no alias. -/
theorem templateHead :
    Confined w (fun j => w.In d i j ∧ w.left.kindAt j ≠ .kwUsing) g.templateHead g.templateHead
      fun _ => w.In d i := by
  refine .look (y := fun source s => (source.view s).kind 0) (fun _ _ => rfl)
    (fun hs => w.kind_eq hs.1.within.le) fun k => ?_
  have hat : ∀ j, ((w.In d i j ∧ w.left.kindAt j ≠ .kwUsing) ∧
      ∃ s, s.cursor.position = j ∧ (w.left.view s).kind 0 = k) → w.At d i k j := by
    rintro j ⟨hj, s, rfl, hk⟩
    exact ⟨hj.1, hk⟩
  split
  · exact (Passes.templateClass rfl).before hat
  · exact (Passes.templateClass rfl).before hat
  · exact (Passes.templateClass rfl).before hat
  · refine .vacuous ?_
    rintro j ⟨hj, s, rfl, hk⟩
    exact hj.2 hk
  · exact (hg.templateFunction i).here.before hat

end Grammar.PassesInside

/-! ### The text of a head -/

/-- Where the tokens of a head end there is the brace. -/
theorem SameHead.Within.eq_stop (h : w.Within 0 i) (hk : w.left.kindAt i = .lbrace) :
    i = w.stop := by
  cases h with
  | brace => rfl
  | opening hopen => cases hk.symm.trans hopen
  | flat hflat =>
    rw [hk] at hflat
    cases hflat

/-- Either the brace is found, or the search ends somewhere before it. -/
theorem skipToBody_confined (fuel parens : Nat) :
    Confined w (w.In parens i) (skipToBody fuel parens) (skipToBody fuel parens)
      fun found j => if found then w.In 0 w.stop j else ∃ d, w.In d i j := by
  induction fuel generalizing parens with
  | zero => exact .pure fun _ hj => ⟨parens, hj⟩
  | succ fuel ih =>
    unfold skipToBody
    refine .kind fun k => ?_
    split
    · exact .absent (by simp)
    · refine .pure fun j hj => ?_
      have hstop := hj.within.eq_stop hj.kind
      exact ⟨hj.within, Nat.le_of_eq hstop.symm⟩
    · exact .absent (by simp)
    · exact .skip (by decide) (ih _)
    · exact .skip (by decide) (ih _)
    · rename_i hopen hclose hbrace _
      have hrest (hk : k ≠ .lbrace) : Confined w (w.At parens i k)
          (Parse.skip >>= fun _ => skipToBody fuel parens)
          (Parse.skip >>= fun _ => skipToBody fuel parens)
          fun found j => if found then w.In 0 w.stop j else ∃ d, w.In d i j :=
        .skip hk (by
          rw [TokenKind.nest_of_ne hopen hclose]
          exact ih parens)
      cases parens with
      | zero => exact hrest fun hk => hbrace hk rfl
      | succ parens => exact .inside hrest

/-- The text of a head goes up to the brace. -/
theorem headText_confined :
    Confined w (w.In 0 i) headText headText fun _ => w.In 0 w.stop := by
  refine .position fun start => .settings fun settings =>
    (skipToBody_confined _ 0).bind fun found => ?_
  cases found with
  | true => exact .textSince start
  | false =>
    refine .each fun j hj => ?_
    obtain ⟨d, hd⟩ := hj
    refine ⟨w.In d i, hd, .exhaustion fun e => ?_⟩
    exact (Confined.throw (Q := fun _ => w.In 0 w.stop) e).bind fun _ => .textSince start

namespace Grammar

/-- Takes the head of a template; its text, and the declaration that it shows. -/
def readHead (g : Grammar) : Parse (String × Option Decl) :=
  rereading headText (speculate (leniently g.templateHead))

/-- A head that is no alias is read without a look past the brace, and ends there. -/
theorem PassesInside.readHead {g : Grammar} (hg : g.PassesInside w) :
    Confined w (fun j => w.In 0 i j ∧ w.left.kindAt j ≠ .kwUsing) g.readHead g.readHead
      fun _ => w.In 0 w.stop := by
  have hdeclaration : Confined w (fun j => w.In 0 i j ∧ w.left.kindAt j ≠ .kwUsing)
      (speculate (leniently g.templateHead)) (speculate (leniently g.templateHead))
      fun _ _ => True :=
    (hg.templateHead.withLeniency true).speculate.weaken (fun _ hj => hj) fun _ _ _ => trivial
  exact (headText_confined.before fun _ hj => hj.1).rereading hdeclaration

end Grammar

end CTree
