import CTree.Proofs.Brackets.Arguments

/-!
# Type names around a closing pair

A type name takes the pair only with the arguments of a template, or within the parentheses of `decltype`.
So at rest it is read alike, and at rest it ends.
-/

namespace CTree

open Parse

variable {α β : Type} {w : SplitAngles} {k : TokenKind}

namespace Brackets

theorem isPlain_of_isBuiltinType (h : k.isBuiltinType = true) : isPlain k = true := by
  cases k <;> first | rfl | cases h

theorem isPlain_of_isQualifier (h : View.isQualifier k = true) : isPlain k = true := by
  cases k <;> first | rfl | cases h

theorem isPlain_of_isTypeSuffix (h : isTypeSuffix k = true) : isPlain k = true := by
  cases k <;> first | rfl | cases h

end Brackets

namespace SplitAngles

namespace Agrees

variable {m : β → Prop} {p q : Parse β}

/-- A look at two tokens, of which the second is no closing angle. -/
theorem checkTwo {k' : TokenKind} (hk' : k' ≠ .gt ∧ k' ≠ .shr)
    (htrue : w.Agrees (fun s => (w.left.view s).kind 0 = k ∧ (w.left.view s).kind 1 = k') m p)
    (hfalse : w.Agrees anywhere m q) :
    w.Agrees anywhere m
      (Parse.check k >>= fun x => Parse.checkAhead 1 k' >>= fun y => if x && y then p else q) := by
  intro s hs _
  have hne := Rests.ne_place hs
  have hnext : ((w.right.view (w.shifted s)).kind 1 == k') = ((w.left.view s).kind 1 == k') := by
    rw [Bool.eq_iff_iff, beq_iff_eq, beq_iff_eq, kindAhead_iff hne hk']
  rw [run_bind_ok (run_check k), run_bind_ok (run_checkAhead 1 k'), run_bind_ok (run_check k),
    run_bind_ok (run_checkAhead 1 k'), kind_eq hne, hnext]
  split
  · rename_i h
    exact htrue s hs (by simpa using h)
  · exact hfalse s hs trivial

/-- Taking a token before one of a known kind. -/
theorem skipTo {k' : TokenKind} (hplain : Brackets.isPlain k = true)
    (hp : w.Agrees (w.left.At k') never p) :
    w.Agrees (fun s => (w.left.view s).kind 0 = k ∧ (w.left.view s).kind 1 = k') m
      (Parse.skip >>= fun _ => p) := by
  intro s hs hk
  have hne := Rests.ne_place hs
  have hend := Brackets.ne_eof_of_isPlain hplain
  rw [run_bind_ok (run_skip_of_token (hk.1 ▸ hend)),
    run_bind_ok (run_skip_of_token ((kind_eq hne).trans hk.1 ▸ hend)), ← shifted_after hne]
  exact (hp (s.after 1) (Rests.next hs hk.1 hplain) hk.2).weaken fun _ _ _ ht =>
    ⟨ht.same, ht.rests, Nat.le_of_succ_le ht.le, fun _ => ht.le⟩

theorem plainSegment (path : TypePath) : w.Agrees anywhere present (plainSegment path) := by
  refine .checkTwo (by decide) ?_ (.pure none nofun)
  exact .skipTo (by decide) (.takeText (f := fun text =>
    pure (some { path with plain := path.plain ++ "::" ++ text })) (by decide) fun text => .pure _ nofun)

theorem typeSegment (path : TypePath) : w.Agrees anywhere present (typeSegment path) := by
  refine .isCpp fun cpp => .check ?_ ?_
  · split
    · exact .attemptArguments (plainSegment path)
    · exact (plainSegment path).fromAnywhere
  · rw [if_neg (by simp)]
    exact plainSegment path

theorem globalScope : w.Agrees anywhere never globalScope := by
  refine (Agrees.still (accept (by decide))).bind fun global => ?_
  split
  · exact .pure _ nofun
  · exact .pure _ nofun

theorem typePath : w.Agrees anywhere never typePath :=
  globalScope.bind fun _ => (name _).still.bind fun _ => iterate typeSegment _

theorem namedType : w.Agrees anywhere never namedType := by
  refine typePath.bind fun path s hs _ => ?_
  have haccepts : (w.right.view (w.shifted s)).accepts path = (w.left.view s).accepts path := by
    have hcpp : (w.right.view (w.shifted s)).isCpp = (w.left.view s).isCpp := by
      show (w.right.settings.dialect == .cpp) = (w.left.settings.dialect == .cpp)
      rw [w.settings]
    unfold View.accepts
    rw [hcpp]
    rfl
  rw [run_bind_ok run_view, run_bind_ok run_view, haccepts]
  split
  · exact Agrees.pure (P := anywhere) () nofun s hs trivial
  · exact Agrees.unexpected (P := anywhere) _ s hs trivial

theorem bareCore : w.Agrees anywhere never bareCore := by
  have hkeyword {k : TokenKind} (hk : Brackets.isPlain k = true) : w.Agrees (w.left.At k) never
      (Parse.skip >>= fun _ => Parse.typePath >>= fun _ => pure ()) :=
    (skip hk).still.bind fun _ => typePath.bind fun _ => .pure () nofun
  refine .kind fun k => ?_
  split
  · exact hkeyword rfl
  · exact hkeyword rfl
  · exact hkeyword rfl
  · exact hkeyword rfl
  · exact hkeyword rfl
  · exact (skip rfl).still.bind fun _ => skipBalanced
  · exact namedType.fromAnywhere
  · exact namedType.fromAnywhere
  · split
    · exact (skipWhile fun _ => Brackets.isPlain_of_isBuiltinType).fromAnywhere
    · exact .expected _

theorem typeCore : w.Agrees anywhere never typeCore := by
  have hqualifiers : w.Agrees anywhere never (Parse.skipWhile View.isQualifier) :=
    skipWhile fun _ => Brackets.isPlain_of_isQualifier
  exact hqualifiers.bind fun _ => bareCore.bind fun _ => hqualifiers

theorem typeName : w.Agrees anywhere never typeName := by
  have htype : w.Agrees anywhere never (Parse.typeCore >>= fun _ => Parse.skipWhile isTypeSuffix) :=
    typeCore.bind fun _ => skipWhile fun _ => Brackets.isPlain_of_isTypeSuffix
  have htext := htype.textOf
  simp only [bind_assoc] at htext
  exact htext

end Agrees

end SplitAngles

end CTree
