import CTree.Proofs.Opaque.Confined

/-!
# Type names before the brace

No part of a type name takes a brace, and every part leaves as many parentheses open as it finds.
-/

namespace CTree

open Parse

variable {α β : Type} {w : SameHead} {d i n m : Nat} {k : TokenKind}

/-! ### Kinds -/

namespace TokenKind

theorem ne_lbrace_of_isFlat (h : k.isFlat) : k ≠ .lbrace := by
  rintro rfl
  cases h

theorem nest_of_isFlat (h : k.isFlat) (d : Nat) : k.nest d = d := by
  cases k <;> first | rfl | cases h

theorem nest_of_ne (hopen : k ≠ .lparen) (hclose : k ≠ .rparen) (d : Nat) : k.nest d = d := by
  cases k <;> first | rfl | exact (hopen rfl).elim | exact (hclose rfl).elim

theorem isFlat_of_isBuiltinType (h : k.isBuiltinType) : k.isFlat := by
  cases k <;> first | rfl | cases h

end TokenKind

theorem View.isFlat_of_isQualifier (h : View.isQualifier k) : k.isFlat := by
  cases k <;> first | rfl | cases h

theorem Parse.isFlat_of_isTypeSuffix (h : isTypeSuffix k) : k.isFlat := by
  cases k <;> first | rfl | cases h

namespace ArgumentNesting

variable {inside inside' : ArgumentNesting}

/-- Only outside of all parentheses the last argument ends. -/
theorem step_close {extra : String} (h : inside.step k = .close extra) :
    k.isFlat ∧ inside.parens = 0 := by
  unfold step at h
  split at h
  any_goals split at h
  all_goals first
    | exact ⟨rfl, ‹_›⟩
    | cases h

/-- Only outside of all parentheses an argument ends. -/
theorem step_cut (h : inside.step k = .cut) : k.isFlat ∧ inside.parens = 0 := by
  unfold step at h
  split at h
  any_goals split at h
  all_goals first
    | exact ⟨rfl, ‹_›⟩
    | cases h

theorem parens_of_step_take (h : inside.step k = .take inside') (hk : k.isFlat) :
    inside'.parens = inside.parens := by
  unfold step at h
  split at h
  any_goals split at h
  any_goals split at h
  all_goals first
    | (cases hk; done)
    | (cases h; rfl)
    | cases h

/-- What is taken opens and closes the parentheses that it seems to. -/
theorem step_take (h : inside.step k = .take inside') (hopen : k ≠ .lbracket)
    (hclose : k ≠ .rbracket) (d : Nat) :
    k ≠ .lbrace ∧ k.nest (d + inside.parens) = d + inside'.parens := by
  by_cases hk : k.isFlat
  · refine ⟨TokenKind.ne_lbrace_of_isFlat hk, ?_⟩
    rw [TokenKind.nest_of_isFlat hk, parens_of_step_take h hk]
  · obtain ⟨angles, parens⟩ := inside
    cases k with
    | lparen =>
      cases h
      exact ⟨nofun, rfl⟩
    | rparen =>
      cases parens with
      | zero => cases h
      | succ parens =>
        cases h
        exact ⟨nofun, rfl⟩
    | lbracket => exact (hopen rfl).elim
    | rbracket => exact (hclose rfl).elim
    | lbrace | rbrace | semicolon | eof => cases h
    | _ => exact (hk rfl).elim

end ArgumentNesting

/-! ### Tokens of a class -/

namespace Confined

variable {P : Nat → Prop} {R : β → Nat → Prop}

/-- Inside parentheses no brace stands. -/
theorem inside {p q : Parse α} {Q : α → Nat → Prop}
    (h : k ≠ .lbrace → Confined w (w.At (d + 1) i k) p q Q) :
    Confined w (w.At (d + 1) i k) p q Q := by
  by_cases hk : k = .lbrace
  · exact vacuous fun j hj => hj.within.ne_lbrace (hj.kind.trans hk)
  · exact h hk

/-- The text up to a token that is known. -/
theorem textHere {f f' : String → Parse β} (start : Nat)
    (hf : ∀ x, Confined w (w.At d i k) (f x) (f' x) R) :
    Confined w (w.At d i k) (Parse.textSince start >>= f) (Parse.textSince start >>= f') R := by
  refine looking (y := fun source s => Token.join (source.stream.between start s.cursor.position))
    (fun _ _ => rfl) (fun {s} hs => ?_) hf
  rw [w.between_eq start hs.within.le]

/-- What has no place in a head does not stand there. -/
theorem absent {p q : Parse α} {Q : α → Nat → Prop}
    (hk : k = .rbrace ∨ k = .lbracket ∨ k = .rbracket ∨ k = .semicolon ∨ k = .eof) :
    Confined w (w.At d i k) p q Q :=
  vacuous fun _ hj => hj.within.kind_ne hk hj.kind

/-- A token that has no place in a head is not taken. -/
theorem acceptAbsent {f f' : Bool → Parse β}
    (hk : k = .rbrace ∨ k = .lbracket ∨ k = .rbracket ∨ k = .semicolon ∨ k = .eof)
    (hf : Confined w (w.In d i) (f false) (f' false) R) :
    Confined w (w.In d i) (Parse.accept k >>= f) (Parse.accept k >>= f') R := by
  unfold Parse.accept
  rw [bind_assoc, bind_assoc]
  refine check (absent hk) ?_
  rwa [if_neg Bool.false_ne_true, pure_bind, pure_bind]

/-- Inside parentheses no brace is seen. -/
theorem checkInside {f f' : Bool → Parse β}
    (hf : Confined w (w.In (d + 1) i) (f false) (f' false) R) :
    Confined w (w.In (d + 1) i) (Parse.check .lbrace >>= f) (Parse.check .lbrace >>= f') R :=
  check (inside fun hk => (hk rfl).elim) hf

/-- Taking a token that is no parenthesis and no brace, with a note that it was taken. -/
theorem skipFlatMoving {f f' : Unit → Parse β} (hk : k.isFlat)
    (hf : Confined w (w.In d (i + 1)) (f ()) (f' ()) R) :
    Confined w (w.At d i k) (Parse.skip >>= f) (Parse.skip >>= f') R := by
  refine skipMoving (TokenKind.ne_lbrace_of_isFlat hk) ?_
  rwa [TokenKind.nest_of_isFlat hk]

theorem skipFlat {f f' : Unit → Parse β} (hk : k.isFlat)
    (hf : Confined w (w.In d i) (f ()) (f' ()) R) :
    Confined w (w.At d i k) (Parse.skip >>= f) (Parse.skip >>= f') R :=
  skipFlatMoving hk (hf.before fun _ hj => hj.weaken)

theorem takeFlat {f f' : Token → Parse β} (hk : k.isFlat)
    (hf : ∀ t, w.HasToken t → Confined w (w.In d i) (f t) (f' t) R) :
    Confined w (w.At d i k) (Parse.advance >>= f) (Parse.advance >>= f') R := by
  refine take (TokenKind.ne_lbrace_of_isFlat hk) fun t ht _ => ?_
  rw [TokenKind.nest_of_isFlat hk]
  exact hf t ht

/-- Taking a token of which it is only known that it is no parenthesis and no brace. -/
theorem skipFlatOf {f f' : Unit → Parse β}
    (hP : ∀ j, P j → w.In d i j ∧ (w.left.kindAt j).isFlat)
    (hf : Confined w (w.In d (i + 1)) (f ()) (f' ()) R) :
    Confined w P (Parse.skip >>= f) (Parse.skip >>= f') R := by
  refine each fun j hj => ?_
  obtain ⟨hin, hflat⟩ := hP j hj
  exact ⟨w.At d i (w.left.kindAt j), ⟨hin, rfl⟩, skipFlatMoving hflat hf⟩

end Confined

theorem Passes.skipWhile {c : TokenKind → Bool} (hc : ∀ k, c k → k.isFlat) :
    Passes w d d (skipWhile c) := by
  refine .iterate (fun _ i => .kind fun k => ?_) ()
  split
  · rename_i hk
    exact .skipFlatMoving (hc k hk) (.pure fun _ hj => hj)
  · exact .pure fun _ hj => hj.toIn

/-! ### Groups in parentheses -/

/-- A group ends where its parentheses are closed. -/
theorem skipGroup_confined (fuel depth : Nat) :
    Confined w (w.In (d + (depth + 1)) i) (skipGroup .lparen .rparen fuel (depth + 1))
      (skipGroup .lparen .rparen fuel (depth + 1)) fun _ => w.In d i := by
  induction fuel generalizing depth with
  | zero => exact .settings fun _ => .exhaustion fun _ => .throw _
  | succ fuel ih =>
    unfold skipGroup
    refine .kind fun k => ?_
    split
    · exact .here (.expected _)
    refine .inside fun hk => .skip hk ?_
    by_cases hopen : k = .lparen
    · subst hopen
      exact ih (depth + 1)
    · by_cases hclose : k = .rparen
      · subst hclose
        rw [if_neg (by decide), if_pos (by decide)]
        cases depth with
        | zero => exact .pure fun _ hj => hj
        | succ depth => exact ih depth
      · rw [TokenKind.nest_of_ne hopen hclose, if_neg (by simpa using hopen),
          if_neg (by simpa using hclose)]
        exact ih depth

theorem Passes.skipBalanced : Passes w d d (skipBalanced .lparen .rparen) :=
  .bind (.skipOver (by decide) "") fun _ => fun _ => .settings fun _ => skipGroup_confined _ 0

/-! ### Specifiers -/

/-- A specifier is one token, and the token after it matters only where there is one. -/
theorem SameHead.specifier?_eq {s : ParseState} (h : w.In d i s.cursor.position)
    (specs : Specifiers) :
    (w.right.view s).specifier? specs = (w.left.view s).specifier? specs := by
  have hkind : (w.right.view s).kind 0 = (w.left.view s).kind 0 := w.kind_eq h.within.le
  have htoken : (w.right.view s).token 0 = (w.left.view s).token 0 := w.token_eq h.within.le
  have hnext (hk : (w.left.view s).kind 0 ≠ .lbrace) :
      (w.right.view s).kind 1 = (w.left.view s).kind 1 :=
    w.kind_eq (h.within.lt hk)
  unfold View.specifier?
  rw [hkind, htoken]
  generalize (w.left.view s).kind 0 = k at hnext
  cases k <;> first | rfl | rw [hnext nofun]

theorem View.isFlat_of_specifier? {v : View} {specs specs' : Specifiers}
    (h : v.specifier? specs = some specs') : (v.kind 0).isFlat := by
  unfold specifier? at h
  generalize v.kind 0 = k at h
  cases k <;> first | rfl | cases h

namespace Passes

theorem specifiers : Passes w d d specifiers := by
  refine .iterate (fun specs i => .view (fun {s} hs => ?_) fun v => ?_) _
  · simp only [w.specifier?_eq hs]
  · split
    · rename_i specs' hspecs
      refine .skipFlatOf ?_ (.pure fun _ hj => hj)
      rintro j ⟨hj, s, rfl, rfl⟩
      exact ⟨hj, View.isFlat_of_specifier? hspecs⟩
    · exact .pure fun _ hj => hj.1

end Passes

/-! ### Template arguments -/

/-- The arguments end where all parentheses in them are closed. -/
theorem argumentsFrom_confined (start : Nat) (inside : ArgumentNesting) (hn : w.stop - i < n)
    (hm : w.stop - i < m) :
    Confined w (w.In (d + inside.parens) i) (argumentsFrom start inside n)
      (argumentsFrom start inside m) fun _ => w.In d i := by
  induction n generalizing m i start inside with
  | zero => exact (Nat.not_lt_zero _ hn).elim
  | succ n ih =>
    obtain ⟨m, rfl⟩ : ∃ m', m = m' + 1 := ⟨m - 1, by omega⟩
    have hrest (start : Nat) (inside : ArgumentNesting) :
        Confined w (w.In (d + inside.parens) (i + 1)) (argumentsFrom start inside n)
          (argumentsFrom start inside m) fun _ => w.In d (i + 1) :=
      .nextRound hn hm fun hn hm => ih start inside hn hm
    unfold argumentsFrom
    refine .kind fun k => ?_
    cases hstep : inside.step k with
    | fail => exact .here (.expected _)
    | close extra =>
      obtain ⟨hflat, hparens⟩ := inside.step_close hstep
      rw [hparens]
      exact .textHere start fun text => .skipFlat hflat (.pure fun _ hj => hj)
    | cut =>
      obtain ⟨hflat, hparens⟩ := inside.step_cut hstep
      refine .textHere start fun text => .skipFlatMoving hflat (.position fun start => ?_)
      exact (hrest start inside).bind fun rest => .pure fun _ hj => hj.weaken
    | take inside' =>
      by_cases hbracket : k = .lbracket ∨ k = .rbracket
      · exact .absent (by rcases hbracket with rfl | rfl <;> simp)
      · obtain ⟨hk, hnest⟩ := inside.step_take hstep (fun h => hbracket (.inl h))
          (fun h => hbracket (.inr h)) d
        refine .skipMoving hk ?_
        rw [hnest]
        exact (hrest start inside').weaken (fun _ hj => hj) fun _ _ hj => hj.weaken

namespace Passes

theorem templateArguments : Passes w d d templateArguments := by
  refine .bind (.skipOver (by decide) _) fun _ => fun i => .position fun start => ?_
  have harguments : Passes w d d (Parse.view >>= fun v => argumentsFrom start {} v.remaining) :=
    fun _ => .fuelled 0 fun _ _ _ hn hm => argumentsFrom_confined start {} hn hm
  rw [← bind_assoc]
  refine (harguments i).bind fun arguments => ?_
  split
  · exact .pure fun _ hj => hj
  · exact .pure fun _ hj => hj

/-! ### Paths -/

theorem globalScope : Passes w d d globalScope := by
  refine .bind (.accept rfl) fun global => ?_
  split
  · exact .pure _
  · exact .pure _

end Passes

theorem Steps.plainSegment (path : TypePath) : Steps w d (plainSegment path) := by
  refine fun i => .checkTwo (by decide) ?_ (.pure fun _ hj => hj)
  exact .skipTo (by decide) (.take (by decide) fun t _ _ => .pure fun _ hj => hj)

theorem Steps.nameSegment (path : String) : Steps w d (nameSegment path) := by
  refine fun i => .checkTwo (by decide) ?_ (.pure fun _ hj => hj)
  exact .skipTo (by decide) (.take (by decide) fun t _ _ => .pure fun _ hj => hj)

theorem Steps.typeSegment (path : TypePath) : Steps w d (typeSegment path) := by
  refine fun i => .isCpp fun cpp => .check ?_ ?_
  · split
    · exact .here ((Passes.templateArguments.speculate i).bind fun _ => plainSegment path i)
    · exact .here (plainSegment path i)
  · rw [if_neg (by simp)]
    exact plainSegment path i

namespace Passes

theorem qualifiedName : Passes w d d qualifiedName := by
  have hpath (scope : String) : Passes w d d (do Parse.iterate nameSegment (scope ++ (← Parse.name))) :=
    (name _).bind fun first => .iterate .nameSegment _
  refine fun i => .isCpp fun cpp => ?_
  split
  · exact globalScope.bind hpath i
  · exact hpath "" i

theorem typePath : Passes w d d typePath :=
  globalScope.bind fun _ => (name _).bind fun _ => .iterate .typeSegment _

theorem namedType : Passes w d d namedType := by
  refine typePath.bind fun path => fun i => .viewing (fun {s} hs => ?_) fun v => ?_
  · have haccepts : (w.right.view s).accepts path = (w.left.view s).accepts path := by
      unfold View.accepts
      rw [w.isCpp_eq]
      rfl
    simp only [haccepts]
  · split
    · exact .pure fun _ hj => hj
    · exact .unexpected _

theorem bareCore : Passes w d d bareCore := by
  have hpath : Passes w d d (Parse.typePath >>= fun _ => pure ()) := typePath.bind fun _ => .pure ()
  refine fun i => .kind fun k => ?_
  split
  · exact .skip (by decide) (hpath i)
  · exact .skip (by decide) (hpath i)
  · exact .skip (by decide) (hpath i)
  · exact .skip (by decide) (hpath i)
  · exact .skip (by decide) (hpath i)
  · exact .skip (by decide) (skipBalanced i)
  · exact .here (namedType i)
  · exact .here (namedType i)
  · split
    · exact .here (skipWhile (fun _ => TokenKind.isFlat_of_isBuiltinType) i)
    · exact .here (.expected _)

theorem typeCore : Passes w d d typeCore := by
  have hqualifiers : Passes w d d (Parse.skipWhile View.isQualifier) :=
    skipWhile fun _ => View.isFlat_of_isQualifier
  exact hqualifiers.bind fun _ => bareCore.bind fun _ => hqualifiers

theorem typeName : Passes w d d typeName := by
  refine fun i => .position fun start => (typeCore.bind fun _ => ?_) i
  exact (skipWhile fun _ => isFlat_of_isTypeSuffix).bind fun _ => textSince start

end Passes

end CTree
