import CTree.Proofs.Brackets.TypeName
import CTree.Proofs.Opaque.Template

/-!
# Parameter lists with a closing pair

Three scans read the parameters of a template: that of types, that of defaults and that of arguments, which
keeps as text what the others cannot read. Inside of the list each of them does at a `>>` what it does at
`> >`, so the parameters do not depend on how the pair is written.
-/

namespace CTree

open Parse Lexeme

/-! ### The angles that a scan of a default counts -/

/-- A default was begun, and the scan has counted all angles that are open but that of the list. Angles in
groups that are no brackets may be counted as well. -/
structure ArgumentNesting.Bounds (inside : ArgumentNesting) (b : Brackets) : Prop where
  defaulted : b.defaulted = true
  angles : b.angles ≤ inside.angles + 1

namespace ArgumentNesting

variable {inside inside' : ArgumentNesting} {b b' : Brackets} {k : TokenKind}

theorem Bounds.take (h : inside.Bounds b) (hstep : inside.defaultStep k = .take inside')
    (hnext : b.next k = some b') : inside'.Bounds b' := by
  have hdefaulted := Brackets.defaulted_of_next h.defaulted hnext
  refine ⟨hdefaulted, ?_⟩
  have hangles := h.angles
  cases k
  case gt =>
    simp only [defaultStep] at hstep
    split at hstep
    · cases hstep
    · cases hstep
      have hclosed := (Brackets.angles_of_close_defaulted h.defaulted hnext).2
      dsimp only
      omega
  case shr =>
    simp only [defaultStep] at hstep
    split at hstep
    · cases hstep
      obtain ⟨b'', hfirst, hsecond⟩ := Option.bind_eq_some_iff.1 hnext
      obtain ⟨hdefaulted', hclosed⟩ := Brackets.angles_of_close_defaulted h.defaulted hfirst
      have hclosed' := (Brackets.angles_of_close_defaulted hdefaulted' hsecond).2
      dsimp only
      omega
    · cases hstep
  case lt =>
    cases hstep
    cases hnext
    show (TokenKind.lt :: b.opened).count .lt ≤ _
    rw [List.count_cons_self]
    exact Nat.succ_le_succ hangles
  case lparen | lbracket =>
    cases hstep
    cases hnext
    exact hangles
  case rparen =>
    simp only [defaultStep] at hstep
    split at hstep
    · cases hstep
      exact Nat.le_trans (Brackets.angles_of_leave hnext) hangles
    · cases hstep
  case rbracket =>
    cases hstep
    exact Nat.le_trans (Brackets.angles_of_leave hnext) hangles
  case comma =>
    simp only [defaultStep] at hstep
    split at hstep
    · cases hstep
    · cases hstep
      cases hnext
      exact hangles
  all_goals first
    | (cases hstep; done)
    | (cases hstep; cases hnext; exact hangles)

/-- A default ends where no angle is open but that of the list. -/
theorem angles_of_step_stop (hstep : inside.defaultStep k = .stop) : inside.angles = 0 := by
  unfold defaultStep at hstep
  split at hstep
  any_goals split at hstep
  all_goals first
    | (cases hstep; done)
    | (rename_i h; exact (by simpa using h : _ ∧ _).1)

/-- Where two levels are left, a `>>` does what two `>` do. -/
theorem defaultStep_pair (h : 2 ≤ inside.angles) : ∃ first both, inside.defaultStep .shr = .take both ∧
    inside.defaultStep .gt = .take first ∧ first.defaultStep .gt = .take both := by
  obtain ⟨angles, parens⟩ := inside
  have h : 2 ≤ angles := h
  refine ⟨⟨angles - 1, parens⟩, ⟨angles - 2, parens⟩, if_pos h, ?_, ?_⟩
  · simp only [defaultStep]
    rw [if_neg (by simp; omega)]
  · simp only [defaultStep]
    rw [if_neg (by simp; omega)]
    rfl

end ArgumentNesting

namespace Parse

variable {source : Source} {s : ParseState} {inside inside' : ArgumentNesting} {fuel : Nat} {k : TokenKind}

theorem run_skipDefault_take (hk : (source.view s).kind 0 = k) (hstep : inside.defaultStep k = .take inside') :
    (skipDefault (fuel + 1) inside).run source s = (skipDefault fuel inside').run source (s.after 1) := by
  have heof : k ≠ .eof := by
    rintro rfl
    cases hstep
  rw [skipDefault, run_bind_ok run_kind, hk, hstep]
  exact run_bind_ok (run_skip_of_token (hk ▸ heof))

theorem run_skipDefault_stop (hk : (source.view s).kind 0 = k) (hstep : inside.defaultStep k = .stop) :
    (skipDefault (fuel + 1) inside).run source s = (.ok (), s) := by
  rw [skipDefault, run_bind_ok run_kind, hk, hstep]
  rfl

theorem run_skipDefault_fail (hk : (source.view s).kind 0 = k) (hstep : inside.defaultStep k = .fail) :
    (skipDefault (fuel + 1) inside).run source s =
      (Parse.expected "template parameter default" : Parse Unit).run source s := by
  rw [skipDefault, run_bind_ok run_kind, hk, hstep]

end Parse

namespace SplitAngles

variable {w : SplitAngles} {s : ParseState} {inside : ArgumentNesting}

/-- In both sources the scan of a default ends at the same place, at rest. -/
theorem alike_skipDefault {fuel fuel' : Nat} (h : w.Stands inside.Bounds s)
    (hfuel : (w.left.view s).remaining ≤ fuel) (hfuel' : (w.right.view (w.shifted s)).remaining ≤ fuel') :
    w.Alike (w.Arrives s never) ((skipDefault fuel inside).run w.left s)
      ((skipDefault fuel' inside).run w.right (w.shifted s)) := by
  refine Stands.scan_induction (C := ArgumentNesting.Bounds) (R := fun inside s fuel fuel' =>
    w.Alike (w.Arrives s never) ((skipDefault fuel inside).run w.left s)
      ((skipDefault fuel' inside).run w.right (w.shifted s))) ?pair ?token h hfuel hfuel'
  case pair =>
    intro inside s fuel fuel' hplace h ih
    obtain ⟨hbounds, hcloses⟩ := h.at_place hplace
    obtain ⟨hshr, hgt, hgt'⟩ := kinds_pair hplace
    have hangles : 2 ≤ inside.angles :=
      Nat.le_of_succ_le_succ (Nat.le_trans hcloses.2 hbounds.angles)
    obtain ⟨first, both, hboth, hfirst, hsecond⟩ := inside.defaultStep_pair hangles
    rw [run_skipDefault_take hshr hboth, run_skipDefault_take hgt hfirst,
      run_skipDefault_take hgt' hsecond, ← shifted_afterPair hplace]
    exact (ih both).weaken fun _ _ _ => Arrives.later
  case token =>
    intro inside s fuel fuel' hplace h ih
    have hkind := kind_eq hplace
    cases hstep : inside.defaultStep ((w.left.view s).kind 0) with
    | fail =>
      rw [run_skipDefault_fail rfl hstep, run_skipDefault_fail hkind hstep]
      exact .expected ..
    | stop =>
      rw [run_skipDefault_stop rfl hstep, run_skipDefault_stop hkind hstep]
      refine .value ⟨rfl, h.weaken fun b hb => ?_, Nat.le_refl _, nofun⟩
      have hangles := hb.angles
      rwa [ArgumentNesting.angles_of_step_stop hstep] at hangles
    | take inside' =>
      have hend : (w.left.view s).kind 0 ≠ .eof := by
        intro heof
        rw [heof] at hstep
        cases hstep
      rw [run_skipDefault_take rfl hstep, run_skipDefault_take hkind hstep, ← shifted_after hplace]
      have htake := h.next rfl hend fun b b' hb hnext => hb.take hstep hnext
      exact (ih inside' htake).weaken fun _ _ _ => Arrives.later

theorem shift_inj {i j : Nat} : w.shift i = w.shift j ↔ i = j := by
  unfold shift
  split <;> split <;> omega

/-- A default is the same text in both sources. -/
theorem alike_templateDefault (h : w.Stands (ArgumentNesting.Bounds ⟨0, 0⟩) s) :
    w.Alike (w.Arrives s never) (templateDefault.run w.left s)
      (templateDefault.run w.right (w.shifted s)) := by
  have hrests : w.Rests s := h.weaken fun b hb => hb.angles
  have hright := remaining_shifted w s
  unfold templateDefault
  rw [run_bind_ok run_position, run_bind_ok run_view, run_bind_ok run_position, run_bind_ok run_view]
  refine (alike_skipDefault h (Nat.le_succ _) (Nat.le_succ _)).bind fun _ _ t ht => ?_
  rw [run_bind_ok run_position, run_bind_ok run_position]
  dsimp only
  by_cases hempty : t.cursor.position = s.cursor.position
  · have hempty' : (w.shifted t).cursor.position = (w.shifted s).cursor.position :=
      congrArg w.shift hempty
    rw [if_pos (beq_iff_eq.2 hempty), if_pos (beq_iff_eq.2 hempty')]
    exact (Alike.expected (Q := fun _ _ _ => False) _ _ t).bind fun _ _ _ hfalse => hfalse.elim
  · have hempty' : (w.shifted t).cursor.position ≠ (w.shifted s).cursor.position :=
      fun heq => hempty (shift_inj.1 heq)
    have htext := join_between hrests.ne_place ht.rests.ne_place
    rw [if_neg (by simpa using hempty), if_neg (by simpa using hempty'), run_textSince, run_textSince]
    show w.Alike _ _ (.ok (Token.join (w.right.stream.between (w.shift _) (w.shift _))), _)
    rw [htext]
    exact .value ⟨rfl, ht.rests, ht.le, nofun⟩

/-! ### Parameters -/

namespace Agrees

/-- At rest an `=` begins a default. -/
theorem optionalDefault : w.Agrees anywhere never (optionalAfter .assign templateDefault) := by
  intro s hs _
  have hne := Rests.ne_place hs
  have hkind := kind_eq hne
  unfold optionalAfter
  by_cases hassign : (w.left.view s).kind 0 = .assign
  · have hnext : w.Stands (ArgumentNesting.Bounds ⟨0, 0⟩) (s.after 1) := by
      refine Stands.next hs hassign nofun fun b b' hb hnext => ?_
      cases hnext
      exact ⟨rfl, hb⟩
    rw [run_bind_ok (Consumes.accept hassign nofun),
      run_bind_ok (Consumes.accept (hkind.trans hassign) nofun), ← shifted_after hne, if_pos rfl,
      map_eq_bind]
    refine (alike_templateDefault hnext).bind fun x y t ht => ?_
    exact .value ⟨congrArg some ht.same, ht.rests, Nat.le_of_succ_le ht.le, nofun⟩
  · rw [run_bind_ok (run_accept_of_ne hassign), run_bind_ok (run_accept_of_ne (hkind ▸ hassign)),
      if_neg Bool.false_ne_true]
    exact .value ⟨rfl, hs, Nat.le_refl _, nofun⟩

theorem templateParameterKind : w.Agrees anywhere never templateParameterKind := by
  refine .kind fun k => ?_
  split
  · exact .takeText (f := pure) rfl fun text => .pure text nofun
  · exact .takeText (f := pure) rfl fun text => .pure text nofun
  · refine (skip rfl).still.bind fun _ => .arguments (.kind fun k => ?_)
    split
    · exact (skip rfl).still.bind fun _ => .pure _ nofun
    · exact (skip rfl).still.bind fun _ => .pure _ nofun
    · exact .expected _
  · exact (withLeniency true typeName).fromAnywhere

theorem templateParameter : w.Agrees anywhere never templateParameter :=
  templateParameterKind.bind fun _ => (accept rfl).still.bind fun _ => nameOrNone.bind fun _ =>
    optionalDefault.bind fun _ => .pure _ nofun

end Agrees

/-- The parameters of the list, as its grammar reads them. -/
theorem alike_strictTemplateParameters (h : s.cursor.position = w.opening) :
    w.Alike (fun ps qs _ => ps = qs) (strictTemplateParameters.run w.left s)
      (strictTemplateParameters.run w.right (w.shifted s)) := by
  obtain ⟨hne, hlt, hlist⟩ := stands_list h
  have hlt' : (w.right.view (w.shifted s)).kind 0 = .lt := (kind_eq hne).trans hlt
  have hrests : w.Rests (s.after 1) := hlist.weaken fun b hb => by
    rw [Brackets.angles, hb]
    decide
  have hkind := kind_eq hrests.ne_place
  unfold strictTemplateParameters
  rw [run_bind_ok (Consumes.skipOver hlt (by decide)), run_bind_ok (Consumes.skipOver hlt' (by decide)),
    ← shifted_after hne]
  by_cases hempty : (w.left.view (s.after 1)).kind 0 = .gt
  · rw [run_bind_ok (Consumes.accept hempty (by decide)),
      run_bind_ok (Consumes.accept (hkind.trans hempty) (by decide)), ← shifted_after hrests.ne_place]
    exact .value rfl
  · rw [run_bind_ok (run_accept_of_ne hempty), run_bind_ok (run_accept_of_ne (hkind ▸ hempty)),
      if_neg Bool.false_ne_true]
    refine (Agrees.separated .templateParameter _ hrests trivial).bind fun ps qs t ht => ?_
    have hne' := ht.rests.ne_place
    by_cases hclose : (w.left.view t).kind 0 = .gt
    · rw [run_bind_ok (Consumes.skipOver hclose (by decide)),
        run_bind_ok (Consumes.skipOver ((kind_eq hne').trans hclose) (by decide)), ← shifted_after hne']
      exact .value ht.same
    · exact .refuse hne' hclose

/-- The parameters of the list, or its text. -/
theorem alike_templateParameters (h : s.cursor.position = w.opening) :
    w.Alike (fun ps qs _ => ps = qs) (templateParameters.run w.left s)
      (templateParameters.run w.right (w.shifted s)) := by
  obtain ⟨hne, hlt, -⟩ := stands_list h
  have hlt' : (w.right.view (w.shifted s)).kind 0 = .lt := (kind_eq hne).trans hlt
  unfold templateParameters
  rw [run_bind_ok (run_check _), run_bind_ok (run_check _), hlt, hlt', beq_self_eq_true, if_pos rfl]
  have hstrict := (alike_strictTemplateParameters h).speculate
    (R := fun x y t => x = y ∧ (x = none → t.cursor.position = w.opening))
    (fun _ _ _ heq => ⟨congrArg some heq, nofun⟩) fun t ht => ⟨rfl, fun _ => ht.trans h⟩
  refine hstrict.bind fun x y t ht => ?_
  obtain ⟨rfl, hnone⟩ := ht
  cases x with
  | some ps => exact .value rfl
  | none =>
    refine (alike_templateArguments_list (hnone rfl)).bind fun xs ys u hu => ?_
    subst hu
    exact .value rfl

end SplitAngles

/-! ### Templates -/

namespace Grammar

/-- The parameters of a template are those that are read after its keyword. -/
theorem templateParameters_of_run {g : Grammar} {source : Source} {s t : ParseState}
    {ps : List TemplateParameter} {head : String} {d : Option Decl} (hend : (source.view s).kind 0 ≠ .eof)
    (hrun : g.template.run source s = (.ok (.template ps head d), t)) :
    (templateParameters.run source (s.after 1)).1.toOption = some ps := by
  rw [template_eq] at hrun
  obtain ⟨⟨qs, head', d'⟩, u, hfront, hrun⟩ := exists_of_run_bind hrun
  obtain ⟨-, v, -, hdone⟩ := exists_of_run_bind hrun
  cases hdone
  unfold templateFront at hfront
  rw [run_bind_ok (run_skip_of_token hend)] at hfront
  obtain ⟨qs, u, hparameters, hfront⟩ := exists_of_run_bind hfront
  obtain ⟨⟨head', d'⟩, v, -, hdone⟩ := exists_of_run_bind hfront
  cases hdone
  rw [hparameters]
  rfl

/-- A `>>` that closes two angles inside of the parameter list of a template may as well be written as two
`>`: whatever else the list has, and whatever comes after it, the same parameters are read, as parameters or
as text. -/
theorem templateParameters_closingPair (g : Grammar) {left right : Source}
    {before inside after : List Lexeme} {b : Brackets} {s : ParseState}
    (hsettings : right.settings = left.settings)
    (hceiling : right.stream.size ≤ right.settings.maxIterations)
    (hleft : left.stream.lexemes =
      before ++ spelled .kwTemplate :: spelled .lt :: inside ++ spelled .shr :: after)
    (hright : right.stream.lexemes =
      before ++ spelled .kwTemplate :: spelled .lt :: inside ++ spelled .gt :: spelled .gt :: after)
    (hs : s.cursor.position = before.length)
    (hbrackets : Brackets.after (inside.map Lexeme.kind) = some b) (hcloses : b.ClosesTwo) :
    (templateParameters.run right (s.after 1)).1.toOption =
        (templateParameters.run left (s.after 1)).1.toOption ∧
      ∀ {ps ps' head head' d d' t t'}, g.template.run left s = (.ok (.template ps head d), t) →
        g.template.run right s = (.ok (.template ps' head' d'), t') → ps' = ps := by
  let w : SplitAngles :=
    { left, right, before := before ++ [spelled .kwTemplate], inside, after, pair := b,
      settings := hsettings, brackets := hbrackets, closes := hcloses, ceiling := hceiling,
      left_lexemes := by simpa using hleft, right_lexemes := by simpa using hright }
  have hopening : (s.after 1).cursor.position = w.opening := by
    show s.cursor.position + 1 = (before ++ [spelled .kwTemplate]).length
    rw [hs, List.length_append, List.length_singleton]
  have hsame : w.shifted (s.after 1) = s.after 1 :=
    congrArg s.atPosition (SplitAngles.shift_of_le (w := w) (by
      rw [hopening, SplitAngles.opening, SplitAngles.place]; omega))
  have heq := (SplitAngles.alike_templateParameters hopening).toOption_eq fun _ _ _ h => h
  rw [hsame] at heq
  refine ⟨heq, fun hrun hrun' => ?_⟩
  have hkind {source : Source} {ws : List Lexeme}
      (h : source.stream.lexemes = before ++ spelled .kwTemplate :: ws) :
      (source.view s).kind 0 = .kwTemplate := by
    show source.kindAt s.cursor.position = .kwTemplate
    rw [Source.kindAt_eq, h, hs, List.getElem?_append_right (Nat.le_refl _), Nat.sub_self]
    rfl
  have hps := templateParameters_of_run (by rw [hkind (by simpa using hleft)]; decide) hrun
  have hps' := templateParameters_of_run (by rw [hkind (by simpa using hright)]; decide) hrun'
  rw [heq, hps] at hps'
  exact (Option.some.inj hps').symm

/-- Three levels are closed by a `>>` and a `>`, or by three `>`. -/
theorem templateParameters_closingPair_nested :
    let left := (Session.start {} "template<class T = map<int, vector<list<int>>>, T n> class X;".toList).source
    let right := (Session.start {} "template<class T = map<int, vector<list<int> > >, T n> class X;".toList).source
    let s : ParseState := {}
    let ps : List TemplateParameter :=
      [⟨"class", "T", some "map<int, vector<list<int>>>", none, false⟩, ⟨"T", "n", none, none, false⟩]
    (templateParameters.run left (s.after 1)).1.toOption = some ps ∧
      (templateParameters.run right (s.after 1)).1.toOption = some ps := by
  intro left right s ps
  have hread : (templateParameters.run left (s.after 1)).1.toOption = some ps := by decide +kernel
  let inside : List Lexeme :=
    [spelled .kwClass, .name "T", spelled .assign, .name "map", spelled .lt, spelled .kwInt, spelled .comma,
      .name "vector", spelled .lt, .name "list", spelled .lt, spelled .kwInt]
  let after : List Lexeme :=
    [spelled .gt, spelled .comma, .name "T", .name "n", spelled .gt, spelled .kwClass, .name "X",
      spelled .semicolon]
  have hleft : left.stream.lexemes =
      ([] : List Lexeme) ++ spelled .kwTemplate :: spelled .lt :: inside ++ spelled .shr :: after := by
    decide +kernel
  have hright : right.stream.lexemes = ([] : List Lexeme) ++ spelled .kwTemplate :: spelled .lt :: inside ++
      spelled .gt :: spelled .gt :: after := by
    decide +kernel
  have hbrackets : Brackets.after (inside.map Lexeme.kind) = some ⟨[.lt, .lt, .lt, .lt], true⟩ := by
    decide
  have hsettings (text : List Char) : (Session.start {} text).source.settings = {} := rfl
  have hsame := (@templateParameters_closingPair (ofDepth 0) left right [] inside after _ s
    ((hsettings _).trans (hsettings _).symm) (by decide +kernel) hleft hright rfl hbrackets (by decide)).1
  exact ⟨hread, hsame.trans hread⟩

/-- Where a `>>` closes the list as well, only the list with two `>` is read as parameters. -/
theorem templateParameters_closingPair_list :
    let left := (Session.start {} "template<class T = vector<int>> class X;".toList).source
    let right := (Session.start {} "template<class T = vector<int> > class X;".toList).source
    let s : ParseState := {}
    (templateParameters.run left (s.after 1)).1.toOption =
        some [⟨"unparsed", "class T=vector<int>", none, none, false⟩] ∧
      (templateParameters.run right (s.after 1)).1.toOption =
        some [⟨"class", "T", some "vector<int>", none, false⟩] := by
  decide +kernel

end Grammar

end CTree
