import CTree.Proofs.Printing.Roundtrip
import CTree.Proofs.Rereading.Texts
import CTree.Proofs.Run

/-!
# Texts that the parser keeps

Types, template arguments, heads of templates and friends are kept as the text of their tokens. Cut again, such
a text gives the tokens back with adjacent closing angles paired, just if none of them clings to what comes
after it.
-/

namespace CTree

namespace Lexeme

variable {dialect : Dialect} {ws : List Lexeme} {w : Lexeme} {k : TokenKind}

/-! ### Closing angles -/

/-- A `>>` as the two angles that it closes. -/
def angles (w : Lexeme) : List Lexeme :=
  if w.kind = .shr then [spelled .gt, spelled .gt] else [w]

/-- Adjacent closing angles in pairs. -/
def paired : List Lexeme → List Lexeme
  | v :: w :: ws => if v.kind = .gt ∧ w.kind = .gt then spelled .shr :: paired ws else v :: paired (w :: ws)
  | ws => ws

/-- Lexemes with their closing angles paired from the left. -/
def regrouped (ws : List Lexeme) : List Lexeme :=
  paired (ws.flatMap angles)

/-- The lexeme of an operator has its spelling. -/
theorem Stands.eq_spelled (hw : w.Stands dialect) (hmark : w.kind.isMark = true) : w = spelled w.kind := by
  obtain ⟨rest, hpiece, -⟩ := hw
  obtain ⟨n, hlexeme, hlength⟩ := hpiece.firstLexeme
    (by rintro h; rw [h] at hmark; cases hmark) (by rintro h; rw [h] at hmark; cases hmark)
  obtain ⟨-, htext, -⟩ := Rule.spelled_of_firstLexeme hlength hlexeme (.inr hmark)
  obtain ⟨kind, text⟩ := w
  rw [spelled, Lexeme.mk.injEq]
  exact ⟨rfl, String.toList_inj.1 htext⟩

theorem stands_gt : (spelled .gt).Stands dialect := by
  refine ⟨[], .lexeme (n := 0) ⟨'>', [], rfl, by decide, by decide, by decide, by decide⟩ ?_ rfl,
    fun c hc => nomatch hc⟩
  cases dialect <;> decide +kernel

theorem stands_shr : (spelled .shr).Stands dialect := by
  refine ⟨[], .lexeme (n := 1) ⟨'>', ['>'], rfl, by decide, by decide, by decide, by decide⟩ ?_ rfl,
    fun c hc => nomatch hc⟩
  cases dialect <;> decide +kernel

theorem stands_angles (hws : ∀ w ∈ ws, w.Stands dialect) : ∀ w ∈ ws.flatMap angles, w.Stands dialect := by
  intro v hv
  obtain ⟨w, hw, hv⟩ := List.mem_flatMap.1 hv
  unfold angles at hv
  split at hv
  · simp only [List.mem_cons, List.not_mem_nil, or_false, or_self] at hv
    exact hv ▸ stands_gt
  · exact List.mem_singleton.1 hv ▸ hws w hw

theorem stands_paired (hws : ∀ w ∈ ws, w.Stands dialect) : ∀ w ∈ paired ws, w.Stands dialect := by
  fun_induction paired ws with
  | case1 v w ws hgt ih =>
    obtain ⟨-, hws⟩ := List.forall_mem_cons.1 (List.forall_mem_cons.1 hws).2
    exact List.forall_mem_cons.2 ⟨stands_shr, ih hws⟩
  | case2 v w ws hgt ih =>
    obtain ⟨hv, hws⟩ := List.forall_mem_cons.1 hws
    exact List.forall_mem_cons.2 ⟨hv, ih hws⟩
  | case3 ws => exact hws

theorem textAfter_angles (hws : ∀ w ∈ ws, w.Stands dialect) (k : TokenKind) :
    textAfter k (ws.flatMap angles) = textAfter k ws := by
  induction ws generalizing k with
  | nil => rfl
  | cons w ws ih =>
    obtain ⟨hw, hrest⟩ := List.forall_mem_cons.1 hws
    rw [List.flatMap_cons, angles]
    split
    · rename_i hshr
      obtain rfl : w = spelled .shr := hshr ▸ hw.eq_spelled (by rw [hshr]; rfl)
      show textAfter k (spelled .gt :: spelled .gt :: ws.flatMap angles) = _
      rw [textAfter_gt_gt, textAfter_cons, ih hrest, textAfter_cons]
    · rw [List.singleton_append, textAfter_cons, ih hrest, textAfter_cons]

theorem textAfter_paired (hws : ∀ w ∈ ws, w.Stands dialect) (k : TokenKind) :
    textAfter k (paired ws) = textAfter k ws := by
  fun_induction paired ws generalizing k with
  | case1 v w ws hgt ih =>
    obtain ⟨hv, htail⟩ := List.forall_mem_cons.1 hws
    obtain ⟨hw, hrest⟩ := List.forall_mem_cons.1 htail
    obtain rfl : v = spelled .gt := hgt.1 ▸ hv.eq_spelled (by rw [hgt.1]; rfl)
    obtain rfl : w = spelled .gt := hgt.2 ▸ hw.eq_spelled (by rw [hgt.2]; rfl)
    rw [textAfter_gt_gt, textAfter_cons, ih hrest, textAfter_cons]
  | case2 v w ws hgt ih =>
    obtain ⟨hv, hws⟩ := List.forall_mem_cons.1 hws
    rw [textAfter_cons, ih hws, ← textAfter_cons]
  | case3 ws => rfl

/-- Pairing angles changes nothing else. -/
theorem angles_paired (hws : ∀ w ∈ ws, w.Stands dialect) :
    (paired ws).flatMap angles = ws.flatMap angles := by
  fun_induction paired ws with
  | case1 v w ws hgt ih =>
    obtain ⟨hv, htail⟩ := List.forall_mem_cons.1 hws
    obtain ⟨hw, hrest⟩ := List.forall_mem_cons.1 htail
    obtain rfl : v = spelled .gt := hgt.1 ▸ hv.eq_spelled (by rw [hgt.1]; rfl)
    obtain rfl : w = spelled .gt := hgt.2 ▸ hw.eq_spelled (by rw [hgt.2]; rfl)
    rw [List.flatMap_cons, List.flatMap_cons, List.flatMap_cons, ih hrest]
    rfl
  | case2 v w ws hgt ih =>
    obtain ⟨-, hws⟩ := List.forall_mem_cons.1 hws
    rw [List.flatMap_cons, ih hws, ← List.flatMap_cons]
  | case3 ws => rfl

theorem angles_angles (ws : List Lexeme) : (ws.flatMap angles).flatMap angles = ws.flatMap angles := by
  induction ws with
  | nil => rfl
  | cons w ws ih =>
    have hw : w.angles.flatMap angles = w.angles := by
      unfold angles
      split
      · rfl
      · rename_i hshr
        simp [hshr]
    rw [List.flatMap_cons, List.flatMap_append, hw, ih]

theorem angles_regrouped (hws : ∀ w ∈ ws, w.Stands dialect) :
    (regrouped ws).flatMap angles = ws.flatMap angles := by
  rw [regrouped, angles_paired (stands_angles hws), angles_angles]

/-- The text of lexemes is cut into them, with their angles paired, just if none clings. -/
theorem rereads_regrouped_iff (hws : ∀ w ∈ ws, w.Stands dialect) :
    Rereads dialect (regrouped ws) (joined ws).toList ↔ Apart dialect (regrouped ws) := by
  have hstands : ∀ w ∈ regrouped ws, w.Stands dialect := stands_paired (stands_angles hws)
  have htext : (joined (regrouped ws)).toList = (joined ws).toList := by
    rw [joined_eq_textAfter, joined_eq_textAfter, regrouped, textAfter_paired (stands_angles hws),
      textAfter_angles hws]
  rw [← htext, rereads_joined_iff hstands]

end Lexeme

/-! ### Tokens of a text -/

/-- No lexical error stands at one of the tokens, or where one of them ends. -/
def Session.LexedCleanly (settings : Settings) (text : List Char) (ts : List Token) : Prop :=
  ∀ t ∈ ts, ∀ e ∈ (tokenize settings.dialect text).errors, e.offset ≠ t.offset ∧ e.offset ≠ t.stop

instance (settings : Settings) (text : List Char) (ts : List Token) :
    Decidable (Session.LexedCleanly settings text ts) :=
  inferInstanceAs (Decidable (∀ t ∈ ts, ∀ e ∈ (tokenize settings.dialect text).errors, _))

/-- The tokens that a source holds are those of its text. -/
theorem Session.stands_between {settings : Settings} {text : List Char} {start stop : Nat}
    (hclean : LexedCleanly settings text
      ((Session.start settings text).source.stream.between start stop)) :
    ∀ w ∈ ((Session.start settings text).source.stream.between start stop).map Token.lexeme,
      w.Stands settings.dialect := by
  have hcut := cut_tokenize settings.dialect text
  obtain ⟨ts, htokens, hts⟩ := hcut.tokens_eq
  have hbody : (Session.start settings text).source.stream.body.toList = ts := by
    show (TokenStream.ofList (tokenize settings.dialect text).tokens).body.toList = ts
    rw [htokens, TokenStream.body_ofList rfl, List.dropLast_concat]
  intro w hw
  obtain ⟨t, ht, rfl⟩ := List.mem_map.1 hw
  have hmem : t ∈ ts := by
    rw [TokenStream.between, Array.toList_extract, List.extract_eq_take_drop, hbody] at ht
    exact List.mem_of_mem_drop (List.mem_of_mem_take ht)
  exact hcut.stands (htokens ▸ List.mem_append_left _ hmem) (hts t hmem).1 (hclean t ht)

/-! ### What is kept -/

instance (dialect : Dialect) (k : TokenKind) (rest : List Char) : Decidable (Rule.Grows dialect k rest) :=
  inferInstanceAs (Decidable (∃ k' ∈ Rule.spelledKinds dialect, _))

instance (dialect : Dialect) (rest : List Char) : Decidable (Rule.HasPath dialect rest) :=
  inferInstanceAs (Decidable (_ = true))

instance (dialect : Dialect) (kind : TokenKind) (w rest : List Char) :
    Decidable (Clings dialect kind w rest) :=
  inferInstanceAs (Decidable (_ ∧ _ ∨ _ ∧ _ ∨ _ ∧ _ ∧ _ ∨ _ ∧ _ ∧ _))

/-- Whether lexemes are apart can be computed. -/
def Lexeme.decidableApart (dialect : Dialect) : (ws : List Lexeme) → Decidable (Apart dialect ws)
  | [] => isTrue trivial
  | w :: ws =>
    have := decidableApart dialect ws
    inferInstanceAs (Decidable (¬ Clings dialect w.kind w.text.toList (textAfter w.kind ws) ∧
      Apart dialect ws))

instance (dialect : Dialect) (ws : List Lexeme) : Decidable (Lexeme.Apart dialect ws) :=
  Lexeme.decidableApart dialect ws

/-- Whatever text the parser keeps of tokens without lexical errors, the tokens that it was made of are read
from it again, with their closing angles paired from the left and otherwise the same, just if none of them
clings to what comes after it. -/
theorem Parse.run_textSince_rereads {settings : Settings} {text : List Char} {start : Nat} {s : ParseState}
    (hclean : Session.LexedCleanly settings text
      ((Session.start settings text).source.stream.between start s.cursor.position)) :
    let source := (Session.start settings text).source
    let run := (source.stream.between start s.cursor.position).map Token.lexeme
    ∃ kept, (Parse.textSince start).run source s = (.ok kept, s) ∧
      (Lexeme.Rereads settings.dialect (Lexeme.regrouped run) kept.toList ↔
        Lexeme.Apart settings.dialect (Lexeme.regrouped run)) ∧
      (Lexeme.regrouped run).flatMap Lexeme.angles = run.flatMap Lexeme.angles := by
  intro source run
  have hstands := Session.stands_between hclean
  refine ⟨_, Parse.run_textSince start, ?_, Lexeme.angles_regrouped hstands⟩
  rw [Token.join_eq_joined]
  exact Lexeme.rereads_regrouped_iff hstands

/-- The angles of nested template arguments come back as one `>>`. The error after them is none of theirs. -/
theorem Parse.run_textSince_rereads_nested :
    let source := (Session.start {} "map<int, vector<T *> > @x;".toList).source
    let run : List Lexeme := [.name "map", .spelled .lt, .spelled .kwInt, .spelled .comma, .name "vector",
      .spelled .lt, .name "T", .spelled .star, .spelled .gt, .spelled .gt]
    ∃ kept, (Parse.textSince 0).run source { cursor := { position := 10 } } =
        (.ok kept, { cursor := { position := 10 } }) ∧
      Lexeme.Rereads .cpp (run.take 8 ++ [.spelled .shr]) kept.toList := by
  intro source run
  have hclean : Session.LexedCleanly {} "map<int, vector<T *> > @x;".toList
      ((Session.start {} "map<int, vector<T *> > @x;".toList).source.stream.between 0 10) := by
    decide +kernel
  have hrun : (source.stream.between 0 10).map Token.lexeme = run := by decide +kernel
  have hregrouped : Lexeme.regrouped run = run.take 8 ++ [.spelled .shr] := by decide +kernel
  have hapart : Lexeme.Apart .cpp (run.take 8 ++ [.spelled .shr]) := by decide +kernel
  obtain ⟨kept, hkept, hiff, -⟩ :=
    Parse.run_textSince_rereads (s := { cursor := { position := 10 } }) hclean
  have hagain : Lexeme.Rereads .cpp (Lexeme.regrouped ((source.stream.between 0 10).map Token.lexeme))
      kept.toList ↔ Lexeme.Apart .cpp (Lexeme.regrouped ((source.stream.between 0 10).map Token.lexeme)) :=
    hiff
  rw [hrun, hregrouped] at hagain
  exact ⟨kept, hkept, hagain.2 hapart⟩

/-- The two references of `int & &` are kept as the one mark `&&`. -/
theorem Parse.run_typeName_rereads_fused :
    ¬ ∀ (settings : Settings) (text : List Char) (s s' : ParseState) (kept : String),
      (tokenize settings.dialect text).errors = [] →
      let source := (Session.start settings text).source
      Parse.typeName.run source s = (.ok kept, s') →
        ∃ ws, Lexeme.Rereads settings.dialect ws kept.toList ∧ ws.flatMap Lexeme.angles =
          ((source.stream.between s.cursor.position s'.cursor.position).map Token.lexeme).flatMap
            Lexeme.angles := by
  intro h
  let source := (Session.start {} "int & & x;".toList).source
  have hclean : (tokenize .cpp "int & & x;".toList).errors = [] := by decide +kernel
  have hread : (Parse.typeName.run source {}).1.toOption = some "int&&" ∧
      (Parse.typeName.run source {}).2.cursor.position = 3 := by decide +kernel
  have hbetween : ((source.stream.between 0 3).map Token.lexeme).flatMap Lexeme.angles =
      [.spelled .kwInt, .spelled .amp, .spelled .amp] := by decide +kernel
  obtain ⟨hkept, hposition⟩ := hread
  rcases hresult : Parse.typeName.run source {} with ⟨result, s'⟩
  rw [hresult] at hkept hposition
  obtain rfl : result = .ok "int&&" := by
    cases result with
    | error e => cases hkept
    | ok kept => exact congrArg Except.ok (Option.some.inj hkept)
  obtain ⟨ws, ⟨hws, -⟩, heq⟩ := h {} _ {} s' "int&&" hclean hresult
  have hcut : (tokenize .cpp "int&&".toList).tokens.dropLast.map Token.lexeme =
      [.spelled .kwInt, .spelled .andAnd] := by decide +kernel
  have hfused : ws = [.spelled .kwInt, .spelled .andAnd] := hws.symm.trans hcut
  have hsplit : ws.flatMap Lexeme.angles = [.spelled .kwInt, .spelled .amp, .spelled .amp] := by
    rw [heq, show s'.cursor.position = 3 from hposition]
    exact hbetween
  rw [hfused] at hsplit
  exact absurd hsplit (by decide)

end CTree
