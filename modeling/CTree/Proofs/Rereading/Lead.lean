import CTree.Proofs.Rereading.Rules

/-!
# How lexemes begin

The first character of a lexeme tells directives, words, numbers and operators apart. So what is read
before one text rather than before another is a matter of the few rules that begin alike.
-/

namespace CTree

namespace Rule

open Reader

variable {c : Char} {cs w rest rest' : List Char} {k kind : TokenKind} {dialect : Dialect}
  {rule r : Rule} {n m : Nat}

/-! ### How a lexeme begins -/

/-- What the first character of a lexeme tells. -/
inductive Lead
  | hash | word | digit | mark
  deriving DecidableEq

/-- What a character tells as the first of a lexeme. -/
def Lead.ofChar (c : Char) : Lead :=
  if c = '#' then .hash else if isNameStart c then .word else if isDigit c then .digit else .mark

/-- How the lexemes of a kind begin. -/
def Lead.ofKind (k : TokenKind) : Lead :=
  if k.isDirective then .hash
  else if k.isKeyword || k == .identifier then .word
  else if k.isMark then .mark
  else .digit

theorem isDirective_of_lead (h : Lead.ofKind k = .hash) : k.isDirective = true := by
  unfold Lead.ofKind at h
  split at h
  · assumption
  split at h
  · cases h
  · split at h <;> cases h

theorem name_or_keyword_of_lead (h : Lead.ofKind k = .word) : k = .identifier ∨ k.isKeyword = true := by
  unfold Lead.ofKind at h
  split at h
  · cases h
  split at h
  · rename_i hword
    rw [Bool.or_eq_true, beq_iff_eq] at hword
    exact hword.symm
  · split at h <;> cases h

theorem lead_of_isNameStart (h : isNameStart c = true) : Lead.ofChar c = .word := by
  have hc : c ≠ '#' := by
    rintro rfl
    cases h
  rw [Lead.ofChar, if_neg hc, if_pos h]

theorem lead_of_isDigit (h : isDigit c = true) : Lead.ofChar c = .digit := by
  have hc : c ≠ '#' := by
    rintro rfl
    cases h
  have hname : ¬ isNameStart c = true := fun hname =>
    Bool.false_ne_true ((isDigit_of_isNameStart hname).symm.trans h)
  rw [Lead.ofChar, if_neg hc, if_neg hname, if_pos h]

theorem lead_cases (c : Char) : c = '#' ∧ Lead.ofChar c = .hash ∨
    isNameStart c = true ∧ Lead.ofChar c = .word ∨ isDigit c = true ∧ Lead.ofChar c = .digit ∨
      Lead.ofChar c = .mark := by
  by_cases hhash : c = '#'
  · subst hhash
    exact .inl ⟨rfl, rfl⟩
  by_cases hname : isNameStart c = true
  · exact .inr (.inl ⟨hname, lead_of_isNameStart hname⟩)
  by_cases hdigit : isDigit c = true
  · exact .inr (.inr (.inl ⟨hdigit, lead_of_isDigit hdigit⟩))
  · rw [Lead.ofChar, if_neg hhash, if_neg hname, if_neg hdigit]
    exact .inr (.inr (.inr rfl))

/-- Keywords and operators begin as their kinds say. -/
theorem lead_of_spelled (hk : k ∈ spelledKinds dialect) :
    ∃ c cs, k.spelling.toList = c :: cs ∧ Lead.ofChar c = Lead.ofKind k := by
  have hall : (spelledKinds dialect).all (fun k => k.spelling.toList.head?.map Lead.ofChar ==
      some (Lead.ofKind k)) = true := by
    cases dialect <;> decide +kernel
  have h := beq_iff_eq.1 (List.all_eq_true.1 hall k hk)
  obtain ⟨c, hc, hlead⟩ := Option.map_eq_some_iff.1 h
  obtain ⟨cs, hcs⟩ := List.head?_eq_some_iff.1 hc
  exact ⟨c, cs, hcs, hlead⟩

theorem lead_of_directive (hk : k ∈ directiveKinds dialect) :
    k.isDirective = true ∧ k.spelling.toList.head? = some '#' := by
  cases dialect <;> revert k <;> decide

/-- A rule reads something. -/
def Reads (r : Rule) (cs : List Char) : Prop :=
  ∃ m, r.reader cs = some (m + 1)

theorem head_of_one {p : Char → Bool} {rs : List Reader} (h : Reader.sequence (one p :: rs) cs = some n) :
    ∃ c cs', cs = c :: cs' ∧ p c = true := by
  obtain ⟨m, k, hm, -, -⟩ := sequence_cons_eq_some_iff.1 h
  cases cs with
  | nil => cases hm
  | cons c cs => exact ⟨c, cs, rfl, (Option.ite_none_right_eq_some.1 hm).1⟩

theorem head_of_run1 {p : Char → Bool} {rs : List Reader} (h : Reader.sequence (run1 p :: rs) cs = some n) :
    ∃ c cs', cs = c :: cs' ∧ p c = true := by
  obtain ⟨m, k, hm, -, -⟩ := sequence_cons_eq_some_iff.1 h
  cases cs with
  | nil => cases hm
  | cons c cs =>
    refine ⟨c, cs, rfl, ?_⟩
    by_contra hc
    rw [run1_none (Bool.eq_false_iff.2 hc)] at hm
    cases hm

theorem prefix_of_text {t : List Char} {rs : List Reader} (h : Reader.sequence (text t :: rs) cs = some n) :
    t <+: cs := by
  obtain ⟨m, k, hm, -, -⟩ := sequence_cons_eq_some_iff.1 h
  exact List.isPrefixOf_iff_prefix.1 (Option.ite_none_right_eq_some.1 hm).1

/-- A lexeme begins as its kind says, but a real literal of C++ might begin with its point. -/
theorem InTable.lead (hr : InTable dialect r) (h : r.Reads cs) :
    ∃ c cs', cs = c :: cs' ∧ (Lead.ofChar c = Lead.ofKind r.kind ∨ r.kind = .floatLiteral ∧ c = '.') := by
  obtain ⟨m, h⟩ := h
  cases hr with
  | path _ =>
    obtain ⟨v, rfl⟩ := prefix_of_text h
    exact ⟨'#', _, rfl, .inl rfl⟩
  | @directive k hk =>
    obtain ⟨hkind, hhead⟩ := lead_of_directive hk
    obtain ⟨t, ht⟩ := List.head?_eq_some_iff.1 hhead
    obtain ⟨v, rfl⟩ := prefix_of_text h
    rw [ht]
    refine ⟨'#', t ++ v, rfl, .inl ?_⟩
    show Lead.ofChar '#' = Lead.ofKind k
    rw [Lead.ofKind, if_pos hkind]
    rfl
  | otherDirective =>
    obtain ⟨c, cs, rfl, hc⟩ := head_of_one h
    obtain rfl := beq_iff_eq.1 hc
    exact ⟨'#', cs, rfl, .inl rfl⟩
  | spelled hk =>
    obtain ⟨c, t, ht, hlead⟩ := lead_of_spelled hk
    obtain ⟨v, rfl⟩ := prefix_of_text h
    exact ⟨c, t ++ v, by rw [ht]; rfl, .inl hlead⟩
  | hexadecimal =>
    obtain ⟨c, cs, rfl, hc⟩ := head_of_one h
    obtain rfl := beq_iff_eq.1 hc
    exact ⟨'0', cs, rfl, .inl rfl⟩
  | octal =>
    obtain ⟨c, cs, rfl, hc⟩ := head_of_one h
    obtain rfl := beq_iff_eq.1 hc
    exact ⟨'0', cs, rfl, .inl rfl⟩
  | real =>
    cases dialect with
    | c =>
      obtain ⟨c, cs, rfl, hc⟩ := head_of_run1 h
      exact ⟨c, cs, rfl, .inl (lead_of_isDigit hc)⟩
    | cpp =>
      obtain ⟨k, l, hk, hl, -⟩ := sequence_cons_eq_some_iff.1 h
      cases cs with
      | nil => cases hk; cases hl
      | cons c cs =>
        refine ⟨c, cs, rfl, ?_⟩
        by_cases hc : isDigit c = true
        · exact .inl (lead_of_isDigit hc)
        · have hk0 : k = 0 := by simpa [run, hc, eq_comm] using hk
          subst hk0
          obtain ⟨d, ds, hd, hpoint⟩ := head_of_one hl
          cases hd
          exact .inr ⟨rfl, beq_iff_eq.1 hpoint⟩
  | decimal =>
    obtain ⟨c, cs, rfl, hc⟩ := head_of_run1 h
    exact ⟨c, cs, rfl, .inl (lead_of_isDigit hc)⟩
  | identifier =>
    obtain ⟨c, cs, rfl, hc⟩ := head_of_one h
    exact ⟨c, cs, rfl, .inl (lead_of_isNameStart hc)⟩

/-- The kinds with one spelling are keywords and operators. -/
theorem isKeyword_or_isMark (hk : k ∈ spelledKinds dialect) :
    k.isKeyword = true ∧ Lead.ofKind k = .word ∨ k.isMark = true ∧ Lead.ofKind k = .mark := by
  cases dialect <;> revert k <;> decide +kernel

theorem ofKind_directive (hk : k ∈ directiveKinds dialect) : Lead.ofKind k = .hash := by
  rw [Lead.ofKind, if_pos (lead_of_directive hk).1]

theorem ofKind_realOf (dialect : Dialect) : Lead.ofKind (realOf dialect).kind = .digit := by
  cases dialect <;> rfl

namespace InTable

theorem of_word (hr : InTable dialect r) (h : Lead.ofKind r.kind = .word) :
    (∃ k ∈ spelledKinds dialect, k.isKeyword = true ∧ r = Rule.spelled k) ∨ r = Rule.identifier := by
  cases hr with
  | path _ => exact absurd h (show ¬ Lead.ofKind .includeDirective = _ by decide)
  | directive hk => exact absurd ((ofKind_directive hk).symm.trans h) (by decide)
  | @spelled k hk =>
    rcases isKeyword_or_isMark hk with ⟨hkeyword, -⟩ | ⟨-, hlead⟩
    · exact .inl ⟨k, hk, hkeyword, rfl⟩
    · exact absurd (hlead.symm.trans h) (by decide)
  | real => exact absurd ((ofKind_realOf dialect).symm.trans h) (by decide)
  | identifier => exact .inr rfl
  | _ => exact absurd h (by decide)

theorem of_mark (hr : InTable dialect r) (h : Lead.ofKind r.kind = .mark) :
    ∃ k ∈ spelledKinds dialect, k.isMark = true ∧ r = Rule.spelled k := by
  cases hr with
  | path _ => exact absurd h (show ¬ Lead.ofKind .includeDirective = _ by decide)
  | directive hk => exact absurd ((ofKind_directive hk).symm.trans h) (by decide)
  | @spelled k hk =>
    rcases isKeyword_or_isMark hk with ⟨-, hlead⟩ | ⟨hmark, -⟩
    · exact absurd (hlead.symm.trans h) (by decide)
    · exact ⟨k, hk, hmark, rfl⟩
  | real => exact absurd ((ofKind_realOf dialect).symm.trans h) (by decide)
  | _ => exact absurd h (by decide)

theorem of_digit (hr : InTable dialect r) (h : Lead.ofKind r.kind = .digit) :
    r = Rule.hexadecimal ∨ r = Rule.octal ∨ r = realOf dialect ∨ r = Rule.decimal := by
  cases hr with
  | path _ => exact absurd h (show ¬ Lead.ofKind .includeDirective = _ by decide)
  | directive hk => exact absurd ((ofKind_directive hk).symm.trans h) (by decide)
  | spelled hk =>
    rcases isKeyword_or_isMark hk with ⟨-, hlead⟩ | ⟨-, hlead⟩ <;>
      exact absurd (hlead.symm.trans h) (by decide)
  | hexadecimal => exact .inl rfl
  | octal => exact .inr (.inl rfl)
  | real => exact .inr (.inr (.inl rfl))
  | decimal => exact .inr (.inr (.inr rfl))
  | _ => exact absurd h (by decide)

theorem of_hash (hr : InTable dialect r) (h : Lead.ofKind r.kind = .hash) :
    (∃ opening closing, (opening = '<' ∧ closing = '>' ∨ opening = '"' ∧ closing = '"') ∧
      r = ⟨.includeDirective, includePath (includeBlank dialect) opening closing⟩) ∨
      (∃ k ∈ directiveKinds dialect, r = Rule.directive k) ∨ r = Rule.otherDirective := by
  cases hr with
  | path hmarks => exact .inl ⟨_, _, hmarks, rfl⟩
  | directive hk => exact .inr (.inl ⟨_, hk, rfl⟩)
  | otherDirective => exact .inr (.inr rfl)
  | spelled hk =>
    rcases isKeyword_or_isMark hk with ⟨-, hlead⟩ | ⟨-, hlead⟩ <;>
      exact absurd (hlead.symm.trans h) (by decide)
  | real => exact absurd ((ofKind_realOf dialect).symm.trans h) (by decide)
  | _ => exact absurd h (by decide)

/-- Rules that read two texts with the same beginning are of kinds with the same beginning. -/
theorem lead_eq (hr : InTable dialect r) (h : r.Reads (c :: cs)) (hc : c ≠ '.') :
    Lead.ofKind r.kind = Lead.ofChar c := by
  obtain ⟨c', cs', hcons, hlead⟩ := hr.lead h
  cases hcons
  exact hlead.elim Eq.symm fun h => (hc h.2).elim

end InTable

/-! ### The first rule that reads -/

/-- The place of a kind among the groups of rules. -/
def rank : TokenKind → Nat
  | .includeDirective => 0
  | .hexLiteral => 3
  | .octalLiteral => 4
  | .floatLiteral => 5
  | .intLiteral => 6
  | .identifier => 7
  | k => if k.isDirective then 1 else 2

theorem table_pairwise_rank (dialect : Dialect) :
    (table dialect).Pairwise fun r r' => rank r.kind ≤ rank r'.kind := by
  have hkinds : ((table dialect).map Rule.kind).Pairwise fun k k' => rank k ≤ rank k' := by
    cases dialect <;> decide +kernel
  exact (List.pairwise_map (R := fun k k' => rank k ≤ rank k')).1 hkinds

theorem firstLexeme_of_split {before after : List Rule} (hread : rule.reader cs = some (n + 1))
    (hbefore : ∀ r ∈ before, ¬ r.Reads cs) :
    firstLexeme cs (before ++ rule :: after) = some (rule.kind, n) := by
  induction before with
  | nil => exact firstLexeme_cons_some hread
  | cons r before ih =>
    rw [List.cons_append, firstLexeme]
    split
    · rename_i m hm
      exact (hbefore r List.mem_cons_self ⟨m, hm⟩).elim
    · exact ih fun r hr => hbefore r (List.mem_cons_of_mem _ hr)

/-- The rule that decides before one text decides before another, if it reads the same there and no rule reads
something there that did not before. -/
theorem firstLexeme_again (h : firstLexeme (w ++ rest) (table dialect) = some (kind, n))
    (hw : w.length = n + 1)
    (hagain : ∀ rule, InTable dialect rule → rule.kind = kind →
      rule.reader (w ++ rest) = some w.length →
      rule.reader (w ++ rest') = some w.length ∧
        ∀ r, InTable dialect r → MayPrecede r.kind kind → rank r.kind ≤ rank kind →
          r.Reads (w ++ rest') → r.Reads (w ++ rest)) :
    firstLexeme (w ++ rest') (table dialect) = some (kind, n) := by
  obtain ⟨before, rule, after, htable, rfl, hread, hbefore⟩ := exists_split_of_firstLexeme h
  have hin (r : Rule) (hr : r ∈ before ++ rule :: after) : InTable dialect r := by
    rw [← htable] at hr
    exact inTable_of_mem hr
  have hprecede {R : Rule → Rule → Prop} (hR : (table dialect).Pairwise R) : ∀ r ∈ before, R r rule := by
    rw [htable] at hR
    exact fun r hr => (List.pairwise_append.1 hR).2.2 r hr rule List.mem_cons_self
  obtain ⟨hagain, hrules⟩ := hagain rule (hin rule (List.mem_append_right _ List.mem_cons_self)) rfl
    (by rw [hread, hw])
  rw [htable]
  refine firstLexeme_of_split (by rw [hagain, hw]) fun r hr hreads => ?_
  obtain ⟨m, hm⟩ := hrules r (hin r (List.mem_append_left _ hr)) (hprecede (table_pairwise dialect) r hr)
    (hprecede (table_pairwise_rank dialect) r hr) hreads
  exact hbefore r hr m hm

/-- Where a rule reads something, the rule that decides does not come after it. -/
theorem rank_le_of_firstLexeme (h : firstLexeme cs (table dialect) = some (kind, n))
    (hmem : rule ∈ table dialect) (hread : rule.Reads cs) : rank kind ≤ rank rule.kind := by
  obtain ⟨before, first, after, htable, rfl, -, hbefore⟩ := exists_split_of_firstLexeme h
  obtain ⟨m, hread⟩ := hread
  have hpairwise := table_pairwise_rank dialect
  rw [htable] at hmem hpairwise
  rcases List.mem_append.1 hmem with hmem | hmem
  · exact (hbefore rule hmem m hread).elim
  · rcases List.mem_cons.1 hmem with rfl | hmem
    · exact Nat.le_refl _
    · exact (List.pairwise_cons.1 (List.pairwise_append.1 hpairwise).2.1).1 rule hmem

end Rule

end CTree
