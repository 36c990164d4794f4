import CTree.Parse.Session
import CTree.Proofs.Declarators.Consumes
import CTree.Proofs.Rereading.Again
import Mathlib.Data.Nat.Digits.Defs

/-!
# The values of integer literals

Three rules read integers, and each tells the base of the digits by how the literal begins. The parser sees
only the text and finds the base once more. `tokenize_integer` says that it finds the same, and what becomes of
a value that needs more than 63 bits. Only one form has no value: a zero with a decimal digit after it that is
not octal, which the rule for octal literals leaves to that for decimal ones.
-/

namespace CTree

open Parse

/-! ### Digits and their values -/

namespace Rule

open Reader

variable {c : Char}

/-- Two decimal digits are not octal. -/
theorem eq_of_not_isOctalDigit (h : isDigit c = true) (hoctal : isOctalDigit c = false) :
    c = '8' ∨ c = '9' := by
  have hrange := toNat_of_isDigit h
  have hmost : ¬ c.toNat ≤ 55 := by
    intro hle
    refine Bool.false_ne_true (hoctal.symm.trans (Bool.and_eq_true_iff.2 ⟨?_, ?_⟩))
    · exact decide_eq_true (UInt32.le_iff_toNat_le.2 hrange.1)
    · exact decide_eq_true (UInt32.le_iff_toNat_le.2 hle)
  have heq : c.toNat = '8'.toNat ∨ c.toNat = '9'.toNat := by
    rw [show '8'.toNat = 56 from rfl, show '9'.toNat = 57 from rfl]
    omega
  exact heq.imp Char.toNat_inj.1 Char.toNat_inj.1

theorem octal_mem_table (dialect : Dialect) : octal ∈ table dialect := by
  rw [table_eq]
  simp

/-- Where one character of a class is read first, it stands in front. -/
theorem exists_of_one {w rest : List Char} {p : Char → Bool} {rs : List Reader}
    (h : sequence (one p :: rs) (w ++ rest) = some w.length) :
    ∃ c cs, w = c :: cs ∧ p c = true ∧ sequence rs (cs ++ rest) = some cs.length := by
  obtain ⟨u, cs, rfl, hu, hcs⟩ := exists_append_of_sequence h
  match u, hu with
  | [], hu =>
    cases hrest : cs ++ rest with
    | nil => rw [hrest] at hu; cases hu
    | cons c rest => simp [hrest, one] at hu
  | [c], hu => exact ⟨c, cs, rfl, (Option.ite_none_right_eq_some.1 hu).1, hcs⟩
  | c :: d :: u, hu => simp [one] at hu

end Rule

namespace Literal

variable {c : Char}

theorem digitValue_lt_of_isOctalDigit (h : Rule.isOctalDigit c = true) : digitValue c < 8 := by
  rw [digitValue_of_isDigit (Rule.isDigit_of_isOctalDigit h), show '0'.toNat = 48 from rfl]
  have hmost : c.toNat ≤ 55 :=
    UInt32.le_iff_toNat_le.1 (of_decide_eq_true (Bool.and_eq_true_iff.1 h).2)
  omega

theorem digitValue_lt_of_isHexDigit (h : Rule.isHexDigit c = true) : digitValue c < 16 := by
  by_cases hdigit : c.isDigit = true
  · exact Nat.lt_trans (digitValue_lt hdigit) (by decide)
  rw [digitValue, if_neg hdigit]
  by_cases hlower : ('a' ≤ c && c ≤ 'f') = true
  · rw [if_pos hlower, show 'a'.toNat = 97 from rfl]
    have hmost : c.toNat ≤ 102 :=
      UInt32.le_iff_toNat_le.1 (of_decide_eq_true (Bool.and_eq_true_iff.1 hlower).2)
    omega
  · have hupper : ('A' ≤ c && c ≤ 'F') = true := by
      rwa [Rule.isHexDigit, Bool.eq_false_iff.2 hdigit, Bool.eq_false_iff.2 hlower] at h
    rw [if_neg hlower, if_pos hupper, show 'A'.toNat = 65 from rfl]
    have hmost : c.toNat ≤ 70 :=
      UInt32.le_iff_toNat_le.1 (of_decide_eq_true (Bool.and_eq_true_iff.1 hupper).2)
    omega

/-- Digits put after those of `n` raise it by a power of the base, and add their own value. -/
theorem digitsValue_eq_ofDigits (base n : Nat) (cs : List Char) : digitsValue base n cs =
    n * base ^ cs.length + Nat.ofDigits base (cs.reverse.map digitValue) := by
  induction cs generalizing n with
  | nil => simp [digitsValue]
  | cons c cs ih =>
    rw [digitsValue, ih, List.reverse_cons, List.map_append, Nat.ofDigits_append, List.length_map,
      List.length_reverse, List.map_singleton, Nat.ofDigits_singleton, List.length_cons, Nat.pow_succ]
    ring

/-- The digits after a zero are taken for octal ones, be they octal or not. -/
theorem radix_octal (h : Rule.isDigit c = true) (cs : List Char) :
    radix ('0' :: c :: cs) = (8, c :: cs) := by
  have hne {x : Char} (hx : Rule.isDigit x = false) : c ≠ x := by
    rintro rfl
    exact Bool.false_ne_true (hx.symm.trans h)
  unfold radix
  split
  · rename_i heq
    exact (hne (x := 'x') rfl (List.cons.inj (List.cons.inj heq).2).1).elim
  · rename_i heq
    exact (hne (x := 'X') rfl (List.cons.inj (List.cons.inj heq).2).1).elim
  · rename_i heq
    obtain ⟨rfl, rfl⟩ := List.cons.inj (List.cons.inj heq).2
    rfl
  · rename_i hother
    exact (hother c cs rfl).elim

end Literal

/-! ### How integers are written -/

/-- How an integer literal of a kind is written that has a value: the base, the digits in that base, and the
text, which may have a suffix after the digits. -/
inductive IntegerText : TokenKind → Nat → List Char → List Char → Prop
  | hexadecimal {x : Char} {digits suffix : List Char} (hmark : x = 'x' ∨ x = 'X') (hne : digits ≠ [])
      (hdigits : digits.all Rule.isHexDigit = true) (hsuffix : suffix.all Rule.isIntSuffix = true) :
    IntegerText .hexLiteral 16 digits ('0' :: x :: (digits ++ suffix))
  | octal {digits suffix : List Char} (hne : digits ≠ [])
      (hdigits : digits.all Rule.isOctalDigit = true) (hsuffix : suffix.all Rule.isIntSuffix = true) :
    IntegerText .octalLiteral 8 ('0' :: digits) ('0' :: (digits ++ suffix))
  | decimal {c : Char} {digits suffix : List Char} (hzero : c = '0' → digits = [])
      (hdigits : (c :: digits).all Rule.isDigit = true) (hsuffix : suffix.all Rule.isIntSuffix = true) :
    IntegerText .intLiteral 10 (c :: digits) (c :: (digits ++ suffix))

namespace IntegerText

variable {dialect : Dialect} {kind : TokenKind} {base n : Nat} {digits w rest : List Char}

/-! ### What the rules take -/

theorem of_hexadecimal (h : Rule.hexadecimal.reader (w ++ rest) = some w.length) :
    ∃ digits, IntegerText .hexLiteral 16 digits w := by
  obtain ⟨c, cs, rfl, hc, h⟩ := Rule.exists_of_one h
  obtain ⟨x, cs, rfl, hx, h⟩ := Rule.exists_of_one h
  obtain ⟨digits, suffix, rfl, hne, hdigits, hsuffix⟩ := Rule.exists_of_digits h
  obtain rfl := beq_iff_eq.1 hc
  exact ⟨digits, .hexadecimal (by simpa using hx) hne hdigits hsuffix⟩

theorem of_octal (h : Rule.octal.reader (w ++ rest) = some w.length) :
    ∃ digits, IntegerText .octalLiteral 8 digits w := by
  obtain ⟨c, cs, rfl, hc, h⟩ := Rule.exists_of_one h
  obtain ⟨digits, suffix, rfl, hne, hdigits, hsuffix⟩ := Rule.exists_of_digits h
  obtain rfl := beq_iff_eq.1 hc
  exact ⟨_, .octal hne hdigits hsuffix⟩

/-- Where the rule for octal literals reads nothing, a zero has no digits after it, or one that is not
octal. -/
theorem of_decimal (h : Rule.decimal.reader (w ++ rest) = some w.length)
    (hoctal : ¬ Rule.octal.Reads (w ++ rest)) :
    (∃ digits, IntegerText .intLiteral 10 digits w) ∨
      ∃ d digits suffix, w = '0' :: d :: (digits ++ suffix) ∧ (d = '8' ∨ d = '9') ∧
        digits.all Rule.isDigit = true ∧ suffix.all Rule.isIntSuffix = true := by
  obtain ⟨digits, suffix, rfl, hne, hdigits, hsuffix⟩ := Rule.exists_of_digits h
  obtain ⟨c, cs, rfl⟩ := List.exists_cons_of_ne_nil hne
  by_cases hzero : c = '0' → cs = []
  · exact .inl ⟨c :: cs, .decimal hzero hdigits hsuffix⟩
  · obtain ⟨rfl, hcs⟩ := Classical.not_imp.1 hzero
    obtain ⟨d, ds, rfl⟩ := List.exists_cons_of_ne_nil hcs
    simp only [List.all_cons, Bool.and_eq_true] at hdigits
    have hnot : Rule.isOctalDigit d = false := Bool.eq_false_iff.2 fun hd =>
      hoctal (Rule.reads_octal_iff.2 ⟨d, ds ++ suffix ++ rest, rfl, hd⟩)
    exact .inr ⟨d, ds, suffix, rfl, Rule.eq_of_not_isOctalDigit hdigits.2.1 hnot, hdigits.2.2, hsuffix⟩

/-- What is read of an integer literal tells its base, and has a value but where a zero stands before a decimal
digit that is not octal. -/
theorem of_firstLexeme (hw : w.length = n + 1)
    (h : firstLexeme (w ++ rest) (Rule.table dialect) = some (kind, n))
    (hkind : kind = .hexLiteral ∨ kind = .octalLiteral ∨ kind = .intLiteral) :
    (∃ base digits, IntegerText kind base digits w) ∨
      kind = .intLiteral ∧ ∃ d digits suffix, w = '0' :: d :: (digits ++ suffix) ∧
        (d = '8' ∨ d = '9') ∧ digits.all Rule.isDigit = true ∧
        suffix.all Rule.isIntSuffix = true := by
  obtain ⟨rule, hmem, hrule, hread⟩ := Rule.mem_of_firstLexeme h
  rw [← hw] at hread
  have hin := Rule.inTable_of_mem hmem
  have hdigit : Rule.Lead.ofKind rule.kind = .digit := by
    rw [hrule]
    rcases hkind with rfl | rfl | rfl <;> decide
  have hnotReal : rule ≠ Rule.realOf dialect := by
    rintro rfl
    rw [← hrule] at hkind
    cases dialect <;> exact absurd hkind (by decide)
  have hoctal (hkind : kind = .intLiteral) : ¬ Rule.octal.Reads (w ++ rest) := by
    intro hreads
    have hrank := Rule.rank_le_of_firstLexeme h (Rule.octal_mem_table dialect) hreads
    rw [hkind] at hrank
    exact absurd hrank (by decide)
  rcases hin.of_digit hdigit with rfl | rfl | rfl | rfl
  · obtain ⟨digits, htext⟩ := of_hexadecimal hread
    exact .inl ⟨16, digits, hrule ▸ htext⟩
  · obtain ⟨digits, htext⟩ := of_octal hread
    exact .inl ⟨8, digits, hrule ▸ htext⟩
  · exact (hnotReal rfl).elim
  · have hint : kind = .intLiteral := hrule.symm
    rcases of_decimal hread (hoctal hint) with ⟨digits, htext⟩ | hfaulty
    · exact .inl ⟨10, digits, hint ▸ htext⟩
    · exact .inr ⟨hint, hfaulty⟩

/-! ### Values -/

/-- The base and the digits are found again in the text, but for a zero in front of octal digits. -/
theorem exists_radix (h : IntegerText kind base digits w) :
    ∃ ds, Literal.radix (Literal.dropEnd Rule.isIntSuffix w) = (base, ds) ∧
      (∀ c ∈ ds, Literal.digitValue c < base) ∧
      Literal.digitsValue base 0 ds = Literal.digitsValue base 0 digits := by
  cases h with
  | @hexadecimal x _ suffix hmark hne hdigits hsuffix =>
    rw [List.all_eq_true] at hdigits
    refine ⟨digits, ?_, fun c hc => Literal.digitValue_lt_of_isHexDigit (hdigits c hc), rfl⟩
    rw [show '0' :: x :: (digits ++ suffix) = ['0', x] ++ digits ++ suffix from rfl,
      Literal.dropEnd_append hne hdigits hsuffix]
    rcases hmark with rfl | rfl <;> rfl
  | @octal ds suffix hne hdigits hsuffix =>
    rw [List.all_eq_true] at hdigits
    refine ⟨ds, ?_, fun c hc => Literal.digitValue_lt_of_isOctalDigit (hdigits c hc), rfl⟩
    have hdigit (c : Char) (hc : c ∈ ds) : Rule.isDigit c = true :=
      Rule.isDigit_of_isOctalDigit (hdigits c hc)
    rw [show '0' :: (ds ++ suffix) = ['0'] ++ ds ++ suffix from rfl,
      Literal.dropEnd_append hne (fun c hc => Rule.isHexDigit_of_isDigit (hdigit c hc)) hsuffix]
    obtain ⟨c, ds, rfl⟩ := List.exists_cons_of_ne_nil hne
    exact Literal.radix_octal (hdigit c List.mem_cons_self) ds
  | @decimal c ds suffix hzero hdigits hsuffix =>
    rw [List.all_eq_true] at hdigits
    refine ⟨c :: ds, ?_, fun c hc => Literal.digitValue_lt (hdigits c hc), rfl⟩
    rw [show c :: (ds ++ suffix) = [] ++ (c :: ds) ++ suffix from rfl,
      Literal.dropEnd_append (List.cons_ne_nil _ _)
        (fun c hc => Rule.isHexDigit_of_isDigit (hdigits c hc)) hsuffix]
    exact Literal.radix_decimal hzero

/-- The value of the digits, if it is one of 64 bits. -/
theorem int_eq (h : IntegerText kind base digits w) :
    Literal.int w = if Nat.ofDigits base (digits.reverse.map Literal.digitValue) < 2 ^ 64
      then .ok (Int64.ofNat (Nat.ofDigits base (digits.reverse.map Literal.digitValue)))
      else .error .tooLarge := by
  obtain ⟨ds, hradix, hdigits, hvalue⟩ := h.exists_radix
  rw [Literal.int_of_radix hradix hdigits, hvalue, Literal.digitsValue_eq_ofDigits, Nat.zero_mul,
    Nat.zero_add, show UInt64.size = 2 ^ 64 from rfl]

end IntegerText

/-- A zero before a decimal digit that is not octal makes a literal that has no value. -/
theorem Literal.int_of_badDigit {d : Char} {digits suffix : List Char} (hd : d = '8' ∨ d = '9')
    (hdigits : digits.all Rule.isDigit = true) (hsuffix : suffix.all Rule.isIntSuffix = true) :
    int ('0' :: d :: (digits ++ suffix)) = .error .badDigit := by
  have hdigit : Rule.isDigit d = true := by rcases hd with rfl | rfl <;> rfl
  have hvalue : decide (digitValue d < 8) = false := by rcases hd with rfl | rfl <;> rfl
  have hhex (c : Char) (hc : c ∈ d :: digits) : Rule.isHexDigit c = true := by
    refine Rule.isHexDigit_of_isDigit ?_
    rcases List.mem_cons.1 hc with rfl | hc
    · exact hdigit
    · exact List.all_eq_true.1 hdigits c hc
  rw [show '0' :: d :: (digits ++ suffix) = ['0'] ++ (d :: digits) ++ suffix from rfl, int,
    dropEnd_append (List.cons_ne_nil _ _) hhex hsuffix,
    show ['0'] ++ (d :: digits) = '0' :: d :: digits from rfl, radix_octal hdigit]
  simp only [List.all_cons, hvalue, Bool.false_and, Bool.false_eq_true, if_false]

/-! ### Integers as operands -/

section Primary

variable {g : Grammar} {source : Source} {s : ParseState} {t : Token}

/-- An integer literal is an operand by itself. One without a value is reported. -/
theorem run_primary_of_integer
    (hkind : t.kind = .hexLiteral ∨ t.kind = .octalLiteral ∨ t.kind = .intLiteral)
    (htoken : (source.view s).token 0 = t) :
    g.primary.run source s = match Literal.int t.text.toList with
      | .ok value => (.ok (.int value), s.after 1)
      | .error fault => (.ok (.int fault.substitute),
          (s.after 1).record (Diagnostic.ofFailure source.text ⟨.invalidLiteral t.text, t.offset⟩)) := by
  subst htoken
  have heof : (source.view s).kind 0 ≠ .eof := by
    intro h
    rcases hkind with hk | hk | hk <;> exact absurd (h.symm.trans hk) (by decide)
  have hprimary : g.primary.run source s = intLiteral.run source s := by
    unfold Grammar.primary
    rw [run_bind_ok run_kind]
    rcases hkind with hk | hk | hk <;>
      rw [show (source.view s).kind 0 = _ from hk]
  rw [hprimary]
  unfold intLiteral
  rw [run_bind_ok (Consumes.advance heof)]
  cases Literal.int ((source.view s).token 0).text.toList with
  | ok value => rfl
  | error fault => rfl

end Primary

/-- A value that has its 64th bit set stands for the number that is less by `2 ^ 64`. -/
theorem toInt_ofNat_of_le {n : Nat} (hle : 2 ^ 63 ≤ n) (hlt : n < 2 ^ 64) :
    (Int64.ofNat n).toInt = n - 2 ^ 64 := by
  rw [Int64.toInt_ofNat', Int.bmod_def, show Int64.size = 2 ^ 64 from rfl]
  omega

/-- The value of an integer literal is that of its digits in the base that its beginning tells, if 63 bits are
enough for it. With 64 bits it is less by `2 ^ 64`, and with more it is the greatest value and the literal is
reported. A zero before a decimal digit that is not octal is the only literal without a value: it is zero,
and reported. -/
theorem tokenize_integer {dialect : Dialect} {text : List Char} {t : Token}
    (ht : t ∈ (tokenize dialect text).tokens)
    (hkind : t.kind = .hexLiteral ∨ t.kind = .octalLiteral ∨ t.kind = .intLiteral)
    (g : Grammar) {source : Source} {s : ParseState} (htoken : (source.view s).token 0 = t) :
    let reported := (s.after 1).record
      (Diagnostic.ofFailure source.text ⟨.invalidLiteral t.text, t.offset⟩)
    (∀ base digits, IntegerText t.kind base digits t.text.toList →
      let value := Nat.ofDigits base (digits.reverse.map Literal.digitValue)
      (value < 2 ^ 63 →
        ∃ x : Int64, g.primary.run source s = (.ok (.int x), s.after 1) ∧ x.toInt = value) ∧
      (2 ^ 63 ≤ value → value < 2 ^ 64 →
        ∃ x : Int64, g.primary.run source s = (.ok (.int x), s.after 1) ∧ x.toInt = value - 2 ^ 64) ∧
      (2 ^ 64 ≤ value →
        ∃ x : Int64, g.primary.run source s = (.ok (.int x), reported) ∧ x.toInt = 2 ^ 63 - 1)) ∧
    ((∃ base digits, IntegerText t.kind base digits t.text.toList) ∨
      t.kind = .intLiteral ∧
        (∃ d digits suffix, t.text.toList = '0' :: d :: (digits ++ suffix) ∧ (d = '8' ∨ d = '9') ∧
          digits.all Rule.isDigit = true ∧ suffix.all Rule.isIntSuffix = true) ∧
        g.primary.run source s = (.ok (.int 0), reported)) := by
  intro reported
  have hrun := run_primary_of_integer (g := g) hkind htoken
  refine ⟨fun base digits htext => ?_, ?_⟩
  · rw [htext.int_eq] at hrun
    intro value
    refine ⟨fun hlt => ?_, fun hle hlt => ?_, fun hle => ?_⟩
    · rw [if_pos (Nat.lt_trans hlt (by decide))] at hrun
      exact ⟨_, hrun, Int64.toInt_ofNat_of_lt hlt⟩
    · rw [if_pos hlt] at hrun
      exact ⟨_, hrun, toInt_ofNat_of_le hle hlt⟩
    · rw [if_neg (Nat.not_lt_of_le hle)] at hrun
      exact ⟨_, hrun, by decide⟩
  · have hne {k : TokenKind} (hk : ¬ (k = .hexLiteral ∨ k = .octalLiteral ∨ k = .intLiteral)) :
        t.kind ≠ k := by
      rintro rfl
      exact hk hkind
    obtain ⟨rest, n, -, -, hlexeme, hlength⟩ := exists_firstLexeme_of_mem_tokenize ht
      (hne (by decide)) (hne (by decide)) (hne (by decide))
    refine (IntegerText.of_firstLexeme hlength hlexeme hkind).imp_right ?_
    rintro ⟨hk, hfaulty⟩
    refine ⟨hk, hfaulty, ?_⟩
    obtain ⟨d, digits, suffix, htext, hd, hdigits, hsuffix⟩ := hfaulty
    rw [htext, Literal.int_of_badDigit hd hdigits hsuffix] at hrun
    exact hrun

/-- All of the 64 bits are set. -/
theorem tokenize_integer_wraps :
    let text := "0xFFFFFFFFFFFFFFFFuL;".toList
    let source := (Session.start {} text).source
    let t : Token := ⟨.hexLiteral, "0xFFFFFFFFFFFFFFFFuL", 0⟩
    let digits := "FFFFFFFFFFFFFFFF".toList
    t ∈ (tokenize .cpp text).tokens ∧ (source.view {}).token 0 = t ∧
    IntegerText t.kind 16 digits t.text.toList ∧
    Nat.ofDigits 16 (digits.reverse.map Literal.digitValue) = 2 ^ 64 - 1 ∧
    ∀ g : Grammar, ∃ x : Int64,
      g.primary.run source {} = (.ok (.int x), ParseState.after {} 1) ∧ x.toInt = -1 := by
  intro text source t digits
  have hmem : t ∈ (tokenize .cpp text).tokens := by decide +kernel
  have htoken : (source.view {}).token 0 = t := by decide +kernel
  have hsplit : t.text.toList = '0' :: 'x' :: (digits ++ ['u', 'L']) := by decide
  have htext : IntegerText t.kind 16 digits t.text.toList := by
    rw [hsplit]
    exact .hexadecimal (.inl rfl) (by decide) (by decide) (by decide)
  have hvalue : Nat.ofDigits 16 (digits.reverse.map Literal.digitValue) = 2 ^ 64 - 1 := by
    decide +kernel
  refine ⟨hmem, htoken, htext, hvalue, fun g => ?_⟩
  obtain ⟨-, hwraps, -⟩ := (tokenize_integer hmem (.inl rfl) g htoken).1 16 digits htext
  obtain ⟨x, hrun, hx⟩ := hwraps (by rw [hvalue]; decide) (by rw [hvalue]; decide)
  exact ⟨x, hrun, by rw [hx, hvalue]; decide⟩

end CTree
