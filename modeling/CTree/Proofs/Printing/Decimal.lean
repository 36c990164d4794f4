import CTree.Literal

/-!
# Decimal digits

The digits of a number have no zero in front, and the value of the literal that they form is the
number.
-/

namespace CTree

/-- The first digit is a zero only if the number is zero. -/
theorem head?_toDigits {n : Nat} (h : 0 < n) : (Nat.toDigits 10 n).head? ≠ some '0' := by
  induction n using Nat.strongRecOn with
  | ind n ih =>
    by_cases hn : n < 10
    · rw [Nat.toDigits_of_lt_base hn]
      match n, h with
      | 1, _ | 2, _ | 3, _ | 4, _ | 5, _ | 6, _ | 7, _ | 8, _ | 9, _ => decide
      | n + 10, _ => omega
    · have hdiv : 0 < n / 10 := by omega
      obtain ⟨c, cs, hc⟩ := List.exists_cons_of_ne_nil (Nat.toDigits_ne_nil (b := 10) (n := n / 10))
      have hhead := ih (n / 10) (by omega) hdiv
      rw [Nat.toDigits_of_base_le (by decide) (by omega), hc]
      rwa [hc] at hhead

theorem exists_repr (n : Nat) : ∃ c cs, n.repr.toList = c :: cs ∧ Rule.isDigit c ∧
    cs.all Rule.isDigit ∧ (c = '0' → cs = []) := by
  rw [Nat.toList_repr]
  have hdigit : ∀ c ∈ Nat.toDigits 10 n, Rule.isDigit c :=
    fun c hc => Nat.isDigit_of_mem_toDigits (by decide) (by decide) hc
  obtain ⟨c, cs, h⟩ := List.exists_cons_of_ne_nil (Nat.toDigits_ne_nil (b := 10) (n := n))
  rw [h] at hdigit ⊢
  refine ⟨c, cs, rfl, hdigit c List.mem_cons_self, ?_, ?_⟩
  · exact List.all_eq_true.2 fun d hd => hdigit d (List.mem_cons_of_mem _ hd)
  · rintro rfl
    rcases Nat.eq_zero_or_pos n with rfl | hn
    · cases h
      rfl
    · exact (head?_toDigits hn (by rw [h]; rfl)).elim

namespace Rule

variable {c : Char}

theorem isHexDigit_of_isDigit (h : isDigit c = true) : isHexDigit c = true :=
  Bool.or_eq_true_iff.2 (.inl (Bool.or_eq_true_iff.2 (.inl h)))

theorem isIntSuffix_of_isHexDigit (h : isHexDigit c = true) : isIntSuffix c = false := by
  rw [Bool.eq_false_iff]
  intro hsuffix
  simp only [isIntSuffix, Bool.or_eq_true, beq_iff_eq] at hsuffix
  rcases hsuffix with ((rfl | rfl) | rfl) | rfl <;> exact absurd h (by decide)

end Rule

namespace Literal

variable {c : Char} {cs : List Char}

theorem digitValue_of_isDigit (h : Rule.isDigit c) : digitValue c = c.toNat - '0'.toNat :=
  if_pos h

theorem digitValue_lt (h : Rule.isDigit c) : digitValue c < 10 := by
  rw [digitValue_of_isDigit h]
  simp only [Rule.isDigit, Char.isDigit, Bool.and_eq_true, decide_eq_true_eq] at h
  have hnine : c.toNat ≤ '9'.toNat := UInt32.le_iff_toNat_le.1 h.2
  have : '9'.toNat = 57 := rfl
  have : '0'.toNat = 48 := rfl
  omega

theorem digitsValue_eq (h : cs.all Rule.isDigit) (n : Nat) :
    digitsValue 10 n cs = Nat.ofDigitChars 10 cs n := by
  induction cs generalizing n with
  | nil => simp [digitsValue]
  | cons c cs ih =>
    simp only [List.all_cons, Bool.and_eq_true] at h
    rw [digitsValue, ih h.2, Nat.ofDigitChars_cons, digitValue_of_isDigit h.1, Nat.mul_comm]

/-- A suffix is taken from the digits that it stands after. -/
theorem dropEnd_append {before digits suffix : List Char} (hne : digits ≠ [])
    (hdigits : ∀ c ∈ digits, Rule.isHexDigit c = true) (hsuffix : suffix.all Rule.isIntSuffix = true) :
    dropEnd Rule.isIntSuffix (before ++ digits ++ suffix) = before ++ digits := by
  obtain ⟨ds, c, rfl⟩ : ∃ ds c, digits = ds ++ [c] :=
    ⟨_, _, (List.dropLast_concat_getLast hne).symm⟩
  have hc := Rule.isIntSuffix_of_isHexDigit (hdigits c (by simp))
  rw [dropEnd, List.reverse_append, List.dropWhile_append_of_pos
    (List.all_eq_true.1 (List.all_reverse.trans hsuffix)), ← List.append_assoc, List.reverse_concat,
    List.dropWhile_cons_of_neg (by rw [hc]; exact Bool.false_ne_true), ← List.reverse_concat,
    List.reverse_reverse]

/-- No suffix is taken from digits. -/
theorem dropEnd_digits (h : cs.all Rule.isDigit) : dropEnd Rule.isIntSuffix cs = cs := by
  cases cs with
  | nil => rfl
  | cons c cs =>
    have hhex (d : Char) (hd : d ∈ c :: cs) : Rule.isHexDigit d = true :=
      Rule.isHexDigit_of_isDigit (List.all_eq_true.1 h d hd)
    have hdrop := @dropEnd_append [] (c :: cs) [] (List.cons_ne_nil c cs) hhex rfl
    rwa [List.append_nil] at hdrop

theorem radix_decimal (hzero : c = '0' → cs = []) :
    radix (c :: cs) = (10, c :: cs) := by
  by_cases h0 : c = '0'
  · obtain rfl := hzero h0
    subst h0
    rfl
  · unfold radix
    split
    · rename_i h
      cases h
      exact (h0 rfl).elim
    · rename_i h
      cases h
      exact (h0 rfl).elim
    · rename_i h
      cases h
      exact (h0 rfl).elim
    · rfl

/-- The value of digits that all belong to the base. -/
theorem int_of_radix {base : Nat} {w digits : List Char}
    (hradix : radix (dropEnd Rule.isIntSuffix w) = (base, digits))
    (hdigits : ∀ c ∈ digits, digitValue c < base) :
    int w = if digitsValue base 0 digits < UInt64.size
      then .ok (Int64.ofNat (digitsValue base 0 digits)) else .error .tooLarge := by
  rw [int, hradix]
  exact if_pos (List.all_eq_true.2 fun c hc => decide_eq_true (hdigits c hc))

/-- The value of a number in decimal digits. -/
theorem int_repr {n : Nat} (h : n < UInt64.size) : int n.repr.toList = .ok (Int64.ofNat n) := by
  obtain ⟨c, cs, hc, hdigit, hcs, hzero⟩ := exists_repr n
  have hall : (c :: cs).all Rule.isDigit := by simp [hdigit, hcs]
  have hvalue : digitsValue 10 0 (c :: cs) = n := by
    rw [digitsValue_eq hall, ← hc, Nat.toList_repr, Nat.ofDigitChars_ten_toDigits]
  have hradix : radix (dropEnd Rule.isIntSuffix (c :: cs)) = (10, c :: cs) := by
    rw [dropEnd_digits hall, radix_decimal hzero]
  rw [hc, int_of_radix hradix fun d hd => digitValue_lt (List.all_eq_true.1 hall d hd), hvalue]
  exact if_pos h

end Literal

end CTree
