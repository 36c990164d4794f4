import CTree.Decimal.Shortest
import Mathlib.Algebra.Group.Nat.Defs

/-!
# Doubles and their shortest decimals

A double covers the numbers that are nearer to it than to any other double. In the order of the
doubles these ranges do not overlap, so a decimal reads back as one size only. The shortest decimal
of a finite double reads back as it: the search for it either finds one that does, or ends with so
many digits that the decimal is exact.
-/

namespace CTree

namespace Binary64

variable {x y : Binary64}

/-! ### The fields of a double -/

theorem fraction_lt (x : Binary64) : x.fraction.val < 2 ^ 52 :=
  x.fraction.isLt

theorem significand_eq (x : Binary64) : x.significand =
    if x.exponent.val = 0 then x.fraction.val else 2 ^ 52 + x.fraction.val := rfl

theorem gap_eq (x : Binary64) : x.gap = 2 ^ (x.exponent.val - 1) := rfl

theorem gap_pos (x : Binary64) : 0 < x.gap :=
  Nat.two_pow_pos _

/-! ### The order of doubles -/

/-- The place of the size of a double among all sizes. -/
def rank (x : Binary64) : Nat :=
  x.exponent.val * 2 ^ 52 + x.fraction.val

/-- Doubles with one place and one sign are the same. -/
theorem eq_of_rank (hrank : x.rank = y.rank) (hnegative : x.negative = y.negative) : x = y := by
  obtain ⟨sign, ex, fx⟩ := x
  obtain ⟨sign', ey, fy⟩ := y
  obtain rfl : sign = sign' := hnegative
  have hplace : ex.val * 2 ^ 52 + fx.val = ey.val * 2 ^ 52 + fy.val := hrank
  have hx : fx.val < 2 ^ 52 := fx.isLt
  have hy : fy.val < 2 ^ 52 := fy.isLt
  have hexponent : ex = ey := Fin.ext (by omega)
  have hfraction : fx = fy := Fin.ext (by omega)
  rw [hexponent, hfraction]

/-- Up to the next binade there is room for one more gap. -/
theorem units_add_gap_le (x : Binary64) :
    x.units + x.gap ≤ 2 ^ 52 * 2 ^ x.exponent.val := by
  have hfraction := x.fraction_lt
  have hstep : x.units + x.gap = (x.significand + 1) * x.gap := by
    rw [units, Nat.add_mul, Nat.one_mul]
  rw [hstep]
  by_cases h : x.exponent.val = 0
  · have hgap : x.gap = 2 ^ x.exponent.val := by rw [gap_eq, h]
    rw [hgap, significand_eq, if_pos h]
    exact Nat.mul_le_mul_right _ hfraction
  · have hgap : 2 ^ x.exponent.val = 2 * x.gap := by
      rw [gap_eq, ← Nat.pow_succ', Nat.succ_eq_add_one, Nat.sub_add_cancel (by omega)]
    rw [hgap, significand_eq, if_neg h, ← Nat.mul_assoc]
    exact Nat.mul_le_mul_right _ (by omega)

/-- Where there is no more room, the significand is odd. -/
theorem odd_of_units_add_gap (h : x.units + x.gap = 2 ^ 52 * 2 ^ x.exponent.val) :
    x.significand % 2 = 1 := by
  have hstep : x.units + x.gap = (x.significand + 1) * x.gap := by
    rw [units, Nat.add_mul, Nat.one_mul]
  rw [hstep] at h
  by_cases hzero : x.exponent.val = 0
  · have hgap : x.gap = 2 ^ x.exponent.val := by rw [gap_eq, hzero]
    rw [← hgap] at h
    have hfull := Nat.eq_of_mul_eq_mul_right x.gap_pos h
    omega
  · have hgap : 2 ^ x.exponent.val = 2 * x.gap := by
      rw [gap_eq, ← Nat.pow_succ', Nat.succ_eq_add_one, Nat.sub_add_cancel (by omega)]
    rw [hgap, ← Nat.mul_assoc] at h
    have hfull := Nat.eq_of_mul_eq_mul_right x.gap_pos h
    omega

/-- In one binade, the range of a double ends before that of a greater one begins. -/
theorem upperBound_le_of_exponent_eq (hexponent : x.exponent = y.exponent)
    (hfraction : x.fraction.val < y.fraction.val) : x.upperBound ≤ y.lowerBound ∧
      (x.upperBound = y.lowerBound → x.significand % 2 = 1 ∨ y.significand % 2 = 1) := by
  have hgap : x.gap = y.gap := by rw [gap_eq, gap_eq, hexponent]
  have hbelow : y.lowerBound = 4 * y.units - 2 * y.gap := by
    rw [lowerBound, if_neg]
    simp only [Bool.and_eq_true, decide_eq_true_eq]
    omega
  have hlt : x.significand < y.significand := by
    rw [significand_eq, significand_eq, hexponent]
    split <;> omega
  have hpos := y.gap_pos
  rw [hbelow, upperBound, units, units, hgap]
  have hstep : (x.significand + 1) * y.gap ≤ y.significand * y.gap := Nat.mul_le_mul_right _ hlt
  rw [Nat.add_mul, Nat.one_mul] at hstep
  refine ⟨by omega, fun heq => ?_⟩
  have hnext : (x.significand + 1) * y.gap = y.significand * y.gap := by
    rw [Nat.add_mul, Nat.one_mul]
    omega
  have hsucc := Nat.eq_of_mul_eq_mul_right hpos hnext
  omega

/-- The range of a double ends before that of one in a later binade begins. -/
theorem upperBound_le_of_exponent_lt (hexponent : x.exponent.val < y.exponent.val) :
    x.upperBound ≤ y.lowerBound ∧
      (x.upperBound = y.lowerBound → x.significand % 2 = 1 ∨ y.significand % 2 = 1) := by
  have hroom := x.units_add_gap_le
  have hodd := odd_of_units_add_gap (x := x)
  have hgap : x.gap ≤ 2 ^ x.exponent.val := Nat.pow_le_pow_right (by decide) (Nat.sub_le _ _)
  have hpos := x.gap_pos
  have hsignificand : y.significand = 2 ^ 52 + y.fraction.val := if_neg (by omega)
  have hunits : y.units = 2 ^ 52 * y.gap + y.fraction.val * y.gap := by
    rw [units, hsignificand, Nat.add_mul]
  have hnext : 2 ^ x.exponent.val ≤ y.gap := Nat.pow_le_pow_right (by decide) (by omega)
  rw [upperBound, lowerBound, hunits]
  by_cases hleast : y.fraction.val = 0 ∧ 1 < y.exponent.val
  · rw [if_pos (by simpa only [Bool.and_eq_true, decide_eq_true_eq]), hleast.1]
    by_cases hadjacent : y.exponent.val = x.exponent.val + 1
    · have hdouble : 2 ^ x.exponent.val = 2 * x.gap := by
        rw [gap_eq, ← Nat.pow_succ', Nat.succ_eq_add_one, Nat.sub_add_cancel (by omega)]
      have hsame : y.gap = 2 ^ x.exponent.val := by
        rw [gap_eq, hadjacent, Nat.add_sub_cancel]
      refine ⟨by omega, fun heq => .inl (hodd (by omega))⟩
    · have hfar : 2 * 2 ^ x.exponent.val ≤ y.gap := by
        rw [← Nat.pow_succ']
        exact Nat.pow_le_pow_right (by decide) (by omega)
      have hstrict : 4 * x.units + 2 * x.gap < 4 * (2 ^ 52 * y.gap) - y.gap := by
        clear hodd
        omega
      rw [Nat.zero_mul, Nat.add_zero]
      exact ⟨Nat.le_of_lt hstrict, fun heq => absurd heq (Nat.ne_of_lt hstrict)⟩
  · rw [if_neg (by simpa only [Bool.and_eq_true, decide_eq_true_eq])]
    by_cases hzero : y.fraction.val = 0
    · have hfirst : y.exponent.val = 1 := by omega
      have hsame : y.gap = 1 := by simp [gap_eq, hfirst]
      have hone : 2 ^ x.exponent.val = 1 := by
        rw [show x.exponent.val = 0 by omega, Nat.pow_zero]
      refine ⟨by omega, fun heq => .inl (hodd (by omega))⟩
    · have hfraction : y.gap ≤ y.fraction.val * y.gap :=
        Nat.le_mul_of_pos_left _ (Nat.pos_of_ne_zero hzero)
      refine ⟨by omega, fun heq => by omega⟩

/-- The range of a double ends before that of a greater one begins; both ranges hold their ends
only if both significands are even, and then there is something between them. -/
theorem upperBound_le_lowerBound (hrank : x.rank < y.rank) : x.upperBound ≤ y.lowerBound ∧
    (x.upperBound = y.lowerBound → x.significand % 2 = 1 ∨ y.significand % 2 = 1) := by
  have hx := x.fraction_lt
  have hy := y.fraction_lt
  have hplace : x.exponent.val * 2 ^ 52 + x.fraction.val <
    y.exponent.val * 2 ^ 52 + y.fraction.val := hrank
  by_cases hexponent : x.exponent = y.exponent
  · refine upperBound_le_of_exponent_eq hexponent ?_
    rw [hexponent] at hplace
    omega
  · have hne : x.exponent.val ≠ y.exponent.val := fun h => hexponent (Fin.ext h)
    exact upperBound_le_of_exponent_lt (by omega)

/-- The quotients, in quarters of a unit, that are nearest to the size of a double. -/
def Covers (x : Binary64) (n q : Nat) : Prop :=
  if x.significand % 2 = 0 then x.lowerBound * q ≤ n ∧ n ≤ x.upperBound * q
  else x.lowerBound * q < n ∧ n < x.upperBound * q

variable {n q : Nat}

theorem Covers.bounds (h : x.Covers n q) : x.lowerBound * q ≤ n ∧ n ≤ x.upperBound * q := by
  unfold Covers at h
  split at h
  · exact h
  · exact ⟨Nat.le_of_lt h.1, Nat.le_of_lt h.2⟩

/-- What a double covers is not covered by a greater one. -/
theorem Covers.not_of_rank_lt (hq : 0 < q) (hx : x.Covers n q) (hrank : x.rank < y.rank) :
    ¬ y.Covers n q := by
  intro hy
  obtain ⟨hle, hends⟩ := upperBound_le_lowerBound hrank
  have hle' : x.upperBound * q ≤ y.lowerBound * q := Nat.mul_le_mul_right q hle
  have hmeet : x.upperBound * q = y.lowerBound * q :=
    Nat.le_antisymm hle' (Nat.le_trans hy.bounds.1 hx.bounds.2)
  rcases hends (Nat.eq_of_mul_eq_mul_right hq hmeet) with hodd | hodd
  · rw [Covers, if_neg (by omega)] at hx
    have hbelow := hy.bounds.1
    omega
  · rw [Covers, if_neg (by omega)] at hy
    have habove := hx.bounds.2
    omega

/-- Doubles of one sign that cover one quotient are the same. -/
theorem Covers.unique (hq : 0 < q) (hx : x.Covers n q) (hy : y.Covers n q)
    (hnegative : x.negative = y.negative) : x = y := by
  refine eq_of_rank ?_ hnegative
  rcases Nat.lt_trichotomy x.rank y.rank with hlt | heq | hlt
  · exact (hx.not_of_rank_lt hq hlt hy).elim
  · exact heq
  · exact (hy.not_of_rank_lt hq hlt hx).elim

/-- It makes no difference how a quotient is written. -/
theorem covers_congr {n' q' : Nat} (hq : 0 < q) (hq' : 0 < q') (h : n * q' = n' * q) :
    x.Covers n q ↔ x.Covers n' q' := by
  have hbelow (a : Nat) : a * q ≤ n ↔ a * q' ≤ n' := by
    calc a * q ≤ n ↔ a * q * q' ≤ n * q' := (Nat.mul_le_mul_right_iff hq').symm
      _ ↔ a * q' * q ≤ n' * q := by rw [h, Nat.mul_right_comm]
      _ ↔ a * q' ≤ n' := Nat.mul_le_mul_right_iff hq
  have habove (a : Nat) : n ≤ a * q ↔ n' ≤ a * q' := by
    calc n ≤ a * q ↔ n * q' ≤ a * q * q' := (Nat.mul_le_mul_right_iff hq').symm
      _ ↔ n' * q ≤ a * q' * q := by rw [h, Nat.mul_right_comm]
      _ ↔ n' ≤ a * q' := Nat.mul_le_mul_right_iff hq
  unfold Covers
  simp only [← Nat.not_le, hbelow, habove]

end Binary64

/-! ### Decimals -/

namespace Decimal

variable {d d' : Decimal} {x y : Binary64} {tie : Tie} {e : Int}

theorem quarters_eq (d : Decimal) : d.quarters =
    if 0 ≤ d.exponent then (d.digits * 10 ^ d.exponent.toNat * 2 ^ 1076, 1)
    else (d.digits * 2 ^ 1076, 10 ^ (-d.exponent).toNat) := rfl

theorem quarters_pos (d : Decimal) : 0 < d.quarters.2 := by
  rw [quarters_eq]
  split
  · exact Nat.one_pos
  · exact Nat.pow_pos (by decide)

/-- A decimal reads back as a double if the double covers it. -/
theorem readsAs_iff : d.readsAs x = true ↔ x.Covers d.quarters.1 d.quarters.2 := by
  unfold readsAs Binary64.Covers
  dsimp only
  split <;> simp

/-- A decimal reads back as one double of each sign at most. -/
theorem eq_of_readsAs (hx : d.readsAs x = true) (hy : d.readsAs y = true)
    (hnegative : x.negative = y.negative) : x = y :=
  (readsAs_iff.1 hx).unique d.quarters_pos (readsAs_iff.1 hy) hnegative

/-- Decimals of one value. -/
def Same (d d' : Decimal) : Prop :=
  d.quarters.1 * d'.quarters.2 = d'.quarters.1 * d.quarters.2

theorem Same.readsAs_iff (h : d.Same d') : d.readsAs x = true ↔ d'.readsAs x = true := by
  rw [Decimal.readsAs_iff, Decimal.readsAs_iff]
  exact Binary64.covers_congr d.quarters_pos d'.quarters_pos h

theorem quarters_zero (e : Int) : (⟨0, e⟩ : Decimal).quarters.1 = 0 := by
  rw [quarters_eq]
  split <;> simp

theorem same_zero (e e' : Int) : Same ⟨0, e⟩ ⟨0, e'⟩ := by
  rw [Same, quarters_zero, quarters_zero, Nat.zero_mul, Nat.zero_mul]

/-- A decimal with zeros behind its digits, and a smaller exponent for them. -/
def shift (d : Decimal) (k : Nat) : Decimal :=
  ⟨d.digits * 10 ^ k, d.exponent - k⟩

/-- Zeros behind the digits make no difference to the value. -/
theorem same_shift (d : Decimal) (k : Nat) : (d.shift k).Same d := by
  obtain ⟨n, e⟩ := d
  unfold Same shift
  simp only [quarters_eq]
  generalize 2 ^ 1076 = c
  by_cases he : 0 ≤ e
  · obtain ⟨j, rfl⟩ := Int.eq_ofNat_of_zero_le he
    by_cases hk : k ≤ j
    · obtain ⟨i, rfl⟩ := Nat.exists_eq_add_of_le hk
      rw [if_pos (by omega), if_pos (by omega), show ((k + i : Nat) : Int) - k = i by omega]
      simp only [Int.toNat_natCast, Nat.pow_add]
      ac_rfl
    · obtain ⟨i, rfl⟩ := Nat.exists_eq_add_of_lt (Nat.lt_of_not_le hk)
      rw [if_neg (by omega), if_pos (by omega),
        show -((j : Int) - (j + i + 1 : Nat)) = (i + 1 : Nat) by omega]
      simp only [Int.toNat_natCast, Nat.add_assoc, Nat.pow_add]
      ac_rfl
  · obtain ⟨j, rfl⟩ : ∃ j : Nat, e = -(j : Int) := ⟨(-e).toNat, by omega⟩
    rw [if_neg (by omega), if_neg (by omega), show -(-(j : Int) - k) = (j + k : Nat) by omega,
      show - -(j : Int) = j by omega]
    simp only [Int.toNat_natCast, Nat.pow_add]
    ac_rfl

/-- What is cut off the digits is zeros. -/
theorem exists_shift_trim (d : Decimal) : ∃ k, d.trim.shift k = d := by
  induction d using trim.induct with
  | case1 d h ih =>
    obtain ⟨k, hk⟩ := ih
    obtain ⟨hdigits, hexponent⟩ := Decimal.mk.inj hk
    have hdigits' : (trim ⟨d.digits / 10, d.exponent + 1⟩).digits * 10 ^ (k + 1) = d.digits := by
      rw [Nat.pow_succ, ← Nat.mul_assoc, hdigits]
      omega
    refine ⟨k + 1, ?_⟩
    rw [trim, dif_pos h, shift, hdigits',
      show _ - ((k + 1 : Nat) : Int) = d.exponent by omega]
  | case2 d h =>
    refine ⟨0, ?_⟩
    rw [trim, dif_neg h, shift, Nat.pow_zero, Nat.mul_one]
    simp

theorem readsAs_trim : d.trim.readsAs x = true ↔ d.readsAs x = true := by
  obtain ⟨k, hk⟩ := d.exists_shift_trim
  have hsame := same_shift d.trim k
  rw [hk] at hsame
  exact hsame.readsAs_iff.symm

/-! ### The search -/

theorem readsAs_nearer (h : d.readsAs x = true) (hnext : d.next.readsAs x = true) :
    (d.nearer tie x).readsAs x = true := by
  unfold nearer
  grind

theorem readsAs_of_atExponent? (h : atExponent? tie x e = some d) : d.readsAs x = true := by
  unfold atExponent? at h
  dsimp only at h
  split at h
  · rename_i hbelow habove
    cases h
    exact readsAs_nearer hbelow habove
  · rename_i hbelow _
    cases h
    exact hbelow
  · rename_i _ habove
    cases h
    exact habove
  · cases h

/-- The search finds a decimal that reads back, or ends with the last exponent. -/
theorem search_cases (tie : Tie) (n : Nat) (e : Int) :
    (search tie x n e).readsAs x = true ∨ search tie x n e = floor x (e - n) := by
  induction n generalizing e with
  | zero => exact .inr (by simp [search])
  | succ n ih =>
    unfold search
    cases h : atExponent? tie x e with
    | some d => exact .inl (readsAs_of_atExponent? h)
    | none =>
      have hlast : e - 1 - (n : Int) = e - (n + 1 : Nat) := by omega
      rw [← hlast]
      exact ih (e - 1)

theorem mul_two_pow_add_two (m j : Nat) : m * 2 ^ (j + 2) = 4 * (2 ^ j * m) := by
  rw [Nat.pow_add, ← Nat.mul_assoc, Nat.mul_comm, Nat.mul_comm m]

/-- With enough digits the decimal is exact. -/
theorem readsAs_floor {k : Nat} (hunits : 0 < x.units) (hk : 0 < k)
    (hexact : 2 ^ 1074 ∣ x.units * 10 ^ k) : (floor x (-k)).readsAs x = true := by
  obtain ⟨m, hm⟩ := hexact
  have hpos : 0 < 10 ^ k := Nat.pow_pos (by decide)
  have hfloor : floor x (-k) = ⟨m, -k⟩ := by
    have hdigits : x.units * 10 ^ k / 2 ^ 1074 = m := by
      rw [hm, Nat.mul_div_cancel_left m (Nat.two_pow_pos 1074)]
    rw [floor, if_neg (by omega), Int.neg_neg, Int.toNat_natCast]
    exact congrArg (Decimal.mk · _) hdigits
  have hquarters : (⟨m, -k⟩ : Decimal).quarters = (4 * x.units * 10 ^ k, 10 ^ k) := by
    have hscale : m * 2 ^ 1076 = 4 * (2 ^ 1074 * m) := mul_two_pow_add_two m 1074
    rw [quarters_eq, if_neg (by dsimp only; omega), Int.neg_neg, Int.toNat_natCast, hscale, ← hm,
      Nat.mul_assoc]
  have hgap := x.gap_pos
  have hbelow : x.lowerBound < 4 * x.units := by
    unfold Binary64.lowerBound
    split <;> omega
  have habove : 4 * x.units < x.upperBound := by
    unfold Binary64.upperBound
    omega
  have hbelow' := Nat.mul_lt_mul_of_pos_right hbelow hpos
  have habove' := Nat.mul_lt_mul_of_pos_right habove hpos
  rw [hfloor, readsAs_iff, hquarters, Binary64.Covers]
  split
  · exact ⟨Nat.le_of_lt hbelow', Nat.le_of_lt habove'⟩
  · exact ⟨hbelow', habove'⟩

/-- The exponent of a double of at least one is so great that 52 digits after the point make it a
whole number. -/
theorem exact_of_whole (hwhole : 2 ^ 1074 ≤ x.units) {k : Nat} (hk : 52 ≤ k) :
    2 ^ 1074 ∣ x.units * 10 ^ k := by
  have hfraction := x.fraction_lt
  have hsignificand : x.significand < 2 ^ 53 := by
    rw [Binary64.significand_eq]
    split <;> omega
  have hunits : x.units < 2 ^ (53 + (x.exponent.val - 1)) := by
    rw [Nat.pow_add]
    exact Nat.mul_lt_mul_of_pos_right hsignificand x.gap_pos
  have hlt : 2 ^ 1074 < 2 ^ (53 + (x.exponent.val - 1)) := Nat.lt_of_le_of_lt hwhole hunits
  have hlarge : 1074 < 53 + (x.exponent.val - 1) :=
    (Nat.pow_lt_pow_iff_right (show 1 < 2 by decide)).1 hlt
  have hten : 10 ^ k = 2 ^ k * 5 ^ k := by rw [← Nat.mul_pow]
  have hdvd : 2 ^ 1074 ∣ x.gap * 2 ^ k := by
    rw [Binary64.gap_eq, ← Nat.pow_add]
    exact Nat.pow_dvd_pow 2 (show 1074 ≤ x.exponent.val - 1 + k by omega)
  rw [Binary64.units, hten, Nat.mul_assoc, ← Nat.mul_assoc x.gap]
  exact Nat.dvd_mul_left_of_dvd (Nat.dvd_mul_right_of_dvd hdvd _) _

/-- No finite double has more than 1024 digits before the point. -/
theorem length_whole_le (hfinite : x.isFinite = true) :
    (toString (x.units / 2 ^ 1074)).length ≤ 1024 := by
  have hfraction := x.fraction_lt
  have hexponent : x.exponent.val ≠ 2047 := by simpa [Binary64.isFinite] using hfinite
  have hbound := x.exponent.isLt
  have hroom := x.units_add_gap_le
  have hpos := x.gap_pos
  have hunits : x.units < 2 ^ 1024 * 2 ^ 1074 := by
    rw [← Nat.pow_add]
    refine Nat.lt_of_lt_of_le (show x.units < 2 ^ (52 + x.exponent.val) by
      rw [Nat.pow_add]; omega) ?_
    exact Nat.pow_le_pow_right (by decide) (by omega)
  refine (Nat.length_repr_le_iff (by decide)).2 ?_
  refine Nat.lt_of_lt_of_le (Nat.div_lt_of_lt_mul ((Nat.mul_comm _ _).subst hunits)) ?_
  exact Nat.pow_le_pow_left (by decide) 1024

theorem pointOf_eq (x : Binary64) : pointOf x =
    if x.units / 2 ^ 1074 ≠ 0 then ((toString (x.units / 2 ^ 1074)).length : Int)
    else Int.negOfNat (((List.range 330).find? fun j =>
      2 ^ 1074 ≤ x.units * 10 ^ (j + 1)).getD 0) := rfl

/-- The search goes on to an exponent at which every finite double is a whole number. -/
theorem exact_at_last (hfinite : x.isFinite = true) :
    ∃ k : Nat, 0 < k ∧ pointOf x - 1 - (1100 : Nat) = -k ∧ 2 ^ 1074 ∣ x.units * 10 ^ k := by
  have hten (k : Nat) : 10 ^ k = 2 ^ k * 5 ^ k := by rw [← Nat.mul_pow]
  rw [pointOf_eq]
  by_cases hwhole : x.units / 2 ^ 1074 = 0
  · simp only [hwhole, ne_eq, not_true_eq_false, if_false]
    generalize Option.getD _ 0 = zeros
    refine ⟨zeros + 1101, by omega, ?_, ?_⟩
    · rw [Int.negOfNat_eq]
      simp
      omega
    · have hle : 1074 ≤ zeros + 1101 := by omega
      have hdvd := Nat.pow_dvd_pow 2 hle
      rw [hten, ← Nat.mul_assoc]
      refine Nat.dvd_mul_right_of_dvd (Nat.dvd_mul_left_of_dvd ?_ _) _
      exact hdvd
  · have hlength := length_whole_le hfinite
    simp only [ne_eq, hwhole, not_false_eq_true, if_true]
    generalize (toString (x.units / 2 ^ 1074)).length = length at hlength
    refine ⟨1101 - length, by omega, by omega, exact_of_whole ?_ (by omega)⟩
    exact Nat.le_of_not_lt fun hlt => hwhole (Nat.div_eq_of_lt hlt)

/-- The shortest decimal of a finite double reads back as it. -/
theorem readsAs_shortest (tie : Tie) (hfinite : x.isFinite = true) :
    (shortest tie x).readsAs x = true := by
  by_cases hzero : x.units = 0
  · have hsignificand : x.significand = 0 :=
      (Nat.mul_eq_zero.1 hzero).resolve_right (Nat.ne_of_gt x.gap_pos)
    have hlower : x.lowerBound = 0 := by rw [Binary64.lowerBound, hzero, Nat.mul_zero, Nat.zero_sub]
    rw [shortest, if_pos hzero, readsAs_iff, Binary64.Covers, hsignificand, hlower, quarters_zero,
      Nat.zero_mul]
    exact ⟨Nat.le_refl 0, Nat.zero_le _⟩
  · rw [shortest, if_neg hzero, readsAs_trim]
    rcases search_cases tie 1100 (pointOf x - 1) with hfound | hlast
    · exact hfound
    · obtain ⟨k, hk, hexponent, hexact⟩ := exact_at_last hfinite
      rw [hlast, hexponent]
      exact readsAs_floor (Nat.pos_of_ne_zero hzero) hk hexact

end Decimal

end CTree
