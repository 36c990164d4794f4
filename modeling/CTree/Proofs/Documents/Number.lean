import CTree.Json.Basic
import CTree.Proofs.Documents.Double

/-!
# Texts of numbers

The text of a double stands for a decimal of the value of its shortest one, wherever the layout
puts the point and whether or not it uses an exponent. So finite doubles with one text are the same.
The text of a double has a point or an exponent, which that of an integer does not have.
-/

namespace CTree

namespace Numeral

/-! ### What a text stands for -/

/-- The decimal that digits stand for, with or without a point among them. -/
def mantissa (cs : List Char) : Decimal :=
  let whole := cs.takeWhile (· != '.')
  let fraction := (cs.dropWhile (· != '.')).drop 1
  ⟨Nat.ofDigitChars 10 (whole ++ fraction) 0, -(fraction.length : Int)⟩

/-- The power of ten that an exponent with its sign stands for. -/
def power : List Char → Int
  | [] => 0
  | c :: cs => if c = '-' then -(Nat.ofDigitChars 10 cs 0 : Int) else Nat.ofDigitChars 10 cs 0

/-- The decimal that a text without a sign stands for. -/
def magnitude (cs : List Char) : Decimal :=
  let m := mantissa (cs.takeWhile (· != 'e'))
  ⟨m.digits, m.exponent + power ((cs.dropWhile (· != 'e')).drop 1)⟩

/-- Nothing but digits. -/
def Digits (cs : List Char) : Prop :=
  ∀ c ∈ cs, c.isDigit = true

/-- The characters of numbers. -/
def isMark (c : Char) : Bool :=
  c.isDigit || c == '.' || c == 'e' || c == '-' || c == '+'

variable {cs ds whole fraction : List Char} {c : Char}

theorem ne_of_isDigit {m : Char} (h : c.isDigit = true) (hm : m.isDigit = false) : c ≠ m := by
  rintro rfl
  rw [h] at hm
  cases hm

theorem isMark_of_isDigit (h : c.isDigit = true) : isMark c = true := by
  simp [isMark, h]

theorem Digits.append (h : Digits cs) (h' : Digits ds) : Digits (cs ++ ds) :=
  List.forall_mem_append.2 ⟨h, h'⟩

theorem digits_zeros (n : Nat) : Digits (List.replicate n '0') := by
  intro c hc
  rw [(List.mem_replicate.1 hc).2]
  rfl

theorem digits_toDigits (n : Nat) : Digits (Nat.toDigits 10 n) :=
  fun _ hc => Nat.isDigit_of_mem_toDigits (by decide) (by decide) hc

/-- A mark ends what stands before it. -/
theorem takeWhile_mark (m : Char) (ds : List Char) (h : ∀ c ∈ cs, c ≠ m) :
    (cs ++ m :: ds).takeWhile (· != m) = cs ∧ (cs ++ m :: ds).dropWhile (· != m) = m :: ds := by
  have hall : ∀ c ∈ cs, (c != m) = true := fun c hc => bne_iff_ne.2 (h c hc)
  rw [List.takeWhile_append_of_pos hall, List.dropWhile_append_of_pos hall]
  simp

theorem takeWhile_unmarked (m : Char) (h : ∀ c ∈ cs, c ≠ m) :
    cs.takeWhile (· != m) = cs ∧ cs.dropWhile (· != m) = [] := by
  have hall : ∀ c ∈ cs, (c != m) = true := fun c hc => bne_iff_ne.2 (h c hc)
  have htake : (cs ++ []).takeWhile (· != m) = cs := by
    rw [List.takeWhile_append_of_pos hall, List.takeWhile_nil, List.append_nil]
  have hdrop : (cs ++ []).dropWhile (· != m) = [] := by
    rw [List.dropWhile_append_of_pos hall, List.dropWhile_nil]
  rw [List.append_nil] at htake hdrop
  exact ⟨htake, hdrop⟩

theorem mantissa_point (h : Digits whole) : mantissa (whole ++ '.' :: fraction) =
    ⟨Nat.ofDigitChars 10 (whole ++ fraction) 0, -(fraction.length : Int)⟩ := by
  obtain ⟨htake, hdrop⟩ := takeWhile_mark '.' fraction
    fun c hc => ne_of_isDigit (h c hc) rfl
  rw [mantissa, htake, hdrop]
  rfl

theorem mantissa_whole (h : Digits cs) : mantissa cs = ⟨Nat.ofDigitChars 10 cs 0, 0⟩ := by
  obtain ⟨htake, hdrop⟩ := takeWhile_unmarked '.' fun c hc => ne_of_isDigit (h c hc) rfl
  simp [mantissa, htake, hdrop]

theorem magnitude_plain (h : 'e' ∉ cs) : magnitude cs = mantissa cs := by
  have hne : ∀ c ∈ cs, c ≠ 'e' := fun c hc heq => h (heq ▸ hc)
  obtain ⟨htake, hdrop⟩ := takeWhile_unmarked 'e' hne
  simp [magnitude, htake, hdrop, power]

theorem magnitude_exponent (h : 'e' ∉ cs) : magnitude (cs ++ 'e' :: ds) =
    ⟨(mantissa cs).digits, (mantissa cs).exponent + power ds⟩ := by
  have hne : ∀ c ∈ cs, c ≠ 'e' := fun c hc heq => h (heq ▸ hc)
  obtain ⟨htake, hdrop⟩ := takeWhile_mark 'e' ds hne
  rw [magnitude, htake, hdrop]
  rfl

theorem Digits.not_mem {m : Char} (h : Digits cs) (hm : m.isDigit = false) : m ∉ cs :=
  fun hmem => ne_of_isDigit (h m hmem) hm rfl

/-! ### Texts of doubles -/

/-- A text of a double without its sign: it begins with a digit, has a point or an exponent, and
stands for a decimal of the same value as the given one. -/
structure IsReal (cs : List Char) (d : Decimal) : Prop where
  magnitude : (magnitude cs).Same d
  marks : ∀ c ∈ cs, isMark c = true
  marked : '.' ∈ cs ∨ 'e' ∈ cs
  head : ∃ c ds, cs = c :: ds ∧ c.isDigit = true

/-- Digits with a point between them are a text of a double. -/
theorem isReal_point {d : Decimal} (hwhole : Digits whole) (hfraction : Digits fraction)
    (hne : whole ≠ []) (hd : Decimal.Same
      ⟨Nat.ofDigitChars 10 (whole ++ fraction) 0, -(fraction.length : Int)⟩ d) :
    IsReal (whole ++ '.' :: fraction) d := by
  obtain ⟨c, ds, rfl⟩ := List.exists_cons_of_ne_nil hne
  have hplain : 'e' ∉ (c :: ds) ++ '.' :: fraction := by
    intro hmem
    rcases List.mem_append.1 hmem with h | h
    · exact hwhole.not_mem rfl h
    · rcases List.mem_cons.1 h with h | h
      · exact absurd h (by decide)
      · exact hfraction.not_mem rfl h
  refine ⟨?_, ?_, .inl ?_, c, _, rfl, hwhole c List.mem_cons_self⟩
  · rwa [magnitude_plain hplain, mantissa_point hwhole]
  · refine List.forall_mem_append.2 ⟨fun c hc => isMark_of_isDigit (hwhole c hc), ?_⟩
    exact List.forall_mem_cons.2 ⟨rfl, fun c hc => isMark_of_isDigit (hfraction c hc)⟩
  · exact List.mem_append_right _ List.mem_cons_self

/-- Zeros behind digits multiply by a power of ten. -/
theorem ofDigitChars_zeros (n : Nat) : Nat.ofDigitChars 10 (cs ++ List.replicate n '0') 0 =
    Nat.ofDigitChars 10 cs 0 * 10 ^ n := by
  rw [Nat.ofDigitChars_append, Nat.ofDigitChars_replicate_zero, Nat.mul_comm]

theorem ofDigitChars_zeros_append (n : Nat) :
    Nat.ofDigitChars 10 (List.replicate n '0' ++ cs) 0 = Nat.ofDigitChars 10 cs 0 := by
  rw [Nat.ofDigitChars_append, Nat.ofDigitChars_replicate_zero, Nat.mul_zero]

/-- The decimal of digits with the point after the given number of them. -/
def ofPoint (ds : List Char) (point : Int) : Decimal :=
  ⟨Nat.ofDigitChars 10 ds 0, point - ds.length⟩

section Point

variable (hdigits : Digits ds) (hne : ds ≠ [])

include hdigits in
/-- The point stands before the digits, with zeros between. -/
theorem isReal_point_before (k : Nat) :
    IsReal (List.replicate 1 '0' ++ '.' :: (List.replicate k '0' ++ ds)) (ofPoint ds (-k)) := by
  have hzeros : Digits (List.replicate k '0' ++ ds) := (digits_zeros k).append hdigits
  refine isReal_point (digits_zeros 1) hzeros (by decide) ?_
  rw [ofDigitChars_zeros_append, ofDigitChars_zeros_append, ofPoint, List.length_append,
    List.length_replicate, show -((k + ds.length : Nat) : Int) = -k - ds.length by omega]
  rfl

include hdigits hne

/-- The point stands behind the digits, with zeros between and one behind it. -/
theorem isReal_point_behind (j : Nat) :
    IsReal (ds ++ List.replicate j '0' ++ '.' :: List.replicate 1 '0')
      (ofPoint ds (ds.length + j : Nat)) := by
  have hzeros : Digits (ds ++ List.replicate j '0') := hdigits.append (digits_zeros j)
  refine isReal_point hzeros (digits_zeros 1) (by simp [hne]) ?_
  -- All zeros, the one behind the point as well, are digits that the exponent takes back.
  rw [List.append_assoc, List.replicate_append_replicate, ofDigitChars_zeros, List.length_replicate]
  have hshift := Decimal.same_shift (ofPoint ds (ds.length + j : Nat)) (j + 1)
  rwa [Decimal.shift, ofPoint,
    show ((ds.length + j : Nat) : Int) - ds.length - (j + 1 : Nat) = -(1 : Nat) by omega] at hshift

/-- The point stands among the digits. -/
theorem isReal_point_among {k : Nat} (hpos : k ≠ 0) (hk : k < ds.length) :
    IsReal (ds.take k ++ '.' :: ds.drop k) (ofPoint ds k) := by
  have htake : Digits (ds.take k) := fun c hc => hdigits c (List.mem_of_mem_take hc)
  have hdrop : Digits (ds.drop k) := fun c hc => hdigits c (List.mem_of_mem_drop hc)
  refine isReal_point htake hdrop (by simp [hne, hpos]) ?_
  rw [List.take_append_drop, List.length_drop, ofPoint,
    show -((ds.length - k : Nat) : Int) = k - ds.length by omega]
  rfl

/-- Wherever the point is, the digits keep their value. -/
theorem isReal_plain (point : Int) : IsReal (Layout.json.plain ds point).toList (ofPoint ds point) := by
  unfold Layout.plain
  split
  · rename_i hpoint
    obtain ⟨k, rfl⟩ : ∃ k : Nat, point = -k := ⟨(-point).toNat, by omega⟩
    have htext : ("0." ++ Layout.zeros (- -(k : Int)).toNat ++ String.ofList ds).toList =
        List.replicate 1 '0' ++ '.' :: (List.replicate k '0' ++ ds) := by
      simp [Layout.zeros]
    rw [htext]
    exact isReal_point_before hdigits k
  split
  · rename_i hpoint hlong
    obtain ⟨k, rfl⟩ : ∃ k : Nat, point = k := ⟨point.toNat, by omega⟩
    obtain ⟨j, rfl⟩ := Nat.exists_eq_add_of_le (show ds.length ≤ k from hlong)
    have htext : (String.ofList ds ++
        Layout.zeros (((ds.length + j : Nat) : Int).toNat - ds.length) ++
          Layout.json.wholeMark).toList =
        ds ++ List.replicate j '0' ++ '.' :: List.replicate 1 '0' := by
      simp [Layout.zeros, Layout.json]
      omega
    rw [htext]
    exact isReal_point_behind hdigits hne j
  · rename_i hpoint hshort
    obtain ⟨k, rfl⟩ : ∃ k : Nat, point = k := ⟨point.toNat, by omega⟩
    have htext : (String.ofList (ds.take (k : Int).toNat) ++ "." ++
        String.ofList (ds.drop (k : Int).toNat)).toList = ds.take k ++ '.' :: ds.drop k := by
      simp
    rw [htext]
    exact isReal_point_among hdigits hne (by omega) (Nat.lt_of_not_le hshort)

end Point

/-- An exponent is made up of a sign and digits. -/
theorem power_toString (point : Int) : ∃ c cs, isMark c = true ∧ Digits cs ∧
    ((if point ≤ 0 then "e-" else "e+") ++ toString (point - 1).natAbs).toList = 'e' :: c :: cs ∧
    power (c :: cs) = point - 1 := by
  have hdigits := digits_toDigits (point - 1).natAbs
  split
  · refine ⟨'-', _, rfl, hdigits, by simp, ?_⟩
    rw [power, if_pos rfl, Nat.ofDigitChars_ten_toDigits]
    omega
  · refine ⟨'+', _, rfl, hdigits, by simp, ?_⟩
    rw [power, if_neg (by decide), Nat.ofDigitChars_ten_toDigits]
    omega

/-- With an exponent, the digits keep their value too. -/
theorem isReal_scientific (point : Int) (hdigits : Digits ds) (hne : ds ≠ []) :
    IsReal (Layout.scientific ds point).toList (ofPoint ds point) := by
  obtain ⟨d, rest, rfl⟩ := List.exists_cons_of_ne_nil hne
  obtain ⟨sign, es, hsign, hes, htext, hpower⟩ := power_toString point
  have hd : d.isDigit = true := hdigits d List.mem_cons_self
  have hrest : Digits rest := fun c hc => hdigits c (List.mem_cons_of_mem _ hc)
  obtain ⟨cs, hcs, hplain, hmarks, hmantissa⟩ : ∃ cs,
      (String.ofList [d] ++ if rest.isEmpty then "" else "." ++ String.ofList rest).toList =
        d :: cs ∧ 'e' ∉ d :: cs ∧ (∀ c ∈ d :: cs, isMark c = true) ∧
      mantissa (d :: cs) = ⟨Nat.ofDigitChars 10 (d :: rest) 0, -(rest.length : Int)⟩ := by
    cases rest with
    | nil =>
      refine ⟨[], by simp, hdigits.not_mem rfl, fun c hc => isMark_of_isDigit (hdigits c hc), ?_⟩
      rw [mantissa_whole hdigits]
      rfl
    | cons c cs =>
      have hone : Digits [d] := by simpa [Digits] using hd
      have hreal := isReal_point hone hrest (by simp) rfl
      refine ⟨'.' :: c :: cs, by simp, ?_, hreal.marks, mantissa_point hone⟩
      simp only [List.mem_cons, not_or]
      exact ⟨(ne_of_isDigit hd rfl).symm, by decide, (ne_of_isDigit (hrest c (by simp)) rfl).symm,
        fun h => hrest.not_mem rfl (List.mem_cons_of_mem _ h)⟩
  have hwhole : (Layout.scientific (d :: rest) point).toList = (d :: cs) ++ 'e' :: sign :: es := by
    rw [← htext, ← hcs]
    simp [Layout.scientific]
  rw [hwhole]
  refine ⟨?_, ?_, .inr ?_, d, _, rfl, hd⟩
  · rw [magnitude_exponent hplain, hpower, hmantissa, ofPoint, List.length_cons,
      show -(rest.length : Int) + (point - 1) = point - (rest.length + 1 : Nat) by omega]
    rfl
  · refine List.forall_mem_append.2 ⟨hmarks, ?_⟩
    refine List.forall_mem_cons.2 ⟨rfl, List.forall_mem_cons.2 ⟨hsign, ?_⟩⟩
    exact fun c hc => isMark_of_isDigit (hes c hc)
  · exact List.mem_append_right _ List.mem_cons_self

/-- The text of a double: its sign, and a text that stands for its shortest decimal. -/
theorem exists_isReal (x : Binary64) : ∃ cs, IsReal cs (Decimal.shortest .even x) ∧
    (Layout.json.write x).toList = (if x.negative then ['-'] else []) ++ cs := by
  have hsign : (if x.negative then "-" else "").toList = if x.negative then ['-'] else [] := by
    split <;> rfl
  rw [Layout.write, String.toList_append, hsign]
  refine ⟨_, ?_, rfl⟩
  have htie : Layout.json.tie = .even := rfl
  rw [htie]
  generalize Decimal.shortest .even x = d
  have htext : (toString d.digits).toList = Nat.toDigits 10 d.digits := Nat.toList_repr
  have hdigits := digits_toDigits d.digits
  have hne : Nat.toDigits 10 d.digits ≠ [] := Nat.toDigits_ne_nil
  have hd : ofPoint (Nat.toDigits 10 d.digits)
      ((Nat.toDigits 10 d.digits).length + d.exponent) = d := by
    rw [ofPoint, Nat.ofDigitChars_ten_toDigits, Int.add_comm, Int.add_sub_cancel]
  rw [htext]
  split
  · rename_i hzero
    refine isReal_point (digits_zeros 1) (digits_zeros 1) (by decide) ?_
    obtain ⟨digits, exponent⟩ := d
    obtain rfl : digits = 0 := hzero
    exact Decimal.same_zero _ _
  split
  · have hplain := isReal_plain hdigits hne ((Nat.toDigits 10 d.digits).length + d.exponent)
    rwa [hd] at hplain
  · have hscientific :=
      isReal_scientific ((Nat.toDigits 10 d.digits).length + d.exponent) hdigits hne
    rwa [hd] at hscientific

/-- Finite doubles with one text are the same. -/
theorem eq_of_write_eq {x y : Binary64} (hx : x.isFinite = true) (hy : y.isFinite = true)
    (h : (Layout.json.write x).toList = (Layout.json.write y).toList) : x = y := by
  obtain ⟨cs, hcs, htext⟩ := exists_isReal x
  obtain ⟨ds, hds, htext'⟩ := exists_isReal y
  obtain ⟨c, cs', hhead, hc⟩ := hcs.head
  obtain ⟨d, ds', hhead', hd⟩ := hds.head
  rw [htext, htext'] at h
  have hboth : x.negative = y.negative ∧ cs = ds := by
    cases hnx : x.negative <;> cases hny : y.negative <;>
      simp only [hnx, hny, if_true, if_false, Bool.false_eq_true, List.nil_append,
        List.cons_append, List.cons.injEq, true_and] at h ⊢
    · exact h
    · rw [hhead] at h
      obtain ⟨rfl, -⟩ := List.cons.inj h
      cases hc
    · rw [hhead'] at h
      obtain ⟨rfl, -⟩ := List.cons.inj h
      cases hd
    · exact h
  obtain ⟨hnegative, rfl⟩ := hboth
  have hreads : (magnitude cs).readsAs x = true :=
    hcs.magnitude.readsAs_iff.2 (Decimal.readsAs_shortest .even hx)
  have hreads' : (magnitude cs).readsAs y = true :=
    hds.magnitude.readsAs_iff.2 (Decimal.readsAs_shortest .even hy)
  exact Decimal.eq_of_readsAs hreads hreads' hnegative

/-! ### Texts of numbers -/

/-- The text of an integer has digits, behind a sign if it is negative. -/
theorem toList_toString (n : Int) :
    (toString n).toList = (if n < 0 then ['-'] else []) ++ Nat.toDigits 10 n.natAbs := by
  cases n with
  | ofNat n => exact Nat.toList_repr
  | negSucc n =>
    rw [if_pos (Int.negSucc_lt_zero n)]
    show ("-" ++ Nat.repr (n + 1)).toList = _
    rw [String.toList_append, Nat.toList_repr]
    rfl

/-- Integers with one text are the same. -/
theorem eq_of_toString_eq {m n : Int} (h : (toString m).toList = (toString n).toList) :
    m = n := by
  have hdigit (k : Nat) (cs : List Char) : Nat.toDigits 10 k ≠ '-' :: cs := fun heq =>
    (digits_toDigits k).not_mem (m := '-') rfl (by rw [heq]; exact List.mem_cons_self)
  have hinjective {k l : Nat} (heq : Nat.toDigits 10 k = Nat.toDigits 10 l) : k = l := by
    rw [← Nat.ofDigitChars_ten_toDigits (n := k), heq, Nat.ofDigitChars_ten_toDigits]
  rw [toList_toString, toList_toString] at h
  split at h <;> split at h
  · have := hinjective (List.cons.inj h).2
    omega
  · exact (hdigit _ _ h.symm).elim
  · exact (hdigit _ _ h).elim
  · have := hinjective h
    omega

theorem marks_toString (n : Int) : ∀ c ∈ (toString n).toList, isMark c = true := by
  have hdigits : ∀ c ∈ Nat.toDigits 10 n.natAbs, isMark c = true :=
    fun c hc => isMark_of_isDigit (digits_toDigits _ c hc)
  rw [toList_toString]
  split
  · exact List.forall_mem_cons.2 ⟨rfl, hdigits⟩
  · exact hdigits

theorem marks_write (x : Binary64) : ∀ c ∈ (Layout.json.write x).toList, isMark c = true := by
  obtain ⟨cs, hcs, htext⟩ := exists_isReal x
  rw [htext]
  split
  · exact List.forall_mem_cons.2 ⟨rfl, hcs.marks⟩
  · exact hcs.marks

/-- No text stands for an integer and for a double. -/
theorem toString_ne_write (n : Int) (x : Binary64) :
    (toString n).toList ≠ (Layout.json.write x).toList := by
  intro h
  obtain ⟨cs, hcs, htext⟩ := exists_isReal x
  have hsub : ∀ c ∈ cs, c ∈ (toString n).toList := fun c hc => by
    rw [h, htext]
    exact List.mem_append_right _ hc
  have hunmarked (m : Char) (hm : m.isDigit = false) (hsign : m ≠ '-') :
      m ∉ (toString n).toList := by
    rw [toList_toString, List.mem_append]
    rintro (hmem | hmem)
    · split at hmem
      · exact hsign (List.mem_singleton.1 hmem)
      · cases hmem
    · exact (digits_toDigits _).not_mem hm hmem
  rcases hcs.marked with hpoint | hexponent
  · exact hunmarked '.' rfl (by decide) (hsub _ hpoint)
  · exact hunmarked 'e' rfl (by decide) (hsub _ hexponent)

end Numeral

end CTree
