import CTree.Proofs.Lexing.Lines
import CTree.Proofs.Lexing.Longest

/-!
# What a rule reads, it reads again

Readers look no further than one character past what they take. So what a rule takes from a text it
takes from every other text that begins with it, if that goes on with no character that could belong to
a word; and a few rules need not even that.
-/

namespace CTree

namespace Reader

variable {r : Reader} {rs : List Reader} {p more more' : Char → Bool} {cs w : List Char} {n : Nat}

/-- What the reader takes does not depend on more than the next character, nor on that one if it is none of the
class. -/
def Peeks (r : Reader) (more : Char → Bool) : Prop :=
  ∀ w rest rest' : List Char, r (w ++ rest) = some w.length →
    (rest'.head? = rest.head? ∨ ∀ c ∈ rest'.head?, more c = false) → r (w ++ rest') = some w.length

/-- What the reader takes from a text, it takes from every text that goes on with no character of the class. -/
def Settles (r : Reader) (more : Char → Bool) : Prop :=
  ∀ w rest rest' : List Char, r (w ++ rest) = some w.length →
    (∀ c ∈ rest'.head?, more c = false) → r (w ++ rest') = some w.length

theorem Peeks.settles (h : r.Peeks more) : r.Settles more :=
  fun w rest rest' hread hmore => h w rest rest' hread (.inr hmore)

/-- A class stops at the end of a part that belongs to it. -/
theorem takeWhile_append_of_head (hw : w.all p = true) (hcs : ∀ c ∈ cs.head?, p c = false) :
    (w ++ cs).takeWhile p = w := by
  rw [List.takeWhile_append_of_pos (List.all_eq_true.1 hw)]
  cases cs with
  | nil => rw [List.takeWhile_nil, List.append_nil]
  | cons c cs => rw [List.takeWhile_cons_of_neg (by simp [hcs c rfl]), List.append_nil]

/-- Where a run ends, all before belongs to its class, and what comes next does not. -/
theorem all_of_length_takeWhile (h : ((w ++ cs).takeWhile p).length = w.length) :
    w.all p = true ∧ ∀ c ∈ cs.head?, p c = false := by
  have htake : (w ++ cs).takeWhile p = w :=
    List.prefix_iff_eq_take.1 (List.takeWhile_prefix _) |>.trans (by rw [h, List.take_left])
  have hw : w.all p = true := by
    rw [← htake]
    exact List.all_takeWhile
  refine ⟨hw, fun c hc => ?_⟩
  obtain ⟨cs, rfl⟩ := List.head?_eq_some_iff.1 hc
  rw [List.takeWhile_append_of_pos (List.all_eq_true.1 hw)] at htake
  rw [Bool.eq_false_iff]
  intro hp
  simp [hp] at htake

theorem run1_eq_some_iff : run1 p cs = some n ↔ (cs.takeWhile p).length = n ∧ 0 < n := by
  unfold run1
  split
  · rename_i h
    simp only [h, reduceCtorEq, false_iff]
    omega
  · rename_i m h
    simp only [h, Option.some.injEq]
    omega

theorem peeks_one (p more : Char → Bool) : (one p).Peeks more := by
  intro w rest rest' hread _
  match w, hread with
  | [], hread =>
    cases rest with
    | nil => cases hread
    | cons c rest => simp [one] at hread
  | [c], hread => simpa [one] using hread
  | c :: d :: w, hread => simp [one] at hread

theorem peeks_text (t : List Char) (more : Char → Bool) : (text t).Peeks more := by
  intro w rest rest' hread _
  obtain ⟨hbegins, hlength⟩ := Option.ite_none_right_eq_some.1 hread
  have hw : t = w := by
    obtain ⟨v, hv⟩ := List.isPrefixOf_iff_prefix.1 hbegins
    exact (List.append_inj hv (Option.some.inj hlength)).1
  rw [hw]
  exact Rule.text_append w rest'

theorem peeks_run (h : ∀ c, p c = true → more c = true) : (run p).Peeks more := by
  intro w rest rest' hread hmore
  obtain ⟨hw, hrest⟩ := all_of_length_takeWhile (Option.some.inj hread)
  refine congrArg some (congrArg List.length (takeWhile_append_of_head hw fun c hc => ?_))
  rcases hmore with heq | hmore
  · exact hrest c (heq ▸ hc)
  · rw [Bool.eq_false_iff]
    intro hp
    exact Bool.false_ne_true ((hmore c hc).symm.trans (h c hp))

theorem peeks_run1 (h : ∀ c, p c = true → more c = true) : (run1 p).Peeks more := by
  intro w rest rest' hread hmore
  obtain ⟨hlength, hpos⟩ := run1_eq_some_iff.1 hread
  have hrun := peeks_run h w rest rest' (congrArg some hlength) hmore
  exact run1_eq_some_iff.2 ⟨Option.some.inj hrun, hpos⟩

theorem peeks_optional_one (h : ∀ c, p c = true → more c = true) : (optional (one p)).Peeks more := by
  intro w rest rest' hread hmore
  match w, hread with
  | [], hread =>
    have hrest' : one p rest' = none := by
      cases rest' with
      | nil => rfl
      | cons c rest' =>
        refine Rule.one_none (Bool.eq_false_iff.2 fun hp => ?_) rest'
        rcases hmore with heq | hmore
        · obtain ⟨rest, rfl⟩ := List.head?_eq_some_iff.1 heq.symm
          simp [optional, one, hp] at hread
        · exact Bool.false_ne_true ((hmore c rfl).symm.trans (h c hp))
    simp [optional, hrest']
  | [c], hread => simpa [optional, one] using hread
  | c :: d :: w, hread =>
    by_cases hp : p c = true <;> simp [optional, one, hp] at hread

theorem wordEnd_eq_some_iff :
    wordEnd cs = some n ↔ n = 0 ∧ ∀ c ∈ cs.head?, Text.isWordChar c = false := by
  cases cs with
  | nil => simp [wordEnd, @eq_comm _ 0 n]
  | cons c cs => by_cases hc : Text.isWordChar c = true <;> simp [wordEnd, hc, @eq_comm _ 0 n]

theorem peeks_wordEnd : wordEnd.Peeks Text.isWordChar := by
  intro w rest rest' hread hmore
  obtain ⟨hlength, hrest⟩ := wordEnd_eq_some_iff.1 hread
  obtain rfl := List.eq_nil_of_length_eq_zero hlength
  refine wordEnd_eq_some_iff.2 ⟨rfl, ?_⟩
  rcases hmore with heq | hmore
  · rwa [List.nil_append, heq]
  · exact hmore

theorem settles_nil (more : Char → Bool) : (sequence []).Settles more := by
  intro w rest rest' hread _
  exact hread

theorem sequence_cons_eq_some_iff : sequence (r :: rs) cs = some n ↔
    ∃ m k, r cs = some m ∧ sequence rs (cs.drop m) = some k ∧ n = m + k := by
  constructor
  · intro h
    obtain ⟨m, hm, h⟩ := Option.bind_eq_some_iff.1 h
    obtain ⟨k, hk, h⟩ := Option.bind_eq_some_iff.1 h
    exact ⟨m, k, hm, hk, (Option.some.inj h).symm⟩
  · rintro ⟨m, k, hm, hk, rfl⟩
    rw [Rule.sequence_cons hm, hk]
    rfl

/-- What several readers take from a text is what the first takes and what the others take. -/
theorem exists_append_of_sequence {rest : List Char}
    (h : sequence (r :: rs) (w ++ rest) = some w.length) : ∃ u v, w = u ++ v ∧
      r (u ++ (v ++ rest)) = some u.length ∧ sequence rs (v ++ rest) = some v.length := by
  obtain ⟨m, k, hm, hk, hlength⟩ := sequence_cons_eq_some_iff.1 h
  obtain ⟨u, v, rfl, rfl⟩ : ∃ u v, w = u ++ v ∧ u.length = m :=
    ⟨w.take m, w.drop m, (List.take_append_drop m w).symm, List.length_take_of_le (by omega)⟩
  obtain rfl : v.length = k := by
    rw [List.length_append] at hlength
    omega
  rw [List.append_assoc] at hm hk
  rw [List.drop_left] at hk
  exact ⟨u, v, rfl, hm, hk⟩

theorem sequence_append {u v : List Char} (hu : r (u ++ (v ++ cs)) = some u.length)
    (hv : sequence rs (v ++ cs) = some v.length) :
    sequence (r :: rs) (u ++ v ++ cs) = some (u ++ v).length := by
  refine sequence_cons_eq_some_iff.2 ⟨u.length, v.length, ?_, ?_, List.length_append⟩
  · rwa [List.append_assoc]
  · rwa [List.append_assoc, List.drop_left]

theorem sequence_singleton (r : Reader) : sequence [r] = r := by
  funext cs
  cases h : r cs with
  | none => exact Rule.sequence_cons_none h []
  | some n => rw [Rule.sequence_cons h]; rfl

/-- Readers that may take nothing. -/
def MayBeEmpty (rs : List Reader) : Prop :=
  ∃ cs, sequence rs cs = some 0

theorem MayBeEmpty.tail (h : MayBeEmpty (r :: rs)) : MayBeEmpty rs := by
  obtain ⟨cs, h⟩ := h
  obtain ⟨m, k, -, hk, hlength⟩ := sequence_cons_eq_some_iff.1 h
  obtain rfl : k = 0 := by omega
  exact ⟨_, hk⟩

theorem not_mayBeEmpty_one : ¬ MayBeEmpty (one p :: rs) := by
  rintro ⟨cs, h⟩
  obtain ⟨m, k, hm, -, hlength⟩ := sequence_cons_eq_some_iff.1 h
  obtain rfl : m = 0 := by omega
  cases cs with
  | nil => cases hm
  | cons c cs => simp [one] at hm

/-- The first of several readers sees the beginning of what the others take; only where they take nothing does
it see what comes after. -/
theorem Peeks.sequence_cons (hr : r.Peeks more) (hrs : (sequence rs).Settles more')
    (hmore : MayBeEmpty rs → ∀ c, more c = true → more' c = true) :
    (sequence (r :: rs)).Settles more' := by
  intro w rest rest' hread hrest'
  obtain ⟨u, v, rfl, hu, hv⟩ := exists_append_of_sequence hread
  refine sequence_append (hr u _ _ hu ?_) (hrs v rest rest' hv hrest')
  cases v with
  | nil =>
    refine .inr fun c hc => Bool.eq_false_iff.2 fun hp => ?_
    exact Bool.false_ne_true ((hrest' c hc).symm.trans (hmore ⟨_, hv⟩ c hp))
  | cons c v => exact .inl rfl

end Reader

/-! ### The rules -/

namespace Rule

open Reader

variable {c : Char} {cs w rest rest' : List Char} {k : TokenKind} {dialect : Dialect} {rule : Rule}
  {n : Nat}

theorem isAsciiWord_of_isNameStart (h : isNameStart c = true) : Text.isAsciiWord c = true := by
  simp only [isNameStart, Text.isAsciiWord, Char.isAlphanum, Bool.or_eq_true] at h ⊢
  exact h.imp_left .inl

theorem isAsciiWord_of_isDigit (h : isDigit c = true) : Text.isAsciiWord c = true := by
  have hdigit : c.isDigit = true := h
  simp [Text.isAsciiWord, Char.isAlphanum, hdigit]

theorem isAsciiWord_of_isAlpha (h : c.isAlpha = true) : Text.isAsciiWord c = true :=
  isAsciiWord_of_isNameStart (Bool.or_eq_true_iff.2 (.inl h))

theorem isAsciiWord_of_isHexDigit (h : isHexDigit c = true) : Text.isAsciiWord c = true := by
  simp only [isHexDigit, Bool.or_eq_true, Bool.and_eq_true, decide_eq_true_eq] at h
  rcases h with (hdigit | ⟨hleast, hmost⟩) | ⟨hleast, hmost⟩
  · exact isAsciiWord_of_isDigit hdigit
  · have hlower : c.isLower = true :=
      Bool.and_eq_true_iff.2 ⟨decide_eq_true hleast, decide_eq_true (Nat.le_trans hmost (by decide))⟩
    exact isAsciiWord_of_isAlpha (Bool.or_eq_true_iff.2 (.inr hlower))
  · have hupper : c.isUpper = true :=
      decide_eq_true ⟨hleast, Nat.le_trans hmost (by decide)⟩
    exact isAsciiWord_of_isAlpha (Bool.or_eq_true_iff.2 (.inl hupper))

theorem isAsciiWord_of_isIntSuffix (h : isIntSuffix c = true) : Text.isAsciiWord c = true := by
  simp only [isIntSuffix, Bool.or_eq_true, beq_iff_eq] at h
  rcases h with ((rfl | rfl) | rfl) | rfl <;> decide

/-- A class of characters that may belong to a word. -/
def IsWordClass (p : Char → Bool) : Prop :=
  ∀ c, p c = true → Text.isWordChar c = true

theorem isWordClass_digit : IsWordClass isDigit :=
  fun _ h => isWordChar_of_isAsciiWord (isAsciiWord_of_isDigit h)

theorem isDigit_of_isOctalDigit (h : isOctalDigit c = true) : isDigit c = true := by
  simp only [isOctalDigit, Bool.and_eq_true, decide_eq_true_eq] at h
  exact Bool.and_eq_true_iff.2 ⟨decide_eq_true h.1, decide_eq_true (Char.le_trans h.2 (by decide))⟩

theorem isWordClass_octalDigit : IsWordClass isOctalDigit :=
  fun c h => isWordClass_digit c (isDigit_of_isOctalDigit h)

theorem isWordClass_hexDigit : IsWordClass isHexDigit :=
  fun _ h => isWordChar_of_isAsciiWord (isAsciiWord_of_isHexDigit h)

theorem isWordClass_intSuffix : IsWordClass isIntSuffix :=
  fun _ h => isWordChar_of_isAsciiWord (isAsciiWord_of_isIntSuffix h)

theorem isWordClass_asciiWord : IsWordClass Text.isAsciiWord :=
  fun _ h => isWordChar_of_isAsciiWord h

/-- A path ends with its closing mark, so it does not matter what comes after it. -/
theorem settles_includePath (blank : Char → Bool) (opening closing : Char) (more : Char → Bool) :
    (includePath blank opening closing).Settles more := by
  have hall (p : Char → Bool) (c : Char) : p c = true → (fun _ => true) c = true := fun _ => rfl
  have hclosing : (Reader.sequence [one (· == closing)]).Settles more :=
    (peeks_one _ more).sequence_cons (settles_nil more) fun _ _ => id
  have hpath := (peeks_run1 (hall fun c => c != closing && c != '\n')).sequence_cons hclosing
    fun h => (not_mayBeEmpty_one h).elim
  have hopening := (peeks_one (· == opening) more).sequence_cons hpath fun _ _ => id
  have hblank := (peeks_run (hall blank)).sequence_cons hopening fun h => (not_mayBeEmpty_one h).elim
  exact (peeks_text "#include".toList more).sequence_cons hblank fun _ _ => id

theorem settles_name : name.Settles Text.isWordChar :=
  (peeks_one isNameStart _).sequence_cons
    ((peeks_run isWordClass_asciiWord).sequence_cons (settles_nil _) fun _ _ => id) fun _ _ => id

theorem settles_spelled (k : TokenKind) : (spelled k).reader.Settles Text.isWordChar := by
  refine (peeks_text k.spelling.toList _).sequence_cons ?_ fun _ _ => id
  split
  · exact peeks_wordEnd.sequence_cons (settles_nil _) fun _ _ => id
  · exact settles_nil _

theorem settles_directive (k : TokenKind) : (directive k).reader.Settles Text.isWordChar :=
  (peeks_text k.spelling.toList _).sequence_cons
    (peeks_wordEnd.sequence_cons (settles_nil _) fun _ _ => id) fun _ _ => id

theorem settles_otherDirective : otherDirective.reader.Settles Text.isWordChar := by
  refine (peeks_one (· == '#') _).sequence_cons ?_ fun _ _ => id
  rw [sequence_singleton]
  exact settles_name

theorem settles_hexadecimal : hexadecimal.reader.Settles Text.isWordChar :=
  (peeks_one _ _).sequence_cons ((peeks_one _ _).sequence_cons
    ((peeks_run1 isWordClass_hexDigit).sequence_cons
      ((peeks_run isWordClass_intSuffix).sequence_cons (settles_nil _) fun _ _ => id)
      fun _ _ => id) fun _ _ => id) fun _ _ => id

theorem settles_octal : octal.reader.Settles Text.isWordChar :=
  (peeks_one _ _).sequence_cons
    ((peeks_run1 isWordClass_octalDigit).sequence_cons
      ((peeks_run isWordClass_intSuffix).sequence_cons (settles_nil _) fun _ _ => id)
      fun _ _ => id) fun _ _ => id

theorem settles_decimal : decimal.reader.Settles Text.isWordChar :=
  (peeks_run1 isWordClass_digit).sequence_cons
    ((peeks_run isWordClass_intSuffix).sequence_cons (settles_nil _) fun _ _ => id) fun _ _ => id

theorem isWordClass_floatMark : IsWordClass fun c => c == 'f' || c == 'F' := by
  intro c hc
  rw [Bool.or_eq_true, beq_iff_eq, beq_iff_eq] at hc
  rcases hc with rfl | rfl <;> decide

theorem settles_real : real.reader.Settles Text.isWordChar := by
  have hfraction := (peeks_run1 isWordClass_digit).sequence_cons
    ((peeks_optional_one isWordClass_floatMark).sequence_cons (settles_nil _) fun _ _ => id) fun _ _ => id
  exact (peeks_run1 isWordClass_digit).sequence_cons
    ((peeks_one (· == '.') _).sequence_cons hfraction fun _ _ => id) fun _ _ => id

theorem settles_exponent : exponent.Settles isDigit := by
  have hdigits : (Reader.sequence [run1 isDigit]).Settles isDigit :=
    (peeks_run1 fun _ => id).sequence_cons (settles_nil _) fun _ _ => id
  have hempty : ¬ MayBeEmpty [run1 isDigit] := by
    rintro ⟨cs, h⟩
    rw [sequence_singleton] at h
    exact Nat.lt_irrefl 0 (run1_eq_some_iff.1 h).2
  have hsign := peeks_optional_one (p := fun c => c == '-' || c == '+') fun _ _ => rfl
  have hsigned := hsign.sequence_cons hdigits fun h => (hempty h).elim
  exact (peeks_one (fun c => c == 'e' || c == 'E') _).sequence_cons hsigned fun _ _ => id

/-- An exponent begins with its letter. -/
theorem exponent_eq_none (h : ∀ c ∈ cs.head?, c ≠ 'e' ∧ c ≠ 'E') : exponent cs = none := by
  refine sequence_cons_none ?_ _
  cases cs with
  | nil => rfl
  | cons c cs => exact one_none (by simp [h c rfl]) cs

/-- The mark of a single-precision literal begins no exponent. -/
theorem settles_exponent_floatMark :
    (Reader.sequence [optional exponent, floatMark]).Settles Text.isWordChar := by
  intro w rest rest' hread hrest'
  obtain ⟨u, v, rfl, hm, hk⟩ := exists_append_of_sequence hread
  rw [sequence_singleton] at hk
  have hmark : floatMark (v ++ rest') = some v.length :=
    (peeks_optional_one isWordClass_floatMark).settles v rest rest' hk hrest'
  have hhead : ∀ c ∈ (v ++ rest').head?, isDigit c = false ∧ c ≠ 'e' ∧ c ≠ 'E' := by
    cases v with
    | nil =>
      intro c hc
      have hword := hrest' c hc
      refine ⟨Bool.eq_false_iff.2 fun hdigit => ?_, ?_, ?_⟩
      · exact Bool.false_ne_true (hword.symm.trans (isWordClass_digit c hdigit))
      · rintro rfl
        exact Bool.false_ne_true (hword.symm.trans (by decide))
      · rintro rfl
        exact Bool.false_ne_true (hword.symm.trans (by decide))
    | cons c v =>
      have hc : c = 'f' ∨ c = 'F' := by
        by_contra hne
        rw [not_or] at hne
        simp [floatMark, Reader.optional, one, hne.1, hne.2] at hk
      rintro d ⟨⟩
      rcases hc with rfl | rfl <;> decide
  refine sequence_append ?_ (by rwa [sequence_singleton])
  cases hexponent : exponent (u ++ (v ++ rest)) with
  | none =>
    rw [Reader.optional, hexponent] at hm
    obtain rfl := List.eq_nil_of_length_eq_zero (Option.some.inj hm).symm
    have hnone : exponent (v ++ rest') = none := exponent_eq_none fun c hc => (hhead c hc).2
    rw [Reader.optional, List.nil_append, hnone]
    rfl
  | some j =>
    rw [Reader.optional, hexponent] at hm
    obtain rfl : j = u.length := Option.some.inj hm
    have hagain := settles_exponent u (v ++ rest) (v ++ rest') hexponent fun c hc => (hhead c hc).1
    rw [Reader.optional, hagain]
    rfl

theorem settles_realWithExponent : realWithExponent.reader.Settles Text.isWordChar := by
  have hfraction := (peeks_run1 isWordClass_digit).sequence_cons settles_exponent_floatMark
    fun _ _ => id
  exact (peeks_run isWordClass_digit).sequence_cons
    ((peeks_one (· == '.') _).sequence_cons hfraction fun _ _ => id) fun _ _ => id

/-! ### The tables -/

/-- The blanks that may stand between `#include` and its path. -/
def includeBlank : Dialect → Char → Bool
  | .c => (· == ' ')
  | .cpp => Text.isBlank

/-- The directives that are read as words of their own. -/
def directiveKinds : Dialect → List TokenKind
  | .c => [.defineDirective]
  | .cpp => [.defineDirective, .ifdefDirective, .ifndefDirective, .endifDirective, .pragmaDirective]

/-- The rule for real literals. -/
def realOf : Dialect → Rule
  | .c => real
  | .cpp => realWithExponent

/-- The rules come in groups. -/
inductive InTable (dialect : Dialect) : Rule → Prop
  | path {opening closing : Char} (h : opening = '<' ∧ closing = '>' ∨ opening = '"' ∧ closing = '"') :
    InTable dialect ⟨.includeDirective, includePath (includeBlank dialect) opening closing⟩
  | directive {k : TokenKind} (h : k ∈ directiveKinds dialect) : InTable dialect (directive k)
  | otherDirective : InTable dialect otherDirective
  | spelled {k : TokenKind} (h : k ∈ spelledKinds dialect) : InTable dialect (spelled k)
  | hexadecimal : InTable dialect hexadecimal
  | octal : InTable dialect octal
  | real : InTable dialect (realOf dialect)
  | decimal : InTable dialect decimal
  | identifier : InTable dialect identifier

theorem table_eq (dialect : Dialect) : table dialect =
    includes (includeBlank dialect) ++ ((directiveKinds dialect).map directive ++
      otherDirective :: ((spelledKinds dialect).map spelled ++
        [hexadecimal, octal, realOf dialect, decimal, identifier])) := by
  cases dialect <;> rfl

theorem inTable_of_mem (h : rule ∈ table dialect) : InTable dialect rule := by
  rw [table_eq, List.mem_append, List.mem_append, List.mem_cons, List.mem_append, List.mem_map,
    List.mem_map] at h
  rcases h with h | ⟨k, hk, rfl⟩ | rfl | ⟨k, hk, rfl⟩ | h
  · simp only [includes, List.mem_cons, List.not_mem_nil, or_false] at h
    rcases h with rfl | rfl
    · exact .path (.inl ⟨rfl, rfl⟩)
    · exact .path (.inr ⟨rfl, rfl⟩)
  · exact .directive hk
  · exact .otherDirective
  · exact .spelled hk
  · simp only [List.mem_cons, List.not_mem_nil, or_false] at h
    rcases h with rfl | rfl | rfl | rfl | rfl
    · exact .hexadecimal
    · exact .octal
    · exact .real
    · exact .decimal
    · exact .identifier

/-- What a rule takes, it takes from every text that goes on with no character of a word. -/
theorem InTable.settles (h : InTable dialect rule) : rule.reader.Settles Text.isWordChar := by
  cases h with
  | path _ => exact settles_includePath _ _ _ _
  | directive _ => exact settles_directive _
  | otherDirective => exact settles_otherDirective
  | spelled _ => exact settles_spelled _
  | hexadecimal => exact settles_hexadecimal
  | octal => exact settles_octal
  | real =>
    cases dialect with
    | c => exact settles_real
    | cpp => exact settles_realWithExponent
  | decimal => exact settles_decimal
  | identifier => exact settles_name

end Rule

end CTree
