import CTree.Literal
import CTree.Proofs.Documents.Number
import Mathlib.Tactic.SplitIfs

/-!
# Texts of documents

A document can be read off its text, whatever follows, if no number goes on there. The first
character tells what kind of value comes, a string ends at the first quote that is not escaped, a
number ends where its characters do, and the parts of a list or an object end with marks of their
own. So equal texts in one style are texts of one document.
-/

namespace CTree

namespace Json

open Numeral

/-- A document without infinite or undefined numbers. -/
inductive Finite : Json → Prop
  | null : Finite .null
  | bool {b : Bool} : Finite (.bool b)
  | int {n : Int} : Finite (.int n)
  | real {x : Binary64} (h : x.isFinite = true) : Finite (.real x)
  | str {s : String} : Finite (.str s)
  | arr {es : List Json} (h : ∀ e ∈ es, Finite e) : Finite (.arr es)
  | obj {fs : List (String × Json)} (h : ∀ f ∈ fs, Finite f.2) : Finite (.obj fs)

section Finite

variable {b : Bool} {n : Int} {s : String} {x : Binary64} {es : List Json}
  {fs : List (String × Json)}

@[simp]
theorem finite_bool : (Json.bool b).Finite :=
  .bool

@[simp]
theorem finite_int : (Json.int n).Finite :=
  .int

@[simp]
theorem finite_str : (Json.str s).Finite :=
  .str

@[simp]
theorem finite_real : (Json.real x).Finite ↔ x.isFinite = true :=
  ⟨fun h => by cases h; assumption, .real⟩

@[simp]
theorem finite_arr : (Json.arr es).Finite ↔ ∀ e ∈ es, e.Finite :=
  ⟨fun h => by cases h; assumption, .arr⟩

@[simp]
theorem finite_obj : (Json.obj fs).Finite ↔ ∀ f ∈ fs, f.2.Finite :=
  ⟨fun h => by cases h; assumption, .obj⟩

end Finite

/-! ### Strings -/

/-- The character after a backslash, or after the code of one. -/
def unescapeMark : List Char → Option (Char × List Char)
  | 'b' :: r => some ('\x08', r)
  | 'f' :: r => some ('\x0c', r)
  | 'n' :: r => some ('\n', r)
  | 'r' :: r => some ('\r', r)
  | 't' :: r => some ('\t', r)
  | 'u' :: _ :: _ :: h :: l :: r =>
    some (Char.ofNat (16 * Literal.digitValue h + Literal.digitValue l), r)
  | c :: r => some (c, r)
  | [] => none

/-- The first character of a text that is escaped, and the rest of it. -/
def unescape : List Char → Option (Char × List Char)
  | [] => none
  | c :: r => if c = '\\' then unescapeMark r else some (c, r)

variable {r r' : List Char}

theorem digitValue_hexPair : ∀ n < 32, 16 * Literal.digitValue (Nat.digitChar (n / 16 % 16)) +
    Literal.digitValue (Nat.digitChar (n % 16)) = n := by
  decide

/-- Escaping is undone. -/
theorem unescape_escape (c : Char) : unescape (escape c ++ r) = some (c, r) := by
  unfold escape
  split_ifs with hquote hslash hb hf hn hr ht hcontrol
  · rw [hquote]; rfl
  · rw [hslash]; rfl
  · rw [hb]; rfl
  · rw [hf]; rfl
  · rw [hn]; rfl
  · rw [hr]; rfl
  · rw [ht]; rfl
  · show some (Char.ofNat (16 * Literal.digitValue _ + Literal.digitValue _), r) = some (c, r)
    rw [digitValue_hexPair c.toNat hcontrol, Char.ofNat_toNat]
  · exact if_neg hslash

theorem escape_ne_quote (c : Char) : escape c ++ r ≠ '"' :: r' := by
  unfold escape
  split_ifs with hquote <;> simp [hquote]

/-- A string ends at the first quote that is not escaped. -/
theorem escape_unique {cs ds : List Char}
    (h : cs.flatMap escape ++ '"' :: r = ds.flatMap escape ++ '"' :: r') : cs = ds ∧ r = r' := by
  induction cs generalizing ds with
  | nil =>
    cases ds with
    | nil => exact ⟨rfl, (List.cons.inj h).2⟩
    | cons d ds =>
      rw [List.flatMap_cons, List.append_assoc] at h
      exact (escape_ne_quote d h.symm).elim
  | cons c cs ih =>
    rw [List.flatMap_cons, List.append_assoc] at h
    cases ds with
    | nil => exact (escape_ne_quote c h).elim
    | cons d ds =>
      rw [List.flatMap_cons, List.append_assoc] at h
      have hread := congrArg unescape h
      rw [unescape_escape, unescape_escape] at hread
      obtain ⟨rfl, hrest⟩ := Prod.mk.inj (Option.some.inj hread)
      obtain ⟨rfl, hr⟩ := ih hrest
      exact ⟨rfl, hr⟩

theorem toList_quote (s : String) : (quote s).toList = '"' :: (s.toList.flatMap escape ++ ['"']) := by
  simp [quote]

theorem quote_unique {s t : String} (h : (quote s).toList ++ r = (quote t).toList ++ r') :
    s = t ∧ r = r' := by
  rw [toList_quote, toList_quote] at h
  simp only [List.cons_append, List.append_assoc, List.nil_append] at h
  obtain ⟨hs, hr⟩ := escape_unique (List.cons.inj h).2
  exact ⟨String.toList_inj.1 hs, hr⟩

/-! ### Numbers -/

/-- No number goes on in the text. -/
def Ends (r : List Char) : Prop :=
  ∀ c ∈ r.head?, isMark c = false

/-- A number ends where its characters do. -/
theorem number_unique {cs ds : List Char} (hcs : ∀ c ∈ cs, isMark c = true)
    (hds : ∀ c ∈ ds, isMark c = true) (hr : Ends r) (hr' : Ends r') (h : cs ++ r = ds ++ r') :
    cs = ds ∧ r = r' := by
  have htake {cs r : List Char} (hcs : ∀ c ∈ cs, isMark c = true) (hr : Ends r) :
      (cs ++ r).takeWhile isMark = cs := by
    rw [List.takeWhile_append_of_pos hcs]
    cases r with
    | nil => simp
    | cons c r => simp [hr c rfl]
  have hsame : cs = ds := by
    rw [← htake hcs hr, h, htake hds hr']
  subst hsame
  exact ⟨rfl, List.append_cancel_left h⟩

/-! ### Lists and objects -/

/-- A style whose marks before the parts are blanks. -/
def Style.IsBlank (style : Style) : Prop :=
  ∀ depth, ∀ c ∈ (style.lead depth).toList, c = ' ' ∨ c = '\n'

theorem Style.isBlank_compact : Style.compact.IsBlank := by
  intro depth c hc
  cases hc

theorem Style.isBlank_pretty : Style.pretty.IsBlank := by
  intro depth c hc
  simp only [pretty, String.toList_append, String.toList_ofList, List.mem_append] at hc
  rcases hc with h | h
  · exact .inr (List.mem_singleton.1 h)
  · exact .inl (List.mem_replicate.1 h).2

/-- What is written after the first part: a comma before each further part, and the bracket. -/
def tailChars {α : Type} (chars : α → List Char) (lead last : List Char) (parts : List α) :
    List Char :=
  parts.flatMap (fun p => ',' :: (lead ++ chars p)) ++ last

/-- What is written between brackets, with the second bracket. -/
def bodyChars {α : Type} (chars : α → List Char) (lead last : List Char) (closing : Char) :
    List α → List Char
  | [] => [closing]
  | p :: parts => lead ++ chars p ++ tailChars chars lead (last ++ [closing]) parts

theorem intercalate_cons {sep p : List Char} {ps : List (List Char)} :
    sep.intercalate (p :: ps) = p ++ ps.flatMap (sep ++ ·) := by
  induction ps generalizing p with
  | nil => simp
  | cons q ps ih => rw [List.intercalate_cons_cons, ih, List.flatMap_cons, List.append_assoc,
      List.append_assoc]

section Parts

variable {α : Type} {chars : α → List Char} {P : α → Prop} {lead last : List Char} {closing : Char}

theorem toList_enclose (style : Style) (depth : Nat) (opening closing : Char) (text : α → String)
    (parts : List α) :
    (style.enclose depth (String.singleton opening) (String.singleton closing)
        (parts.map text)).toList =
      opening :: bodyChars (fun p => (text p).toList) (style.lead (depth + 1)).toList
        (style.lead depth).toList closing parts := by
  cases parts with
  | nil => simp [Style.enclose, bodyChars]
  | cons p parts =>
    simp [Style.enclose, bodyChars, tailChars, String.toList_intercalate, intercalate_cons,
      List.flatMap_map, Function.comp_def]

theorem Ends.tail {parts : List α} (hlast : Ends last) : Ends (tailChars chars lead last parts) := by
  cases parts with
  | nil => exact hlast
  | cons p parts =>
    intro c hc
    obtain rfl : ',' = c := Option.some.inj hc
    rfl

theorem isMark_of_blank {c : Char} (h : c = ' ' ∨ c = '\n') : isMark c = false := by
  rcases h with rfl | rfl <;> rfl

/-- A text after blanks begins with a blank or as it does by itself. -/
theorem blanks_append_cons {blanks : List Char} (hblanks : ∀ d ∈ blanks, d = ' ' ∨ d = '\n')
    (c : Char) (cs : List Char) :
    ∃ d ds, blanks ++ c :: cs = d :: ds ∧ (d = c ∨ d = ' ' ∨ d = '\n') := by
  cases blanks with
  | nil => exact ⟨c, cs, rfl, .inl rfl⟩
  | cons d ds => exact ⟨d, ds ++ c :: cs, rfl, .inr (hblanks d List.mem_cons_self)⟩

section Close

variable (hlast : ∀ c ∈ last, c = ' ' ∨ c = '\n') (hclosing : closing = ']' ∨ closing = '}')
include hlast hclosing

theorem ends_close (r : List Char) : Ends (last ++ closing :: r) := by
  obtain ⟨d, ds, heq, hd⟩ := blanks_append_cons hlast closing r
  rw [heq]
  intro c hc
  obtain rfl : d = c := Option.some.inj hc
  rcases hd with rfl | hblank
  · rcases hclosing with rfl | rfl <;> rfl
  · exact isMark_of_blank hblank

theorem close_ne_comma (r cs : List Char) : last ++ closing :: r ≠ ',' :: cs := by
  intro hcomma
  obtain ⟨d, ds, heq, hd⟩ := blanks_append_cons hlast closing r
  obtain rfl : d = ',' := (List.cons.inj (heq.symm.trans hcomma)).1
  rcases hd with rfl | hblank
  · simp at hclosing
  · simp at hblank

/-- Parts that can be read one by one can be read up to the bracket. -/
theorem tail_unique {as bs : List α}
    (hread : ∀ a ∈ as, ∀ b, P b → ∀ r r', Ends r → Ends r' → chars a ++ r = chars b ++ r' →
      a = b ∧ r = r')
    (hbs : ∀ b ∈ bs, P b)
    (h : tailChars chars lead (last ++ closing :: r) as =
      tailChars chars lead (last ++ closing :: r') bs) : as = bs ∧ r = r' := by
  induction as generalizing bs with
  | nil =>
    cases bs with
    | nil => exact ⟨rfl, (List.cons.inj (List.append_cancel_left h)).2⟩
    | cons b bs => exact (close_ne_comma hlast hclosing r _ h).elim
  | cons a as ih =>
    cases bs with
    | nil => exact (close_ne_comma hlast hclosing r' _ h.symm).elim
    | cons b bs =>
      rw [List.forall_mem_cons] at hread hbs
      simp only [tailChars, List.flatMap_cons, List.cons_append, List.append_assoc] at h
      have hrest := List.append_cancel_left (List.cons.inj h).2
      obtain ⟨rfl, htail⟩ := hread.1 b hbs.1 _ _ (Ends.tail (ends_close hlast hclosing r))
        (Ends.tail (ends_close hlast hclosing r')) hrest
      obtain ⟨rfl, hr⟩ := ih hread.2 hbs.2 htail
      exact ⟨rfl, hr⟩

/-- Parts that can be read one by one can be read with the bracket after them. -/
theorem body_unique (hlead : ∀ c ∈ lead, c = ' ' ∨ c = '\n')
    (hhead : ∀ p, P p → ∃ c cs, chars p = c :: cs ∧ c ≠ closing) {as bs : List α}
    (has : ∀ a ∈ as, P a) (hbs : ∀ b ∈ bs, P b)
    (hread : ∀ a ∈ as, ∀ b, P b → ∀ r r', Ends r → Ends r' → chars a ++ r = chars b ++ r' →
      a = b ∧ r = r')
    (h : bodyChars chars lead last closing as ++ r =
      bodyChars chars lead last closing bs ++ r') : as = bs ∧ r = r' := by
  -- The closing bracket right after the opening one is no part with what leads up to it.
  have hempty {p : α} (hp : P p) {cs : List Char} (r : List Char) :
      closing :: r ≠ lead ++ (chars p ++ cs) := by
    intro hclose
    obtain ⟨c, cs', hchars, hc⟩ := hhead p hp
    rw [hchars, List.cons_append] at hclose
    obtain ⟨d, ds, heq, hd⟩ := blanks_append_cons hlead c (cs' ++ cs)
    obtain rfl : closing = d := (List.cons.inj (hclose.trans heq)).1
    rcases hd with rfl | hblank
    · exact hc rfl
    · rcases hclosing with rfl | rfl <;> simp at hblank
  cases as with
  | nil =>
    cases bs with
    | nil => exact ⟨rfl, (List.cons.inj h).2⟩
    | cons b bs =>
      simp only [bodyChars, List.append_assoc] at h
      exact (hempty (hbs b List.mem_cons_self) r h).elim
  | cons a as =>
    cases bs with
    | nil =>
      simp only [bodyChars, List.append_assoc] at h
      exact (hempty (has a List.mem_cons_self) r' h.symm).elim
    | cons b bs =>
      rw [List.forall_mem_cons] at hread hbs
      simp only [bodyChars, tailChars, List.append_assoc, List.singleton_append] at h
      obtain ⟨rfl, htail⟩ := hread.1 b hbs.1 _ _ (Ends.tail (ends_close hlast hclosing r))
        (Ends.tail (ends_close hlast hclosing r')) (List.append_cancel_left h)
      obtain ⟨rfl, hr⟩ := tail_unique hlast hclosing hread.2 hbs.2 htail
      exact ⟨rfl, hr⟩

end Close

end Parts

/-! ### Values -/

/-- What the first character of a text tells of a value. -/
inductive Kind
  | null
  | truth
  | number
  | text
  | list
  | object
  deriving DecidableEq

/-- The kind of a value. -/
def kind : Json → Kind
  | .null => .null
  | .bool _ => .truth
  | .int _ | .real _ => .number
  | .str _ => .text
  | .arr _ => .list
  | .obj _ => .object

/-- The kind of the values that begin with a character. -/
def Kind.ofHead? (c : Char) : Option Kind :=
  if isMark c then some .number
  else if c = 'n' then some .null
  else if c = 't' ∨ c = 'f' then some .truth
  else if c = '"' then some .text
  else if c = '[' then some .list
  else if c = '\x7b' then some .object
  else none

variable {style : Style} {depth : Nat} {v v' : Json}

theorem write_arr {es : List Json} : (write style depth (.arr es)).toList =
    '[' :: bodyChars (fun e => (write style (depth + 1) e).toList) (style.lead (depth + 1)).toList
      (style.lead depth).toList ']' es := by
  rw [write]
  exact toList_enclose style depth '[' ']' _ es

/-- A field of an object: its name in quotes, and its value. -/
def fieldText (style : Style) (depth : Nat) (f : String × Json) : String :=
  quote f.1 ++ style.colon ++ write style depth f.2

theorem write_obj {fs : List (String × Json)} : (write style depth (.obj fs)).toList =
    '\x7b' :: bodyChars (fun f => (fieldText style (depth + 1) f).toList)
      (style.lead (depth + 1)).toList (style.lead depth).toList '\x7d' fs := by
  rw [write]
  exact toList_enclose style depth '\x7b' '\x7d' _ fs

theorem write_real {x : Binary64} (h : x.isFinite = true) :
    (write style depth (.real x)).toList = (Layout.json.write x).toList := by
  rw [write, writeReal, if_pos h]

theorem Kind.exists_head_number {cs : List Char} (hne : cs ≠ [])
    (hcs : ∀ c ∈ cs, isMark c = true) :
    ∃ c ds, cs = c :: ds ∧ Kind.ofHead? c = some .number := by
  obtain ⟨c, ds, rfl⟩ := List.exists_cons_of_ne_nil hne
  exact ⟨c, ds, rfl, if_pos (hcs c List.mem_cons_self)⟩

/-- The first character of a value tells its kind. -/
theorem Finite.exists_head (hv : v.Finite) (style : Style) (depth : Nat) : ∃ c cs,
    (write style depth v).toList = c :: cs ∧ Kind.ofHead? c = some v.kind := by
  cases hv with
  | null => exact ⟨'n', _, by rw [write]; rfl, rfl⟩
  | @bool b =>
    cases b
    · exact ⟨'f', _, by rw [write]; rfl, rfl⟩
    · exact ⟨'t', _, by rw [write]; rfl, rfl⟩
  | @int n =>
    rw [write]
    refine Kind.exists_head_number ?_ (marks_toString n)
    rw [toList_toString]
    exact List.append_ne_nil_of_right_ne_nil _ Nat.toDigits_ne_nil
  | @real x hx =>
    rw [write_real hx]
    refine Kind.exists_head_number ?_ (marks_write x)
    obtain ⟨cs, hcs, htext⟩ := exists_isReal x
    obtain ⟨c, ds, rfl, -⟩ := hcs.head
    rw [htext]
    exact List.append_ne_nil_of_right_ne_nil _ (List.cons_ne_nil _ _)
  | @str s => exact ⟨'"', _, by rw [write, toList_quote], rfl⟩
  | arr => exact ⟨'[', _, write_arr, rfl⟩
  | obj => exact ⟨'\x7b', _, write_obj, rfl⟩

theorem Finite.exists_head_ne (hv : v.Finite) {m : Char} (hm : Kind.ofHead? m = none) :
    ∃ c cs, (write style depth v).toList = c :: cs ∧ c ≠ m := by
  obtain ⟨c, cs, htext, hc⟩ := hv.exists_head style depth
  refine ⟨c, cs, htext, ?_⟩
  rintro rfl
  rw [hm] at hc
  cases hc

theorem exists_head_fieldText_ne (f : String × Json) {m : Char} (hm : '"' ≠ m) :
    ∃ c cs, (fieldText style depth f).toList = c :: cs ∧ c ≠ m := by
  rw [fieldText, String.toList_append, String.toList_append, toList_quote]
  exact ⟨'"', _, rfl, hm⟩

/-- Texts that begin alike are texts of values of one kind. -/
theorem Finite.kind_eq (hv : v.Finite) (hv' : v'.Finite)
    (h : (write style depth v).toList ++ r = (write style depth v').toList ++ r') :
    v.kind = v'.kind := by
  obtain ⟨c, cs, htext, hc⟩ := hv.exists_head style depth
  obtain ⟨c', cs', htext', hc'⟩ := hv'.exists_head style depth
  rw [htext, htext'] at h
  obtain ⟨rfl, -⟩ := List.cons.inj h
  exact Option.some.inj (hc.symm.trans hc')

/-- A value can be read off its text, whatever follows, if no number goes on there. -/
theorem write_unique (hstyle : style.IsBlank) (hv : v.Finite) (hv' : v'.Finite) (hr : Ends r)
    (hr' : Ends r') (h : (write style depth v).toList ++ r = (write style depth v').toList ++ r') :
    v = v' ∧ r = r' := by
  -- The first character tells of which kind the other value is; only numbers are of two forms.
  have hkind := hv.kind_eq hv' h
  induction hv generalizing v' depth r r' with
  | null =>
    cases hv' <;> cases hkind
    exact ⟨rfl, List.append_cancel_left h⟩
  | @bool b =>
    obtain ⟨b', rfl⟩ : ∃ b', v' = .bool b' := by cases hv' <;> cases hkind; exact ⟨_, rfl⟩
    rw [write, write] at h
    cases b <;> cases b'
    · exact ⟨rfl, List.append_cancel_left h⟩
    · exact absurd (List.cons.inj h).1 (by decide)
    · exact absurd (List.cons.inj h).1 (by decide)
    · exact ⟨rfl, List.append_cancel_left h⟩
  | @int n =>
    cases hv' <;> cases hkind
    · rw [write, write] at h
      obtain ⟨htext, rfl⟩ := number_unique (marks_toString _) (marks_toString _) hr hr' h
      rw [eq_of_toString_eq htext]
      exact ⟨rfl, rfl⟩
    · rename_i x hx
      rw [write, write_real hx] at h
      obtain ⟨htext, -⟩ := number_unique (marks_toString _) (marks_write _) hr hr' h
      exact (toString_ne_write n x htext).elim
  | @real x hx =>
    cases hv' <;> cases hkind
    · rename_i n
      rw [write, write_real hx] at h
      obtain ⟨htext, -⟩ := number_unique (marks_write _) (marks_toString _) hr hr' h
      exact (toString_ne_write n x htext.symm).elim
    · rename_i y hy
      rw [write_real hx, write_real hy] at h
      obtain ⟨htext, rfl⟩ := number_unique (marks_write _) (marks_write _) hr hr' h
      rw [eq_of_write_eq hx hy htext]
      exact ⟨rfl, rfl⟩
  | str =>
    cases hv' <;> cases hkind
    rw [write, write] at h
    obtain ⟨rfl, hr⟩ := quote_unique h
    exact ⟨rfl, hr⟩
  | @arr es hes ih =>
    cases hv' <;> cases hkind
    rename_i es' hes'
    rw [write_arr, write_arr] at h
    obtain ⟨rfl, hr⟩ := body_unique (P := Finite) (hstyle _) (.inl rfl) (hstyle _)
      (fun e he => he.exists_head_ne rfl) hes hes'
      (fun e he e' he' r r' hr hr' h => ih e he he' hr hr' h ((hes e he).kind_eq he' h))
      (List.cons.inj h).2
    exact ⟨rfl, hr⟩
  | @obj fs hfs ih =>
    cases hv' <;> cases hkind
    rename_i fs' hfs'
    rw [write_obj, write_obj] at h
    have hfield : ∀ f ∈ fs, ∀ f', f'.2.Finite → ∀ r r', Ends r → Ends r' →
        (fieldText style (depth + 1) f).toList ++ r =
          (fieldText style (depth + 1) f').toList ++ r' → f = f' ∧ r = r' := by
      rintro ⟨name, value⟩ hf ⟨name', value'⟩ hf' r r' hr hr' h
      simp only [fieldText, String.toList_append, List.append_assoc] at h
      obtain ⟨rfl, hvalue⟩ := quote_unique h
      have hvalue' := List.append_cancel_left hvalue
      obtain ⟨rfl, hr⟩ := ih _ hf hf' hr hr' hvalue' ((hfs _ hf).kind_eq hf' hvalue')
      exact ⟨rfl, hr⟩
    obtain ⟨rfl, hr⟩ := body_unique (P := fun f => f.2.Finite) (hstyle _) (.inr rfl) (hstyle _)
      (fun f _ => exists_head_fieldText_ne f (by decide)) hfs hfs'
      hfield (List.cons.inj h).2
    exact ⟨rfl, hr⟩

/-- Texts of finite documents in one style are the same only if the documents are. -/
theorem text_injective {pretty : Bool} (hv : v.Finite) (hv' : v'.Finite)
    (h : v.text pretty = v'.text pretty) : v = v' := by
  have hstyle : (if pretty then Style.pretty else Style.compact).IsBlank := by
    split
    · exact Style.isBlank_pretty
    · exact Style.isBlank_compact
  have hends : Ends [] := fun c hc => by cases hc
  unfold text at h
  exact (write_unique hstyle hv hv' hends hends (by rw [h])).1

end Json

end CTree
