import CTree.Proofs.Classes.Learns

/-!
# Heads of classes

What stands before the brace of a class: its keyword, and perhaps a name, `final` and base classes. A head
that is written with plain names is read in every state; of any other head, such as that of a specialization,
it is a question of its own whether it is read.
-/

namespace CTree

open Parse Lexeme

variable {source : Source} {s t : ParseState} {w : Lexeme} {ws : List Lexeme} {text keyword : String}
  {default : Access} {key : ClassKey}

/-! ### Keywords -/

/-- The keyword of a class, as a token. -/
def ClassKey.kind : ClassKey → TokenKind
  | .classKey => .kwClass
  | .structKey => .kwStruct
  | .unionKey => .kwUnion

theorem ClassKey.ofKind_kind (key : ClassKey) : ofKind key.kind = key := by
  cases key <;> rfl

/-- The keyword of an access, as a token. -/
def Access.kind : Access → TokenKind
  | .publicAccess => .kwPublic
  | .privateAccess => .kwPrivate
  | .protectedAccess => .kwProtected

theorem Access.ofKind?_kind (access : Access) : ofKind? access.kind = some access := by
  cases access <;> rfl

/-! ### Base classes -/

/-- What may stand before the name of a base class. -/
inductive BaseMark
  | access (access : Access)
  | virtual
  deriving DecidableEq, Repr

namespace BaseMark

/-- The keyword of the mark. -/
def kind : BaseMark → TokenKind
  | access a => a.kind
  | virtual => .kwVirtual

/-- The access of a base class, and whether it is virtual, after one more mark. -/
def apply : Access × Bool → BaseMark → Access × Bool
  | (_, isVirtual), access a => (a, isVirtual)
  | (a, _), virtual => (a, true)

end BaseMark

/-- A base class as it is written: marks and a name. -/
structure WrittenBase where
  marks : List BaseMark
  name : String
  deriving DecidableEq, Repr

namespace WrittenBase

/-- The marks and the name. -/
def lexemes (b : WrittenBase) : List Lexeme :=
  b.marks.map (fun m => spelled m.kind) ++ [Lexeme.name b.name]

/-- The base class, where those without an access have the given one. -/
def found (default : Access) (b : WrittenBase) : BaseClass :=
  let (access, isVirtual) := b.marks.foldl BaseMark.apply (default, false)
  ⟨b.name, access, isVirtual⟩

/-- Base classes after a `:`, if there are any. -/
def clause : List WrittenBase → List Lexeme
  | [] => []
  | b :: bs => spelled .colon :: listed lexemes (b :: bs)

end WrittenBase

namespace Consumes

/-- A mark is taken. -/
theorem baseMark {m : BaseMark} {a : Access × Bool} (hk : (source.view s).kind 0 = m.kind) :
    Consumes source s 1 (Parse.baseMark a) (some (m.apply a)) := by
  refine .look run_kind ?_
  rw [hk]
  have hskip : Consumes source s 1 Parse.skip () := by
    refine skip ?_
    rw [hk]
    rcases m with ⟨_ | _ | _⟩ | _ <;> decide
  rcases m with ⟨_ | _ | _⟩ | _ <;> exact hskip.andLast (.pure _)

/-- Marks are taken up to the name. -/
theorem baseMarks {ms : List BaseMark} {a : Access × Bool} (hsees : source.Sees s.cursor.position
      (ms.map (fun m => spelled m.kind) ++ Lexeme.name text :: ws)) :
    Consumes source s ms.length (iterate Parse.baseMark a) (ms.foldl BaseMark.apply a) := by
  refine .iterate (Source.sees_append.1 hsees).1 fun i hi => ?_
  rw [List.length_map] at hi
  induction ms generalizing s a i with
  | nil =>
    obtain ⟨i, rfl⟩ : ∃ j, i = j + 1 := ⟨i - 1, by rw [List.length_nil] at hi; omega⟩
    refine stopFor ?_ i
    rw [Parse.baseMark, run_bind_ok run_kind, show (source.view s).kind 0 = .identifier from hsees.kind]
    rfl
  | cons m ms ih =>
    rw [List.length_cons] at hi
    obtain ⟨i, rfl⟩ : ∃ j, i = j + 1 := ⟨i - 1, by omega⟩
    have hrest := ih (a := m.apply a) hsees.next i (by omega)
    rw [iterateFor, List.length_cons, Nat.add_comm]
    exact (baseMark (m := m) hsees.kind).bind hrest

/-- Any name is read as a base class, up to the next one or to the brace. -/
theorem baseClass {b : WrittenBase} (hsees : source.Sees s.cursor.position (b.lexemes ++ w :: ws))
    (hw : w.kind.endsEntry .lbrace = true) :
    Consumes source s b.lexemes.length (Parse.baseClass default) (b.found default) := by
  rw [WrittenBase.lexemes, List.append_assoc] at hsees
  have hname : source.Sees (s.after b.marks.length).cursor.position (Lexeme.name b.name :: w :: ws) := by
    have h := hsees.after (b.marks.map fun m => spelled m.kind)
    rwa [List.length_map] at h
  have hsuffix : isTypeSuffix w.kind = false := by
    generalize w.kind = k at hw
    cases k <;> first | rfl | cases hw
  have htype : Consumes source (s.after b.marks.length) 1 (leniently Parse.typeName) b.name := by
    refine .withLeniency ?_
    have h := ConsumesIf.typeName (s := { s.after b.marks.length with lenient := true }) hname
      hsuffix (TokenKind.ne_of_endsEntry hw rfl) (TokenKind.ne_of_endsEntry hw rfl)
    exact h
  have hpack : (Parse.accept .ellipsis).run source ((s.after b.marks.length).after 1) =
      (.ok false, (s.after b.marks.length).after 1) := by
    refine run_accept_of_ne ?_
    rw [hname.next.kind]
    exact TokenKind.ne_of_endsEntry hw rfl
  rw [WrittenBase.lexemes, List.length_append, List.length_map, List.length_singleton]
  exact (baseMarks hsees).bind (htype.andLast (.look hpack (.pure _)))

/-- Base classes are read up to the brace, if there are any. -/
theorem baseClasses {bs : List WrittenBase}
    (hsees : source.Sees s.cursor.position (WrittenBase.clause bs ++ spelled .lbrace :: ws)) :
    Consumes source s (WrittenBase.clause bs).length (Parse.baseClasses key)
      (bs.map (·.found key.defaultAccess)) := by
  cases bs with
  | nil =>
    refine .look (run_accept_of_ne ?_) (.pure [])
    rw [hsees.kind]
    decide
  | cons b bs =>
    have hentry (b' : WrittenBase) : ReadsEntry source (s.after 1)
        (Parse.baseClass key.defaultAccess) WrittenBase.lexemes .lbrace (fun _ => true)
        (·.found key.defaultAccess) b' := fun n w ws hsees hw => baseClass hsees hw
    have hlist := ConsumesIf.separated (fun b' _ => hentry b') (by decide) rfl hsees.next
    rw [List.all_eq_true.2 fun _ _ => rfl] at hlist
    rw [WrittenBase.clause, List.length_cons, Nat.add_comm]
    exact (accept hsees.kind (by decide)).bind hlist

end Consumes

/-! ### The name -/

theorem Consumes.nameOrNone (hsees : source.Sees s.cursor.position (Lexeme.name text :: ws)) :
    Consumes source s 1 Parse.nameOrNone text := by
  have hk : (source.view s).kind 0 = .identifier := hsees.kind
  refine .look (run_check _) ?_
  rw [hk, beq_self_eq_true, if_pos rfl]
  refine (Consumes.advance (by rw [hk]; decide)).andLast ?_
  rw [show ((source.view s).token 0).text = text from hsees.text]
  exact .pure text

theorem Learns.register (name : String) : Learns source s 0 (Parse.register name) () :=
  ⟨_, run_register name, rfl, rfl, rfl, rfl⟩

/-- The name of a class is made known. -/
theorem Learns.tag (hsees : source.Sees s.cursor.position (Lexeme.name text :: ws)) :
    Learns source s 1 (Parse.tag keyword) text := by
  refine .andLast (.of_consumes (Consumes.nameOrNone hsees)) fun t _ => ?_
  split
  · exact .pure text
  · exact .andLast (.register _) fun u _ => .andLast (.register _) fun u' _ => .pure text

/-- Without template arguments, the name of a class is all that there is to it. -/
theorem Learns.className (hsees : source.Sees s.cursor.position (Lexeme.name text :: w :: ws))
    (hlt : w.kind ≠ .lt) : Learns source s 1 (Parse.className keyword) text := by
  refine .andLast (.tag hsees) fun t hlearnt => ?_
  have hk : (source.view t).kind 0 = w.kind := (hlearnt.sees [Lexeme.name text] hsees).kind
  refine .look run_isCpp (.look (run_check _) ?_)
  rw [hk, beq_false_of_ne hlt, Bool.and_false]
  exact .pure text

/-- A class without a name. -/
theorem Consumes.noClassName (hk : (source.view s).kind 0 ≠ .identifier) :
    Consumes source s 0 (Parse.className keyword) "" := by
  have hnone : Parse.nameOrNone.run source s = (.ok "", s) := by
    unfold Parse.nameOrNone
    rw [run_bind_ok (run_check _), beq_false_of_ne hk]
    rfl
  have htag : (Parse.tag keyword).run source s = (.ok "", s) := by
    unfold Parse.tag
    rw [run_bind_ok hnone]
    rfl
  exact .look htag (.pure "")

/-! ### The head -/

/-- The `final` after the name of a class, if there is one. -/
def Lexeme.finalMark (isFinal : Bool) : List Lexeme :=
  if isFinal then [spelled .kwFinal] else []

/-- What stands first after the name of a class. -/
theorem Lexeme.finalMark_clause (isFinal : Bool) (bs : List WrittenBase) (ws : List Lexeme) :
    ∃ w ws', finalMark isFinal ++ (WrittenBase.clause bs ++ spelled .lbrace :: ws) = w :: ws' ∧
      (w.kind = .kwFinal ∨ w.kind = .colon ∨ w.kind = .lbrace) := by
  cases isFinal with
  | true => exact ⟨_, _, rfl, .inl rfl⟩
  | false =>
    cases bs with
    | nil => exact ⟨_, _, rfl, .inr (.inr rfl)⟩
    | cons b bs => exact ⟨_, _, rfl, .inr (.inl rfl)⟩

theorem Consumes.finalMark {isFinal : Bool} {bs : List WrittenBase} (hsees : source.Sees s.cursor.position
      (Lexeme.finalMark isFinal ++ (WrittenBase.clause bs ++ spelled .lbrace :: ws))) :
    Consumes source s (Lexeme.finalMark isFinal).length (Parse.accept .kwFinal) isFinal := by
  cases isFinal with
  | true => exact accept hsees.kind (by decide)
  | false =>
    refine run_accept_of_ne ?_
    cases bs with
    | nil =>
      rw [hsees.kind]
      decide
    | cons b bs =>
      rw [hsees.kind]
      decide

/-- What is read between the keyword of a class and its members. -/
def Parse.classHead (key : ClassKey) : Parse (String × List BaseClass) := do
  let name ← className key.word
  let _ ← accept .kwFinal
  let bases ← baseClasses key
  skipOver .lbrace "to start class body"
  return (name, bases)

/-- The head of a class: the keyword, the lexemes up to the brace, and the name and the base classes that
they give. -/
structure ClassHead where
  key : ClassKey
  rest : List Lexeme
  name : String
  bases : List BaseClass

namespace ClassHead

/-- The head as it is written. -/
def lexemes (h : ClassHead) : List Lexeme :=
  spelled h.key.kind :: h.rest

/-- Wherever the head stands before a brace, a class is seen, and the head is read for what it gives. -/
def IsRead (source : Source) (h : ClassHead) : Prop :=
  ∀ s ws, source.Sees s.cursor.position (h.lexemes ++ spelled .lbrace :: ws) →
    (source.view s).atClass source.settings.maxLookahead = true ∧
      Learns source (s.after 1) (h.rest.length + 1) (classHead h.key) (h.name, h.bases)

/-- A head with the keyword only. -/
def anonymous (key : ClassKey) : ClassHead :=
  ⟨key, [], "", []⟩

/-- A head with a name, perhaps with `final` and base classes. -/
def named (key : ClassKey) (name : String) (isFinal : Bool) (bases : List WrittenBase) : ClassHead where
  key
  rest := Lexeme.name name :: (finalMark isFinal ++ WrittenBase.clause bases)
  name
  bases := bases.map (·.found key.defaultAccess)

theorem isRead_anonymous (key : ClassKey) : (anonymous key).IsRead source := by
  intro s ws hsees
  have hbrace : (source.view (s.after 1)).kind 0 = .lbrace := hsees.next.kind
  have hne {k : TokenKind} (h : TokenKind.lbrace ≠ k) : (source.view (s.after 1)).kind 0 ≠ k := by
    rwa [hbrace]
  refine ⟨?_, ?_⟩
  · have hk : (source.view s).kind 0 = key.kind := hsees.kind
    have hnext : (source.view s).kind 1 = .lbrace := hbrace
    unfold View.atClass
    rw [hk, hnext]
    cases key <;> rfl
  · have hclause : source.Sees (s.after 1).cursor.position
        (WrittenBase.clause [] ++ spelled .lbrace :: ws) := hsees.next
    have hbases : Consumes source (s.after 1) 0 (baseClasses key) [] := .baseClasses hclause
    refine .of_consumes (.look (Consumes.noClassName (hne (by decide))) ?_)
    refine .look (run_accept_of_ne (hne (by decide))) (.look hbases ?_)
    exact (Consumes.skipOver hbrace (by decide)).andLast (.pure _)

theorem isRead_named (key : ClassKey) (name : String) (isFinal : Bool) (bases : List WrittenBase) :
    (named key name isFinal bases).IsRead source := by
  intro s ws hsees
  obtain ⟨w, ws', hafter, hw⟩ := finalMark_clause isFinal bases ws
  have hname : source.Sees (s.after 1).cursor.position (Lexeme.name name :: w :: ws') := by
    rw [← hafter, ← List.append_assoc]
    exact hsees.next
  refine ⟨?_, ?_⟩
  · have hk : (source.view s).kind 0 = key.kind := hsees.kind
    have hnext : (source.view s).kind 1 = .identifier := hname.kind
    have hthird : (source.view s).kind 2 = w.kind := hname.next.kind
    unfold View.atClass
    rw [hk, hnext]
    rcases hw with hw | hw | hw <;>
    · cases key <;> simp [ClassKey.kind, hthird, hw]
  · have hclass : Learns source (s.after 1) 1 (className key.word) name := by
      refine .className hname ?_
      rcases hw with hw | hw | hw <;> rw [hw] <;> decide
    have hlength : (named key name isFinal bases).rest.length + 1 =
        1 + ((finalMark isFinal).length + ((WrittenBase.clause bases).length + 1)) := by
      show (_ :: (finalMark isFinal ++ WrittenBase.clause bases)).length + 1 = _
      rw [List.length_cons, List.length_append]
      omega
    rw [hlength]
    refine hclass.bind fun t hlearnt => .of_consumes ?_
    have hsees' : source.Sees t.cursor.position
        (finalMark isFinal ++ (WrittenBase.clause bases ++ spelled .lbrace :: ws)) := by
      rw [hafter]
      exact hlearnt.sees [Lexeme.name name] hname
    have hbases := hsees'.after (finalMark isFinal)
    have hbrace := (hbases.after (WrittenBase.clause bases)).kind
    exact (Consumes.finalMark hsees').bind ((Consumes.baseClasses hbases).bind
      ((Consumes.skipOver hbrace (by decide)).andLast (.pure _)))

/-- The heads with plain names. -/
inductive IsPlain : ClassHead → Prop
  | anonymous (key : ClassKey) : IsPlain (anonymous key)
  | named (key : ClassKey) (name : String) (isFinal : Bool) (bases : List WrittenBase) :
    IsPlain (named key name isFinal bases)

theorem IsPlain.isRead {h : ClassHead} (hplain : h.IsPlain) : h.IsRead source := by
  cases hplain with
  | anonymous key => exact isRead_anonymous key
  | named key name isFinal bases => exact isRead_named key name isFinal bases

end ClassHead

/-! ### The class -/

/-- A head that is read to the brace has a `:` or the brace after the name. -/
theorem Parse.colon_or_lbrace_of_run {bases : List BaseClass} {u u' : ParseState} {place : String}
    (hbases : (baseClasses key).run source s = (.ok bases, u))
    (hbrace : (skipOver .lbrace place).run source u = (.ok (), u')) :
    (source.view s).kind 0 = .colon ∨ (source.view s).kind 0 = .lbrace := by
  by_cases hcolon : (source.view s).kind 0 = .colon
  · exact .inl hcolon
  · unfold baseClasses at hbases
    rw [run_bind_ok (run_accept_of_ne hcolon)] at hbases
    cases hbases
    obtain ⟨token, v, hrequire, -⟩ := exists_of_run_bind hbrace
    exact .inr (of_run_require (by decide) hrequire).1

/-- A class is its head, its members and the brace that closes it. -/
theorem Learns.classType {g : Grammar} {h : ClassHead} {n : Nat} {members : List Decl}
    (hread : h.IsRead source)
    (hsees : source.Sees s.cursor.position (h.lexemes ++ spelled .lbrace :: ws))
    (hmembers : ∀ t, s.Learnt (h.lexemes.length + 1) t →
      Learns source t n (g.parse (.members (TypeText.plain h.name) h.bases h.key.defaultAccess)) members)
    (hbrace : source.kindAt (s.cursor.position + (h.lexemes.length + 1 + n)) = .rbrace) :
    Learns source s (h.lexemes.length + 1 + n + 1) g.classType
      (.ofKey h.key h.name h.bases members false) := by
  obtain ⟨t, hhead, hlearnt⟩ := (hread s ws hsees).2
  have hk : (source.view s).kind 0 = h.key.kind := hsees.kind
  have hkey : ClassKey.ofKind ((source.view s).token 0).kind = h.key := by
    rw [show ((source.view s).token 0).kind = h.key.kind from hk, ClassKey.ofKind_kind]
  have hadvance : Consumes source s 1 advance ((source.view s).token 0) := by
    refine .advance ?_
    rw [hk]
    cases h.key <;> decide
  have hstart : s.Learnt (h.lexemes.length + 1) t := by
    have hall := (ParseState.Learnt.after s 1).trans hlearnt
    rwa [← Nat.add_assoc, Nat.add_comm 1] at hall
  obtain ⟨u, hrun, hlearnt'⟩ := hmembers t hstart
  have hclosed : Consumes source u 1 (closeBrace "to close class body") () := by
    refine (Consumes.accept ?_ (by decide)).andLast (.pure ())
    show source.kindAt u.cursor.position = _
    rw [hlearnt'.position, hstart.position, Nat.add_assoc, hbrace]
  obtain ⟨name, t₁, hname, hhead⟩ := exists_of_run_bind hhead
  obtain ⟨isFinal, t₂, hfinal, hhead⟩ := exists_of_run_bind hhead
  obtain ⟨bases, t₃, hbases, hhead⟩ := exists_of_run_bind hhead
  obtain ⟨_, t₄, hopen, hhead⟩ := exists_of_run_bind hhead
  cases hhead
  refine ⟨u.after 1, ?_, (hstart.trans hlearnt').trans (.after u 1)⟩
  unfold Grammar.classType
  rw [run_bind_ok hadvance]
  simp only [hkey]
  rw [run_bind_ok hname, run_bind_ok hfinal, run_bind_ok run_kind]
  rcases colon_or_lbrace_of_run hbases hopen with hnext | hnext <;>
  · rw [hnext]
    simp only
    rw [run_bind_ok hbases, run_bind_ok hopen, run_bind_ok hrun, run_bind_ok hclosed]
    rfl

end CTree
