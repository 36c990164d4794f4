import CTree.Proofs.Declarators.Joined
import CTree.Proofs.Declarators.Refuses
import CTree.Proofs.Printing.Declaration
import Mathlib.Data.List.TakeWhile

/-!
# Types in front of declarators

The types that a declaration of variables may begin with: keywords of builtin types, or a known name. The
marks and qualifiers after them belong to the type as well.
-/

namespace CTree

open Parse Lexeme

variable {source : Source} {s : ParseState} {known : KnownTypes}

/-! ### The core of a type -/

/-- The core of a type: keywords of builtin types, or a known name. -/
inductive Lexeme.IsCore (known : KnownTypes) : List Lexeme → Prop
  | builtin {k : TokenKind} {ks : List TokenKind} (h : ∀ k' ∈ k :: ks, k'.isBuiltinType = true) :
    IsCore known ((k :: ks).map spelled)
  | named {text : String} (hword : Rule.IsWord text) (h : known.contains text = true) :
    IsCore known [Lexeme.name text]

/-- The kinds that a declaration of variables without specifiers begins with. -/
def TokenKind.beginsBase (k : TokenKind) : Bool :=
  View.isQualifier k || k.isBuiltinType || k == .identifier

theorem TokenKind.introduces_of_beginsBase {k : TokenKind} (h : k.beginsBase = true) :
    k.introduces = false := by
  cases k <;> first | rfl | cases h

namespace Lexeme.IsCore

variable {ws : List Lexeme}

/-- The first lexeme, and what it is not. -/
theorem head (h : IsCore known ws) : ∃ w rest, ws = w :: rest ∧ View.isQualifier w.kind = false ∧
    w.kind.beginsBase = true := by
  cases h with
  | @builtin k ks h =>
    refine ⟨spelled k, ks.map spelled, rfl, ?_⟩
    have hk := h k List.mem_cons_self
    show View.isQualifier k = false ∧ k.beginsBase = true
    cases k <;> first | exact ⟨rfl, rfl⟩ | cases hk
  | named => exact ⟨_, [], rfl, rfl, rfl⟩

/-- The last lexeme is no mark and ends in none. -/
theorem last (h : IsCore known ws) : ∃ rest w, ws = rest ++ [w] ∧ w.IsSolid := by
  cases h with
  | @builtin k ks h =>
    obtain ⟨rest, k', hlast⟩ : ∃ rest k', k :: ks = rest ++ [k'] :=
      ⟨_, _, (List.dropLast_concat_getLast (List.cons_ne_nil k ks)).symm⟩
    refine ⟨rest.map spelled, spelled k', by rw [hlast, List.map_append]; rfl, ?_⟩
    have hk := h k' (by rw [hlast]; exact List.mem_append_right _ List.mem_cons_self)
    cases k' <;> first | exact ⟨by decide, _, rfl, rfl⟩ | cases hk
  | @named text hword =>
    refine ⟨[], Lexeme.name text, rfl, by simp [Lexeme.name], ?_⟩
    obtain ⟨c, hc⟩ : ∃ c, text.toList.getLast? = some c :=
      Option.ne_none_iff_exists'.1 (by simpa using hword.ne_empty)
    refine ⟨c, hc, ?_⟩
    have hascii := hword.isAsciiWord c (List.mem_of_getLast? hc)
    refine Bool.eq_false_iff.2 fun hmark => ?_
    simp only [TypeText.isDeclaratorMark, Bool.or_eq_true, beq_iff_eq] at hmark
    rcases hmark with (rfl | rfl) | rfl <;> exact absurd hascii (by decide)

end Lexeme.IsCore

/-! ### Reading a type -/

/-- The kinds that may stand after a type: that of a name, and the parenthesis that encloses the type. -/
def TokenKind.endsType (k : TokenKind) : Bool :=
  k == .identifier || k == .rparen

/-- The kinds that may stand after the core of a type. -/
def TokenKind.followsCore (k : TokenKind) : Bool :=
  isTypeSuffix k || k.endsType

/-- Where a name stands, a type may begin if any name will do, if it is known, or if it has a scope. -/
theorem View.startsType_of_sees {text : String} {ws : List Lexeme}
    (hsees : source.Sees s.cursor.position (Lexeme.name text :: ws)) :
    (source.view s).startsType = (s.lenient || s.cursor.known.contains text ||
      ((source.view s).isCpp && (source.view s).kind 1 == .colonColon)) := by
  have hk : (source.view s).kind 0 = .identifier := hsees.kind
  have hplace : (source.view s).corePlace = 0 := by
    have hnone : source.Sees (s.cursor.position + 0) [] := trivial
    refine past_of_sees hnone (List.forall_mem_nil _) ?_
    show isQualifier ((source.view s).kind 0) = false
    rw [hk]
    rfl
  rw [startsType_of_name (by rw [hplace]; exact hk), hplace,
    show ((source.view s).token 0).text = text from hsees.text]
  rfl

theorem Parse.run_bareCore_of_builtin (h : ((source.view s).kind 0).isBuiltinType = true) :
    bareCore.run source s = (skipWhile TokenKind.isBuiltinType).run source s := by
  unfold bareCore
  rw [run_bind_ok run_kind]
  generalize (source.view s).kind 0 = k at h
  cases k <;> first | (cases h; done) | rfl

namespace Consumes

variable {w : Lexeme} {ws core : List Lexeme} {text : String}

/-- A name with no `::` and no `<` after it is a path by itself. -/
theorem typePath (hsees : source.Sees s.cursor.position (Lexeme.name text :: w :: ws))
    (hlt : w.kind ≠ .lt) (hcolons : w.kind ≠ .colonColon) :
    Consumes source s 1 Parse.typePath ⟨text, text⟩ := by
  refine look (run_globalScope_of_name hsees.kind) ((name hsees).andLast ?_)
  rw [String.empty_append]
  refine stop ?_
  have hk : (source.view (s.after 1)).kind 0 = w.kind := hsees.next.kind
  unfold typeSegment plainSegment
  rw [run_bind_ok run_isCpp, run_bind_ok (run_check _), hk, beq_false_of_ne hlt, Bool.and_false,
    if_neg Bool.false_ne_true, run_bind_ok (run_check _), hk, beq_false_of_ne hcolons,
    run_bind_ok (run_checkAhead _ _)]
  rfl

/-- The core of a type before a mark, a qualifier or a name. -/
theorem bareCore (hcore : IsCore s.cursor.known core)
    (hsees : source.Sees s.cursor.position (core ++ w :: ws)) (hw : w.kind.followsCore = true) :
    Consumes source s core.length bareCore () := by
  cases hcore with
  | @builtin k ks h =>
    have hk : (source.view s).kind 0 = k := hsees.kind
    rw [Consumes, run_bareCore_of_builtin (by rw [hk]; exact h k List.mem_cons_self)]
    refine skipSpelled rfl h (Source.sees_append.1 hsees).1 ?_
    rw [hsees.kindAfter _]
    generalize w.kind = k' at hw
    cases k' <;> first | rfl | cases hw
  | @named text hword hknown =>
    refine look run_kind ?_
    rw [show (source.view s).kind 0 = .identifier from hsees.kind]
    have hpath : Consumes source s 1 Parse.typePath ⟨text, text⟩ := by
      refine typePath hsees ?_ ?_ <;>
      · rintro hk
        rw [hk] at hw
        cases hw
    refine hpath.andLast (look run_view ?_)
    have haccepts : (source.view (s.after 1)).accepts ⟨text, text⟩ = true := by
      have hisKnown : (source.view (s.after 1)).isKnown text = true := hknown
      simp [View.accepts, hisKnown]
    rw [haccepts, if_pos rfl]
    exact .pure ()

/-- Marks and qualifiers are taken by two loops, the first of which knows qualifiers only. -/
theorem suffixes {ks : List TokenKind} (hks : ∀ k ∈ ks, isTypeSuffix k = true)
    (hsees : source.Sees s.cursor.position (ks.map spelled ++ w :: ws))
    (hw : isTypeSuffix w.kind = false) :
    Consumes source s (ks.map spelled).length (do
      Parse.skipWhile View.isQualifier
      Parse.skipWhile isTypeSuffix) () := by
  let qualifiers := ks.takeWhile View.isQualifier
  let others := ks.dropWhile View.isQualifier
  have hsplit : ks = qualifiers ++ others := List.takeWhile_append_dropWhile.symm
  rw [hsplit, List.map_append, List.append_assoc] at hsees
  rw [hsplit, List.map_append, List.length_append]
  have hothers : ∀ k ∈ others, isTypeSuffix k = true := fun k hk =>
    hks k (List.dropWhile_subset _ hk)
  refine (skipSpelled rfl (fun k hk => (List.mem_takeWhile_imp hk)) (Source.sees_append.1 hsees).1 ?_).bind
    (skipSpelled rfl hothers (Source.sees_append.1 (hsees.after _)).1 ?_)
  · cases hcase : others with
    | nil =>
      rw [hcase] at hsees
      rw [hsees.kindAfter]
      generalize w.kind = k' at hw
      cases k' <;> first | rfl | cases hw
    | cons k others' =>
      rw [hcase] at hsees
      rw [hsees.kindAfter]
      have hnot : ∀ h : others ≠ [], View.isQualifier (others.head h) = false :=
        List.head_dropWhile_not View.isQualifier
      rw [hcase] at hnot
      exact hnot (List.cons_ne_nil k others')
  · rw [(hsees.after _).kindAfter]
    exact hw

/-- A type, up to the name or the parenthesis after it. -/
theorem typeName {qualifiers ks : List TokenKind}
    (hqualifiers : ∀ k ∈ qualifiers, View.isQualifier k = true)
    (hcore : IsCore s.cursor.known core) (hks : ∀ k ∈ ks, isTypeSuffix k = true)
    (hw : w.kind.endsType = true) (hsees : source.Sees s.cursor.position
      (qualifiers.map spelled ++ core ++ (ks.map spelled ++ w :: ws))) :
    Consumes source s (qualifiers.map spelled ++ core ++ ks.map spelled).length Parse.typeName
      (joined (qualifiers.map spelled ++ core ++ ks.map spelled)) := by
  have hall : Token.join (source.stream.between s.cursor.position (s.cursor.position +
      (qualifiers.map spelled ++ core ++ ks.map spelled).length)) =
      joined (qualifiers.map spelled ++ core ++ ks.map spelled) := by
    rw [← List.append_assoc] at hsees
    exact (Source.sees_append.1 hsees).1.join_between
  rw [List.append_assoc] at hsees
  have hcoresees := hsees.after (qualifiers.map spelled)
  have hbefore : Consumes source s (qualifiers.map spelled).length
      (Parse.skipWhile View.isQualifier) () := by
    obtain ⟨v, rest, hv, hvq, -⟩ := hcore.head
    rw [hv] at hsees
    exact skipSpelled rfl hqualifiers (Source.sees_append.1 hsees).1 (by rwa [hsees.kindAfter _])
  have hbare : Consumes source (s.after (qualifiers.map spelled).length) core.length
      Parse.bareCore () := by
    cases ks with
    | nil =>
      refine bareCore (s := s.after _) hcore hcoresees ?_
      rw [TokenKind.followsCore, hw, Bool.or_true]
    | cons k ks =>
      refine bareCore (s := s.after _) hcore hcoresees ?_
      rw [TokenKind.followsCore, show (spelled k).kind = k from rfl, hks k List.mem_cons_self]
      rfl
  have hnosuffix : isTypeSuffix w.kind = false := by
    generalize w.kind = k at hw
    cases k <;> first | rfl | cases hw
  have hsuffixes := suffixes hks (hcoresees.after core) hnosuffix
  unfold Parse.typeName Parse.typeCore
  refine look run_position ?_
  simp only [bind_assoc]
  rw [List.append_assoc, List.length_append, List.length_append]
  refine hbefore.bind (hbare.bind ?_)
  rw [← bind_assoc]
  refine hsuffixes.andLast ?_
  rw [Consumes, run_textSince]
  simp only [List.length_append, ParseState.position_after, ← Nat.add_assoc] at hall ⊢
  rw [hall, List.append_assoc]
  rfl

end Consumes

/-- A name with nothing more to the type is read as a type if it is accepted as one. -/
theorem ConsumesIf.typeName {w : Lexeme} {ws : List Lexeme} {text : String}
    (hsees : source.Sees s.cursor.position (Lexeme.name text :: w :: ws))
    (hsuffix : isTypeSuffix w.kind = false) (hlt : w.kind ≠ .lt) (hcolons : w.kind ≠ .colonColon) :
    ConsumesIf ((source.view s).accepts ⟨text, text⟩) source s 1 Parse.typeName text := by
  have hnoMore {c : TokenKind → Bool} (t : ParseState) (hc : c .eof = false)
      (h : c ((source.view t).kind 0) = false) : Consumes source t 0 (skipWhile c) () := by
    have hnone : source.Sees t.cursor.position [] := trivial
    exact Consumes.skipWhile hc hnone (List.forall_mem_nil _) h
  have hk : (source.view s).kind 0 = .identifier := hsees.kind
  have hnext : (source.view (s.after 1)).kind 0 = w.kind := hsees.next.kind
  have hnamed : ConsumesIf ((source.view s).accepts ⟨text, text⟩) source s 1 namedType () := by
    refine .after (m := 0) (Consumes.typePath hsees hlt hcolons) (.look run_view ?_)
    -- What is accepted does not depend on the place.
    rw [show (source.view (s.after 1)).accepts ⟨text, text⟩ =
      (source.view s).accepts ⟨text, text⟩ from rfl]
    cases (source.view s).accepts ⟨text, text⟩ with
    | true => exact Consumes.pure ()
    | false => exact Refuses.unexpected _
  have hbare : ConsumesIf ((source.view s).accepts ⟨text, text⟩) source s 1 bareCore () := by
    refine .look run_kind ?_
    rw [hk]
    exact hnamed
  have hnone : View.isQualifier w.kind = false := by
    generalize w.kind = k at hsuffix
    cases k <;> first | rfl | cases hsuffix
  have hcore : ConsumesIf ((source.view s).accepts ⟨text, text⟩) source s 1 typeCore () :=
    .look (hnoMore s rfl (by rw [hk]; rfl)) (hbare.andLast (hnoMore (s.after 1) rfl (by rwa [hnext])))
  have hall : Token.join (source.stream.between s.cursor.position (s.cursor.position + 1)) = text := by
    have hone : source.Sees s.cursor.position [Lexeme.name text] := ⟨hsees.1, hsees.2.1, trivial⟩
    exact hone.join_between.trans (joined_name text)
  have hsuffixes : Consumes source (s.after 1) 0 (skipWhile isTypeSuffix) () :=
    hnoMore (s.after 1) rfl (by rwa [hnext])
  refine .look run_position (hcore.andLast (hsuffixes.andLast ?_))
  rw [Consumes, run_textSince]
  exact congrArg (fun text => (Except.ok text, s.after 1)) hall

end CTree
