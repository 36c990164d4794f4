import CTree.Parse.Declarator
import CTree.Proofs.Declarators.Consumes

/-!
# The text of lexemes

A type is kept as the text of its tokens with normalized spacing. The marks of pointers and references are
written without blanks, so they can be added to such a text and taken off it again: what the later
declarators of a declaration start from is the text without the marks at its end.
-/

namespace CTree

open Lexeme

/-! ### Joining lexemes -/

namespace Lexeme

/-- The token that a lexeme is at the beginning of a text. -/
def token (w : Lexeme) : Token :=
  ⟨w.kind, w.text, 0⟩

/-- The text of lexemes with normalized spacing. -/
def joined (ws : List Lexeme) : String :=
  Token.join (ws.map token)

/-- The text of lexemes after one of the given kind. -/
def textAfter (k : TokenKind) (ws : List Lexeme) : List Char :=
  (Token.joinAfter k (ws.map token)).toList

theorem textAfter_cons (k : TokenKind) (w : Lexeme) (ws : List Lexeme) : textAfter k (w :: ws) =
    (if Token.spaced k w.kind then [' '] else []) ++ (w.text.toList ++ textAfter w.kind ws) := by
  rw [textAfter, List.map_cons, Token.joinAfter, String.toList_append, String.toList_append,
    List.append_assoc]
  show (if Token.spaced k w.kind = true then " " else "").toList ++ _ = _
  cases Token.spaced k w.kind <;> rfl

/-- The end of a text asks for no blank, so what comes first may be written after it. -/
theorem joined_eq_textAfter (ws : List Lexeme) : (joined ws).toList = textAfter .eof ws := by
  cases ws with
  | nil => rfl
  | cons w ws =>
    have hspaced : Token.spaced .eof w.kind = false := by
      unfold Token.spaced
      split <;> rfl
    rw [textAfter_cons, hspaced]
    exact String.toList_append ..

theorem textAfter_gt (ws : List Lexeme) : textAfter .gt ws = textAfter .shr ws := by
  cases ws with
  | nil => rfl
  | cons w ws =>
    rw [textAfter_cons, textAfter_cons]
    have hspaced : Token.spaced .gt w.kind = Token.spaced .shr w.kind := by
      unfold Token.spaced
      split <;> rfl
    rw [hspaced]

/-- Two angles are written as one `>>` is. -/
theorem textAfter_gt_gt (k : TokenKind) (ws : List Lexeme) :
    textAfter k (spelled .gt :: spelled .gt :: ws) = textAfter k (spelled .shr :: ws) := by
  rw [textAfter_cons, textAfter_cons, textAfter_cons]
  show _ ++ (['>'] ++ ([] ++ (['>'] ++ textAfter .gt ws))) = _ ++ (['>', '>'] ++ textAfter .shr ws)
  rw [textAfter_gt]
  rfl

/-- In any text a closing pair may be written as one token or as two. -/
theorem joined_pair (ws ws' : List Lexeme) :
    joined (ws ++ spelled .gt :: spelled .gt :: ws') = joined (ws ++ spelled .shr :: ws') := by
  have hafter (k : TokenKind) : textAfter k (ws ++ spelled .gt :: spelled .gt :: ws') =
      textAfter k (ws ++ spelled .shr :: ws') := by
    induction ws generalizing k with
    | nil => exact textAfter_gt_gt k ws'
    | cons w ws ih => rw [List.cons_append, List.cons_append, textAfter_cons, textAfter_cons, ih]
  rw [← String.toList_inj, joined_eq_textAfter, joined_eq_textAfter, hafter]

end Lexeme

namespace Token

variable {ts us : List Token} {t : Token}

theorem joinAfter_congr (h : ts.map lexeme = us.map lexeme) (k : TokenKind) :
    joinAfter k ts = joinAfter k us := by
  induction ts generalizing us k with
  | nil =>
    obtain rfl : us = [] := List.map_eq_nil_iff.1 h.symm
    rfl
  | cons t ts ih =>
    obtain ⟨u, us, rfl, hu, hus⟩ := List.map_eq_cons_iff.1 h.symm
    obtain ⟨hkind, htext⟩ := Lexeme.mk.inj hu
    rw [joinAfter, joinAfter, hkind, htext, ih hus.symm]

/-- Where tokens stand makes no difference to their text. -/
theorem join_congr (h : ts.map lexeme = us.map lexeme) : join ts = join us := by
  cases ts with
  | nil =>
    obtain rfl : us = [] := List.map_eq_nil_iff.1 h.symm
    rfl
  | cons t ts =>
    obtain ⟨u, us, rfl, hu, hus⟩ := List.map_eq_cons_iff.1 h.symm
    obtain ⟨hkind, htext⟩ := Lexeme.mk.inj hu
    rw [join, join, htext, hkind, joinAfter_congr hus.symm]

theorem join_eq_joined (ts : List Token) : join ts = joined (ts.map lexeme) :=
  join_congr (by simp only [List.map_map]; rfl)

theorem joinAfter_append (k : TokenKind) (ts : List Token) (t u : Token) :
    joinAfter k (ts ++ [t, u]) =
      joinAfter k (ts ++ [t]) ++ ((if spaced t.kind u.kind then " " else "") ++ u.text) := by
  induction ts generalizing k with
  | nil => simp only [List.nil_append, joinAfter, String.append_empty, String.append_assoc]
  | cons t' ts ih => simp only [List.cons_append, joinAfter, ih, String.append_assoc]

/-- What a token adds to the text of the tokens before it depends on the last of these only. -/
theorem join_append (ts : List Token) (t u : Token) : join (ts ++ [t, u]) =
    join (ts ++ [t]) ++ ((if spaced t.kind u.kind then " " else "") ++ u.text) := by
  cases ts with
  | nil => simp only [List.nil_append, join, joinAfter, String.append_empty]
  | cons t' ts => simp only [List.cons_append, join, joinAfter_append, String.append_assoc]

end Token

/-- The text of the tokens that are taken. -/
theorem Source.Sees.join_between {source : Source} {n : Nat} {ws : List Lexeme}
    (h : source.Sees n ws) :
    Token.join (source.stream.between n (n + ws.length)) = joined ws := by
  rw [Token.join_eq_joined, h.between]

/-! ### Marks at the end of a type -/

theorem TokenKind.eq_of_isVariableMark {k : TokenKind} (h : k.isVariableMark = true) :
    k = .star ∨ k = .amp ∨ k = .andAnd := by
  cases k <;> first | (cases h; done) | decide

namespace Lexeme

variable {ws : List Lexeme} {w v : Lexeme} {ks : List TokenKind}

theorem joined_name (text : String) : joined [name text] = text := by
  simp [joined, Token.join, Token.joinAfter, token, name]

theorem joined_append (ws : List Lexeme) (w v : Lexeme) : joined (ws ++ [w, v]) =
    joined (ws ++ [w]) ++ ((if Token.spaced w.kind v.kind then " " else "") ++ v.text) := by
  simp only [joined, List.map_append, List.map_cons, List.map_nil, Token.join_append]
  rfl

/-- The text of the last lexeme ends the whole text. -/
theorem exists_joined_eq (ws : List Lexeme) (w : Lexeme) : ∃ text, joined (ws ++ [w]) = text ++ w.text := by
  rcases List.eq_nil_or_concat ws with rfl | ⟨ws, v, rfl⟩
  · exact ⟨"", by simp [joined, Token.join, Token.joinAfter, token]⟩
  · refine ⟨joined (ws ++ [v]) ++ if Token.spaced v.kind w.kind then " " else "", ?_⟩
    rw [List.concat_eq_append, List.append_assoc, List.singleton_append, joined_append,
      String.append_assoc]

/-- Marks are written without blanks. -/
theorem joined_append_marks (hw : w.kind ≠ .comma) (hks : ∀ k ∈ ks, k.isVariableMark = true) :
    joined (ws ++ w :: ks.map spelled) = joined (ws ++ [w]) ++ String.join (ks.map TokenKind.spelling) := by
  induction ks generalizing ws w with
  | nil => rw [List.map_nil, List.map_nil, String.join_nil, String.append_empty]
  | cons k ks ih =>
    have hk : k.isVariableMark = true := hks k List.mem_cons_self
    have hmark : k ≠ .comma ∧ k.isWordy = false := by
      rcases TokenKind.eq_of_isVariableMark hk with rfl | rfl | rfl <;> exact ⟨by decide, rfl⟩
    have hspaced : Token.spaced w.kind k = false := by simp [Token.spaced, hmark.2, hw]
    have hrest := @ih (ws ++ [w]) (spelled k) hmark.1
      fun k' hk' => hks k' (List.mem_cons_of_mem _ hk')
    rw [List.append_assoc, List.append_assoc, List.singleton_append, List.singleton_append] at hrest
    rw [List.map_cons, hrest, joined_append, show (spelled k).kind = k from rfl, hspaced, List.map_cons,
      String.join_cons, String.append_assoc, if_neg Bool.false_ne_true, String.empty_append]
    rfl

/-- A lexeme whose text is not taken for a mark. -/
structure IsSolid (w : Lexeme) : Prop where
  ne_comma : w.kind ≠ .comma
  last : ∃ c, w.text.toList.getLast? = some c ∧ TypeText.isDeclaratorMark c = false

end Lexeme

/-- The marks at the end of a type are no part of its base; qualifiers among them keep what stands before
    them. -/
theorem TypeText.base_joined {ws : List Lexeme} {w : Lexeme} {ks : List TokenKind} (hw : w.IsSolid)
    (hks : ∀ k ∈ ks, k.isVariableMark = true) :
    TypeText.base (joined (ws ++ w :: ks.map spelled)) = joined (ws ++ [w]) := by
  obtain ⟨c, hlast, hc⟩ := hw.last
  obtain ⟨text, htext⟩ := exists_joined_eq ws w
  have hmarks : ∀ c ∈ (String.join (ks.map TokenKind.spelling)).toList.reverse,
      isDeclaratorMark c = true := by
    intro c hc
    rw [List.mem_reverse, String.toList_join, List.flatMap_map, List.mem_flatMap] at hc
    obtain ⟨k, hk, hc⟩ := hc
    rcases TokenKind.eq_of_isVariableMark (hks k hk) with rfl | rfl | rfl <;>
    · simp [TokenKind.spelling, TokenKind.spelling?] at hc
      subst hc
      rfl
  rw [joined_append_marks hw.ne_comma hks, base, String.toList_append, List.reverse_append,
    List.dropWhile_append_of_pos hmarks, htext, String.toList_append, List.reverse_append]
  obtain ⟨cs, hcs⟩ : ∃ cs, w.text.toList.reverse = c :: cs :=
    List.head?_eq_some_iff.1 (by rw [List.head?_reverse, hlast])
  rw [hcs, List.cons_append, List.dropWhile_cons_of_neg (by rw [hc]; exact Bool.false_ne_true),
    ← List.cons_append, ← hcs, ← List.reverse_append, List.reverse_reverse, ← String.toList_append,
    String.ofList_toList]

end CTree
