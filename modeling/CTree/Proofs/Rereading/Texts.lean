import CTree.Proofs.Declarators.Joined
import CTree.Proofs.Lexing.Lines
import CTree.Proofs.Rereading.Clings

/-!
# Texts of tokens, cut again

The text of a run of tokens is cut into the same tokens just if none of them clings to the text after it.
Adjacent closing angles make the one exception: they come back paired from the left.
-/

namespace CTree

/-! ### Pieces and what they give -/

/-- A text is cut into the given lexemes and the end of the text, and nothing is wrong with it. -/
def Lexeme.Rereads (dialect : Dialect) (ws : List Lexeme) (text : List Char) : Prop :=
  (tokenize dialect text).tokens.dropLast.map Token.lexeme = ws ∧ (tokenize dialect text).errors = []

/-- The same of pieces. -/
def Piece.Give (ps : List Piece) (ws : List Lexeme) : Prop :=
  ps.filterMap Piece.lexeme? = ws ∧ ∀ p ∈ ps, p.fault? = none

section Pieces

variable {dialect : Dialect} {c : Char} {cs w rest text : List Char} {kind : TokenKind} {p : Piece}
  {ps : List Piece} {ws : List Lexeme}

theorem Piece.faults_eq_nil_iff (offset : Nat) (ps : List Piece) :
    ((Piece.locate offset ps).filterMap fun (o, p) => p.error? o) = [] ↔ ∀ p ∈ ps, p.fault? = none := by
  induction ps generalizing offset with
  | nil => simp [Piece.locate]
  | cons p ps ih =>
    rw [Piece.filterMap_locate_cons fun o p => p.error? o, List.append_eq_nil_iff, ih, List.forall_mem_cons,
      Piece.error?]
    cases p.fault? <;> simp

theorem Lexeme.rereads_iff_give : Lexeme.Rereads dialect ws text ↔ Piece.Give (pieces dialect text) ws := by
  unfold Lexeme.Rereads tokenize
  dsimp only
  rw [List.dropLast_concat, Piece.lexemes_locate, Piece.faults_eq_nil_iff]
  rfl

/-- A closed literal takes its body and the quote after it. -/
theorem quotedTail_of_body {quote : Char} {body : List Char} (hbody : QuotedBody quote body)
    (hquote : quote ≠ '\\' ∧ quote ≠ '\n') (rest : List Char) :
    quotedTail quote (body ++ [quote] ++ rest) = (body.length + 1, true) := by
  rw [List.append_assoc]
  induction hbody with
  | nil =>
    rw [List.nil_append, List.singleton_append, quotedTail_cons hquote.1, if_neg hquote.2, if_pos rfl]
    rfl
  | escaped _ ih =>
    rw [List.cons_append, List.cons_append, quotedTail, ih]
    rfl
  | plain hslash hline hne _ ih =>
    rw [List.cons_append, quotedTail_cons hslash, if_neg hline, if_neg hne, ih]
    rfl

/-- A lexeme that may stand at the beginning of a text is what the text begins with. -/
theorem PieceAt.pieces_eq (h : PieceAt dialect w rest (some kind) none) :
    ∃ p, pieces dialect (w ++ rest) = p :: pieces dialect rest ∧ p.text = w ∧
      p.tokenKind? = some kind ∧ p.fault? = none := by
  cases h with
  | @literal quote kind fault body rest hquote hbody =>
    have htail := quotedTail_of_body hbody (by cases hquote <;> decide) rest
    have hfirst : firstPiece dialect quote (body ++ [quote] ++ rest) =
        (.quoted kind true, body.length + 1) := by
      cases hquote <;>
      · unfold firstPiece
        rw [if_neg (by decide), if_neg (by simp), if_neg (by simp)]
        simp only [htail]
        rfl
    refine ⟨⟨.quoted kind true, quote :: (body ++ [quote])⟩, ?_, rfl, rfl, ?_⟩
    · rw [List.cons_append, pieces_cons hfirst, List.take_left' (by simp), List.drop_left' (by simp)]
    · cases hquote <;> rfl
  | @lexeme w rest kind n hstarts hlexeme hlength =>
    obtain ⟨c, u, rfl⟩ := List.exists_cons_of_length_eq_add_one hlength
    have hfirst : firstPiece _ c (u ++ rest) = (.lexeme kind, n) :=
      firstPiece_of_startsLexeme hstarts hlexeme
    have hu : u.length = n := Nat.succ.inj hlength
    refine ⟨⟨.lexeme kind, c :: u⟩, ?_, rfl, rfl, rfl⟩
    rw [List.cons_append, pieces_cons hfirst, List.take_left' hu, List.drop_left' hu]

theorem Piece.give_blank_iff :
    Piece.Give (pieces dialect (' ' :: cs)) ws ↔ Piece.Give (pieces dialect cs) ws := by
  have hfirst : firstPiece dialect ' ' cs = (.blank, 0) := if_pos rfl
  rw [pieces_cons hfirst, List.take_zero, List.drop_zero, Piece.Give, List.forall_mem_cons]
  exact ⟨fun h => ⟨h.1, h.2.2⟩, fun h => ⟨h.1, rfl, h.2⟩⟩

theorem Piece.give_cons {w : Lexeme} (h : PieceAt dialect w.text.toList rest (some w.kind) none)
    (hrest : Piece.Give (pieces dialect rest) ws) :
    Piece.Give (pieces dialect (w.text.toList ++ rest)) (w :: ws) := by
  obtain ⟨p, hpieces, htext, hkind, hfault⟩ := h.pieces_eq
  have hlexeme : p.lexeme? = some w := by
    rw [Piece.lexeme?, hkind, htext, Option.map_some, String.ofList_toList]
  rw [hpieces]
  exact ⟨by rw [List.filterMap_cons, hlexeme, hrest.1], List.forall_mem_cons.2 ⟨hfault, hrest.2⟩⟩

end Pieces

/-! ### Nothing but blanks is lost -/

/-- The number of characters of a text that are no blanks. -/
def Text.solid (cs : List Char) : Nat :=
  cs.countP fun c => !Text.isBlank c

/-- The number of characters of lexemes that are no blanks. -/
def Lexeme.solid (ws : List Lexeme) : Nat :=
  Text.solid (ws.flatMap fun w => w.text.toList)

section Solid

variable {dialect : Dialect} {rest : List Char} {ps : List Piece} {ws : List Lexeme} {w : Lexeme}

theorem Lexeme.solid_cons (w : Lexeme) (ws : List Lexeme) :
    solid (w :: ws) = Text.solid w.text.toList + solid ws :=
  List.countP_append

theorem Piece.solid_lexemes_le (ps : List Piece) :
    Lexeme.solid (ps.filterMap Piece.lexeme?) ≤ Text.solid (ps.flatMap Piece.text) := by
  induction ps with
  | nil => exact Nat.le_refl 0
  | cons p ps ih =>
    rw [List.filterMap_cons, List.flatMap_cons, Text.solid, List.countP_append]
    cases hp : p.lexeme? with
    | none => exact Nat.le_add_left_of_le ih
    | some w =>
      obtain ⟨kind, -, rfl⟩ := Option.map_eq_some_iff.1 hp
      rw [Lexeme.solid_cons, String.toList_ofList]
      exact Nat.add_le_add_left ih _

theorem PieceAt.exists_solid {w : List Char} {kind : TokenKind}
    (h : PieceAt dialect w rest (some kind) none) : ∃ c u, w = c :: u ∧ Text.isBlank c = false := by
  cases h with
  | literal hquote => cases hquote <;> exact ⟨_, _, rfl, by decide⟩
  | lexeme hstarts _ hlength =>
    obtain ⟨c, cs, hcs, hblank, -⟩ := hstarts
    obtain ⟨d, u, rfl⟩ := List.exists_cons_of_length_eq_add_one hlength
    obtain ⟨rfl, -⟩ := List.cons.inj hcs
    exact ⟨d, u, rfl, hblank⟩

/-- If all that is no blank belongs to the lexemes, then the first of them is what the text begins with. -/
theorem Piece.Give.pieceAt (h : Piece.Give (pieces dialect (w.text.toList ++ rest)) (w :: ws))
    (hw : w.Stands dialect) (hsolid : Text.solid rest = Lexeme.solid ws) :
    PieceAt dialect w.text.toList rest (some w.kind) none ∧ Piece.Give (pieces dialect rest) ws := by
  obtain ⟨rest', hpiece, -⟩ := hw
  obtain ⟨c, u, hu, hc⟩ := hpiece.exists_solid
  obtain ⟨kind, n, hfirst⟩ : ∃ kind n, firstPiece dialect c (u ++ rest) = (kind, n) := ⟨_, _, rfl⟩
  obtain ⟨hlexemes, hfaults⟩ := h
  rw [hu, List.cons_append, pieces_cons hfirst] at hlexemes hfaults
  have hspec := firstPiece_spec hfirst
  obtain ⟨hfault, hfaults⟩ := List.forall_mem_cons.1 hfaults
  rw [List.filterMap_cons] at hlexemes
  rw [hfault] at hspec
  have hsplit : (u ++ rest).take n ++ (u ++ rest).drop n = u ++ rest := List.take_append_drop ..
  cases hkind : Piece.tokenKind? ⟨kind, c :: (u ++ rest).take n⟩ with
  | none =>
    -- A comment would take characters that the lexemes need.
    rw [Piece.lexeme?, hkind] at hlexemes
    have hle := Piece.solid_lexemes_le (pieces dialect ((u ++ rest).drop n))
    rw [flatMap_text_pieces, show (pieces dialect ((u ++ rest).drop n)).filterMap Piece.lexeme? = w :: ws
      from hlexemes, Lexeme.solid_cons, hu] at hle
    have htotal : Text.solid ((u ++ rest).take n) + Text.solid ((u ++ rest).drop n) =
        Text.solid u + Text.solid rest := by
      rw [Text.solid, Text.solid, ← List.countP_append, hsplit, List.countP_append]
      rfl
    have hfirst : Text.solid (c :: u) = Text.solid u + 1 := List.countP_cons_of_pos (by simp [hc])
    rw [hfirst] at hle
    omega
  | some k =>
    rw [hkind] at hspec
    rw [Piece.lexeme?, hkind] at hlexemes
    obtain ⟨heq, hrest⟩ := List.cons.inj hlexemes
    have htext : w.text.toList = c :: (u ++ rest).take n := by rw [← heq, String.toList_ofList]
    have htake : u = (u ++ rest).take n := (List.cons.inj (hu.symm.trans htext)).2
    have hdrop : (u ++ rest).drop n = rest := by
      rw [← htake] at hsplit
      exact List.append_cancel_left hsplit
    rw [hdrop] at hspec hrest hfaults
    rw [htext, show w.kind = k by rw [← heq]]
    exact ⟨hspec, hrest, hfaults⟩

end Solid

/-! ### Runs of lexemes -/

namespace Lexeme

variable {dialect : Dialect} {ws : List Lexeme} {w : Lexeme} {k : TokenKind}

/-- No lexeme clings to the text of those after it. -/
def Apart (dialect : Dialect) : List Lexeme → Prop
  | [] => True
  | w :: ws => ¬ Clings dialect w.kind w.text.toList (textAfter w.kind ws) ∧ Apart dialect ws

/-- Only blanks are added to the texts of lexemes. -/
theorem solid_textAfter (k : TokenKind) (ws : List Lexeme) : Text.solid (textAfter k ws) = solid ws := by
  induction ws generalizing k with
  | nil => rfl
  | cons w ws ih =>
    have hblank : Text.solid (if Token.spaced k w.kind then [' '] else []) = 0 := by
      split <;> rfl
    rw [textAfter_cons, Text.solid, List.countP_append, List.countP_append]
    show Text.solid _ + (Text.solid _ + Text.solid _) = _
    rw [hblank, ih, Nat.zero_add, solid_cons]

/-- After a word comes no character of a word, and never one of another script. -/
theorem textAfter_head (hws : ∀ w ∈ ws, w.Stands dialect) (k : TokenKind) :
    Text.StartsPlain (textAfter k ws) ∧
      (k.isWordy = true → ∀ c ∈ (textAfter k ws).head?, Text.isWordChar c = false) := by
  cases ws with
  | nil => exact ⟨fun c hc => (nomatch hc), fun _ c hc => (nomatch hc)⟩
  | cons w ws =>
    obtain ⟨rest, hpiece, -⟩ := hws w List.mem_cons_self
    have hhead (cs : List Char) : (w.text.toList ++ cs).head? = w.text.toList.head? := by
      obtain ⟨c, u, hu, -⟩ := hpiece.exists_solid
      rw [hu]
      rfl
    rw [textAfter_cons]
    by_cases hspaced : Token.spaced k w.kind = true
    · rw [if_pos hspaced]
      constructor
      · rintro _ ⟨⟩ hword
        exact absurd hword (by decide)
      · rintro - _ ⟨⟩
        decide
    · rw [if_neg hspaced, List.nil_append, Text.StartsPlain, hhead]
      refine ⟨fun c hc => hpiece.startsPlain c (by rwa [hhead]), fun hk => hpiece.isWordChar_head ?_⟩
      rw [Bool.eq_false_iff]
      intro hw
      exact hspaced (by simp [Token.spaced, hw, hk])

/-- The text of lexemes is cut into them just if none of them clings to what comes after it. -/
theorem give_textAfter_iff (hws : ∀ w ∈ ws, w.Stands dialect) (k : TokenKind) :
    Piece.Give (pieces dialect (textAfter k ws)) ws ↔ Apart dialect ws := by
  induction ws generalizing k with
  | nil =>
    have hpieces : pieces dialect (textAfter k []) = [] := by
      rw [show textAfter k [] = [] from rfl, pieces]
    rw [hpieces]
    exact ⟨fun _ => trivial, fun _ => ⟨rfl, List.forall_mem_nil _⟩⟩
  | cons w ws ih =>
    obtain ⟨hw, hws⟩ := List.forall_mem_cons.1 hws
    obtain ⟨hplain, hwordy⟩ := textAfter_head hws w.kind
    have hblank : Piece.Give (pieces dialect (textAfter k (w :: ws))) (w :: ws) ↔
        Piece.Give (pieces dialect (w.text.toList ++ textAfter w.kind ws)) (w :: ws) := by
      rw [textAfter_cons]
      split
      · exact Piece.give_blank_iff
      · rfl
    rw [hblank, Apart, ← ih hws w.kind]
    constructor
    · intro h
      obtain ⟨hpiece, hrest⟩ := h.pieceAt hw (solid_textAfter w.kind ws)
      exact ⟨hpiece.not_clings, hrest⟩
    · rintro ⟨hclings, hrest⟩
      obtain ⟨rest, hpiece, hstands⟩ := hw
      exact Piece.give_cons (hpiece.again hstands hplain hwordy hclings) hrest

theorem rereads_joined_iff (hws : ∀ w ∈ ws, w.Stands dialect) :
    Rereads dialect ws (joined ws).toList ↔ Apart dialect ws := by
  rw [rereads_iff_give, joined_eq_textAfter, give_textAfter_iff hws]

end Lexeme

end CTree
