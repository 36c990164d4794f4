import CTree.Parse.Session

/-!
# Names are words

A token that is a name is a word: a letter or underscore of ASCII, then letters, digits and
underscores. So its text is never empty, and no template arguments begin in it.
-/

namespace CTree

namespace Rule

/-- A text of the shape of names. -/
def IsWord (text : String) : Prop :=
  ∃ c cs, text.toList = c :: cs ∧ isNameStart c = true ∧ cs.all Text.isAsciiWord = true

namespace IsWord

variable {text : String}

theorem ne_empty (h : IsWord text) : text ≠ "" := by
  obtain ⟨c, cs, hc, -, -⟩ := h
  rintro rfl
  cases hc

/-- Every character of a word is a letter, a digit or an underscore. -/
theorem isAsciiWord (h : IsWord text) : ∀ c ∈ text.toList, Text.isAsciiWord c = true := by
  obtain ⟨c, cs, hc, hstart, hcs⟩ := h
  have hfirst : Text.isAsciiWord c = true := by
    simp only [isNameStart, Bool.or_eq_true] at hstart
    simp only [Text.isAsciiWord, Char.isAlphanum, Bool.or_eq_true]
    exact hstart.imp Or.inl id
  intro d hd
  rw [hc] at hd
  rcases List.mem_cons.1 hd with rfl | hd
  · exact hfirst
  · exact List.all_eq_true.1 hcs d hd

theorem ne_angle (h : IsWord text) : ∀ c ∈ text.toList, c ≠ '<' := by
  intro c hc
  have hword := h.isAsciiWord c hc
  rintro rfl
  exact absurd hword (by decide)

end IsWord

/-! ### The rule for names -/

variable {rules : List Rule} {cs : List Char} {kind : TokenKind} {n : Nat}

/-- What decides the kind of a lexeme is one of the rules. -/
theorem mem_of_firstLexeme (h : firstLexeme cs rules = some (kind, n)) :
    ∃ rule ∈ rules, rule.kind = kind ∧ rule.reader cs = some (n + 1) := by
  induction rules with
  | nil => cases h
  | cons rule rules ih =>
    unfold firstLexeme at h
    split at h
    · rename_i m hm
      cases h
      exact ⟨rule, List.mem_cons_self, rfl, hm⟩
    · obtain ⟨rule', hmem, hrule⟩ := ih h
      exact ⟨rule', List.mem_cons_of_mem _ hmem, hrule⟩

/-- Only one rule of a dialect reads names. -/
theorem eq_identifier_of_mem {dialect : Dialect} {rule : Rule} (h : rule ∈ table dialect)
    (hkind : rule.kind = .identifier) : rule = identifier := by
  have hother : ∀ d : Dialect, (table d).dropLast.all (·.kind != .identifier) = true := by
    intro d
    cases d <;> decide
  have hlast : table dialect = (table dialect).dropLast ++ [identifier] := by
    cases dialect <;> rfl
  rw [hlast] at h
  rcases List.mem_append.1 h with h | h
  · have hne := List.all_eq_true.1 (hother dialect) rule h
    exact absurd hkind (bne_iff_ne.1 hne)
  · exact List.mem_singleton.1 h

theorem name_cons (c : Char) (cs : List Char) : name (c :: cs) =
    if isNameStart c then some (1 + (cs.takeWhile Text.isAsciiWord).length) else none := by
  by_cases hc : isNameStart c = true
  · simp [name, Reader.sequence, Reader.one, Reader.run, hc]
  · simp [name, Reader.sequence, Reader.one, hc]

/-- What the rule for names reads is a word. -/
theorem isWord_of_name {c : Char} {cs : List Char} {n : Nat} (h : name (c :: cs) = some (n + 1)) :
    IsWord (String.ofList (c :: cs.take n)) := by
  rw [name_cons] at h
  split at h
  · rename_i hc
    have hn : n = (cs.takeWhile Text.isAsciiWord).length := by
      have hsum := Option.some.inj h
      omega
    have htake : cs.take n = cs.takeWhile Text.isAsciiWord := by
      rw [hn, ← List.prefix_iff_eq_take.1 (List.takeWhile_prefix _)]
    refine ⟨c, cs.take n, String.toList_ofList, hc, ?_⟩
    rw [htake]
    exact List.all_takeWhile
  · cases h

end Rule

/-! ### Tokens -/

/-- Every name among the tokens of a source is a word. -/
def Source.NamesAreWords (source : Source) : Prop :=
  ∀ i, (source.stream.get i).kind = .identifier → Rule.IsWord (source.stream.get i).text

/-- What begins with a name was read by a rule. -/
theorem firstLexeme_of_firstPiece {dialect : Dialect} {c : Char} {cs : List Char} {kind : PieceKind}
    {n : Nat} (h : firstPiece dialect c cs = (kind, n)) {text : List Char}
    (hkind : Piece.tokenKind? ⟨kind, text⟩ = some .identifier) :
    firstLexeme (c :: cs) (Rule.table dialect) = some (.identifier, n) := by
  unfold firstPiece at h
  split at h
  · cases h
    cases hkind
  split at h
  · cases h
    cases hkind
  split at h
  · cases h
    cases hkind
  split at h
  · cases h
    cases hkind
  split at h
  · cases h
    cases hkind
  split at h
  · rename_i lexeme m hlexeme
    cases h
    cases hkind
    exact hlexeme
  · cases h
    cases hkind

/-- A piece that is a name is a word. -/
theorem Piece.isWord_of_mem {dialect : Dialect} {text : List Char} {p : Piece}
    (h : p ∈ pieces dialect text) (hkind : p.tokenKind? = some .identifier) :
    Rule.IsWord (String.ofList p.text) := by
  fun_induction pieces dialect text with
  | case1 => cases h
  | case2 c cs kind n hfirst ih =>
    rcases List.mem_cons.1 h with rfl | h
    · have hlexeme := firstLexeme_of_firstPiece hfirst hkind
      obtain ⟨rule, hmem, hrule, hread⟩ := Rule.mem_of_firstLexeme hlexeme
      obtain rfl := Rule.eq_identifier_of_mem hmem hrule
      exact Rule.isWord_of_name hread
    · exact ih h

theorem Piece.mem_of_mem_locate {offset i : Nat} {p : Piece} {ps : List Piece}
    (h : (i, p) ∈ locate offset ps) : p ∈ ps := by
  induction ps generalizing offset with
  | nil => cases h
  | cons q ps ih =>
    rcases List.mem_cons.1 h with heq | h
    · cases heq
      exact List.mem_cons_self
    · exact List.mem_cons_of_mem _ (ih h)

/-- A token of a text that is a name is a word. -/
theorem isWord_of_mem_tokenize {dialect : Dialect} {text : List Char} {t : Token}
    (h : t ∈ (tokenize dialect text).tokens) (hkind : t.kind = .identifier) :
    Rule.IsWord t.text := by
  rcases List.mem_append.1 h with h | h
  · obtain ⟨⟨i, p⟩, hp, htoken⟩ := List.mem_filterMap.1 h
    obtain ⟨kind, hpiece, rfl⟩ := Option.map_eq_some_iff.1 htoken
    subst hkind
    exact Piece.isWord_of_mem (Piece.mem_of_mem_locate hp) hpiece
  · obtain rfl := List.mem_singleton.1 h
    cases hkind

/-- Whatever stands in the stream of some tokens is one of them, or the end. -/
theorem TokenStream.get_ofList_mem (tokens : List Token) (i : Nat) :
    ((ofList tokens).get i).kind = .eof ∨ (ofList tokens).get i ∈ tokens := by
  by_cases hi : i < (ofList tokens).body.size
  · right
    rw [get_of_lt _ hi]
    have hmem : (ofList tokens).body[i] ∈ (ofList tokens).body.toList :=
      Array.mem_toList_iff.2 (Array.getElem_mem hi)
    have hbody : ∀ t ∈ (ofList tokens).body.toList, t ∈ tokens := by
      intro t ht
      unfold ofList at ht
      split at ht
      · cases ht
      · split at ht
        · exact List.dropLast_subset _ ht
        · exact ht
    exact hbody _ hmem
  · left
    rw [get_of_le _ (Nat.le_of_not_lt hi)]
    exact (ofList tokens).last_kind

/-- Every name in a source that a session starts with is a word. -/
theorem Session.namesAreWords_start (settings : Settings) (text : List Char) :
    (start settings text).source.NamesAreWords := by
  intro i hkind
  rcases TokenStream.get_ofList_mem (tokenize settings.dialect text).tokens i with hend | hmem
  · rw [show ((start settings text).source.stream.get i).kind = .eof from hend] at hkind
    cases hkind
  · exact isWord_of_mem_tokenize hmem hkind

end CTree
