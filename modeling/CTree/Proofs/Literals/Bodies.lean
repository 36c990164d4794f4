import CTree.Proofs.Declarators.Consumes
import CTree.Proofs.Lexing.Quoted
import CTree.Parse.Session

/-!
# What stands between quotes

The body of a literal is found from its text alone, without knowing whether the literal was closed: a quote
at the end of the text is taken for the closing one. For a closed literal it is that. In an open literal it
is one that a backslash takes, and then the body lacks it; otherwise the body has all that comes after the
opening quote.
-/

namespace CTree

open Parse

/-! ### Bodies of texts -/

namespace Literal

variable {quote : Char} {cs : List Char}

theorem body_closed (quote : Char) (cs : List Char) : body (quote :: (cs ++ [quote])) = cs := by
  rw [body, List.getLast?_concat, if_pos (beq_self_eq_true _), List.dropLast_concat]

theorem body_open (h : cs.getLast? ≠ some quote) : body (quote :: cs) = cs := by
  rw [body, if_neg (by simpa using h)]

end Literal

/-- The last quote of units is taken by a backslash. -/
theorem QuotedBody.exists_escaped {quote : Char} {body : List Char} (h : QuotedBody quote body)
    (hlast : body.getLast? = some quote) :
    ∃ first, QuotedBody quote first ∧ body = first ++ ['\\', quote] := by
  induction h with
  | nil => cases hlast
  | @escaped c cs hcs ih =>
    cases cs with
    | nil =>
      obtain rfl : c = quote := Option.some.inj hlast
      exact ⟨[], .nil, rfl⟩
    | cons d cs =>
      obtain ⟨first, hfirst, hbody⟩ := ih hlast
      exact ⟨'\\' :: c :: first, .escaped hfirst, by rw [hbody]; rfl⟩
  | @plain c cs hslash hline hquote hcs ih =>
    cases cs with
    | nil => exact (hquote (Option.some.inj hlast)).elim
    | cons d cs =>
      obtain ⟨first, hfirst, hbody⟩ := ih hlast
      exact ⟨c :: first, .plain hslash hline hquote hfirst, by rw [hbody]; rfl⟩

theorem OpenBody.exists_escaped {quote : Char} {body rest : List Char} (hquote : quote ≠ '\\')
    (h : OpenBody quote body rest) (hlast : body.getLast? = some quote) :
    ∃ first, QuotedBody quote first ∧ body = first ++ ['\\', quote] := by
  rcases h with ⟨hbody, -⟩ | ⟨cs, -, rfl, -⟩
  · exact hbody.exists_escaped hlast
  · rw [List.getLast?_concat] at hlast
    exact (hquote (Option.some.inj hlast).symm).elim

/-- The body of an open literal has all of it, if its last quote is not one that a backslash takes. -/
theorem OpenBody.body_eq_iff {quote : Char} {body rest : List Char} (hquote : quote ≠ '\\')
    (h : OpenBody quote body rest) :
    Literal.body (quote :: body) = body ↔
      ¬ ∃ first, QuotedBody quote first ∧ body = first ++ ['\\', quote] := by
  constructor
  · rintro hbody ⟨first, -, rfl⟩
    rw [List.append_cons, Literal.body_closed] at hbody
    exact List.cons_ne_nil _ _ (List.append_right_eq_self.1 hbody.symm)
  · intro hescaped
    exact Literal.body_open fun hlast => hescaped (h.exists_escaped hquote hlast)

/-- The text of a token in quotes ends with a quote that a backslash takes. -/
def Token.EndsEscaped (t : Token) (quote : Char) : Prop :=
  ∃ first, QuotedBody quote first ∧ t.text.toList = quote :: (first ++ ['\\', quote])

/-! ### Literals as operands -/

namespace Consumes

variable {g : Grammar} {source : Source} {s : ParseState} {ws : List Lexeme}

/-- A character literal has the body of its token. -/
theorem character (hk : (source.view s).kind 0 = .charLiteral) : Consumes source s 1 g.primary
    (.char (String.ofList (Literal.body ((source.view s).token 0).text.toList))) := by
  refine look run_kind ?_
  rw [hk]
  exact (advance (by rw [hk]; decide)).andLast (.pure _)

/-- String literals that stand side by side are taken up to the first other token, and are one. -/
theorem stringLiterals (hsees : source.Sees s.cursor.position ws)
    (hws : ∀ w ∈ ws, w.kind = .stringLiteral)
    (hnext : source.kindAt (s.cursor.position + ws.length) ≠ .stringLiteral) :
    Consumes source s ws.length Parse.stringLiterals
      (.string (String.join (ws.map fun w => String.ofList (Literal.body w.text.toList)))) := by
  -- Each round takes one literal and adds its body to the text of those before it.
  have hloop (i : Nat) (hi : ws.length < i) (value : String) :
      Consumes source s ws.length (iterateFor (fun value => do
        if ← check .stringLiteral then
          return some (value ++ String.ofList (Literal.body (← Parse.advance).text.toList))
        else return none) i value)
        (value ++ String.join (ws.map fun w => String.ofList (Literal.body w.text.toList))) := by
    induction ws generalizing s i value with
    | nil =>
      obtain ⟨i, rfl⟩ : ∃ j, i = j + 1 := ⟨i - 1, by omega⟩
      have hother : (source.view s).kind 0 ≠ .stringLiteral := hnext
      rw [iterateFor, bind_assoc, List.map_nil, String.join_nil, String.append_empty]
      refine look (run_check _) ?_
      rw [beq_false_of_ne hother]
      exact .pure value
    | cons w ws ih =>
      obtain ⟨i, rfl⟩ : ∃ j, i = j + 1 := ⟨i - 1, by omega⟩
      have hk : (source.view s).kind 0 = .stringLiteral :=
        hsees.kind.trans (hws w List.mem_cons_self)
      have hnext' : source.kindAt ((s.after 1).cursor.position + ws.length) ≠ .stringLiteral := by
        rwa [List.length_cons, Nat.add_comm ws.length, ← Nat.add_assoc] at hnext
      rw [iterateFor, bind_assoc, List.length_cons, Nat.add_comm, List.map_cons, String.join_cons,
        ← String.append_assoc]
      refine look (run_check _) ?_
      rw [hk, beq_self_eq_true, if_pos rfl, bind_assoc]
      refine (advance (by rw [hk]; decide)).bind ?_
      rw [show ((source.view s).token 0).text = w.text from hsees.text]
      exact ih hsees.next (fun v hv => hws v (List.mem_cons_of_mem _ hv)) hnext' i
        (by rw [List.length_cons] at hi; omega) _
  unfold Parse.stringLiterals
  rw [map_eq_bind]
  refine (Consumes.iterate hsees fun i hi => ?_).andLast (.pure _)
  have hjoined := hloop i hi ""
  rwa [String.empty_append] at hjoined

theorem strings (hne : ws ≠ []) (hsees : source.Sees s.cursor.position ws)
    (hws : ∀ w ∈ ws, w.kind = .stringLiteral)
    (hnext : source.kindAt (s.cursor.position + ws.length) ≠ .stringLiteral) :
    Consumes source s ws.length g.primary
      (.string (String.join (ws.map fun w => String.ofList (Literal.body w.text.toList)))) := by
  obtain ⟨w, ws, rfl⟩ := List.exists_cons_of_ne_nil hne
  have hk : (source.view s).kind 0 = .stringLiteral := hsees.kind.trans (hws w List.mem_cons_self)
  refine look run_kind ?_
  rw [hk]
  exact stringLiterals hsees hws hnext

end Consumes

/-! ### Literals of a text -/

/-- The body of a closed literal is all that stands between its quotes, and that of an open one is all
that stands after its quote, but for one case: a last quote that a backslash takes leaves the literal
open, and is lost. Literals side by side are one, with all their bodies, and a character literal has
the body of its token. -/
theorem tokenize_body {dialect : Dialect} {text : List Char} {t : Token} {quote : Char}
    {kind : TokenKind} {fault : LexFault} (hquote : Quote quote kind fault)
    (ht : t ∈ (tokenize dialect text).tokens) (hkind : t.kind = kind) :
    let errors := (tokenize dialect text).errors
    let body := Literal.body t.text.toList
    (¬ t.IsLeftOpen errors → quote :: (body ++ [quote]) = t.text.toList) ∧
    (t.IsLeftOpen errors → (quote :: body = t.text.toList ↔ ¬ t.EndsEscaped quote)) ∧
    (t.EndsEscaped quote →
      t.IsLeftOpen errors ∧ quote :: (body ++ [quote]) = t.text.toList) ∧
    (∀ (g : Grammar) (source : Source) (s : ParseState), kind = .charLiteral →
      (source.view s).token 0 = t →
      g.primary.run source s = (.ok (.char (String.ofList body)), s.after 1)) ∧
    ∀ (g : Grammar) (source : Source) (s : ParseState) (ws : List Lexeme), ws ≠ [] →
      (∀ w ∈ ws, w.kind = .stringLiteral) → source.Sees s.cursor.position ws →
      source.kindAt (s.cursor.position + ws.length) ≠ .stringLiteral →
      g.primary.run source s =
        (.ok (.string (String.join (ws.map fun w => String.ofList (Literal.body w.text.toList)))),
          s.after ws.length) := by
  intro errors body
  have hslash := hquote.ne_backslash
  obtain ⟨pre, rest, cs, -, -, hw, hends⟩ := exists_quoted_of_mem_tokenize hquote ht hkind
  have hbody : body = Literal.body (quote :: cs) := congrArg Literal.body hw
  have hescaped : t.EndsEscaped quote ↔
      ∃ first, QuotedBody quote first ∧ cs = first ++ ['\\', quote] := by
    simp only [Token.EndsEscaped, hw, List.cons.injEq, true_and]
  refine ⟨?_, ?_, ?_, ?_, ?_⟩
  · intro hopen
    rcases hends with ⟨⟨inner, -, rfl⟩, -⟩ | ⟨-, hfault⟩
    · rw [hbody, Literal.body_closed, hw]
    · exact (hopen (hquote.isLeftOpen hfault)).elim
  · intro hopen
    rcases hends with ⟨-, hclosed⟩ | ⟨hcs, -⟩
    · exact (hclosed hopen).elim
    · rw [hbody, hw, hescaped, List.cons.injEq, ← hcs.body_eq_iff hslash]
      exact and_iff_right rfl
  · rintro ⟨first, hfirst, hlast⟩
    obtain rfl : cs = first ++ ['\\', quote] := (List.cons.inj (hw.symm.trans hlast)).2
    refine ⟨?_, by rw [hbody, hw, List.append_cons first, Literal.body_closed]⟩
    -- If the last quote closed the literal, the backslash before it would have nothing to take.
    rcases hends with ⟨⟨inner, hinner, hcs⟩, -⟩ | ⟨-, hfault⟩
    · rw [List.append_cons] at hcs
      rw [← (List.append_inj' hcs rfl).1] at hinner
      exact (QuotedBody.not_backslash (hfirst.of_append hinner)).elim
    · exact hquote.isLeftOpen hfault
  · rintro g source s rfl rfl
    exact Consumes.character hkind
  · intro g source s ws hne hws hsees hnext
    exact Consumes.strings hne hsees hws hnext

/-- The second of two literals is left open, and has all that comes after its quote. -/
theorem tokenize_body_adjacent :
    let text := "\"a\\\"b\" \"c\n;".toList
    let source := (Session.start {} text).source
    let t : Token := ⟨.stringLiteral, "\"c", 7⟩
    let ws : List Lexeme := [⟨.stringLiteral, "\"a\\\"b\""⟩, ⟨.stringLiteral, "\"c"⟩]
    Quote '"' t.kind .unterminatedString ∧ t ∈ (tokenize .cpp text).tokens ∧
    t.IsLeftOpen (tokenize .cpp text).errors ∧ ¬ t.EndsEscaped '"' ∧
    '"' :: Literal.body t.text.toList = t.text.toList ∧
    (∀ w ∈ ws, w.kind = .stringLiteral) ∧ source.Sees 0 ws ∧ source.kindAt 2 ≠ .stringLiteral ∧
    ∀ g : Grammar, g.primary.run source {} = (.ok (.string "a\\\"bc"), ParseState.after {} 2) := by
  intro text source t ws
  have hmem : t ∈ (tokenize .cpp text).tokens := by decide +kernel
  have hopen : t.IsLeftOpen (tokenize .cpp text).errors := .inl (by decide +kernel)
  have hall : ∀ w ∈ ws, w.kind = .stringLiteral := by decide
  have hsees : source.Sees 0 ws :=
    ⟨by decide +kernel, by decide +kernel, by decide +kernel, by decide +kernel, trivial⟩
  have hnext : source.kindAt 2 ≠ .stringLiteral := by decide +kernel
  have hbody : '"' :: Literal.body t.text.toList = t.text.toList := by decide
  obtain ⟨-, hlast, -, -, hstrings⟩ := tokenize_body .string hmem rfl
  exact ⟨.string, hmem, hopen, (hlast hopen).1 hbody, hbody, hall, hsees, hnext,
    fun g => hstrings g source {} ws (List.cons_ne_nil _ _) hall hsees hnext⟩

/-- The second quote of `"a\"` is taken by the backslash before it, and is missing from the body of
the literal, which is left open. -/
theorem tokenize_body_escaped :
    let text := "\"a\\\"\n;".toList
    let t : Token := ⟨.stringLiteral, "\"a\\\"", 0⟩
    t ∈ (tokenize .c text).tokens ∧ t.IsLeftOpen (tokenize .c text).errors ∧
    Literal.body t.text.toList = ['a', '\\'] ∧ '"' :: Literal.body t.text.toList ≠ t.text.toList := by
  refine ⟨by decide +kernel, .inl ?_, by decide, by decide⟩
  decide +kernel

end CTree
