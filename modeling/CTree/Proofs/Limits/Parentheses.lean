import CTree.Proofs.Limits.Heads
import CTree.Proofs.Limits.Text

/-!
# How deep parentheses may be nested

Each parenthesis encloses an expression, and each expression is one more open construct. So a value in `n`
parentheses opens `n + 1` constructs one inside the other, and it is read just if the settings allow that
many. Otherwise the place of the first construct that is too deep is reported, and the declaration is skipped.
-/

namespace CTree

open Parse Lexeme

variable {source : Source} {s : ParseState} {g : Grammar} {n d : Nat} {e : Expr} {fault : Failure}
  {w : Lexeme} {ws : List Lexeme} {text type : String}

/-! ### Parentheses that are no cast -/

/-- No type begins at a parenthesis or a literal. -/
theorem View.startsType_eq_false {v : View} {k : TokenKind} (hk : v.kind n = k)
    (h : k = .lparen ∨ k = .intLiteral) : v.startsType n = false := by
  have hpast : v.past isQualifier n = n := past_eq_self (by rw [hk]; rcases h with rfl | rfl <;> rfl)
  have hkind : (v.token n).kind = k := hk
  unfold startsType
  simp only [hpast, hkind]
  rcases h with rfl | rfl <;> rfl

/-- In parentheses that begin like that stands no type of a cast. -/
theorem Parse.run_castType_eq_none
    (h : (source.view s).kind 1 = .lparen ∨ (source.view s).kind 1 = .intLiteral) :
    castType.run source s = (.ok none, s) := by
  have hstarts : (source.view { s with lenient := false }).startsType 1 = false :=
    View.startsType_eq_false (k := (source.view s).kind 1) rfl h
  unfold castType strictly
  rw [run_withLeniency, run_bind_ok run_view, hstarts]
  rfl

/-! ### A literal in parentheses -/

/-- A literal in parentheses, as it is written. -/
def literalLexemes (n : Nat) : List Lexeme :=
  List.replicate n (spelled .lparen) ++ Lexeme.decimal 1 :: List.replicate n (spelled .rparen)

theorem literalLexemes_succ (n : Nat) : literalLexemes (n + 1) =
    spelled .lparen :: (literalLexemes n ++ [spelled .rparen]) := by
  rw [literalLexemes, literalLexemes, List.replicate_succ, List.replicate_succ' (a := spelled .rparen),
    List.append_assoc]
  rfl

theorem length_literalLexemes (n : Nat) : (literalLexemes n).length = 2 * n + 1 := by
  simp only [literalLexemes, List.length_append, List.length_cons, List.length_replicate]
  omega

/-- They begin with a parenthesis or with the literal. -/
theorem kindAt_literalLexemes {i : Nat} (hsees : source.Sees i (literalLexemes n ++ ws)) :
    source.kindAt i = .lparen ∨ source.kindAt i = .intLiteral := by
  cases n with
  | zero => exact .inr hsees.kindAt
  | succ n =>
    rw [literalLexemes_succ] at hsees
    exact .inl hsees.kindAt

namespace Consumes

theorem literal (hsees : source.Sees s.cursor.position (Lexeme.decimal 1 :: ws)) :
    Consumes source s 1 g.primary (.int 1) := by
  have hk : (source.view s).kind 0 = .intLiteral := hsees.kind
  unfold Grammar.primary
  refine look run_kind ?_
  rw [hk]
  refine (advance (by rw [hk]; decide)).andLast ?_
  rw [show ((source.view s).token 0).text = (1 : Nat).repr from hsees.text]
  exact .pure _

/-- With room for one more construct than there are parentheses, the literal is read. -/
theorem nestedLiteral (hroom : source.HasRoom s d (n + 1))
    (hsees : source.Sees s.cursor.position (literalLexemes n ++ w :: ws))
    (hw : w.kind.endsExpression = true) :
    Consumes source s (2 * n + 1) (Grammar.ofDepth d).expression (.int 1) := by
  have hend (n : Nat) {i : Nat} {w : Lexeme} {ws : List Lexeme}
      (hsees : source.Sees i (literalLexemes n ++ w :: ws)) : source.kindAt (i + (2 * n + 1)) = w.kind := by
    rw [← length_literalLexemes]
    exact hsees.kindAfter _
  induction n generalizing s d w ws with
  | zero =>
    refine expression (m := 0) hroom (fun s' d' hposition _ _ _ => ?_) (by rwa [hend 0 hsees])
    rw [← hposition] at hsees
    have hnext := hend 0 hsees
    have hunary : Consumes source s' 1 (Grammar.ofDepth d').unary (.int 1) := by
      have hk : (source.view s').kind 0 = .intLiteral := hsees.kind
      unfold Grammar.unary
      refine look run_kind ?_
      rw [hk]
      refine look run_kind ?_
      rw [hk]
      exact suffixed (literal hsees) (by rw [hnext]; exact TokenKind.endsValue_of_endsExpression hw)
    exact binary hunary (by rwa [hnext]) _ _
  | succ n ih =>
    refine expression (m := n + 1) hroom (fun s' d' hposition _ _ hroom => ?_) (by rwa [hend _ hsees])
    rw [← hposition] at hsees
    have hnext := hend _ hsees
    rw [literalLexemes_succ, List.cons_append, List.append_assoc, List.singleton_append] at hsees
    have hclose := hend n hsees.next
    have hvalue : Consumes source (s'.after 1) (2 * n + 1) (Grammar.ofDepth d').commaExpression (.int 1) :=
      commaExpression (ih ⟨hroom.grammar, hroom.depth⟩ hsees.next rfl) (by rw [hclose]; decide)
    have hlength : 2 * (n + 1) + 1 = 1 + (2 * n + 1 + 1) := by omega
    rw [hlength] at hnext ⊢
    have hoperand : Consumes source s' (1 + (2 * n + 1 + 1)) (Grammar.ofDepth d').unary (.int 1) := by
      refine uncast hsees.kind (run_castType_eq_none (kindAt_literalLexemes hsees.next)) ?_
      exact suffixed (parenthesized hsees.kind hvalue hclose)
        (by rw [hnext]; exact TokenKind.endsValue_of_endsExpression hw)
    exact binary hoperand (by rwa [hnext]) _ _

end Consumes

namespace Aborts

/-- An expression fails where its first operand does. -/
theorem assignment (h : Aborts source s n g.unary fault) : Aborts source s n g.assignment fault := by
  have hbinary : Aborts source s n (g.binary BinaryOp.levels 1) fault := h.bind
  exact (hbinary.bind (f := _)).bind

/-- With room for no more constructs than there are parentheses, the first construct that is too deep is
reported. -/
theorem nestedLiteral (hdepth : s.cursor.depth + d = source.settings.maxDepth) (hd : d ≤ n)
    (hsees : source.Sees s.cursor.position (literalLexemes n ++ ws)) :
    Aborts source s d (Grammar.ofDepth d).expression
      ⟨.tooDeep source.settings.maxDepth, (source.stream.get (s.cursor.position + d)).offset⟩ := by
  induction d generalizing s n ws with
  | zero => exact withLeniency (parse_zero (s := { s with lenient := false }) .assignment)
  | succ d ih =>
    obtain ⟨n, rfl⟩ : ∃ m, n = m + 1 := ⟨n - 1, by omega⟩
    refine withLeniency (nested (show s.cursor.depth < _ by omega) (assignment ?_))
    let s' : ParseState :=
      { s with lenient := false, cursor := { s.cursor with depth := s.cursor.depth + 1 } }
    show Aborts source s' (d + 1) (Grammar.ofDepth d).unary _
    rw [literalLexemes_succ, List.cons_append, List.append_assoc] at hsees
    have hk : (source.view s').kind 0 = .lparen := hsees.kind
    have hvalue := ih (s := s'.after 1) (show s.cursor.depth + 1 + d = _ by omega)
      (Nat.le_of_succ_le_succ hd) hsees.next
    have hprimary : Aborts source s' (1 + d) (Grammar.ofDepth d).primary
        ⟨.tooDeep source.settings.maxDepth, (source.stream.get (s.cursor.position + 1 + d)).offset⟩ := by
      unfold Grammar.primary
      refine look run_kind ?_
      rw [hk]
      exact after (.skip (by rw [hk]; decide)) (hvalue.bind (f := _)).bind
    have hoperand : Aborts source s' (1 + d) (Grammar.ofDepth d).unary
        ⟨.tooDeep source.settings.maxDepth, (source.stream.get (s.cursor.position + 1 + d)).offset⟩ := by
      unfold Grammar.unary
      refine look run_kind ?_
      rw [hk]
      refine look run_kind ?_
      rw [hk]
      exact look (run_castType_eq_none (kindAt_literalLexemes hsees.next)) hprimary.bind
    rwa [Nat.add_comm 1 d, Nat.add_assoc, Nat.add_comm 1 d] at hoperand

end Aborts

/-! ### A variable with a value -/

/-- What comes of a variable with `=` after its name is what comes of its value. -/
theorem Grammar.run_variableOf_of_assign {storage? : Option String} (hw : w.kind ≠ .lbrace)
    (hsees : source.Sees s.cursor.position (Lexeme.name text :: spelled .assign :: w :: ws)) :
    (g.variableOf storage? type).run source s =
      ((⟨type, text, some ·, storage?, []⟩) <$> g.expression).run source (s.after 2) := by
  have hassign : (source.view (s.after 1)).kind 0 = .assign := hsees.next.kind
  have hnext : (source.view (s.after 2)).kind 0 = w.kind := hsees.next.next.kind
  have hname : qualifiedName.run source s = (.ok text, s.after 1) :=
    Consumes.qualifiedName hsees (by rw [show (source.view s).kind 1 = .assign from hassign]; decide)
  have hdimensions : g.dimensions.run source (s.after 1) = (.ok [], s.after 1) := by
    have hbracket : (source.view (s.after 1)).kind 0 ≠ .lbracket := by
      rw [hassign]
      decide
    unfold dimensions
    rw [collect, run_bind_ok run_view, collectFor, bind_assoc, run_bind_ok (run_accept_of_ne hbracket)]
    rfl
  have haccept : (accept .assign).run source (s.after 1) = (.ok true, s.after 2) :=
    Consumes.accept hassign (by decide)
  have hinit : (g.variableInit type).run source (s.after 1) =
      (some <$> g.expression : Parse (Option Expr)).run source (s.after 2) := by
    unfold variableInit initializer
    rw [run_bind_ok haccept, if_pos rfl, bind_assoc, run_bind_ok (run_check _), hnext,
      beq_false_of_ne hw, if_neg Bool.false_ne_true, map_eq_bind]
  unfold variableOf
  rw [run_bind_ok hname, run_bind_ok hdimensions, run_bind, hinit, map_eq_bind, map_eq_bind, run_bind,
    run_bind]
  rcases g.expression.run source (s.after 2) with ⟨e | e, t⟩ <;> rfl

/-- A variable whose value is read, and the `;` after it. -/
theorem Consumes.initialized (type : String) (hw : w.kind ≠ .lbrace)
    (hsees : source.Sees s.cursor.position (Lexeme.name text :: spelled .assign :: w :: ws))
    (h : Consumes source (s.after 2) n g.expression e)
    (hend : source.kindAt (s.cursor.position + (2 + n)) = .semicolon) :
    Consumes source s (2 + n + 1) (g.variableDecls {} type) [⟨type, text, some e, none, []⟩] := by
  have hend : (source.view (s.after (2 + n))).kind 0 = .semicolon := hend
  have hvariable : Consumes source s (2 + n) (g.variableOf none type) ⟨type, text, some e, none, []⟩ := by
    rw [Consumes, Grammar.run_variableOf_of_assign hw hsees, map_eq_bind, run_bind_ok h,
      ParseState.after_after]
    rfl
  have hother : (source.view (s.after (2 + n))).kind 0 ≠ .comma := by
    rw [hend]
    decide
  have hchain (next : Parse String) :
      Consumes source s (2 + n) (chain (g.variableOf none) next type) [⟨type, text, some e, none, []⟩] :=
    look run_view (hvariable.andLast (look (run_accept_of_ne hother) (.pure _)))
  exact (hchain _).bind ((skipOver hend (by decide)).andLast (.pure _))

/-- A variable whose value is not read. -/
theorem Aborts.initialized (type : String) (hw : w.kind ≠ .lbrace)
    (hsees : source.Sees s.cursor.position (Lexeme.name text :: spelled .assign :: w :: ws))
    (h : Aborts source (s.after 2) n g.expression fault) :
    Aborts source s (2 + n) (g.variableDecls {} type) fault := by
  have hvariable : Aborts source s (2 + n) (g.variableOf none type) fault := by
    rw [Aborts, Grammar.run_variableOf_of_assign hw hsees, map_eq_bind, run_bind_error h,
      ParseState.after_after]
  have hchain (next : Parse String) :
      Aborts source s (2 + n) (chain (g.variableOf none) next type) fault :=
    look run_view hvariable.bind
  exact (hchain _).bind

/-! ### The whole text -/

/-- `int x = `, a literal in so many parentheses, and `;`. -/
def nestedText (n : Nat) : List Char :=
  "int x = ".toList ++ (List.replicate n '(' ++ '1' :: (List.replicate n ')' ++ [';']))

/-- The tokens of the text. -/
def nestedTokens (n : Nat) : List Token :=
  [⟨.kwInt, "int", 0⟩, ⟨.identifier, "x", 4⟩, ⟨.assign, "=", 6⟩] ++
    ((List.range n).map (fun i => ⟨.lparen, "(", 8 + i⟩) ++ ⟨.intLiteral, "1", 8 + n⟩ ::
      ((List.range n).map (fun i => ⟨.rparen, ")", 8 + n + 1 + i⟩) ++
        [⟨.semicolon, ";", 8 + n + 1 + n⟩]))

theorem cleanCut_nestedText (dialect : Dialect) (n : Nat) :
    CleanCut dialect 0 (nestedText n) (nestedTokens n) := by
  have hclose : CleanCut dialect (8 + n + 1) (List.replicate n ')' ++ [';'])
      ((List.range n).map (fun i => ⟨.rparen, ")", 8 + n + 1 + i⟩) ++ [⟨.semicolon, ";", 8 + n + 1 + n⟩]) :=
    .replicate .rparen n (.semicolon .done)
  have hliteral : CleanCut dialect (8 + n) ('1' :: (List.replicate n ')' ++ [';']))
      (⟨.intLiteral, "1", 8 + n⟩ :: ((List.range n).map (fun i => ⟨.rparen, ")", 8 + n + 1 + i⟩) ++
        [⟨.semicolon, ";", 8 + n + 1 + n⟩])) := by
    refine .word (8 + n) '1' [] ?_ hclose
    cases n <;> cases dialect <;> rfl
  have hvalue := CleanCut.replicate .lparen n hliteral
  have hassign := CleanCut.word 6 '=' [] (by cases dialect <;> rfl) hvalue.space
  have hname := CleanCut.word 4 'x' [] (by cases dialect <;> rfl) hassign.space
  exact .word 0 'i' ['n', 't'] (by cases dialect <;> rfl) hname.space

/-- The lexemes before the `;`. -/
def nestedLexemes (n : Nat) : List Lexeme :=
  spelled .kwInt :: Lexeme.name "x" :: spelled .assign :: literalLexemes n

theorem map_nestedTokens (n : Nat) :
    (nestedTokens n).map Token.lexeme = nestedLexemes n ++ [spelled .semicolon] := by
  have hmark (k : TokenKind) (start : Nat) :
      ((List.range n).map fun i => (⟨k, k.spelling, start + i⟩ : Token)).map Token.lexeme =
        List.replicate n (spelled k) := by
    have hconst : (List.range n).map (fun _ => spelled k) = _ := List.map_const'
    rw [List.map_map, ← List.length_range (n := n), ← hconst, List.length_range]
    rfl
  have hopen := hmark .lparen 8
  have hclose := hmark .rparen (8 + n + 1)
  simp only [nestedTokens, nestedLexemes, literalLexemes, List.map_append, List.map_cons, List.map_nil]
  rw [show TokenKind.lparen.spelling = "(" from rfl] at hopen
  rw [show TokenKind.rparen.spelling = ")" from rfl] at hclose
  rw [hopen, hclose]
  simp only [List.cons_append, List.nil_append, List.append_assoc]
  rfl

/-- Where the construct begins that is too deep. -/
theorem exists_nestedToken {n d : Nat} (h : d ≤ n) :
    ∃ t, (nestedTokens n)[3 + d]? = some t ∧ t.offset = 8 + d := by
  have hlength : ((List.range n).map fun i => (⟨.lparen, "(", 8 + i⟩ : Token)).length = n := by simp
  rw [nestedTokens, List.getElem?_append_right (by simp)]
  rw [show 3 + d - List.length _ = d by simp]
  rcases Nat.lt_or_eq_of_le h with hlt | rfl
  · refine ⟨⟨.lparen, "(", 8 + d⟩, ?_, rfl⟩
    rw [List.getElem?_append_left (by rwa [hlength]), List.getElem?_map, List.getElem?_range hlt]
    rfl
  · refine ⟨⟨.intLiteral, "1", 8 + d⟩, ?_, rfl⟩
    rw [List.getElem?_append_right (by rw [hlength]), hlength, Nat.sub_self]
    rfl

/-- The text is skipped up to its `;`, since its parentheses are closed. -/
theorem skips_nestedLexemes (n : Nat) : Skips (nestedLexemes n) (spelled .semicolon) true := by
  let before : List TokenKind :=
    [.kwInt, .identifier, .assign] ++ (List.replicate n .lparen ++ [.intLiteral])
  let closing : List TokenKind := List.replicate n .rparen
  have hkinds : (nestedLexemes n).map Lexeme.kind = before ++ closing := by
    simp [before, closing, nestedLexemes, literalLexemes, spelled, Lexeme.name, Lexeme.decimal]
  have hlength : closing.length = n := List.length_replicate
  have hclosed : ParensClosed (before ++ closing) := by
    intro last hlast
    rcases Nat.lt_or_ge last.length n with hlt | hge
    · -- Only closing parentheses are in it.
      have hpart := List.suffix_of_suffix_length_le hlast (List.suffix_append before closing) (by omega)
      have hcount := hpart.sublist.count_le TokenKind.lparen
      simp [closing, List.count_replicate] at hcount
      simp [hcount]
    · have hpart := List.suffix_of_suffix_length_le (List.suffix_append before closing) hlast (by omega)
      have hopened := hlast.sublist.count_le TokenKind.lparen
      have hclosed := hpart.sublist.count_le TokenKind.rparen
      simp [before, closing, List.count_replicate] at hopened hclosed
      omega
  have hboundary : Boundary ((nestedLexemes n).map Lexeme.kind) .semicolon true := by
    rw [hkinds]
    exact .semicolon (by simp [BracesEven, before, closing, List.count_replicate]) hclosed
  refine .of_forall hboundary fun v hv => ?_
  have hkind := List.mem_map_of_mem (f := Lexeme.kind) hv
  rw [hkinds] at hkind
  simp only [before, closing, List.mem_append, List.mem_replicate, List.mem_cons, List.not_mem_nil, or_false] at hkind
  rcases hkind with ((h | h | h) | ⟨-, h⟩ | h) | ⟨-, h⟩ <;> rw [h] <;> decide

/-- The variable that is declared. -/
def nestedVariable : Stmt :=
  .var ⟨"int", "x", some (.int 1), none, []⟩

section Items

variable (hsees : source.Sees s.cursor.position (nestedLexemes n ++ [spelled .semicolon]))

include hsees

/-- What comes of the item is what comes of the value. -/
theorem run_item_of_nested : g.item.run source s =
    (some <$> (.ofVariables <$> g.variableDecls {} "int") : Parse (Option Stmt)).run source
      (s.after 1) := by
  have hhead : source.Sees s.cursor.position (spelled .kwInt :: Lexeme.name "x" :: spelled .assign ::
      (literalLexemes n ++ [spelled .semicolon])) := hsees
  have hitem := Grammar.run_item_of_variables (g := g) (k := .kwInt) rfl (by decide) (by decide) hhead
  rwa [show TokenKind.kwInt.spelling = "int" from rfl] at hitem

/-- After the `=` stands a parenthesis or a literal, and no brace. -/
theorem exists_value_of_nested : ∃ w ws, w.kind ≠ .lbrace ∧
    source.Sees (s.after 1).cursor.position (Lexeme.name "x" :: spelled .assign :: w :: ws) := by
  have hvalue : source.Sees (s.after 3).cursor.position (literalLexemes n ++ [spelled .semicolon]) :=
    hsees.2.2.2.2.2.2
  have hkind := kindAt_literalLexemes hvalue
  cases hcase : literalLexemes n ++ [spelled .semicolon] with
  | nil => simp at hcase
  | cons w ws =>
    rw [hcase] at hvalue
    refine ⟨w, ws, ?_, hsees.2.2.1, hsees.2.2.2.1, hsees.2.2.2.2.1, hsees.2.2.2.2.2.1, hvalue⟩
    rw [← hvalue.kindAt]
    rcases hkind with h | h <;> rw [h] <;> decide

theorem Consumes.nestedItem (hroom : source.HasRoom s d (n + 1)) :
    Consumes source s (2 * n + 5) (Grammar.ofDepth d).item (some nestedVariable) := by
  obtain ⟨w, ws, hw, hname⟩ := exists_value_of_nested hsees
  have hvalue : source.Sees (s.after 3).cursor.position (literalLexemes n ++ [spelled .semicolon]) :=
    hsees.2.2.2.2.2.2
  have hend : source.kindAt ((s.after 1).cursor.position + (2 + (2 * n + 1))) = .semicolon := by
    have hkind : source.kindAt ((s.after 3).cursor.position + (2 * n + 1)) = .semicolon := by
      rw [← length_literalLexemes]
      exact hvalue.kindAfter _
    rw [← hkind, ParseState.position_after, ParseState.position_after]
    congr 1
    omega
  have hliteral : Consumes source ((s.after 1).after 2) (2 * n + 1) (Grammar.ofDepth d).expression (.int 1) :=
    nestedLiteral ⟨hroom.grammar, hroom.depth⟩ (by rwa [ParseState.after_after]) rfl
  have hvariables := Consumes.initialized "int" hw hname hliteral hend
  rw [Consumes, run_item_of_nested hsees, map_eq_bind, map_eq_bind, bind_assoc, run_bind_ok hvariables,
    ParseState.after_after, show 1 + (2 + (2 * n + 1) + 1) = 2 * n + 5 by omega]
  rfl

theorem Aborts.nestedItem (hdepth : s.cursor.depth + d = source.settings.maxDepth) (hd : d ≤ n) :
    Aborts source s (3 + d) (Grammar.ofDepth d).item
      ⟨.tooDeep source.settings.maxDepth, (source.stream.get (s.cursor.position + (3 + d))).offset⟩ := by
  obtain ⟨w, ws, hw, hname⟩ := exists_value_of_nested hsees
  have hliteral := nestedLiteral (s := (s.after 1).after 2) hdepth hd
    (by rw [ParseState.after_after]; exact hsees.2.2.2.2.2.2)
  have hvariables := Aborts.initialized "int" hw hname hliteral
  rw [Aborts, run_item_of_nested hsees, map_eq_bind, map_eq_bind, bind_assoc, run_bind_error hvariables,
    ParseState.after_after, ParseState.after_after, ParseState.position_after, Nat.add_assoc,
    show 1 + (2 + d) = 3 + d by omega]

/-- The only item of a source is read, or it is skipped. -/
theorem run_items_of_nested (hdepth : s.cursor.depth = 0) (hd : source.settings.maxDepth = d)
    (hiterations : 2 * n + 6 ≤ source.settings.maxIterations)
    (hend : source.kindAt (s.cursor.position + (2 * n + 5)) = .eof) :
    ((Grammar.ofDepth d).items false).run source s =
      if n < d then (.ok [nestedVariable], s.after (2 * n + 5))
      else (.ok [], (s.record (Diagnostic.ofFailure source.text
        ⟨.tooDeep d, (source.stream.get (s.cursor.position + (3 + d))).offset⟩)).after (2 * n + 5)) := by
  have hk : (source.view s).kind 0 = .kwInt := hsees.kindAt
  split
  · rename_i hlt
    have hread := Consumes.nestedItem (d := d) hsees ⟨by omega, by omega⟩
    refine Grammar.run_items_of_item (by omega) (by rw [hk]; decide) (by rw [hk]; decide) hread ?_ hend
    rw [ParseState.position_after]
    omega
  · rename_i hge
    have hlength : (nestedLexemes n).length = 2 * n + 4 := by
      simp only [nestedLexemes, List.length_cons, length_literalLexemes]
    have hskipped := (skips_nestedLexemes n).run_attempt (List.cons_ne_nil _ _)
      (Aborts.nestedItem (d := d) hsees (by omega) (by omega)) (by omega) hsees
    rw [hlength, hd] at hskipped
    exact Grammar.run_items_of_attempt (by omega) (by rw [hk]; decide) (by rw [hk]; decide) hskipped hend

end Items

/-- In either dialect, a literal in `n` parentheses is read as the value of a variable, without a diagnostic, if
`n` is less than the number of constructs that may be open. Otherwise nothing is read of the text, and one
diagnostic says so, at the first place at which a construct is too deep. In any case no construct is open
at the end, and no token is left. -/
theorem parse_nestedText {settings : Settings} {n : Nat} (hiterations : 2 * n + 6 ≤ settings.maxIterations)
    (name : String) :
    let text := nestedText n
    let d := settings.maxDepth
    let r := (Session.start settings text).parse name
    (n < d → r.1 = ⟨name, [.var ⟨"int", "x", some (.int 1), none, []⟩]⟩ ∧ r.2.state.diagnostics = #[]) ∧
    (d ≤ n → r.1 = ⟨name, []⟩ ∧ r.2.state.diagnostics = #[⟨8 + d, Text.place text (8 + d), .grammatical,
      "Maximum nesting depth of " ++ toString d ++ " exceeded", none, none⟩]) ∧
    r.2.state.cursor.depth = 0 ∧ r.2.atEnd = true := by
  intro text d r
  let source := (Session.start settings text).source
  have hcut : CleanCut settings.dialect 0 text (nestedTokens n) := cleanCut_nestedText settings.dialect n
  have hsees : source.Sees 0 (nestedLexemes n ++ [spelled .semicolon]) := map_nestedTokens n ▸ hcut.sees
  have hend : source.kindAt (0 + (2 * n + 5)) = .eof := by
    have hlength := congrArg List.length (map_nestedTokens n)
    simp only [List.length_map, List.length_append, nestedLexemes, List.length_cons,
      length_literalLexemes, List.length_nil] at hlength
    rw [Nat.zero_add, ← show (nestedTokens n).length = 2 * n + 5 by omega]
    exact hcut.kindAt_length
  have hparse := hcut.parse_eq rfl (run_items_of_nested hsees rfl rfl hiterations hend) name
  by_cases hlt : n < d
  · rw [if_pos hlt] at hparse
    rw [show r = _ from hparse]
    exact ⟨fun _ => ⟨rfl, rfl⟩, fun hle => (Nat.not_lt_of_le hle hlt).elim, rfl, beq_iff_eq.2 hend⟩
  · obtain ⟨t, ht, hoffset⟩ := exists_nestedToken (Nat.le_of_not_lt hlt)
    have hat : (source.stream.get (0 + (3 + d))).offset = 8 + d := by
      rw [Nat.zero_add, hcut.get_eq ht, hoffset]
    rw [if_neg hlt, hat] at hparse
    rw [show r = _ from hparse]
    exact ⟨fun h => (hlt h).elim, fun _ => ⟨rfl, rfl⟩, rfl, beq_iff_eq.2 hend⟩

/-- With two constructs at most, `int x = (1);` is read, and `int x = ((1));` is reported at the byte 10. -/
theorem parse_nestedText_two :
    2 * 2 + 6 ≤ ({ maxDepth := 2 } : Settings).maxIterations ∧
    ((Session.start { maxDepth := 2 } (nestedText 1)).parse "a.cpp").1 =
      ⟨"a.cpp", [.var ⟨"int", "x", some (.int 1), none, []⟩]⟩ ∧
    ((Session.start { maxDepth := 2 } (nestedText 2)).parse "a.cpp").2.state.diagnostics =
      #[⟨10, ⟨1, 11⟩, .grammatical, "Maximum nesting depth of 2 exceeded", none, none⟩] := by
  have hread := @parse_nestedText { maxDepth := 2 } 1 (by decide) "a.cpp"
  have hdeep := @parse_nestedText { maxDepth := 2 } 2 (by decide) "a.cpp"
  exact ⟨by decide, (hread.1 (by decide)).1, (hdeep.2.1 (by decide)).2⟩

end CTree
