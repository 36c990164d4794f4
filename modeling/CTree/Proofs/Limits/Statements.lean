import CTree.Proofs.Limits.Heads
import CTree.Proofs.Limits.Text

/-!
# How many statements a body may have

A body of as many statements as the settings allow is read. One statement more, and the body fails at that
statement: the function is skipped with all of its body, and one diagnostic says why.
-/

namespace CTree

open Parse Lexeme

variable {source : Source} {s : ParseState} {g : Grammar} {n m d c : Nat} {fault : Failure} {name text : String}
  {ws : List Lexeme} {x : List Stmt}

/-! ### A name as a statement -/

/-- A name that is no type, as a statement. -/
theorem Consumes.nameStatement (hroom : source.HasRoom s d 2) (hlenient : s.lenient = false)
    (hknown : s.cursor.known.contains text = false) (hlocal : text ≠ "thread_local")
    (hnull : text ≠ "NULL")
    (hsees : source.Sees s.cursor.position (Lexeme.name text :: spelled .semicolon :: ws)) :
    Consumes source s 2 ((Grammar.ofDepth d).parse .statement) (some (.expr (.identifier text))) := by
  have hgrammar := hroom.grammar
  obtain ⟨d, rfl⟩ : ∃ d', d = d' + 1 := ⟨d - 1, by omega⟩
  refine parse (m := 1) hroom fun hroom => ?_
  let inner : ParseState := { s with cursor := { s.cursor with depth := s.cursor.depth + 1 } }
  have hk : (source.view inner).kind 0 = .identifier := hsees.kind
  have hnext : (source.view inner).kind 1 = .semicolon := hsees.next.kind
  have hnone : (Grammar.ofDepth d).declaration?.run source inner = (.ok none, inner) :=
    Grammar.run_declaration_of_unknown hsees hlocal hlenient hknown (hnext ▸ by decide)
  have hvalue : Consumes source inner 1 (Grammar.ofDepth d).commaExpression (.identifier text) :=
    commaExpression (nameExpression hroom hnull hsees rfl)
      (by rw [show source.kindAt (inner.cursor.position + 1) = .semicolon from hnext]; decide)
  have hend : (source.view (inner.after 1)).kind 0 = .semicolon := hsees.next.kind
  have hstatement : Consumes source inner 2
      (some <$> (Grammar.ofDepth d).expressionStatement : Parse (Option Stmt))
      (some (.expr (.identifier text))) := by
    rw [map_eq_bind]
    refine Consumes.andLast (hvalue.bind (m := 1) ?_) (.pure _)
    exact (skipOver hend (by decide)).andLast (Consumes.pure (Stmt.expr _))
  show (Grammar.ofDepth d).statement.run source inner = _
  rw [Grammar.run_statement_of_base (by rw [hk]; rfl) (fun _ => by rw [hnext]; decide) hnone]
  exact hstatement

/-! ### Rounds of a body -/

/-- The statement `x;` so many times. -/
def nameLexemes (n : Nat) : List Lexeme :=
  (List.replicate n [Lexeme.name "x", spelled .semicolon]).flatten

theorem nameLexemes_succ (n : Nat) :
    nameLexemes (n + 1) = Lexeme.name "x" :: spelled .semicolon :: nameLexemes n := rfl

theorem length_nameLexemes (n : Nat) : (nameLexemes n).length = 2 * n := by
  induction n with
  | zero => rfl
  | succ n ih =>
    rw [nameLexemes_succ, List.length_cons, List.length_cons, ih]
    omega

/-- The statement that is read. -/
def nameStmt : Stmt :=
  .expr (.identifier "x")

/-- Two more constructs may be opened, and `x` is a name like any other. -/
structure Source.ReadsNames (source : Source) (s : ParseState) (d : Nat) : Prop where
  room : source.HasRoom s d 2
  lenient : s.lenient = false
  unknown : s.cursor.known.contains "x" = false

/-- Taking tokens does not change that. -/
theorem Source.ReadsNames.after (h : source.ReadsNames s d) (n : Nat) : source.ReadsNames (s.after n) d :=
  ⟨⟨h.room.grammar, h.room.depth⟩, h.lenient, h.unknown⟩

section Rounds

variable (hnames : source.ReadsNames s d)

include hnames

/-- A round reads a statement and counts it. -/
theorem Consumes.nameRound (hcount : c < source.settings.maxStatements)
    (hsees : source.Sees s.cursor.position (Lexeme.name "x" :: spelled .semicolon :: ws)) :
    Consumes source s 2 ((Grammar.ofDepth d).statementRound (· == .rbrace) c) (some ([nameStmt], c + 1)) := by
  have hstatement := nameStatement hnames.room hnames.lenient hnames.unknown (by decide) (by decide) hsees
  have hattempt : Consumes source s 2 (attempt ((Grammar.ofDepth d).parse .statement))
      (some (some nameStmt)) :=
    run_attempt_ok hstatement (Nat.lt_add_of_pos_right Nat.two_pos)
  refine look run_kind ?_
  rw [show (source.view s).kind 0 = .identifier from hsees.kind]
  refine look run_settings ?_
  rw [if_neg (Nat.not_le_of_lt hcount)]
  exact hattempt.andLast (.pure _)

/-- As many statements as are still allowed are read, up to the brace. -/
theorem Consumes.nameRounds {i : Nat} (hcount : c + n ≤ source.settings.maxStatements) (hi : n < i)
    (hsees : source.Sees s.cursor.position (nameLexemes n ++ spelled .rbrace :: ws)) :
    Consumes source s (2 * n) (roundsFor ((Grammar.ofDepth d).statementRound (· == .rbrace)) i c)
      (List.replicate n nameStmt) := by
  induction n generalizing s c i with
  | zero =>
    obtain ⟨i, rfl⟩ : ∃ j, i = j + 1 := ⟨i - 1, by omega⟩
    refine look (x := none) ?_ (.pure [])
    unfold Grammar.statementRound
    rw [run_bind_ok run_kind, show (source.view s).kind 0 = .rbrace from hsees.kind]
    rfl
  | succ n ih =>
    obtain ⟨i, rfl⟩ : ∃ j, i = j + 1 := ⟨i - 1, by omega⟩
    rw [nameLexemes_succ] at hsees
    have hrest := ih (hnames.after 2) (c := c + 1) (i := i) (by omega) (by omega) hsees.next.next
    rw [show 2 * (n + 1) = 2 + 2 * n by omega]
    exact (nameRound hnames (by omega) hsees).bind (hrest.andLast (.pure _))

/-- One more statement than is still allowed ends the rounds with a failure. -/
theorem Aborts.nameRounds {i : Nat} (hcount : c + m = source.settings.maxStatements) (hmany : m < n)
    (hi : m < i) (hsees : source.Sees s.cursor.position (nameLexemes n ++ ws)) :
    Aborts source s (2 * m) (roundsFor ((Grammar.ofDepth d).statementRound (· == .rbrace)) i c)
      ⟨.tooMany source.settings.maxStatements .block,
        (source.stream.get (s.cursor.position + 2 * m)).offset⟩ := by
  induction m generalizing s c n i with
  | zero =>
    obtain ⟨n, rfl⟩ : ∃ k, n = k + 1 := ⟨n - 1, by omega⟩
    obtain ⟨i, rfl⟩ : ∃ j, i = j + 1 := ⟨i - 1, by omega⟩
    rw [nameLexemes_succ] at hsees
    refine Aborts.bind (look run_kind ?_)
    rw [show (source.view s).kind 0 = .identifier from hsees.kind]
    refine look run_settings ?_
    rw [if_pos (by omega)]
    exact look (run_exhaustion _ _) rfl
  | succ m ih =>
    obtain ⟨n, rfl⟩ : ∃ k, n = k + 1 := ⟨n - 1, by omega⟩
    obtain ⟨i, rfl⟩ : ∃ j, i = j + 1 := ⟨i - 1, by omega⟩
    rw [nameLexemes_succ] at hsees
    have hrest := ih (hnames.after 2) (c := c + 1) (n := n) (i := i) (by omega) (by omega) (by omega)
      hsees.next.next
    rw [ParseState.position_after, Nat.add_assoc, show 2 + 2 * m = 2 * (m + 1) by omega] at hrest
    rw [show 2 * (m + 1) = 2 + 2 * m by omega] at hrest ⊢
    exact after (Consumes.nameRound hnames (by omega) hsees) hrest.bind

end Rounds

/-! ### The function -/

/-- What comes of a function without parameters is what comes of its body. -/
theorem Grammar.run_functionOrVariable_of_block {type : String} (hsees : source.Sees s.cursor.position
      (Lexeme.name name :: spelled .lparen :: spelled .rparen :: spelled .lbrace :: ws)) :
    (g.functionOrVariable {} type).run source s =
      ((fun body => .decl (.function { FunctionDecl.ofBody name body with returnType := type })) <$>
        g.block : Parse Stmt).run source (s.after 3) := by
  have hopen : (source.view (s.after 1)).kind 0 = .lparen := hsees.next.kind
  have hclose : (source.view ((s.after 1).after 1)).kind 0 = .rparen := hsees.next.next.kind
  have hbrace : (source.view (s.after 3)).kind 0 = .lbrace := hsees.next.next.next.kind
  have hname : qualifiedName.run source s = (.ok name, s.after 1) :=
    Consumes.qualifiedName hsees (by rw [show (source.view s).kind 1 = .lparen from hopen]; decide)
  have hlist : Consumes source { s.after 1 with lenient := false } 2 g.parameters [] := by
    refine (Consumes.skipOver (s := { s.after 1 with lenient := false }) hopen (by decide)).bind (m := 1) ?_
    refine Consumes.andLast (s := { (s.after 1).after 1 with lenient := false }) (.accept hclose (by decide)) ?_
    exact .pure []
  have hparameters : Consumes source (s.after 1) 2 (Parse.speculate (Parse.strictly g.parameters))
      (some []) := (Consumes.withLeniency hlist).speculate
  have hqualifiers : functionQualifiers.run source (s.after 3) = (.ok {}, s.after 3) := by
    have hnone : (source.view (s.after 3)).functionQualifier? {} = none := by
      unfold View.functionQualifier?
      rw [hbrace]
    refine Consumes.stop ?_
    unfold functionQualifier
    rw [run_bind_ok run_kind, hbrace, run_bind_ok run_view, hnone]
    rfl
  unfold functionOrVariable functionRest functionBody
  rw [run_bind_ok hname, run_bind_ok hparameters, ParseState.after_after]
  simp only [bind_assoc]
  rw [run_bind_ok hqualifiers, run_bind_ok (run_check _), hbrace, beq_self_eq_true, if_pos rfl,
    map_eq_bind, bind_assoc]
  rfl

/-- The head of the function, with the brace that opens its body. -/
def headLexemes : List Lexeme :=
  [spelled .kwVoid, Lexeme.name "f", spelled .lparen, spelled .rparen, spelled .lbrace]

/-- The function with so many statements. -/
def nameFunction (n : Nat) : Stmt :=
  .decl (.function { FunctionDecl.ofBody "f" (List.replicate n nameStmt) with returnType := "void" })

/-- There is fuel for each statement of a body. -/
theorem lt_remaining_of_body (hsees : source.Sees s.cursor.position
      (spelled .lbrace :: (nameLexemes n ++ spelled .rbrace :: ws))) :
    n < (source.view (s.after 1)).remaining + 1 := by
  have hle := Source.Sees.length_le_remaining (s := s.after 1) (n := 0) hsees.next
  rw [List.length_append, length_nameLexemes] at hle
  omega

section Body

variable (hnames : source.ReadsNames s d) (hsees : source.Sees s.cursor.position
    (spelled .lbrace :: (nameLexemes n ++ spelled .rbrace :: ws)))

include hnames hsees

theorem Consumes.nameBlock (hcount : n ≤ source.settings.maxStatements) :
    Consumes source s (1 + (2 * n + 1)) (Grammar.ofDepth d).block (List.replicate n nameStmt) := by
  have hinner : source.ReadsNames { s.after 1 with lenient := false } d :=
    ⟨⟨hnames.room.grammar, hnames.room.depth⟩, rfl, hnames.unknown⟩
  have hrounds : Consumes source { s.after 1 with lenient := false } (2 * n)
      ((Grammar.ofDepth d).statements (· == .rbrace)) (List.replicate n nameStmt) :=
    look run_view (nameRounds hinner (by omega) (lt_remaining_of_body hsees) hsees.next)
  have hclose : (source.view ((s.after 1).after (2 * n))).kind 0 = .rbrace := by
    rw [← length_nameLexemes n]
    exact (hsees.next.after _).kind
  refine (skipOver hsees.kind (by decide)).bind ((withLeniency hrounds).bind (m := 1) ?_)
  exact Consumes.andLast ((accept hclose (by decide)).andLast (.pure ())) (.pure _)

theorem Aborts.nameBlock (hcount : source.settings.maxStatements < n) :
    Aborts source s (1 + 2 * source.settings.maxStatements) (Grammar.ofDepth d).block
      ⟨.tooMany source.settings.maxStatements .block,
        (source.stream.get (s.cursor.position + (1 + 2 * source.settings.maxStatements))).offset⟩ := by
  have hinner : source.ReadsNames { s.after 1 with lenient := false } d :=
    ⟨⟨hnames.room.grammar, hnames.room.depth⟩, rfl, hnames.unknown⟩
  have hfuel := lt_remaining_of_body hsees
  have hrounds := nameRounds hinner (c := 0) (by omega) hcount (Nat.lt_trans hcount hfuel) hsees.next
  rw [show ({ s.after 1 with lenient := false } : ParseState).cursor.position = s.cursor.position + 1
    from rfl, Nat.add_assoc] at hrounds
  exact after (.skipOver hsees.kind (by decide)) (withLeniency (look run_view hrounds)).bind

end Body

/-! ### The whole text -/

/-- The lexemes up to the brace that closes the body. -/
def functionLexemes (n : Nat) : List Lexeme :=
  headLexemes ++ nameLexemes n

theorem length_functionLexemes (n : Nat) : (functionLexemes n).length = 2 * n + 5 := by
  rw [functionLexemes, List.length_append, length_nameLexemes, Nat.add_comm]
  rfl

/-- The kinds of the statements. -/
theorem kind_of_mem_nameLexemes {w : Lexeme} (h : w ∈ nameLexemes n) :
    w.kind = .identifier ∨ w.kind = .semicolon := by
  obtain ⟨ws, hws, hw⟩ := List.mem_flatten.1 h
  rw [List.eq_of_mem_replicate hws] at hw
  simp only [List.mem_cons, List.not_mem_nil, or_false] at hw
  rcases hw with rfl | rfl
  · exact .inl rfl
  · exact .inr rfl

theorem count_nameLexemes {k : TokenKind} (hname : k ≠ .identifier) (hsemicolon : k ≠ .semicolon) (n : Nat) :
    ((nameLexemes n).map Lexeme.kind).count k = 0 := by
  refine List.count_eq_zero.2 fun hk => ?_
  obtain ⟨w, hw, rfl⟩ := List.mem_map.1 hk
  rcases kind_of_mem_nameLexemes hw with h | h
  · exact hname h
  · exact hsemicolon h

theorem kind_of_mem_headLexemes : ∀ w ∈ headLexemes, w.kind ∉ [.semicolon, .rbrace, .eof] := by
  decide

section Split

variable {pre post : List Lexeme} {v : Lexeme} (hsplit : functionLexemes n = pre ++ v :: post)

include hsplit

theorem count_rbrace_of_split : (pre.map Lexeme.kind).count .rbrace = 0 := by
  have hle := ((List.prefix_append pre (v :: post)).map Lexeme.kind).sublist.count_le TokenKind.rbrace
  rw [← hsplit, functionLexemes, List.map_append, List.count_append,
    count_nameLexemes (by decide) (by decide)] at hle
  exact Nat.le_zero.1 hle

/-- Of what may end a skip, only `;` is in the function. -/
theorem semicolon_of_split (h : v.kind ∈ [.semicolon, .rbrace, .eof]) : v.kind = .semicolon := by
  have hv : v ∈ functionLexemes n := by
    rw [hsplit]
    exact List.mem_append_right _ List.mem_cons_self
  rcases List.mem_append.1 hv with hv | hv
  · exact absurd h (kind_of_mem_headLexemes v hv)
  · rcases kind_of_mem_nameLexemes hv with hname | hsemicolon
    · rw [hname] at h
      exact absurd h (by decide)
    · exact hsemicolon

/-- No `;` is in the head, so that all of it comes before. -/
theorem head_before_semicolon (h : v.kind = .semicolon) : headLexemes <+: pre := by
  refine List.prefix_of_prefix_length_le (List.prefix_append headLexemes (nameLexemes n))
    (by rw [← functionLexemes, hsplit]; exact List.prefix_append pre (v :: post)) ?_
  refine Nat.le_of_not_lt fun hlt => ?_
  have hat : headLexemes[pre.length]? = some v := by
    rw [← @List.getElem?_append_left _ _ (nameLexemes n) _ hlt, ← functionLexemes, hsplit,
      List.getElem?_append_right (Nat.le_refl _), Nat.sub_self]
    rfl
  exact kind_of_mem_headLexemes v (List.mem_of_getElem? hat) (h ▸ List.mem_cons_self)

end Split

/-- The function is skipped up to the brace that closes its body: every `;` before it is inside of the
braces. -/
theorem skips_functionLexemes (n : Nat) : Skips (functionLexemes n) (spelled .rbrace) true where
  boundary := by
    refine .closing ?_
    rw [functionLexemes, List.map_append, List.count_append, List.count_append,
      count_nameLexemes (by decide) (by decide), count_nameLexemes (by decide) (by decide)]
    rfl
  first := by
    intro pre v post hsplit taken hboundary
    have hsemicolon := semicolon_of_split hsplit hboundary.kind_mem
    have hopening := ((head_before_semicolon hsplit hsemicolon).map Lexeme.kind).sublist.count_le
      TokenKind.lbrace
    rw [hsemicolon] at hboundary
    cases hboundary with
    | semicolon heven =>
      rw [BracesEven, count_rbrace_of_split hsplit] at heven
      rw [heven] at hopening
      exact absurd hopening (by decide)

section Items

variable (hnames : source.ReadsNames s d) (hlookahead : 2 ≤ source.settings.maxLookahead)
  (hsees : source.Sees s.cursor.position (functionLexemes n ++ [spelled .rbrace]))

include hlookahead hsees

/-- What comes of the item is what comes of the body. -/
theorem run_item_of_nameFunction : g.item.run source s =
    (some <$> ((fun body => .decl (.function { FunctionDecl.ofBody "f" body with returnType := "void" })) <$>
      g.block) : Parse (Option Stmt)).run source (s.after 4) := by
  have hhead : source.Sees s.cursor.position (spelled .kwVoid :: Lexeme.name "f" :: spelled .lparen ::
      spelled .rparen :: spelled .lbrace :: (nameLexemes n ++ [spelled .rbrace])) := by
    rwa [functionLexemes, List.append_assoc] at hsees
  have hitem := Grammar.run_item_of_function (g := g) (k := .kwVoid) rfl hlookahead hhead
  rw [show TokenKind.kwVoid.spelling = "void" from rfl] at hitem
  rw [hitem, map_eq_bind, run_bind, Grammar.run_functionOrVariable_of_block hhead.next,
    ParseState.after_after, map_eq_bind some, run_bind (_ <$> _)]

include hnames

theorem Consumes.nameItem (hcount : n ≤ source.settings.maxStatements) :
    Consumes source s (2 * n + 6) (Grammar.ofDepth d).item (some (nameFunction n)) := by
  have hbody : source.Sees (s.after 4).cursor.position
      (spelled .lbrace :: (nameLexemes n ++ [spelled .rbrace])) := by
    rw [functionLexemes, List.append_assoc] at hsees
    exact hsees.next.next.next.next
  have hblock := nameBlock (hnames.after 4) hbody hcount
  rw [Consumes, run_item_of_nameFunction hlookahead hsees, map_eq_bind, map_eq_bind, bind_assoc,
    run_bind_ok hblock, ParseState.after_after, show 4 + (1 + (2 * n + 1)) = 2 * n + 6 by omega]
  rfl

theorem Aborts.nameItem (hcount : source.settings.maxStatements < n) :
    Aborts source s (5 + 2 * source.settings.maxStatements) (Grammar.ofDepth d).item
      ⟨.tooMany source.settings.maxStatements .block,
        (source.stream.get (s.cursor.position + (5 + 2 * source.settings.maxStatements))).offset⟩ := by
  have hbody : source.Sees (s.after 4).cursor.position
      (spelled .lbrace :: (nameLexemes n ++ [spelled .rbrace])) := by
    rw [functionLexemes, List.append_assoc] at hsees
    exact hsees.next.next.next.next
  have hblock := nameBlock (hnames.after 4) hbody hcount
  rw [Aborts, run_item_of_nameFunction hlookahead hsees, map_eq_bind, map_eq_bind, bind_assoc,
    run_bind_error hblock, ParseState.after_after, ParseState.position_after, Nat.add_assoc,
    ← Nat.add_assoc 4 1]

/-- The function is read, or it is skipped. -/
theorem run_items_of_nameFunction (hm : source.settings.maxStatements = m)
    (hiterations : 2 * n + 6 ≤ source.settings.maxIterations)
    (hend : source.kindAt (s.cursor.position + (2 * n + 6)) = .eof) :
    ((Grammar.ofDepth d).items false).run source s =
      if n ≤ m then (.ok [nameFunction n], s.after (2 * n + 6))
      else (.ok [], (s.record (Diagnostic.ofFailure source.text ⟨.tooMany m .block,
        (source.stream.get (s.cursor.position + (5 + 2 * m))).offset⟩)).after (2 * n + 6)) := by
  have hk : (source.view s).kind 0 = .kwVoid := hsees.kindAt
  split
  · rename_i hle
    have hread := Consumes.nameItem hnames hlookahead hsees (by omega)
    refine Grammar.run_items_of_item (by omega) (by rw [hk]; decide) (by rw [hk]; decide) hread ?_ hend
    rw [ParseState.position_after]
    omega
  · rename_i hlt
    have hskipped := (skips_functionLexemes n).run_attempt (List.cons_ne_nil _ _)
      (Aborts.nameItem hnames hlookahead hsees (by omega)) (by rw [length_functionLexemes]; omega) hsees
    rw [length_functionLexemes, hm] at hskipped
    exact Grammar.run_items_of_attempt (by omega) (by rw [hk]; decide) (by rw [hk]; decide) hskipped hend

end Items

/-- `void f() {`, the statement `x;` so many times, and `}`. -/
def statementsText (n : Nat) : List Char :=
  "void f() \x7b ".toList ++ ((List.replicate n "x; ".toList).flatten ++ ['\x7d'])

/-- The tokens of the statements, with the brace after them. -/
def bodyTokens : Nat → Nat → List Token
  | 0, start => [⟨.rbrace, "\x7d", start⟩]
  | n + 1, start => ⟨.identifier, "x", start⟩ :: ⟨.semicolon, ";", start + 1⟩ :: bodyTokens n (start + 3)

/-- The tokens of the text. -/
def statementsTokens (n : Nat) : List Token :=
  [⟨.kwVoid, "void", 0⟩, ⟨.identifier, "f", 5⟩, ⟨.lparen, "(", 6⟩, ⟨.rparen, ")", 7⟩, ⟨.lbrace, "\x7b", 9⟩] ++
    bodyTokens n 11

theorem cleanCut_bodyTokens (dialect : Dialect) (n start : Nat) :
    CleanCut dialect start ((List.replicate n "x; ".toList).flatten ++ ['\x7d']) (bodyTokens n start) := by
  induction n generalizing start with
  | zero => exact .word start '\x7d' [] (by cases dialect <;> rfl) .done
  | succ n ih =>
    exact .word start 'x' [] (by cases dialect <;> rfl) (ih (start + 3)).space.semicolon

theorem cleanCut_statementsText (dialect : Dialect) (n : Nat) :
    CleanCut dialect 0 (statementsText n) (statementsTokens n) := by
  have hbrace := CleanCut.word 9 '\x7b' [] (by cases dialect <;> rfl) (cleanCut_bodyTokens dialect n 11).space
  have hname := CleanCut.word 5 'f' [] (by cases dialect <;> rfl) hbrace.space.rparen.lparen
  exact .word 0 'v' ['o', 'i', 'd'] (by cases dialect <;> rfl) hname.space

theorem map_bodyTokens (n start : Nat) :
    (bodyTokens n start).map Token.lexeme = nameLexemes n ++ [spelled .rbrace] := by
  induction n generalizing start with
  | zero => rfl
  | succ n ih =>
    rw [bodyTokens, List.map_cons, List.map_cons, ih, nameLexemes_succ]
    rfl

theorem map_statementsTokens (n : Nat) :
    (statementsTokens n).map Token.lexeme = functionLexemes n ++ [spelled .rbrace] := by
  rw [statementsTokens, List.map_append, map_bodyTokens, functionLexemes, List.append_assoc]
  rfl

/-- Where the statement begins that is one too many. -/
theorem exists_bodyToken (start : Nat) (h : m < n) :
    ∃ t, (bodyTokens n start)[2 * m]? = some t ∧ t.offset = start + 3 * m := by
  induction m generalizing n start with
  | zero =>
    obtain ⟨n, rfl⟩ : ∃ k, n = k + 1 := ⟨n - 1, by omega⟩
    exact ⟨_, rfl, rfl⟩
  | succ m ih =>
    obtain ⟨n, rfl⟩ : ∃ k, n = k + 1 := ⟨n - 1, by omega⟩
    obtain ⟨t, ht, hoffset⟩ := ih (n := n) (start + 3) (by omega)
    exact ⟨t, ht, by omega⟩

theorem message_tooMany_block (m : Nat) : (Cause.tooMany m .block).message =
    "Iteration limit of " ++ toString m ++ " exceeded while parsing block" := by
  show "Iteration limit of " ++ toString m ++ " exceeded while parsing " ++ "block" = _
  exact String.append_assoc

/-- A body of so many statements as are allowed is read, without a diagnostic. If there is a statement more,
nothing is read of the text, and one diagnostic says so, at that statement. -/
theorem parse_statementsText {settings : Settings} {n m : Nat} (hm : settings.maxStatements = m)
    (hdepth : 2 ≤ settings.maxDepth) (hlookahead : 2 ≤ settings.maxLookahead)
    (hiterations : 2 * n + 6 ≤ settings.maxIterations) (name : String) :
    let text := statementsText n
    let r := (Session.start settings text).parse name
    (n ≤ m → r.1 = ⟨name, [nameFunction n]⟩ ∧ r.2.state.diagnostics = #[]) ∧
    (m < n → r.1 = ⟨name, []⟩ ∧ r.2.state.diagnostics =
      #[⟨11 + 3 * m, Text.place text (11 + 3 * m), .grammatical,
        "Iteration limit of " ++ toString m ++ " exceeded while parsing block", none, none⟩]) := by
  intro text r
  let source := (Session.start settings text).source
  have hcut : CleanCut settings.dialect 0 text (statementsTokens n) :=
    cleanCut_statementsText settings.dialect n
  have hsees : source.Sees 0 (functionLexemes n ++ [spelled .rbrace]) := map_statementsTokens n ▸ hcut.sees
  have hend : source.kindAt (0 + (2 * n + 6)) = .eof := by
    have hlength := congrArg List.length (map_statementsTokens n)
    rw [List.length_map, List.length_append, length_functionLexemes] at hlength
    rw [Nat.zero_add, ← show (statementsTokens n).length = 2 * n + 6 from hlength]
    exact hcut.kindAt_length
  have hnames : source.ReadsNames {} settings.maxDepth :=
    ⟨⟨hdepth, by rwa [show ({} : ParseState).cursor.depth = 0 from rfl, Nat.zero_add]⟩, rfl, rfl⟩
  have hparse := hcut.parse_eq rfl
    (run_items_of_nameFunction hnames hlookahead hsees hm hiterations hend) name
  by_cases hle : n ≤ m
  · rw [if_pos hle] at hparse
    rw [show r = _ from hparse]
    exact ⟨fun _ => ⟨rfl, rfl⟩, fun hlt => (Nat.not_lt_of_le hle hlt).elim⟩
  · obtain ⟨t, ht, hoffset⟩ := exists_bodyToken 11 (Nat.lt_of_not_le hle)
    have hat : (source.stream.get (0 + (5 + 2 * m))).offset = 11 + 3 * m := by
      have hget : (statementsTokens n)[5 + 2 * m]? = some t := by
        rw [statementsTokens, List.getElem?_append_right (by simp)]
        rwa [show 5 + 2 * m - List.length _ = 2 * m by simp]
      rw [Nat.zero_add, hcut.get_eq hget, hoffset]
    rw [if_neg hle, hat] at hparse
    rw [show r = _ from hparse, ← message_tooMany_block]
    exact ⟨fun h => (hle h).elim, fun _ => ⟨rfl, rfl⟩⟩

end CTree
