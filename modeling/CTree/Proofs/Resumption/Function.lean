import CTree.Proofs.Cut
import CTree.Proofs.Printing.StatementRoundtrip
import CTree.Proofs.Resumption.Body

/-!
# Functions with a statement that fails

A function whose body has a statement that fails is read as the function with the other statements of
its body, and something is reported.
-/

namespace CTree

open Parse Lexeme

variable {source : Source} {s : ParseState}

/-! ### Heads -/

/-- In either dialect a name with parentheses and a brace after it is that of a function. -/
theorem View.declarationForm?_of_body {v : View} (h0 : v.kind 0 = .identifier)
    (h1 : v.kind 1 = .lparen) (h2 : v.kind 2 = .rparen) (h3 : v.kind 3 = .lbrace) {limit : Nat}
    (hlimit : 2 ≤ limit) : v.declarationForm? limit = some .function := by
  obtain ⟨n, rfl⟩ : ∃ n, limit = n + 2 := ⟨limit - 2, by omega⟩
  have hclose : v.matchingParen (n + 2) 1 = some 2 := by
    simp [matchingParen, closingFrom, h1, h2]
  exact declarationForm?_of_group h0 h1 hclose (.inl h3)

/-- The head of a function without parameters that gives nothing, up to its body. -/
def FunctionDecl.voidHead (name : String) : List Lexeme :=
  [spelled .kwVoid, Lexeme.name name, spelled .lparen, spelled .rparen]

namespace Takes

variable {g : Grammar} {name : String} {ws : List Lexeme}

/-- One token of a class is taken if the one after it is not of the class. -/
theorem skipOne {c : TokenKind → Bool} (h0 : c ((source.view s).kind 0) = true)
    (htoken : (source.view s).kind 0 ≠ .eof) (h1 : c ((source.view s).kind 1) = false) :
    Takes source s 1 (skipWhile c) () := by
  have hfuel : ∃ fuel, (source.view s).remaining + 1 = fuel + 2 := by
    have hlt := Source.position_lt htoken
    have hremaining : (source.view s).remaining =
        source.stream.body.size + 1 - s.cursor.position := rfl
    exact ⟨(source.view s).remaining - 1, by omega⟩
  obtain ⟨fuel, hfuel⟩ := hfuel
  unfold skipWhile
  refine look run_view ?_
  rw [hfuel, iterateFor, bind_assoc]
  refine look run_kind ?_
  rw [h0, if_pos rfl, bind_assoc]
  refine (skip htoken).andLast fun t ht => ?_
  simp only [pure_bind]
  rw [iterateFor, bind_assoc]
  refine look run_kind ?_
  rw [ht.kind, show source.kindAt (s.cursor.position + 1 + 0) = (source.view s).kind 1 from rfl, h1]
  exact .pure ()

/-- The type `void` before a name. -/
theorem voidType (hsees : source.Sees s.cursor.position (spelled .kwVoid :: Lexeme.name name :: ws)) :
    Takes source s 1 Parse.typeName "void" := by
  have hk : (source.view s).kind 0 = .kwVoid := hsees.kindAt
  have hnext : source.kindAt (s.cursor.position + 1) = .identifier := hsees.2.2.kindAt
  have hbare : Takes source s 1 bareCore () := by
    refine look run_kind ?_
    rw [hk]
    refine skipOne (by rw [hk]; rfl) (by rw [hk]; decide) ?_
    rw [show (source.view s).kind 1 = .identifier from hnext]
    rfl
  have hcore := typeCore hbare (by rw [hk]; rfl) (by rw [hnext]; rfl)
  have htext : Token.join (source.stream.between s.cursor.position (s.cursor.position + 1)) =
      "void" := by
    have hlt := hsees.1
    have hbetween : source.stream.between s.cursor.position (s.cursor.position + 1) =
        [source.stream.get s.cursor.position] := by
      rw [TokenStream.get_of_lt _ hlt]
      simp [TokenStream.between, List.take_one, List.head?_drop, hlt]
    rw [hbetween]
    simp only [Token.join, Token.joinAfter, hsees.text, String.append_empty]
    rfl
  have htype := typeName hcore (by rw [hnext]; rfl)
  rwa [htext] at htype

theorem declarationHead (hlook : 2 ≤ source.settings.maxLookahead)
    (hsees : source.Sees s.cursor.position (FunctionDecl.voidHead name ++ spelled .lbrace :: ws)) :
    Takes source s 1 declarationHead ({}, "void", .function) := by
  have hk : (source.view s).kind 0 = .kwVoid := hsees.kindAt
  have hspecifiers : specifiers.run source s = (.ok {}, s) :=
    run_specifiers_of_sees hsees rfl (by decide)
  have hstarts : (source.view s).startsType = true := by
    have hpast : (source.view s).past View.isQualifier 0 = 0 :=
      View.past_eq_self (by rw [hk]; rfl)
    unfold View.startsType
    simp only [hpast, show ((source.view s).token 0).kind = .kwVoid from hk]
    rfl
  refine look hspecifiers (look run_view ?_)
  rw [hstarts, if_pos rfl]
  have hformed : Takes source s 1 formedType ("void", .function) := by
    refine (voidType hsees).andLast fun t ht => look (run_lookAhead _) ?_
    have hseest := ht.sees [spelled .kwVoid] hsees
    have hform := View.declarationForm?_of_body (v := source.view t) hseest.kindAt hseest.2.2.kindAt
      hseest.2.2.2.2.kindAt hseest.2.2.2.2.2.2.kindAt hlook
    rw [hform]
    exact .pure _
  exact hformed.andLast fun _ _ => .pure _

/-- Empty parentheses are an empty parameter list. -/
theorem parameters (hlenient : s.lenient = false)
    (hsees : source.Sees s.cursor.position (spelled .lparen :: spelled .rparen :: ws)) :
    Takes source s 2 (Parse.speculate (Parse.strictly g.parameters)) (some []) := by
  refine speculate (strictly hlenient ?_)
  refine (skipOver hsees.kindAt (by decide)).bind (m := 1) fun t ht => ?_
  have hk : (source.view t).kind 0 = .rparen := (ht.kind 0).trans hsees.2.2.kindAt
  exact (accept hk (by decide)).andLast fun _ _ => .pure []

theorem closeBrace {place : String} (hk : (source.view s).kind 0 = .rbrace) :
    Takes source s 1 (closeBrace place) () :=
  (accept hk (by decide)).andLast fun _ _ => .pure ()

/-- No qualifiers stand before the body of a function. -/
theorem functionQualifiers (hk : (source.view s).kind 0 = .lbrace) :
    Takes source s 0 functionQualifiers {} := by
  have hnone : (source.view s).functionQualifier? {} = none := by
    unfold View.functionQualifier?
    rw [hk]
  refine stop ?_
  unfold functionQualifier
  rw [run_bind_ok run_kind, hk, run_bind_ok run_view, hnone]
  rfl

end Takes

/-- No definition of a type and no declaration with a keyword of its own begins with `void`. -/
theorem Grammar.run_namedDeclaration_of_void {g : Grammar} (hk : (source.view s).kind 0 = .kwVoid) :
    g.namedDeclaration?.run source s = (.ok none, s) :=
  run_namedDeclaration_eq_none (by rw [hk]; rfl)

/-- No constructor or destructor begins with `void`. -/
theorem Grammar.run_special_of_void {g : Grammar} (hk : (source.view s).kind 0 = .kwVoid) :
    g.special?.run source s = (.ok none, s) :=
  run_special_eq_none (by rw [hk]; rfl) (by rw [hk]; exact fun h => by cases h)

/-! ### Functions -/

/-- The body of a function: assignments, and among them a statement without braces, parentheses and
    `;`, before its own `;`. -/
structure BrokenBody where
  before : List IntAssignment
  broken : List Lexeme
  after : List IntAssignment
  isPlain : ∀ a ∈ before ++ after, a.IsPlain
  ne_nil : broken ≠ []
  unbounded : ∀ w ∈ broken, w.kind ∉ [.semicolon, .lbrace, .rbrace, .lparen, .rparen]

namespace BrokenBody

/-- The assignments. -/
def stmts (b : BrokenBody) : List Stmt :=
  (b.before ++ b.after).map IntAssignment.stmt

/-- The lexemes of the body, with its braces. -/
def lexemes (b : BrokenBody) : List Lexeme :=
  spelled .lbrace :: (IntAssignment.listLexemes b.before ++ (b.broken ++ spelled .semicolon ::
    (IntAssignment.listLexemes b.after ++ [spelled .rbrace])))

theorem length_lexemes (b : BrokenBody) : b.lexemes.length =
    1 + (4 * b.before.length + (b.broken.length + 1 + 4 * b.after.length) + 1) := by
  simp only [lexemes, List.length_cons, List.length_append, List.length_nil,
    IntAssignment.length_listLexemes]
  omega

/-- The lexemes of a function with such a body. -/
def functionLexemes (b : BrokenBody) (name : String) : List Lexeme :=
  FunctionDecl.voidHead name ++ b.lexemes

/-- The function without parameters that has the assignments as its body. -/
def function (b : BrokenBody) (name : String) : FunctionDecl :=
  { FunctionDecl.ofBody name b.stmts with returnType := "void" }

/-- The ceilings are above what the body needs. -/
structure Below (b : BrokenBody) (settings : Settings) : Prop where
  depth : 3 ≤ settings.maxDepth
  iterations : b.broken.length < settings.maxIterations
  statements : b.before.length + b.after.length < settings.maxStatements
  lookahead : 2 ≤ settings.maxLookahead

end BrokenBody

namespace Resumes

variable {b : BrokenBody} {name : String} {ws : List Lexeme} {d : Nat}

/-- A body in braces. -/
theorem functionBody (hb : b.Below source.settings)
    (hbounds : ∀ w ∈ b.broken, w.kind.bounds = false) (hlenient : s.lenient = false)
    (hroom : s.cursor.depth + 3 ≤ source.settings.maxDepth)
    (hfails : StatementFails source (d + 3) (s.after (1 + 4 * b.before.length)))
    (hsees : source.Sees s.cursor.position b.lexemes) :
    Resumes source s b.lexemes.length (Grammar.ofDepth (d + 3)).functionBody (some b.stmts) := by
  have hk : (source.view s).kind 0 = .lbrace := hsees.kindAt
  have hblock : Resumes source s
      (1 + (4 * b.before.length + (b.broken.length + 1 + 4 * b.after.length) + 1))
      (Grammar.ofDepth (d + 3)).block b.stmts := by
    refine after (Takes.skipOver hk (by decide)) fun t ht => ?_
    have hlenientt := ht.lenient.trans hlenient
    have hseest := ht.sees [spelled .lbrace] hsees
    have hinside : t.cursor.position ≤ source.stream.body.size := by
      rw [ht.position]
      exact hsees.1
    have hstatements := statements b.isPlain hlenientt (by rwa [ht.depth]) hinside
      (hfails.of_past ht) b.ne_nil hbounds hb.statements hb.iterations hseest
    refine (strictly hlenientt hstatements).bind (m := 1) fun u hu => ?_
    let read := IntAssignment.listLexemes b.before ++
      (b.broken ++ spelled .semicolon :: IntAssignment.listLexemes b.after)
    have hread : read.length =
        4 * b.before.length + (b.broken.length + 1 + 4 * b.after.length) := by
      simp only [read, List.length_append, List.length_cons, IntAssignment.length_listLexemes]
      omega
    have hseesu : source.Sees u.cursor.position [spelled .rbrace] :=
      (hread ▸ hu).sees read (by simpa [read] using hseest)
    exact (Takes.closeBrace hseesu.kindAt).andLast fun _ _ => .pure _
  refine look (run_check _) ?_
  rw [hk, beq_self_eq_true, if_pos rfl, b.length_lexemes]
  exact hblock.andPure rfl

/-- A function with such a body, after its type. -/
theorem functionOrVariable (hb : b.Below source.settings)
    (hbounds : ∀ w ∈ b.broken, w.kind.bounds = false) (hlenient : s.lenient = false)
    (hroom : s.cursor.depth + 3 ≤ source.settings.maxDepth)
    (hfails : StatementFails source (d + 3) (s.after (3 + (1 + 4 * b.before.length))))
    (hsees : source.Sees s.cursor.position
      (Lexeme.name name :: spelled .lparen :: spelled .rparen :: b.lexemes)) :
    Resumes source s (1 + (2 + b.lexemes.length))
      ((Grammar.ofDepth (d + 3)).functionOrVariable {} "void")
      (.decl (.function (b.function name))) := by
  have hparen : (source.view s).kind 1 ≠ .colonColon := by
    rw [show (source.view s).kind 1 = .lparen from hsees.2.2.kindAt]
    decide
  refine after (Takes.qualifiedName hsees.kindAt hsees.text hparen) fun t ht => ?_
  have hseest := ht.sees [Lexeme.name name] hsees
  have hlenientt := ht.lenient.trans hlenient
  refine after (Takes.parameters hlenientt hseest) fun u hu => ?_
  have hseesu : source.Sees u.cursor.position b.lexemes :=
    hu.sees [spelled .lparen, spelled .rparen] hseest
  have hrest : Resumes source u b.lexemes.length
      ((Grammar.ofDepth (d + 3)).functionRest {} "void" name []) (b.function name) := by
    have hk : (source.view u).kind 0 = .lbrace := hseesu.kindAt
    rw [← Nat.zero_add b.lexemes.length]
    refine after (Takes.functionQualifiers hk) fun v hv => ?_
    have hpast := (ht.trans hu).trans hv
    have hseesv : source.Sees v.cursor.position b.lexemes := hv.sees [] hseesu
    have hbody := functionBody hb hbounds (hpast.lenient.trans hlenient)
      (by rwa [hpast.depth]) (hfails.of_past hpast) hseesv
    exact hbody.andPure rfl
  exact hrest.andPure rfl

theorem item (hb : b.Below source.settings) (hbounds : ∀ w ∈ b.broken, w.kind.bounds = false)
    (hlenient : s.lenient = false) (hroom : s.cursor.depth + 3 ≤ source.settings.maxDepth)
    (hfails : StatementFails source (d + 3) (s.after (5 + 4 * b.before.length)))
    (hsees : source.Sees s.cursor.position (b.functionLexemes name)) :
    Resumes source s (b.functionLexemes name).length (Grammar.ofDepth (d + 3)).item
      (some (.decl (.function (b.function name)))) := by
  have hk : (source.view s).kind 0 = .kwVoid := hsees.kindAt
  have hlength : (b.functionLexemes name).length = 1 + (1 + (2 + b.lexemes.length)) := by
    simp only [BrokenBody.functionLexemes, FunctionDecl.voidHead, List.length_append,
      List.length_cons, List.length_nil]
    omega
  have hdeclaration : Resumes source s (b.functionLexemes name).length
      (Grammar.ofDepth (d + 3)).declaration? (some (.decl (.function (b.function name)))) := by
    have hhead := (Takes.declarationHead hb.lookahead hsees).speculate
    rw [hlength]
    refine after hhead fun t ht => ?_
    rw [show 5 + 4 * b.before.length = 1 + (3 + (1 + 4 * b.before.length)) by omega] at hfails
    have hrest := functionOrVariable hb hbounds (ht.lenient.trans hlenient) (by rwa [ht.depth])
      (hfails.of_past ht) (ht.sees [spelled .kwVoid] hsees)
    exact hrest.andPure rfl
  refine look (Grammar.run_namedDeclaration_of_void hk) ?_
  refine look (Grammar.run_special_of_void hk) ?_
  exact hdeclaration.andPure rfl

/-- The function is the only item of its source. -/
theorem items (hb : b.Below source.settings) (hbounds : ∀ w ∈ b.broken, w.kind.bounds = false)
    (hlenient : s.lenient = false) (hroom : s.cursor.depth + 3 ≤ source.settings.maxDepth)
    (hfails : StatementFails source (d + 3) (s.after (5 + 4 * b.before.length)))
    (hsees : source.Sees s.cursor.position (b.functionLexemes name))
    (hend : source.kindAt (s.cursor.position + (b.functionLexemes name).length) = .eof) :
    Resumes source s (b.functionLexemes name).length ((Grammar.ofDepth (d + 3)).items false)
      [.decl (.function (b.function name))] := by
  have hk : (source.view s).kind 0 = .kwVoid := hsees.kindAt
  obtain ⟨t, hrun, ht⟩ := item hb hbounds hlenient hroom hfails hsees
  have hend : (source.view t).kind 0 = .eof := by
    show source.kindAt (t.cursor.position + 0) = .eof
    rw [ht.position]
    exact hend
  have hmoved : s.cursor.position < t.cursor.position := by
    rw [ht.position]
    exact Nat.lt_add_of_pos_right (Nat.succ_pos _)
  exact ⟨t, Grammar.run_items_of_item (Nat.zero_lt_of_lt hb.iterations) (by rw [hk]; decide)
    (by rw [hk]; decide) hrun hmoved hend, ht⟩

end Resumes

/-- No token of a text is the end of the text. -/
theorem kind_ne_eof_of_mem_dropLast (dialect : Dialect) (text : List Char) :
    ∀ w ∈ (tokenize dialect text).tokens.dropLast.map Token.lexeme, w.kind ≠ .eof := by
  obtain ⟨ts, htokens, hts⟩ := (cut_tokenize dialect text).tokens_eq
  intro w hw
  rw [htokens, List.dropLast_concat] at hw
  obtain ⟨t, ht, rfl⟩ := List.mem_map.1 hw
  exact (hts t ht).1

end CTree
