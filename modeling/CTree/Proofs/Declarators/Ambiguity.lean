import CTree.Proofs.Declarators.Values
import CTree.Proofs.Declarators.Variables

/-!
# Names of types

The same tokens are a declaration or a multiplication, a cast or an operation between two values, a cast or
a call, the size of a type or of a value: `a * b;`, `(a) - b`, `(a)(b)`, `sizeof(a)`. Which of the two is
read depends on nothing but whether the name is known as that of a type.
-/

namespace CTree

open Parse Lexeme

variable {source : Source} {s : ParseState} {g : Grammar} {n m d : Nat} {e e' : Expr}
  {w : Lexeme} {ws : List Lexeme} {text : String}

/-! ### Casts and values -/

namespace Consumes

variable {k : TokenKind} {value : String} {before : UnaryOp} {between : BinaryOp} {level : Nat}

/-- A name in parentheses, an operator and a name. -/
theorem castOrOperation (hroom : source.HasRoom s d 2) (hword : Rule.IsWord text)
    (hnull : text ≠ "NULL") (hvalue : value ≠ "NULL") (hlenient : s.lenient = false)
    (hbefore : UnaryOp.ofKind? k = some before) (hbetween : BinaryOp.ofKind? k = some (between, level))
    (hsees : source.Sees s.cursor.position (spelled .lparen :: Lexeme.name text ::
      spelled .rparen :: spelled k :: Lexeme.name value :: w :: ws))
    (hw : w.kind.endsExpression = true) :
    Consumes source s 5 ((Grammar.ofDepth d).binary BinaryOp.levels 1)
      (if s.cursor.known.contains text then
        .cast .parenthesized text (.unary before .before (.identifier value))
      else .binary between (.identifier text) (.identifier value)) := by
  have hk := TokenKind.mem_of_operators (by rw [hbefore]; rfl) (by rw [hbetween]; rfl)
  have hoperand : k.startsOperand = true ∧ k ≠ .lbrace ∧ k.endsValue = true := by
    simp only [List.mem_cons, List.not_mem_nil, or_false] at hk
    rcases hk with rfl | rfl | rfl | rfl <;> decide
  have hend : source.kindAt (s.cursor.position + 5) = w.kind :=
    hsees.2.2.2.2.2.2.2.2.2.2.kindAt
  by_cases hknown : s.cursor.known.contains text = true
  · have hcast := run_castType_of_name hword hlenient hsees
    rw [hknown, show (spelled k).kind = k from rfl, hoperand.1, Bool.and_self, if_pos rfl] at hcast
    have hbrace : source.kindAt (s.cursor.position + 3) ≠ .lbrace := by
      rw [show source.kindAt (s.cursor.position + 3) = k from hsees.2.2.2.2.2.2.kindAt]
      exact hoperand.2.1
    rw [hknown, if_pos rfl]
    refine binary (cast (n := 2) hroom hsees.kind hcast hbrace ?_) (by rwa [hend]) _ _
    intro s' d' hposition _ _ hroom'
    have hrest : source.Sees s'.cursor.position (spelled k :: Lexeme.name value :: w :: ws) := by
      rw [hposition]
      exact hsees.2.2.2.2.2.2
    refine Consumes.before (n := 1) hroom' hrest hbefore fun s'' d'' hposition' _ => ?_
    have hlast : source.Sees s''.cursor.position (Lexeme.name value :: w :: ws) := by
      rw [hposition']
      exact hrest.2.2
    exact unary hlast hvalue (TokenKind.endsValue_of_endsExpression hw)
  · rw [Bool.not_eq_true] at hknown
    have hleft : Consumes source s 3 (Grammar.ofDepth d).unary (.identifier text) :=
      enclosedName ⟨Nat.le_of_succ_le hroom.grammar, Nat.le_of_succ_le hroom.depth⟩ hword hnull
        hlenient hsees hoperand.2.2 (by rw [hknown, Bool.false_and])
    have hright : Consumes source (s.after (3 + 1)) 1 (Grammar.ofDepth d).unary (.identifier value) :=
      unary hsees.next.next.next.next hvalue (TokenKind.endsValue_of_endsExpression hw)
    rw [hknown, if_neg Bool.false_ne_true]
    exact operation hleft hsees.next.next.next hbetween hright (by rwa [hend])

/-- Two names in parentheses. -/
theorem castOrCall (hroom : source.HasRoom s d 2) (hword : Rule.IsWord text)
    (hvalueWord : Rule.IsWord value) (hnull : text ≠ "NULL") (hvalue : value ≠ "NULL")
    (hlenient : s.lenient = false) (hsees : source.Sees s.cursor.position (spelled .lparen :: Lexeme.name text ::
      spelled .rparen :: spelled .lparen :: Lexeme.name value :: spelled .rparen :: w :: ws))
    (hw : w.kind.endsExpression = true) :
    Consumes source s 6 ((Grammar.ofDepth d).binary BinaryOp.levels 1)
      (if s.cursor.known.contains text then .cast .parenthesized text (.identifier value)
      else .call (.identifier text) [.identifier value]) := by
  have hend : source.kindAt (s.cursor.position + 6) = w.kind :=
    hsees.2.2.2.2.2.2.2.2.2.2.2.2.kindAt
  have hroom1 : source.HasRoom s d 1 :=
    ⟨Nat.le_of_succ_le hroom.grammar, Nat.le_of_succ_le hroom.depth⟩
  have hcast := run_castType_of_name hword hlenient hsees
  rw [show (spelled TokenKind.lparen).kind.startsOperand = true from rfl, Bool.and_true] at hcast
  by_cases hknown : s.cursor.known.contains text = true
  · rw [hknown, if_pos rfl] at hcast
    have hbrace : source.kindAt (s.cursor.position + 3) ≠ .lbrace := by
      rw [show source.kindAt (s.cursor.position + 3) = .lparen from hsees.2.2.2.2.2.2.kindAt]
      decide
    rw [hknown, if_pos rfl]
    refine binary (cast (n := 3) hroom hsees.kind hcast hbrace ?_) (by rwa [hend]) _ _
    intro s' d' hposition _ hlenient' hroom'
    have hrest : source.Sees s'.cursor.position
        (spelled .lparen :: Lexeme.name value :: spelled .rparen :: w :: ws) := by
      rw [hposition]
      exact hsees.2.2.2.2.2.2
    refine enclosedName hroom' hvalueWord hvalue (hlenient'.trans hlenient) hrest
      (TokenKind.endsValue_of_endsExpression hw) ?_
    rw [TokenKind.startsOperand_of_endsExpression hw, Bool.and_false]
  · rw [Bool.not_eq_true] at hknown
    rw [hknown, if_neg Bool.false_ne_true] at hcast
    rw [hknown, if_neg Bool.false_ne_true]
    exact binary (uncast hsees.kind hcast (call hroom1 hnull hvalue hsees hw)) (by rwa [hend]) _ _

/-- A name in parentheses after `sizeof`. -/
theorem sizeofName (hroom : source.HasRoom s d 2) (hword : Rule.IsWord text)
    (hnull : text ≠ "NULL") (hlenient : s.lenient = false)
    (hsees : source.Sees s.cursor.position (spelled .kwSizeof :: spelled .lparen ::
      Lexeme.name text :: spelled .rparen :: w :: ws)) (hw : w.kind.endsExpression = true) :
    Consumes source s 4 ((Grammar.ofDepth d).binary BinaryOp.levels 1)
      (.sizeof (if s.cursor.known.contains text then .type text else .value (.identifier text))) := by
  have hend : source.kindAt (s.cursor.position + 4) = w.kind := hsees.2.2.2.2.2.2.2.2.kindAt
  have hk : (source.view s).kind 0 = .kwSizeof := hsees.kind
  have hopen : (source.view (s.after 1)).kind 0 ≠ .ellipsis := by
    rw [hsees.next.kind]
    decide
  have hprobe := run_parenthesizedType_of_name (s := s.after 1) hword hlenient hsees.next
  refine binary ?_ (by rwa [hend]) _ _
  unfold Grammar.unary
  refine look run_kind ?_
  rw [hk]
  refine look run_kind ?_
  rw [hk]
  refine (skip (by rw [hk]; decide)).bind (m := 3) (look (run_accept_of_ne hopen) ?_)
  rw [if_neg Bool.false_ne_true]
  by_cases hknown : s.cursor.known.contains text = true
  · rw [show (s.after 1).cursor.known.contains text = true from hknown, if_pos rfl] at hprobe
    rw [hknown, if_pos rfl]
    exact Consumes.andLast hprobe (.pure _)
  · rw [Bool.not_eq_true] at hknown
    rw [show (s.after 1).cursor.known.contains text = false from hknown,
      if_neg Bool.false_ne_true] at hprobe
    rw [hknown, if_neg Bool.false_ne_true]
    have hgrammar := hroom.grammar
    obtain ⟨d, rfl⟩ : ∃ d', d = d' + 1 := ⟨d - 1, by omega⟩
    have hvalue : Consumes source (s.after 1) 3 ((Grammar.ofDepth (d + 1)).parse .unary)
        (.identifier text) :=
      parse (m := 1) ⟨hgrammar, hroom.depth⟩ fun hroom' =>
        enclosedName hroom' hword hnull hlenient hsees.next
          (TokenKind.endsValue_of_endsExpression hw) (by
            rw [TokenKind.startsOperand_of_endsExpression hw, Bool.and_false])
    exact look hprobe (hvalue.andLast (.pure _))

end Consumes

/-! ### Declarations and multiplications -/

/-- A name, stars and another name, up to the `;`: a declaration or a multiplication. -/
def starLexemes (left right : String) (n : Nat) : List Lexeme :=
  Lexeme.name left :: (List.replicate (n + 1) (spelled .star) ++
    [Lexeme.name right, spelled .semicolon])

/-- What such a statement declares. -/
def pointerVariable (type name : String) (n : Nat) : VarDecl :=
  ⟨type ++ String.join (List.replicate (n + 1) "*"), name, none, none, []⟩

/-- What such a statement multiplies. -/
def starProduct (left right : String) (n : Nat) : Expr :=
  .binary .mul (.identifier left) ((Expr.unary .deref .before)^[n] (.identifier right))

section Stars

variable {left right : String} (hsees : source.Sees s.cursor.position (starLexemes left right n))

include hsees

/-- Of a known type a pointer is declared. -/
theorem Grammar.run_declaration_of_known (hword : Rule.IsWord left) (hlocal : left ≠ "thread_local")
    (hknown : s.cursor.known.contains left = true) :
    g.declaration?.run source s =
      (.ok (some (.var (pointerVariable left right n))), s.after (n + 4)) := by
  let l : VariableList s.cursor.known :=
    { qualifiers := [], core := [Lexeme.name left], first := ⟨List.replicate (n + 1) .star, right⟩,
      rest := [], isQualifier := List.forall_mem_nil _, isCore := .named hword hknown
      unspecific := by simpa [Lexeme.name] using hlocal
      isSuffix := by simp [isTypeSuffix], isMark := List.forall_mem_nil _ }
  have hlexemes : l.lexemes = starLexemes left right n := by
    simp [l, VariableList.lexemes, VariableList.base, Declarator.lexemes, Declarator.tailLexemes,
      starLexemes]
  have hfound : l.found = [pointerVariable left right n] := by
    have htype := @joined_append_marks [] (Lexeme.name left) (List.replicate (n + 1) .star)
      (fun h => by cases h) (by simp [TokenKind.isVariableMark])
    have hmarks : (List.replicate (n + 1) TokenKind.star).map TokenKind.spelling =
        List.replicate (n + 1) "*" := List.map_replicate
    rw [List.nil_append, List.nil_append, joined_name, hmarks] at htype
    rw [VariableList.found, Declarator.variableFrom, pointerVariable]
    exact congrArg (fun type => [(⟨type, right, none, none, []⟩ : VarDecl)]) htype
  have hlength : l.lexemes.length = n + 4 := by
    simp [hlexemes, starLexemes]
  have hrun := run_declaration_of_variableList (g := g) (l := l) (hlexemes ▸ hsees)
  rwa [hfound, hlength] at hrun

/-- A product is read as a statement. -/
theorem Consumes.starProduct (hroom : source.HasRoom s d (n + 1)) (hleft : left ≠ "NULL")
    (hright : right ≠ "NULL") : Consumes source s (n + 4) (Grammar.ofDepth d).expressionStatement
      (.expr (CTree.starProduct left right n)) := by
  have hend : source.kindAt (s.cursor.position + (1 + (1 + (n + 1)))) = .semicolon := by
    have hlength : (Lexeme.name left :: (List.replicate (n + 1) (spelled .star) ++
        [Lexeme.name right])).length = 1 + (1 + (n + 1)) := by
      simp
      omega
    rw [← hlength]
    exact Source.Sees.kindAfter (w := spelled .semicolon) _ (by simpa [starLexemes] using hsees)
  have hexpression : Consumes source s (1 + (1 + (n + 1))) (Grammar.ofDepth d).expression
      (CTree.starProduct left right n) := by
    refine expression hroom (fun s' d' hposition _ _ hroom' => ?_) (by rw [hend]; rfl)
    rw [starLexemes, ← hposition] at hsees
    have hright : Consumes source (s'.after (1 + 1)) (n + 1) (Grammar.ofDepth d').unary
        ((Expr.unary .deref .before)^[n] (.identifier right)) :=
      derefs ⟨hroom'.grammar, hroom'.depth⟩ hsees.next.next hright rfl
    refine operation (unary hsees hleft rfl) hsees.next rfl hright ?_
    rw [hposition, hend]
    rfl
  rw [show n + 4 = 1 + (1 + (n + 1)) + 1 by omega]
  refine (commaExpression hexpression (by rw [hend]; decide)).bind (m := 1) ?_
  exact (skipOver (s := s.after _) hend (by decide)).andLast (.pure _)

end Stars

/-! ### The decision -/

/-- Name, stars and name, as a statement and as an item. -/
theorem Grammar.run_of_stars {type value : String} (hroom : source.HasRoom s d (n + 2))
    (hword : Rule.IsWord type) (hnull : type ≠ "NULL") (hlocal : type ≠ "thread_local")
    (hvalue : value ≠ "NULL") (hlenient : s.lenient = false)
    (hsees : source.Sees s.cursor.position (starLexemes type value n)) :
    let stmt := if s.cursor.known.contains type then Stmt.var (pointerVariable type value n)
      else .expr (starProduct type value n)
    ((Grammar.ofDepth d).parse .statement).run source s = (.ok (some stmt), s.after (n + 4)) ∧
      (Grammar.ofDepth d).item.run source s = (.ok (some stmt), s.after (n + 4)) := by
  intro stmt
  have hgrammar := hroom.grammar
  obtain ⟨d, rfl⟩ : ∃ d', d = d' + 1 := ⟨d - 1, by omega⟩
  have hk : (source.view s).kind 0 = .identifier := hsees.kind
  have hbegins : ((source.view s).kind 0).beginsBase = true := by
    rw [hk]
    rfl
  have hnext {k : TokenKind} (h : TokenKind.star ≠ k) (_ : (source.view s).kind 0 = .identifier) :
      (source.view s).kind 1 ≠ k := by
    rwa [show (source.view s).kind 1 = .star from hsees.next.kind]
  let inner : ParseState := { s with cursor := { s.cursor with depth := s.cursor.depth + 1 } }
  by_cases hknown : s.cursor.known.contains type = true
  · have hstmt : stmt = .var (pointerVariable type value n) := if_pos hknown
    have hstatement : Consumes source inner (n + 4) (Grammar.ofDepth d).statement (some stmt) := by
      rw [hstmt]
      exact run_statement_of_base (s := inner) hbegins (hnext (by decide))
        (run_declaration_of_known hsees hword hlocal hknown)
    refine ⟨Consumes.parse (m := n + 1) ⟨hgrammar, hroom.depth⟩ fun _ => hstatement, ?_⟩
    rw [hstmt]
    exact run_item_of_base hbegins (hnext (by decide))
      (run_declaration_of_known hsees hword hlocal hknown)
  · rw [Bool.not_eq_true] at hknown
    have hstmt : stmt = .expr (starProduct type value n) := if_neg (by rw [hknown]; decide)
    have hstatement : Consumes source s (n + 4) ((Grammar.ofDepth (d + 1)).parse .statement)
        (some stmt) := by
      refine Consumes.parse (m := n + 1) ⟨hgrammar, hroom.depth⟩ fun hroom' => ?_
      have hdeclaration := run_declaration_of_unknown (s := inner) (g := Grammar.ofDepth d) hsees
        hlocal hlenient hknown (hnext (by decide) hsees.kind)
      rw [hstmt]
      refine (run_statement_of_base (s := inner) hbegins (hnext (by decide)) hdeclaration).trans ?_
      have hproduct := Consumes.starProduct (s := inner) hsees hroom' hnull hvalue
      have hsome : Consumes source inner (n + 4)
          (some <$> (Grammar.ofDepth d).expressionStatement) (some (.expr (starProduct type value n))) :=
        hproduct.andLast (.pure _)
      exact hsome
    have hdeclaration := run_declaration_of_unknown (g := Grammar.ofDepth (d + 1)) hsees hlocal
      hlenient hknown (hnext (by decide) hsees.kind)
    exact ⟨hstatement, (run_item_of_base hbegins (hnext (by decide)) hdeclaration).trans hstatement⟩

/-- Whether a name is known as that of a type decides what is read. Name, stars and name are the
declaration of a pointer or a product, as a statement and as an item; a name in parentheses before an operator
and a name makes a cast of the operation before that name or an operation between the two; before a
name in parentheses it makes a cast or a call; after `sizeof` it is a type or a value. -/
theorem Grammar.known_decides (source : Source) (s : ParseState) (d : Nat) (type value : String)
    (hword : Rule.IsWord type) (hnull : type ≠ "NULL") (hlocal : type ≠ "thread_local")
    (hvalueWord : Rule.IsWord value) (hvalue : value ≠ "NULL") (hlenient : s.lenient = false) :
    let known := s.cursor.known.contains type
    (∀ n, source.HasRoom s d (n + 2) →
      source.Sees s.cursor.position (starLexemes type value n) →
        let stmt := if known then Stmt.var (pointerVariable type value n)
          else .expr (starProduct type value n)
        ((Grammar.ofDepth d).parse .statement).run source s = (.ok (some stmt), s.after (n + 4)) ∧
          (Grammar.ofDepth d).item.run source s = (.ok (some stmt), s.after (n + 4))) ∧
    (∀ (w : Lexeme) (ws : List Lexeme), source.HasRoom s d 3 → w.kind.endsExpression = true →
      (∀ (k : TokenKind) (before : UnaryOp) (between : BinaryOp) (level : Nat),
        UnaryOp.ofKind? k = some before → BinaryOp.ofKind? k = some (between, level) →
        source.Sees s.cursor.position (spelled .lparen :: Lexeme.name type :: spelled .rparen ::
          spelled k :: Lexeme.name value :: w :: ws) →
        (Grammar.ofDepth d).expression.run source s = (.ok
          (if known then .cast .parenthesized type (.unary before .before (.identifier value))
            else .binary between (.identifier type) (.identifier value)), s.after 5)) ∧
      (source.Sees s.cursor.position (spelled .lparen :: Lexeme.name type :: spelled .rparen ::
          spelled .lparen :: Lexeme.name value :: spelled .rparen :: w :: ws) →
        (Grammar.ofDepth d).expression.run source s = (.ok
          (if known then .cast .parenthesized type (.identifier value)
            else .call (.identifier type) [.identifier value]), s.after 6)) ∧
      (source.Sees s.cursor.position (spelled .kwSizeof :: spelled .lparen :: Lexeme.name type ::
          spelled .rparen :: w :: ws) →
        (Grammar.ofDepth d).expression.run source s =
          (.ok (.sizeof (if known then .type type else .value (.identifier type))), s.after 4))) := by
  intro known
  refine ⟨fun n hroom => run_of_stars hroom hword hnull hlocal hvalue hlenient,
    fun w ws hroom hw => ⟨?_, ?_, ?_⟩⟩
  · intro k before between level hbefore hbetween hsees
    have hend : source.kindAt (s.cursor.position + 5) = w.kind :=
      hsees.2.2.2.2.2.2.2.2.2.2.kindAt
    refine Consumes.expression hroom (fun s' d' hposition hknown hlenient' hroom' => ?_) (by rwa [hend])
    rw [← hposition] at hsees
    have hread := Consumes.castOrOperation hroom' hword hnull hvalue hlenient' hbefore hbetween hsees hw
    rwa [hknown] at hread
  · intro hsees
    have hend : source.kindAt (s.cursor.position + 6) = w.kind :=
      hsees.2.2.2.2.2.2.2.2.2.2.2.2.kindAt
    refine Consumes.expression hroom (fun s' d' hposition hknown hlenient' hroom' => ?_) (by rwa [hend])
    rw [← hposition] at hsees
    have hread := Consumes.castOrCall hroom' hword hvalueWord hnull hvalue hlenient' hsees hw
    rwa [hknown] at hread
  · intro hsees
    have hend : source.kindAt (s.cursor.position + 4) = w.kind := hsees.2.2.2.2.2.2.2.2.kindAt
    refine Consumes.expression hroom (fun s' d' hposition hknown hlenient' hroom' => ?_) (by rwa [hend])
    rw [← hposition] at hsees
    have hread := Consumes.sizeofName hroom' hword hnull hlenient' hsees hw
    rwa [hknown] at hread

/-- Two stars between two names, with the first one known and unknown. -/
theorem Grammar.known_decides_pointer :
    let source := (Session.start {} "T ** x;".toList).source
    let knowing : ParseState := { cursor := { known := ⟨["T"]⟩ } }
    ((Grammar.ofDepth 3).parse .statement).run source knowing =
        (.ok (some (.var ⟨"T**", "x", none, none, []⟩)), knowing.after 5) ∧
      ((Grammar.ofDepth 3).parse .statement).run source {} =
        (.ok (some (.expr (.binary .mul (.identifier "T")
          (.unary .deref .before (.identifier "x"))))), ParseState.after {} 5) := by
  intro source knowing
  have hsees : source.Sees ([] : List Lexeme).length (starLexemes "T" "x" 1) :=
    Source.sees_of_map (by decide +kernel)
  have hdecides (s : ParseState) (hlenient : s.lenient = false) :=
    known_decides source s 3 "T" "x" ⟨'T', [], rfl, rfl, rfl⟩ (by decide) (by decide)
      ⟨'x', [], rfl, rfl, rfl⟩ (by decide) hlenient
  have hroom (s : ParseState) (h : s.cursor.depth = 0) : source.HasRoom s 3 (1 + 2) :=
    ⟨Nat.le_refl 3, by rw [h]; decide⟩
  exact ⟨((hdecides knowing rfl).1 1 (hroom _ rfl) hsees).1, ((hdecides {} rfl).1 1 (hroom _ rfl) hsees).1⟩

end CTree
