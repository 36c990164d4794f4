import CTree.Proofs.Tree.Forms
import CTree.Proofs.Tree.Gives

/-!
# Sound expressions

Every rule for expressions gives sound ones, if the nonterminals that it uses do. A nonterminal opens
a construct, so there is room for one construct more where it stands than inside of it.
-/

namespace CTree

open Parse

/-- Every nonterminal gives sound trees, wherever it is read. -/
structure Grammar.Sound (source : Source) (known : KnownTypes) (g : Grammar) : Prop where
  words : source.NamesAreWords
  parseAssignment : ∀ {room},
    Gives source known room (Expr.Sound known room) (g.parse .assignment)
  parseConditional : ∀ {room},
    Gives source known room (Expr.Sound known room) (g.parse .conditional)
  parseUnary : ∀ {room}, Gives source known room (Expr.Sound known room) (g.parse .unary)
  parseElements : ∀ {room}, Gives source known room
    (fun es => ∃ inner < room, Each (Expr.Sound known inner) es) (g.parse .elements)
  parseStatement : ∀ {room},
    Gives source known room (Maybe (Stmt.Sound known room)) (g.parse .statement)
  parseMembers : ∀ {room} owner bases access, Gives source known room
    (fun ds => ∃ inner < room, Each (Decl.SoundMember known inner) ds)
    (g.parse (.members owner bases access))
  parseItems : ∀ {room}, Gives source known room
    (fun ss => ∃ inner < room, Each (Stmt.Sound known inner) ss) (g.parse .items)
  parseItem : ∀ {room},
    Gives source known room (Maybe (Stmt.Sound known room)) (g.parse .item)

namespace Grammar

namespace Sound

open Lockstep

variable {source : Source} {known : KnownTypes} {room : Nat} {g : Grammar}

section Lists

variable (hg : g.Sound source known)
include hg

/-! ### Expressions and lists of them -/

theorem expression : Gives source known room (Expr.Sound known room) g.expression := by
  unfold Grammar.expression
  exact hg.parseAssignment.strictly

theorem commaExpression : Gives source known room (Expr.Sound known room) g.commaExpression := by
  unfold Grammar.commaExpression
  refine hg.expression.bind fun first => .iterate (fun left => ?_) first
  unfold Grammar.moreComma
  refine .after (acceptAnywhere .comma) fun more => ?_
  split
  · refine hg.expression.bind fun right => .pure fun hright hleft => Maybe.some ?_
    exact Expr.sound_binary.2 ⟨hleft, hright⟩
  · exact .pure fun _ => Maybe.none

theorem initializerList : Gives source known room
    (fun es => ∃ inner < room, Each (Expr.Sound known inner) es) g.initializerList := by
  unfold Grammar.initializerList
  exact .after (skipOverAnywhere .lbrace _) fun _ => hg.parseElements

theorem bracedList : Gives source known room (Expr.Sound known room) g.bracedList := by
  unfold Grammar.bracedList
  refine hg.initializerList.bind fun es => .pure ?_
  rintro ⟨inner, hlt, hes⟩
  exact Expr.sound_initializers hlt hes

theorem initializer : Gives source known room (Expr.Sound known room) g.initializer := by
  unfold Grammar.initializer
  refine .look (fun _ => rfl) fun brace => ?_
  split
  · exact hg.bracedList
  · exact hg.expression

theorem arguments (closing : TokenKind) :
    Gives source known room (Each (Expr.Sound known room)) (g.arguments closing) := by
  unfold Grammar.arguments
  refine .after (acceptAnywhere closing) fun closed => ?_
  split
  · exact .pure Each.nil
  · have hargument : Gives source known room (Expr.Sound known room) g.argument := by
      unfold Grammar.argument
      exact hg.initializer.bind fun value => .after (acceptAnywhere .ellipsis) fun _ => .pure id
    refine (Gives.separated hargument).bind fun values => ?_
    exact .after (skipOverAnywhere closing _) fun _ => .pure id

theorem dimensions : Gives source known room
    (fun ds => ∀ e, some e ∈ ds → e.Sound known room) g.dimensions := by
  unfold Grammar.dimensions
  refine (Gives.collect (m := Maybe (Expr.Sound known room)) ?_).mono
    fun ds hds e he => hds _ he e rfl
  refine .after (acceptAnywhere .lbracket) fun opening => ?_
  split
  · refine .after (acceptAnywhere .rbracket) fun closing => ?_
    split
    · exact .pure (Maybe.some Maybe.none)
    · refine hg.expression.bind fun size => .after (skipOverAnywhere .rbracket _) fun _ => ?_
      exact .pure fun hsize => Maybe.some (Maybe.some hsize)
  · exact .pure Maybe.none

/-! ### Parameters and blocks -/

theorem parameter : Gives source known room (Parameter.Sound known room) g.parameter := by
  unfold Grammar.parameter
  refine .after (acceptAnywhere .ellipsis) fun any => ?_
  split
  · exact .pure (Parameter.sound_iff.2 Maybe.none)
  · unfold Grammar.typedParameter
    refine .after specifiers fun _ => .after typeName fun type => ?_
    refine .after (acceptAnywhere .ellipsis) fun pack => ?_
    refine .after (Lockstep.declaredName (m := never) Lockstep.nameOrNone Lockstep.nameOrNone fun _ hx => hx) fun name => ?_
    refine .after (bracketTexts _) fun type => ?_
    refine (hg.expression.optionalAfter .assign).bind fun default? => ?_
    exact .pure fun hdefault => Parameter.sound_iff.2 hdefault

theorem parameters : Gives source known room (Each (Parameter.Sound known room)) g.parameters := by
  unfold Grammar.parameters
  refine .after (skipOverAnywhere .lparen _) fun _ => ?_
  refine .after (acceptAnywhere .rparen) fun empty => ?_
  split
  · exact .pure Each.nil
  · refine .look (fun _ => rfl) fun void => .look (fun _ => rfl) fun closing => ?_
    split
    · exact .after skipAnywhere fun _ => .after skipAnywhere fun _ => .pure Each.nil
    · refine (Gives.separated hg.parameter).bind fun ps => ?_
      exact .after (skipOverAnywhere .rparen _) fun _ => .pure id

theorem statements (stop : TokenKind → Bool) :
    Gives source known room (Each (Stmt.Sound known room)) (g.statements stop) := by
  unfold Grammar.statements
  refine .rounds (fun count => ?_) 0
  unfold Grammar.statementRound
  refine .look (fun _ => rfl) fun k => ?_
  split
  · exact .pure Maybe.none
  · refine .look (fun _ => rfl) fun limit => ?_
    dsimp only
    split
    · exact .failure fun _ => ⟨_, rfl⟩
    · refine hg.parseStatement.attempt.bind fun s? => ?_
      split
      · rename_i s
        exact .pure fun hs => Maybe.some (Each.single (hs _ rfl s rfl))
      · exact .pure fun _ => Maybe.some Each.nil

theorem block : Gives source known room (Each (Stmt.Sound known room)) g.block := by
  unfold Grammar.block
  refine .after (skipOverAnywhere .lbrace _) fun _ => (hg.statements _).strictly.bind fun body => ?_
  exact .after (closeBrace _) fun _ => .pure id

theorem functionBody :
    Gives source known room (Maybe (Each (Stmt.Sound known room))) g.functionBody := by
  unfold Grammar.functionBody
  refine .look (fun _ => rfl) fun brace => ?_
  split
  · exact hg.block.bind fun body => .pure Maybe.some
  · exact .after (skipOverAnywhere .semicolon _) fun _ => .pure Maybe.none

end Lists

/-! ### Operands -/

theorem templateName (path : String) :
    Gives source known room (Expr.Sound known room) (Grammar.templateName path) := by
  unfold Grammar.templateName
  refine .look (fun _ => rfl) fun cpp => .look (fun _ => rfl) fun angle => ?_
  split
  · exact .pure (Expr.sound_of_isAtom rfl)
  · refine .after usedTemplateArguments fun arguments? => ?_
    split
    · exact .pure (Expr.sound_of_isAtom rfl)
    · refine .look (fun _ => rfl) fun colons => .look (fun _ => rfl) fun named => ?_
      split
      · refine .after skipAnywhere fun _ => .after qualifiedName fun rest => ?_
        exact .pure (Expr.sound_of_isAtom rfl)
      · exact .pure (Expr.sound_of_isAtom rfl)

theorem intLiteral : Gives source known room (Expr.Sound known room) intLiteral := by
  unfold Parse.intLiteral
  refine .after advanceAnywhere fun t => ?_
  split
  · exact .pure (Expr.sound_of_isAtom rfl)
  · refine .bind (.any fun s => .record source s _) fun _ => ?_
    exact .pure fun _ => Expr.sound_of_isAtom rfl

theorem stringLiterals : Gives source known room (Expr.Sound known room) stringLiterals := by
  unfold Parse.stringLiterals
  refine .map (.any ?_) fun value _ => Expr.sound_of_isAtom rfl
  refine Lockstep.keeps (m := never) (.iterate (fun value => .test fun more => ?_) _)
  split
  · exact .bind .advanceAnywhere fun t => .pure _
  · exact .pure _

section Operands

variable (hg : g.Sound source known)
include hg

theorem nameExpression : Gives source known room (Expr.Sound known room) g.nameExpression := by
  unfold Grammar.nameExpression
  refine .after qualifiedName fun path => ?_
  split
  · exact .pure (Expr.sound_of_isAtom rfl)
  · split
    · rename_i cast hcast
      refine .look (fun _ => rfl) fun angle => ?_
      split
      · unfold Grammar.namedCast
        refine .after templateArguments fun _ => .after (skipOverAnywhere .lparen _) fun _ => ?_
        refine hg.expression.bind fun operand => .after (skipOverAnywhere .rparen _) fun _ => ?_
        exact .pure fun hoperand => Expr.sound_cast.2 hoperand
      · exact templateName path
    · exact templateName path

theorem typeidOf : Gives source known room (Expr.Sound known room) g.typeidOf := by
  unfold Grammar.typeidOf
  refine .after skipAnywhere fun _ => .after parenthesizedType fun type? => ?_
  split
  · exact .pure (Expr.sound_typeid.2 Query.sound_type)
  · refine .after (skipOverAnywhere .lparen _) fun _ => hg.expression.bind fun operand => ?_
    refine .after (skipOverAnywhere .rparen _) fun _ => .pure fun hoperand => ?_
    exact Expr.sound_typeid.2 (Query.sound_value.2 hoperand)

theorem newSize : Gives source known room (Maybe (Expr.Sound known room)) g.newSize := by
  unfold Grammar.newSize
  refine .after (acceptAnywhere .lbracket) fun array => ?_
  split
  · refine hg.expression.bind fun size => .after (skipOverAnywhere .rbracket _) fun _ => ?_
    exact .pure Maybe.some
  · exact .pure Maybe.none

theorem newArguments :
    Gives source known room (Each (Expr.Sound known room)) g.newArguments := by
  unfold Grammar.newArguments
  refine .after (acceptAnywhere .lparen) fun parens => ?_
  split
  · exact hg.arguments .rparen
  · refine .look (fun _ => rfl) fun braces => ?_
    split
    · refine hg.initializerList.mono ?_
      rintro es ⟨inner, hlt, hes⟩ e he
      exact (hes e he).mono (Nat.le_of_lt hlt)
    · exact .pure Each.nil

theorem newObject : Gives source known room (Expr.Sound known room) g.newObject := by
  have hobject : Gives source known room (Expr.Sound known room) (do
      let type ← Parse.leniently Parse.typeName
      let size? ← g.newSize
      return .new type (← g.newArguments) size? size?.isSome) := by
    refine .after (leniently typeName) fun type => hg.newSize.bind fun size? => ?_
    refine hg.newArguments.bind fun values => .pure fun hvalues hsize => ?_
    exact Expr.sound_new.2 ⟨hvalues, hsize⟩
  unfold Grammar.newObject
  refine .after skipAnywhere fun _ => .after (acceptAnywhere .lparen) fun placed => ?_
  dsimp only
  split
  · exact (hg.arguments .rparen).bind fun _ => hobject.mono fun e he _ => he
  · exact hobject

theorem deletion : Gives source known room (Expr.Sound known room) g.deletion := by
  unfold Grammar.deletion
  refine .after skipAnywhere fun _ => .after emptyBrackets fun isArray => ?_
  exact hg.parseUnary.bind fun operand => .pure fun hoperand => Expr.sound_delete.2 hoperand

theorem capture : Gives source known room (Capture.Sound known room) g.capture := by
  have hplain : ∀ {name : String} {byReference isThis : Bool},
      Capture.Sound known room ⟨name, byReference, isThis, none⟩ :=
    Capture.sound_iff.2 Maybe.none
  unfold Grammar.capture
  refine .look (fun _ => rfl) fun k => ?_
  split
  · exact .after skipAnywhere fun _ => .pure hplain
  · refine .after skipAnywhere fun _ => .look (fun _ => rfl) fun named => ?_
    split
    · refine .after advanceAnywhere fun t => .after (acceptAnywhere .ellipsis) fun _ => ?_
      exact .pure hplain
    · exact .pure hplain
  · exact .after skipAnywhere fun _ => .pure hplain
  · refine .look (fun _ => rfl) fun this => ?_
    split
    · exact .after skipAnywhere fun _ => .after skipAnywhere fun _ => .pure hplain
    · exact .failure fun _ => ⟨_, rfl⟩
  · refine .after advanceAnywhere fun t => .after (acceptAnywhere .ellipsis) fun _ => ?_
    refine (hg.expression.optionalAfter .assign).bind fun init? => ?_
    exact .pure fun hinit => Capture.sound_iff.2 hinit
  · exact .failure fun _ => ⟨_, rfl⟩

/-- A lambda is a construct, and its body stands inside of it. -/
theorem lambda : Gives source known room (Expr.Sound known (room + 1)) g.lambda := by
  unfold Grammar.lambda
  refine .after skipAnywhere fun _ => (Gives.commaList _ hg.capture).bind fun captures => ?_
  refine .after (skipOverAnywhere .rbracket _) fun _ => .look (fun _ => rfl) fun parens => ?_
  have hrest : ∀ ps, Gives source known room (fun e : Expr => Each (Parameter.Sound known room) ps →
      Each (Capture.Sound known room) captures → e.Sound known (room + 1)) (do
        let q ← Parse.iterate Grammar.lambdaQualifier (false, none)
        return Expr.lambda captures ps q.2 (← g.block) q.1) := by
    intro ps
    refine .after (iterate InStep.lambdaQualifier _) fun q => hg.block.bind fun body => ?_
    exact .pure fun hbody hps hcaptures => Expr.sound_lambda hcaptures hps hbody
  dsimp only
  split
  · exact hg.parameters.leniently.bind hrest
  · exact (Gives.pure Each.nil).bind hrest

theorem primary : Gives source known room (Expr.Sound known (room + 1)) g.primary := by
  have hle : room ≤ room + 1 := Nat.le_succ room
  have hatom : ∀ {e : Expr}, e.isAtom = true → Gives source known room
      (Expr.Sound known (room + 1)) (pure e) := fun h => .pure (Expr.sound_of_isAtom h)
  unfold Grammar.primary
  refine .look (fun _ => rfl) fun k => ?_
  split
  · exact intLiteral.mono fun e he => he.mono hle
  · exact intLiteral.mono fun e he => he.mono hle
  · exact intLiteral.mono fun e he => he.mono hle
  · exact .after advanceAnywhere fun t => hatom rfl
  · exact stringLiterals.mono fun e he => he.mono hle
  · exact .after advanceAnywhere fun t => hatom rfl
  · exact .after skipAnywhere fun _ => hatom rfl
  · exact .after skipAnywhere fun _ => hatom rfl
  · exact .after skipAnywhere fun _ => hatom rfl
  · exact .after skipAnywhere fun _ => hatom rfl
  · refine .after skipAnywhere fun _ => hg.commaExpression.bind fun value => ?_
    exact .after (skipOverAnywhere .rparen _) fun _ => .pure fun hvalue => hvalue.mono hle
  · exact hg.bracedList.mono fun e he => he.mono hle
  · refine .look (fun _ => rfl) fun cpp => ?_
    split
    · exact hg.lambda
    · exact .failure fun _ => ⟨_, rfl⟩
  · exact hg.newObject.mono fun e he => he.mono hle
  · exact hg.deletion.mono fun e he => he.mono hle
  · exact hg.typeidOf.mono fun e he => he.mono hle
  · exact hg.nameExpression.mono fun e he => he.mono hle
  · exact hg.nameExpression.mono fun e he => he.mono hle
  · refine .look (fun _ => rfl) fun call => ?_
    split
    · exact .after advanceAnywhere fun t => hatom rfl
    · exact .failure fun _ => ⟨_, rfl⟩

end Operands

section Operators

variable (hg : g.Sound source known)
include hg

/-! ### Operators -/

/-- Whatever is read after an operand, the operand stays as it was. -/
theorem suffix (operand : Expr) : Gives source known room (fun e? =>
    operand.Sound known (room + 1) → Maybe (Expr.Sound known (room + 1)) e?)
    (g.suffix operand) := by
  have hle : room ≤ room + 1 := Nat.le_succ room
  have hsome : ∀ {e : Expr}, (operand.Sound known (room + 1) → e.Sound known (room + 1)) →
      operand.Sound known (room + 1) → Maybe (Expr.Sound known (room + 1)) (some e) :=
    fun he hoperand => Maybe.some (he hoperand)
  have hmember : ∀ arrow, Gives source known room (fun e? =>
      operand.Sound known (room + 1) → Maybe (Expr.Sound known (room + 1)) e?)
      (do return some (Expr.member operand arrow (← Parse.memberName))) := by
    intro arrow
    exact .after memberName fun name => .pure (hsome fun h => Expr.sound_member.2 h)
  have hpointer : ∀ arrow, Gives source known room (fun e? =>
      operand.Sound known (room + 1) → Maybe (Expr.Sound known (room + 1)) e?)
      (do return some (Expr.memberPointer operand arrow (← g.parse .unary))) := by
    intro arrow
    refine hg.parseUnary.bind fun pointer => .pure fun hpointer => hsome fun h => ?_
    exact Expr.sound_memberPointer.2 ⟨h, hpointer.mono hle⟩
  have hstep : ∀ op : UnaryOp, op = .inc ∨ op = .dec →
      operand.Sound known (room + 1) →
        Maybe (Expr.Sound known (room + 1)) (some (.unary op .after operand)) :=
    fun op hop => hsome fun h => Expr.sound_unary.2 ⟨fun _ => hop, h⟩
  unfold Grammar.suffix
  refine .look (fun _ => rfl) fun k => ?_
  split
  · refine .after skipAnywhere fun _ => (hg.arguments .rparen).bind fun values => ?_
    refine .pure fun hvalues => hsome fun h => Expr.sound_call.2 ⟨h, fun e he => ?_⟩
    exact (hvalues e he).mono hle
  · refine .after skipAnywhere fun _ => hg.commaExpression.bind fun position => ?_
    refine .after (skipOverAnywhere .rbracket _) fun _ => .pure fun hposition => hsome fun h => ?_
    exact Expr.sound_index.2 ⟨h, hposition.mono hle⟩
  · exact .after advanceAnywhere fun t => hmember _
  · exact .after advanceAnywhere fun t => hmember _
  · exact .after advanceAnywhere fun t => hpointer _
  · exact .after advanceAnywhere fun t => hpointer _
  · exact .after skipAnywhere fun _ => .pure (hstep .inc (.inl rfl))
  · exact .after skipAnywhere fun _ => .pure (hstep .dec (.inr rfl))
  · refine .look (fun _ => rfl) fun cpp => .look (fun _ => rfl) fun v => ?_
    split
    · refine hg.initializerList.bind fun es => .pure ?_
      rintro ⟨inner, hlt, hes⟩
      refine hsome fun h => Expr.sound_call.2 ⟨h, fun e he => ?_⟩
      exact (hes e he).mono (Nat.le_trans (Nat.le_of_lt hlt) hle)
    · exact .pure fun _ => Maybe.none
  · exact .pure fun _ => Maybe.none

theorem suffixed : Gives source known room (Expr.Sound known (room + 1)) g.suffixed := by
  unfold Grammar.suffixed
  exact hg.primary.bind fun operand => .iterate hg.suffix operand

theorem sizeofOf : Gives source known room (Expr.Sound known room) g.sizeofOf := by
  unfold Grammar.sizeofOf
  refine .after skipAnywhere fun _ => .after (acceptAnywhere .ellipsis) fun pack => ?_
  split
  · refine .after (skipOverAnywhere .lparen _) fun _ => .after (Lockstep.name _) fun name => ?_
    refine .after (skipOverAnywhere .rparen _) fun _ => ?_
    exact .pure (Expr.sound_sizeof.2 Query.sound_type)
  · refine .after parenthesizedType fun type? => ?_
    split
    · exact .pure (Expr.sound_sizeof.2 Query.sound_type)
    · refine hg.parseUnary.bind fun operand => .pure fun hoperand => ?_
      exact Expr.sound_sizeof.2 (Query.sound_value.2 hoperand)

theorem castOperand : Gives source known room (Expr.Sound known room) g.castOperand := by
  unfold Grammar.castOperand
  refine .look (fun _ => rfl) fun brace => ?_
  split
  · exact hg.bracedList
  · exact hg.parseUnary

theorem unary : Gives source known room (Expr.Sound known (room + 1)) g.unary := by
  have hle : room ≤ room + 1 := Nat.le_succ room
  unfold Grammar.unary
  refine .look (fun _ => rfl) fun k => ?_
  split
  · rename_i op hop
    refine .after skipAnywhere fun _ => hg.parseUnary.bind fun operand => ?_
    refine .pure fun hoperand => Expr.sound_unary.2 ⟨fun h => ?_, hoperand.mono hle⟩
    cases h
  · refine .look (fun _ => rfl) fun k => ?_
    split
    · exact hg.sizeofOf.mono fun e he => he.mono hle
    · refine .after castType fun type? => ?_
      split
      · refine hg.castOperand.bind fun operand => .pure fun hoperand => ?_
        exact Expr.sound_cast.2 (hoperand.mono hle)
      · exact hg.suffixed
    · exact hg.suffixed

theorem binary (levels least : Nat) :
    Gives source known room (Expr.Sound known (room + 1)) (g.binary levels least) := by
  induction levels generalizing least with
  | zero => exact hg.unary
  | succ levels ih =>
    unfold Grammar.binary
    refine hg.unary.bind fun first => .iterate (fun left => ?_) first
    unfold Grammar.operation
    refine .look (fun _ => rfl) fun k => ?_
    split
    · split
      · exact .pure fun _ => Maybe.none
      · refine .after skipAnywhere fun _ => (ih _).bind fun right => ?_
        exact .pure fun hright hleft => Maybe.some (Expr.sound_binary.2 ⟨hleft, hright⟩)
    · exact .pure fun _ => Maybe.none

theorem conditional : Gives source known room (Expr.Sound known (room + 1)) g.conditional := by
  have hle : room ≤ room + 1 := Nat.le_succ room
  unfold Grammar.conditional
  refine (hg.binary _ _).bind fun condition => .after (acceptAnywhere .question) fun choice => ?_
  split
  · refine hg.commaExpression.bind fun yes => .after (skipOverAnywhere .colon _) fun _ => ?_
    refine hg.parseAssignment.bind fun no => .pure fun hno hyes hcondition => ?_
    exact Expr.sound_conditional.2 ⟨hcondition, hyes.mono hle, hno.mono hle⟩
  · exact .pure id

theorem assignment : Gives source known room (Expr.Sound known (room + 1)) g.assignment := by
  have hle : room ≤ room + 1 := Nat.le_succ room
  unfold Grammar.assignment
  refine hg.conditional.bind fun target => .look (fun _ => rfl) fun k => ?_
  split
  · exact .pure id
  · refine .after skipAnywhere fun _ => .look (fun _ => rfl) fun brace => ?_
    dsimp only
    split
    · refine hg.bracedList.bind fun value => .pure fun hvalue htarget => ?_
      exact Expr.sound_binary.2 ⟨htarget, hvalue.mono hle⟩
    · refine hg.parseAssignment.bind fun value => .pure fun hvalue htarget => ?_
      exact Expr.sound_binary.2 ⟨htarget, hvalue.mono hle⟩

/-! ### Initializers -/

theorem element : Gives source known room (Expr.Sound known room) g.element := by
  unfold Grammar.element
  refine .look (fun _ => rfl) fun v => ?_
  split
  · refine .after skipAnywhere fun _ => .after advanceAnywhere fun field => ?_
    refine .after skipAnywhere fun _ => hg.initializer.bind fun value => ?_
    exact .pure fun hvalue => Expr.sound_binary.2 ⟨Expr.sound_of_isAtom rfl, hvalue⟩
  · exact hg.initializer

theorem elements : Gives source known room (Each (Expr.Sound known room)) g.elements := by
  unfold Grammar.elements
  refine (Gives.commaList _ hg.element).bind fun es => ?_
  exact .after (skipOverAnywhere .rbrace _) fun _ => .pure id

end Operators

end Sound

end Grammar

end CTree
