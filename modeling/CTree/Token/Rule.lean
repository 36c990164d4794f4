import CTree.Dialect
import CTree.Text.Blank
import CTree.Token.Kind
import CTree.Token.Reader

/-!
# Lexical rules

Each dialect has one ordered list of rules, and the first rule that reads a lexeme decides its
kind. The order is what makes `==` one token and `integer` no keyword: long operators stand before
their beginnings, and a keyword is read only up to the end of a word.
-/

namespace CTree

/-- A shape of lexemes and the kind of its tokens. -/
structure Rule where
  kind : TokenKind
  reader : Reader

namespace Rule

open Reader

/-- A letter or underscore of ASCII. -/
def isNameStart (c : Char) : Bool := c.isAlpha || c == '_'

/-- A decimal digit of ASCII. -/
def isDigit (c : Char) : Bool := c.isDigit

/-- An octal digit. -/
def isOctalDigit (c : Char) : Bool := '0' ≤ c && c ≤ '7'

/-- A hexadecimal digit in either case. -/
def isHexDigit (c : Char) : Bool :=
  c.isDigit || ('a' ≤ c && c ≤ 'f') || ('A' ≤ c && c ≤ 'F')

/-- A letter that may follow the digits of an integer. -/
def isIntSuffix (c : Char) : Bool :=
  c == 'u' || c == 'U' || c == 'l' || c == 'L'

/-- The kinds with one spelling are read as that spelling; a keyword has to end there. -/
def spelled (k : TokenKind) : Rule :=
  ⟨k, sequence (text k.spelling.toList :: if k.isKeyword then [wordEnd] else [])⟩

/-- A name: a letter or underscore, then letters, digits and underscores. -/
def name : Reader := sequence [one isNameStart, run Text.isAsciiWord]

/-- `#include`, blanks of the given class, and a path of one line between two marks. -/
def includePath (blank : Char → Bool) (opening closing : Char) : Reader :=
  sequence [text "#include".toList, run blank, one (· == opening),
    run1 fun c => c != closing && c != '\n', one (· == closing)]

/-- The two forms of `#include`. -/
def includes (blank : Char → Bool) : List Rule :=
  [⟨.includeDirective, includePath blank '<' '>'⟩, ⟨.includeDirective, includePath blank '"' '"'⟩]

/-- A directive that is read as a word of its own. -/
def directive (k : TokenKind) : Rule :=
  ⟨k, sequence [text k.spelling.toList, wordEnd]⟩

/-- Any other directive. -/
def otherDirective : Rule :=
  ⟨.otherDirective, sequence [one (· == '#'), name]⟩

/-- `0x` or `0X`, hexadecimal digits, and a suffix. -/
def hexadecimal : Rule :=
  ⟨.hexLiteral, sequence [one (· == '0'), one (fun c => c == 'x' || c == 'X'), run1 isHexDigit,
    run isIntSuffix]⟩

/-- A zero, octal digits, and a suffix. -/
def octal : Rule :=
  ⟨.octalLiteral, sequence [one (· == '0'), run1 isOctalDigit, run isIntSuffix]⟩

/-- Decimal digits and a suffix. -/
def decimal : Rule :=
  ⟨.intLiteral, sequence [run1 isDigit, run isIntSuffix]⟩

/-- The mark of a single-precision literal. -/
def floatMark : Reader := optional (one fun c => c == 'f' || c == 'F')

/-- The power of ten of a real literal. -/
def exponent : Reader :=
  sequence [one (fun c => c == 'e' || c == 'E'), optional (one fun c => c == '-' || c == '+'),
    run1 isDigit]

/-- A real literal of C: digits on both sides of the point, no exponent. -/
def real : Rule :=
  ⟨.floatLiteral, sequence [run1 isDigit, one (· == '.'), run1 isDigit, floatMark]⟩

/-- A real literal of C++: digits after the point, and perhaps an exponent. -/
def realWithExponent : Rule :=
  ⟨.floatLiteral, sequence [run isDigit, one (· == '.'), run1 isDigit, optional exponent,
    floatMark]⟩

/-- The rule for names, which comes last. -/
def identifier : Rule := ⟨.identifier, name⟩

/-- The keywords and operators of C, in the order in which they are tried. -/
def spelledC : List TokenKind :=
  [.kwIf, .kwElse, .kwWhile, .kwFor, .kwDo, .kwSwitch, .kwCase, .kwDefault, .kwBreak,
   .kwContinue, .kwReturn, .kwGoto, .kwVoid, .kwInt, .kwFloat, .kwDouble, .kwChar, .kwShort,
   .kwLong, .kwSigned, .kwUnsigned, .kwConst, .kwVolatile, .kwStatic, .kwExtern, .kwRegister,
   .kwInline, .kwAuto, .kwStruct, .kwUnion, .kwEnum, .kwTypedef, .kwSizeof, .arrow, .plusPlus,
   .minusMinus, .plusAssign, .minusAssign, .starAssign, .slashAssign, .percentAssign, .ampAssign,
   .pipeAssign, .caretAssign, .shlAssign, .shrAssign, .ge, .le, .ne, .eqEq, .andAnd, .orOr, .shl,
   .shr, .ellipsis, .question, .plus, .minus, .star, .slash, .percent, .assign, .gt, .lt, .bang,
   .amp, .pipe, .caret, .tilde, .semicolon, .comma, .colon, .lparen, .rparen, .lbrace, .rbrace,
   .lbracket, .rbracket, .dot]

/-- The keywords and operators of C++, in the order in which they are tried. -/
def spelledCpp : List TokenKind :=
  [.kwStaticAssert, .kwConstexpr, .kwDecltype, .kwNoexcept, .kwOperator, .kwNamespace,
   .kwTypename, .kwTemplate, .kwExplicit, .kwMutable, .kwVolatile, .kwRegister, .kwOverride,
   .kwVirtual, .kwPrivate, .kwPublic, .kwProtected, .kwContinue, .kwStatic, .kwExtern, .kwInline,
   .kwSizeof, .kwTypedef, .kwTypeid, .kwDelete, .kwFriend, .kwReturn, .kwStruct, .kwSwitch,
   .kwThrow, .kwCatch, .kwClass, .kwConst, .kwFinal, .kwUsing, .kwWhile, .kwBreak, .kwCase,
   .kwDefault, .kwElse, .kwEnum, .kwGoto, .kwAuto, .kwBool, .kwChar, .kwDouble, .kwFloat,
   .kwLong, .kwShort, .kwUnion, .kwUnsigned, .kwSigned, .kwTry, .kwVoid, .kwThis, .kwNew, .kwDo,
   .kwIf, .kwFor, .kwInt, .arrowStar, .dotStar, .shlAssign, .shrAssign, .plusAssign,
   .minusAssign, .starAssign, .slashAssign, .percentAssign, .ampAssign, .pipeAssign,
   .caretAssign, .plusPlus, .minusMinus, .arrow, .shl, .shr, .ellipsis, .spaceship, .ge, .le,
   .ne, .eqEq, .andAnd, .orOr, .colonColon, .plus, .minus, .star, .slash, .percent, .assign, .gt,
   .lt, .bang, .amp, .pipe, .caret, .tilde, .question, .dot, .semicolon, .comma, .colon, .lparen,
   .rparen, .lbrace, .rbrace, .lbracket, .rbracket, .kwTrue, .kwFalse, .kwNullptr]

/-- The rules of C. Between `#include` and its path only spaces may stand. -/
def tableC : List Rule :=
  includes (· == ' ') ++ [directive .defineDirective, otherDirective] ++ spelledC.map spelled ++
    [hexadecimal, octal, real, decimal, identifier]

/-- The rules of C++. Between `#include` and its path any blanks may stand, line feeds too. -/
def tableCpp : List Rule :=
  includes Text.isBlank ++
    [directive .defineDirective, directive .ifdefDirective, directive .ifndefDirective,
      directive .endifDirective, directive .pragmaDirective, otherDirective] ++
    spelledCpp.map spelled ++ [hexadecimal, octal, realWithExponent, decimal, identifier]

/-- The rules of a dialect, in the order in which they are tried. -/
def table : Dialect → List Rule
  | .c => tableC
  | .cpp => tableCpp

end Rule

/-- The kind of the lexeme that a text starts with, and the number of its characters after the
first: the first rule decides that reads at least one character. -/
def firstLexeme (cs : List Char) : List Rule → Option (TokenKind × Nat)
  | [] => none
  | rule :: rules =>
    match rule.reader cs with
    | some (n + 1) => some (rule.kind, n)
    | _ => firstLexeme cs rules

end CTree
