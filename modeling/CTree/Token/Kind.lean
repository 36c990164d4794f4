/-!
# Kinds of tokens

The closed set of token kinds that both dialects share. Most kinds have one spelling; the others
(`otherDirective`, the literals, `identifier`, `eof`) are known by their shape.
-/

namespace CTree

/-- What a token is. -/
inductive TokenKind
  -- preprocessor directives
  | includeDirective | defineDirective | ifdefDirective | ifndefDirective | endifDirective
  | pragmaDirective | otherDirective
  -- keywords
  | kwStaticAssert | kwConstexpr | kwDecltype | kwNoexcept | kwOperator | kwNamespace
  | kwTypename | kwTemplate | kwExplicit | kwMutable | kwVolatile | kwRegister | kwOverride
  | kwVirtual | kwPrivate | kwPublic | kwProtected | kwContinue | kwStatic | kwExtern | kwInline
  | kwSizeof | kwTypedef | kwTypeid | kwDelete | kwFriend | kwReturn | kwStruct | kwSwitch
  | kwThrow | kwCatch | kwClass | kwConst | kwFinal | kwUsing | kwWhile | kwBreak | kwCase
  | kwDefault | kwElse | kwEnum | kwGoto | kwAuto | kwBool | kwChar | kwDouble | kwFloat | kwLong
  | kwShort | kwUnion | kwUnsigned | kwSigned | kwTry | kwVoid | kwThis | kwNew | kwDo | kwIf
  | kwFor | kwInt
  -- operators of several characters
  | arrowStar | dotStar | shlAssign | shrAssign | plusAssign | minusAssign | starAssign
  | slashAssign | percentAssign | ampAssign | pipeAssign | caretAssign | plusPlus | minusMinus
  | arrow | shl | shr | ellipsis | spaceship | ge | le | ne | eqEq | andAnd | orOr | colonColon
  -- operators of one character
  | plus | minus | star | slash | percent | assign | gt | lt | bang | amp | pipe | caret | tilde
  | question | dot
  -- separators
  | semicolon | comma | colon | lparen | rparen | lbrace | rbrace | lbracket | rbracket
  -- literals, names and the end of the text
  | kwTrue | kwFalse | kwNullptr | hexLiteral | octalLiteral | floatLiteral | intLiteral
  | stringLiteral | charLiteral | identifier | eof
  deriving DecidableEq, Repr, Inhabited

namespace TokenKind

/-- The spelling of a kind that has only one. -/
def spelling? : TokenKind → Option String
  | .includeDirective => some "#include" | .defineDirective => some "#define"
  | .ifdefDirective => some "#ifdef" | .ifndefDirective => some "#ifndef"
  | .endifDirective => some "#endif" | .pragmaDirective => some "#pragma"
  | .kwStaticAssert => some "static_assert" | .kwConstexpr => some "constexpr"
  | .kwDecltype => some "decltype" | .kwNoexcept => some "noexcept"
  | .kwOperator => some "operator" | .kwNamespace => some "namespace"
  | .kwTypename => some "typename" | .kwTemplate => some "template"
  | .kwExplicit => some "explicit" | .kwMutable => some "mutable"
  | .kwVolatile => some "volatile" | .kwRegister => some "register"
  | .kwOverride => some "override" | .kwVirtual => some "virtual" | .kwPrivate => some "private"
  | .kwPublic => some "public" | .kwProtected => some "protected"
  | .kwContinue => some "continue" | .kwStatic => some "static" | .kwExtern => some "extern"
  | .kwInline => some "inline" | .kwSizeof => some "sizeof" | .kwTypedef => some "typedef"
  | .kwTypeid => some "typeid" | .kwDelete => some "delete" | .kwFriend => some "friend"
  | .kwReturn => some "return" | .kwStruct => some "struct" | .kwSwitch => some "switch"
  | .kwThrow => some "throw" | .kwCatch => some "catch" | .kwClass => some "class"
  | .kwConst => some "const" | .kwFinal => some "final" | .kwUsing => some "using"
  | .kwWhile => some "while" | .kwBreak => some "break" | .kwCase => some "case"
  | .kwDefault => some "default" | .kwElse => some "else" | .kwEnum => some "enum"
  | .kwGoto => some "goto" | .kwAuto => some "auto" | .kwBool => some "bool"
  | .kwChar => some "char" | .kwDouble => some "double" | .kwFloat => some "float"
  | .kwLong => some "long" | .kwShort => some "short" | .kwUnion => some "union"
  | .kwUnsigned => some "unsigned" | .kwSigned => some "signed" | .kwTry => some "try"
  | .kwVoid => some "void" | .kwThis => some "this" | .kwNew => some "new" | .kwDo => some "do"
  | .kwIf => some "if" | .kwFor => some "for" | .kwInt => some "int"
  | .arrowStar => some "->*" | .dotStar => some ".*" | .shlAssign => some "<<="
  | .shrAssign => some ">>=" | .plusAssign => some "+=" | .minusAssign => some "-="
  | .starAssign => some "*=" | .slashAssign => some "/=" | .percentAssign => some "%="
  | .ampAssign => some "&=" | .pipeAssign => some "|=" | .caretAssign => some "^="
  | .plusPlus => some "++" | .minusMinus => some "--" | .arrow => some "->" | .shl => some "<<"
  | .shr => some ">>" | .ellipsis => some "..." | .spaceship => some "<=>" | .ge => some ">="
  | .le => some "<=" | .ne => some "!=" | .eqEq => some "==" | .andAnd => some "&&"
  | .orOr => some "||" | .colonColon => some "::"
  | .plus => some "+" | .minus => some "-" | .star => some "*" | .slash => some "/"
  | .percent => some "%" | .assign => some "=" | .gt => some ">" | .lt => some "<"
  | .bang => some "!" | .amp => some "&" | .pipe => some "|" | .caret => some "^"
  | .tilde => some "~" | .question => some "?" | .dot => some "."
  | .semicolon => some ";" | .comma => some "," | .colon => some ":" | .lparen => some "("
  | .rparen => some ")" | .lbrace => some "\x7b" | .rbrace => some "\x7d" | .lbracket => some "["
  | .rbracket => some "]"
  | .kwTrue => some "true" | .kwFalse => some "false" | .kwNullptr => some "nullptr"
  | .otherDirective | .hexLiteral | .octalLiteral | .floatLiteral | .intLiteral | .stringLiteral
  | .charLiteral | .identifier | .eof => none

/-- The spelling of a kind, empty for a kind that has several. -/
def spelling (k : TokenKind) : String :=
  k.spelling?.getD ""

/-- The keywords from which built-in type names are made. -/
def isBuiltinType : TokenKind → Bool
  | .kwVoid | .kwInt | .kwChar | .kwShort | .kwLong | .kwFloat | .kwDouble | .kwSigned
  | .kwUnsigned | .kwBool | .kwAuto => true
  | _ => false

/-- The kinds that begin a preprocessor line. -/
def isDirective : TokenKind → Bool
  | .includeDirective | .defineDirective | .ifdefDirective | .ifndefDirective | .endifDirective
  | .pragmaDirective | .otherDirective => true
  | _ => false

/-- The assignment operators, plain `=` included. -/
def isAssignment : TokenKind → Bool
  | .assign | .plusAssign | .minusAssign | .starAssign | .slashAssign | .percentAssign
  | .ampAssign | .pipeAssign | .caretAssign | .shlAssign | .shrAssign => true
  | _ => false

/-- The labels of a class body. -/
def isAccessLabel : TokenKind → Bool
  | .kwPublic | .kwPrivate | .kwProtected => true
  | _ => false

/-- The kinds that are spelled as a word. -/
def isKeyword (k : TokenKind) : Bool :=
  match k.spelling.toList with
  | [] => false
  | c :: _ => c.isAlpha || c == '_'

/-- The kinds that a blank keeps apart when two of them stand side by side. -/
def isWordy (k : TokenKind) : Bool :=
  k.isKeyword || match k with
    | .identifier | .intLiteral | .hexLiteral | .octalLiteral | .floatLiteral | .stringLiteral
    | .charLiteral => true
    | _ => false

/-- A kind as a diagnostic names it. -/
def describe : TokenKind → String
  | .otherDirective => "preprocessor directive"
  | .hexLiteral | .octalLiteral | .intLiteral => "integer literal"
  | .floatLiteral => "floating literal"
  | .stringLiteral => "string literal"
  | .charLiteral => "character literal"
  | .identifier => "identifier"
  | .eof => "end of file"
  | k => "'" ++ k.spelling ++ "'"

end TokenKind

end CTree
