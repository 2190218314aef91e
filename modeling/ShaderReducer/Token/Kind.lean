/-!
# Kinds of tokens

The lexical classes of the shading language. Names of types, built in or not, are identifiers:
whether a name stands for a type is decided by the place it stands at.
-/

namespace ShaderReducer

inductive LexicalDefect where
  | unexpectedCharacter (c : Char)
  | unterminatedComment
  | invalidNumber
  deriving Repr, DecidableEq

inductive Keyword where
  | kwIf | kwElse | kwFor | kwWhile | kwDo | kwReturn | kwBreak | kwContinue | kwDiscard
  | kwStruct | kwPrecision | kwTrue | kwFalse
  | kwConst | kwUniform | kwIn | kwOut | kwInout | kwAttribute | kwVarying | kwFlat
  | kwInvariant | kwHighp | kwMediump | kwLowp | kwLayout
  deriving Repr, DecidableEq

inductive Symbol where
  | plus | minus | star | slash | percent | plusPlus | minusMinus
  | plusEq | minusEq | starEq | slashEq | percentEq | lessLessEq | greaterGreaterEq
  | ampEq | caretEq | pipeEq
  | eqEq | bangEq | bang | ampAmp | pipePipe | caretCaret
  | lt | gt | ltEq | gtEq | eq
  | ampersand | pipe | caret | tilde | lessLess | greaterGreater | question | colon
  | lParen | rParen | lBrace | rBrace | lBracket | rBracket | comma | semicolon | dot
  deriving Repr, DecidableEq

/-- The class of a token. A `directive` is a whole preprocessor line; `malformed` covers a piece of
text that is no token, and `endOfFile` stands after the last one. -/
inductive TokenKind where
  | intLiteral | uintLiteral | floatLiteral
  | identifier
  | directive
  | keyword (word : Keyword)
  | symbol (sign : Symbol)
  | endOfFile
  | malformed (defect : LexicalDefect)
  deriving Repr, DecidableEq

namespace Keyword

def all : List Keyword :=
  [kwIf, kwElse, kwFor, kwWhile, kwDo, kwReturn, kwBreak, kwContinue, kwDiscard, kwStruct,
   kwPrecision, kwTrue, kwFalse, kwConst, kwUniform, kwIn, kwOut, kwInout, kwAttribute, kwVarying,
   kwFlat, kwInvariant, kwHighp, kwMediump, kwLowp, kwLayout]

def spelling : Keyword → String
  | kwIf => "if" | kwElse => "else" | kwFor => "for" | kwWhile => "while" | kwDo => "do"
  | kwReturn => "return" | kwBreak => "break" | kwContinue => "continue"
  | kwDiscard => "discard" | kwStruct => "struct" | kwPrecision => "precision"
  | kwTrue => "true" | kwFalse => "false" | kwConst => "const" | kwUniform => "uniform"
  | kwIn => "in" | kwOut => "out" | kwInout => "inout" | kwAttribute => "attribute"
  | kwVarying => "varying" | kwFlat => "flat" | kwInvariant => "invariant"
  | kwHighp => "highp" | kwMediump => "mediump" | kwLowp => "lowp" | kwLayout => "layout"

def ofSpelling? (text : String) : Option Keyword :=
  all.find? fun word => word.spelling == text

def isQualifier : Keyword → Bool
  | kwConst | kwUniform | kwIn | kwOut | kwInout | kwAttribute | kwVarying | kwFlat
  | kwInvariant | kwHighp | kwMediump | kwLowp | kwLayout => true
  | _ => false

theorem ofSpelling?_spelling (word : Keyword) : ofSpelling? word.spelling = some word := by
  cases word <;> decide

end Keyword

namespace Symbol

def spelling : Symbol → String
  | plus => "+" | minus => "-" | star => "*" | slash => "/" | percent => "%"
  | plusPlus => "++" | minusMinus => "--" | plusEq => "+=" | minusEq => "-=" | starEq => "*="
  | slashEq => "/=" | percentEq => "%=" | lessLessEq => "<<=" | greaterGreaterEq => ">>="
  | ampEq => "&=" | caretEq => "^=" | pipeEq => "|=" | eqEq => "==" | bangEq => "!="
  | bang => "!" | ampAmp => "&&" | pipePipe => "||" | caretCaret => "^^"
  | lt => "<" | gt => ">" | ltEq => "<=" | gtEq => ">=" | eq => "="
  | ampersand => "&" | pipe => "|" | caret => "^" | tilde => "~"
  | lessLess => "<<" | greaterGreater => ">>" | question => "?" | colon => ":"
  | lParen => "(" | rParen => ")" | lBrace => "\x7b" | rBrace => "\x7d"
  | lBracket => "[" | rBracket => "]" | comma => "," | semicolon => ";" | dot => "."

end Symbol

namespace TokenKind

/-- The words that name a token in messages: its spelling, where it has only one. -/
def description : TokenKind → String
  | intLiteral => "integer"
  | uintLiteral => "unsigned integer"
  | floatLiteral => "float"
  | identifier => "identifier"
  | directive => "preprocessor directive"
  | keyword word => word.spelling
  | symbol sign => sign.spelling
  | endOfFile => "end of file"
  | malformed _ => "error"

def isQualifier : TokenKind → Bool
  | keyword word => word.isQualifier
  | _ => false

def isMalformed : TokenKind → Bool
  | malformed _ => true
  | _ => false

end TokenKind

end ShaderReducer
