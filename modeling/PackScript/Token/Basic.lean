import PackScript.Span
import PackScript.Text.Quoted
import PackScript.Decimal.Layout

namespace PackScript

/-!
# Tokens

The words of the script language: keywords, punctuators, literals, names and the pieces of
template literals. Messages name a token by `Token.Kind.describe`.
-/

/-- Reserved words, and the words with a meaning of their own in some places. -/
inductive Keyword where
  | true_
  | false_
  | null_
  | let_
  | const_
  | var_
  | function_
  | return_
  | if_
  | else_
  | for_
  | while_
  | do_
  | break_
  | continue_
  | switch_
  | case_
  | default_
  | try_
  | catch_
  | finally_
  | throw_
  | new_
  | this_
  | super_
  | class_
  | extends_
  | static_
  | typeof_
  | instanceof_
  | in_
  | of_
  | void_
  | delete_
  | yield_
  | await_
  | async_
deriving Repr, DecidableEq, Inhabited

namespace Keyword

/-- All keywords. -/
def all : List Keyword :=
  [.true_, .false_, .null_, .let_, .const_, .var_, .function_, .return_, .if_, .else_, .for_,
   .while_, .do_, .break_, .continue_, .switch_, .case_, .default_, .try_, .catch_, .finally_,
   .throw_, .new_, .this_, .super_, .class_, .extends_, .static_, .typeof_, .instanceof_, .in_,
   .of_, .void_, .delete_, .yield_, .await_, .async_]

/-- The word. -/
def text : Keyword → String
  | .true_ => "true"
  | .false_ => "false"
  | .null_ => "null"
  | .let_ => "let"
  | .const_ => "const"
  | .var_ => "var"
  | .function_ => "function"
  | .return_ => "return"
  | .if_ => "if"
  | .else_ => "else"
  | .for_ => "for"
  | .while_ => "while"
  | .do_ => "do"
  | .break_ => "break"
  | .continue_ => "continue"
  | .switch_ => "switch"
  | .case_ => "case"
  | .default_ => "default"
  | .try_ => "try"
  | .catch_ => "catch"
  | .finally_ => "finally"
  | .throw_ => "throw"
  | .new_ => "new"
  | .this_ => "this"
  | .super_ => "super"
  | .class_ => "class"
  | .extends_ => "extends"
  | .static_ => "static"
  | .typeof_ => "typeof"
  | .instanceof_ => "instanceof"
  | .in_ => "in"
  | .of_ => "of"
  | .void_ => "void"
  | .delete_ => "delete"
  | .yield_ => "yield"
  | .await_ => "await"
  | .async_ => "async"

/-- The keyword a word is. -/
def ofText? (word : String) : Option Keyword :=
  all.find? (·.text == word)

/-- How messages name the keyword. -/
def label (k : Keyword) : String :=
  k.text.capitalize

end Keyword

/-- Punctuators. -/
inductive Punct where
  | plus
  | minus
  | star
  | slash
  | percent
  | starStar
  | plusPlus
  | minusMinus
  | eq
  | eqEq
  | eqEqEq
  | bangEq
  | bangEqEq
  | lt
  | ltEq
  | gt
  | gtEq
  | ltLt
  | gtGt
  | gtGtGt
  | amp
  | ampAmp
  | pipe
  | pipePipe
  | caret
  | tilde
  | bang
  | question
  | questionQuestion
  | questionDot
  | plusEq
  | minusEq
  | starEq
  | slashEq
  | percentEq
  | starStarEq
  | lparen
  | rparen
  | lbrace
  | rbrace
  | lbracket
  | rbracket
  | dot
  | dotDotDot
  | comma
  | colon
  | semicolon
  | arrow
deriving Repr, DecidableEq, Inhabited

/-- How messages name the punctuator. -/
def Punct.label : Punct → String
  | .plus => "Plus"
  | .minus => "Minus"
  | .star => "Star"
  | .slash => "Slash"
  | .percent => "Percent"
  | .starStar => "StarStar"
  | .plusPlus => "PlusPlus"
  | .minusMinus => "MinusMinus"
  | .eq => "Eq"
  | .eqEq => "EqEq"
  | .eqEqEq => "EqEqEq"
  | .bangEq => "BangEq"
  | .bangEqEq => "BangEqEq"
  | .lt => "Lt"
  | .ltEq => "LtEq"
  | .gt => "Gt"
  | .gtEq => "GtEq"
  | .ltLt => "LtLt"
  | .gtGt => "GtGt"
  | .gtGtGt => "GtGtGt"
  | .amp => "Amp"
  | .ampAmp => "AmpAmp"
  | .pipe => "Pipe"
  | .pipePipe => "PipePipe"
  | .caret => "Caret"
  | .tilde => "Tilde"
  | .bang => "Bang"
  | .question => "Question"
  | .questionQuestion => "QuestionQuestion"
  | .questionDot => "QuestionDot"
  | .plusEq => "PlusEq"
  | .minusEq => "MinusEq"
  | .starEq => "StarEq"
  | .slashEq => "SlashEq"
  | .percentEq => "PercentEq"
  | .starStarEq => "StarStarEq"
  | .lparen => "LParen"
  | .rparen => "RParen"
  | .lbrace => "LBrace"
  | .rbrace => "RBrace"
  | .lbracket => "LBracket"
  | .rbracket => "RBracket"
  | .dot => "Dot"
  | .dotDotDot => "DotDotDot"
  | .comma => "Comma"
  | .colon => "Colon"
  | .semicolon => "Semicolon"
  | .arrow => "Arrow"

/-- The pieces of a template literal: up to the first substitution, between two, after the last
    one, or the whole of a literal without any. -/
inductive TemplatePiece where
  | head
  | middle
  | tail
  | whole
deriving Repr, DecidableEq, Inhabited

/-- How messages name the piece. -/
def TemplatePiece.label : TemplatePiece → String
  | .head => "TemplateHead"
  | .middle => "TemplateMiddle"
  | .tail => "TemplateTail"
  | .whole => "TemplateNoSub"

/-- What a token is. -/
inductive Token.Kind where
  | number (value : Float)
  | string (value : String)
  | ident (name : String)
  | keyword (word : Keyword)
  | punct (mark : Punct)
  | template (piece : TemplatePiece) (text : String)
  | eof
  | invalid (char : Char)
deriving Repr, Inhabited

/-- A token and its extent. -/
structure Token where
  kind : Token.Kind
  span : Span
deriving Repr, Inhabited

namespace Token.Kind

/-- The name of the token's class. -/
def label : Token.Kind → String
  | .number _ => "Number"
  | .string _ => "String"
  | .ident _ => "Identifier"
  | .keyword k => k.label
  | .punct p => p.label
  | .template piece _ => piece.label
  | .eof => "Eof"
  | .invalid _ => "Invalid"

/-- How messages show the token: its class, and the value of a literal or name. -/
def describe (kind : Token.Kind) : String :=
  match kind with
  | .number x => kind.label ++ "(" ++ DecimalLayout.storage.format x ++ ")"
  | .string s | .ident s | .template _ s => kind.label ++ "(" ++ Text.quoted s ++ ")"
  | .invalid c => kind.label ++ "(" ++ Text.quotedChar c ++ ")"
  | _ => kind.label

/-- The token is the given punctuator. -/
def isPunct (kind : Token.Kind) (mark : Punct) : Bool :=
  match kind with
  | .punct p => p = mark
  | _ => false

/-- The token is the given keyword. -/
def isKeyword (kind : Token.Kind) (word : Keyword) : Bool :=
  match kind with
  | .keyword k => k = word
  | _ => false

end Token.Kind

end PackScript
