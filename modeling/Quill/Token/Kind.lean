/-!
# Kinds of tokens

Each token of Quill has one kind. The kind alone decides how a token list is read; the text of
a token matters only for names and literals.

Three tables give the kinds that have a fixed spelling: the seventeen keywords, the seven marks
of two characters and the nineteen marks of one character. `Kind.name` is the word by which
reports and messages call a kind.
-/

set_option autoImplicit false

namespace Quill

/-- The kind of a token. The kinds `comment` and `error` are reserved: reading a source never
yields them, but a token list may hold them. -/
inductive Kind where
  | number | string | kwTrue | kwFalse
  | ident
  | kwModule | kwImport | kwAs | kwType | kwStruct | kwConst | kwLet | kwFn | kwInt | kwBool
  | kwString | kwIf | kwElse | kwWhile | kwReturn
  | plus | minus | star | slash | percent | assign | equal | notEqual | less | lessEqual
  | greater | greaterEqual | bang | andAnd | orOr | dot
  | comma | lparen | rparen | lbrace | rbrace | lbracket | rbracket | colon | semicolon | arrow
  | comment | eof | error
deriving DecidableEq, Repr

namespace Kind

/-- Every kind, in the order of declaration. -/
def all : List Kind :=
  [.number, .string, .kwTrue, .kwFalse, .ident, .kwModule, .kwImport, .kwAs, .kwType, .kwStruct,
   .kwConst, .kwLet, .kwFn, .kwInt, .kwBool, .kwString, .kwIf, .kwElse, .kwWhile, .kwReturn,
   .plus, .minus, .star, .slash, .percent, .assign, .equal, .notEqual, .less, .lessEqual,
   .greater, .greaterEqual, .bang, .andAnd, .orOr, .dot, .comma, .lparen, .rparen, .lbrace,
   .rbrace, .lbracket, .rbracket, .colon, .semicolon, .arrow, .comment, .eof, .error]

/-- The name of a kind in messages and reports. -/
def name : Kind → String
  | .number => "NUM"
  | .string => "STRING_LIT"
  | .kwTrue => "TRUE"
  | .kwFalse => "FALSE"
  | .ident => "ID"
  | .kwModule => "MODULE"
  | .kwImport => "IMPORT"
  | .kwAs => "AS"
  | .kwType => "TYPE"
  | .kwStruct => "STRUCT"
  | .kwConst => "CONST"
  | .kwLet => "LET"
  | .kwFn => "FN"
  | .kwInt => "INT"
  | .kwBool => "BOOL"
  | .kwString => "STRING"
  | .kwIf => "IF"
  | .kwElse => "ELSE"
  | .kwWhile => "WHILE"
  | .kwReturn => "RETURN"
  | .plus => "PLUS"
  | .minus => "MINUS"
  | .star => "MULTIPLY"
  | .slash => "DIVIDE"
  | .percent => "MODULO"
  | .assign => "ASSIGN"
  | .equal => "EQUAL"
  | .notEqual => "NOT_EQUAL"
  | .less => "LESS_THAN"
  | .lessEqual => "LESS_EQUAL"
  | .greater => "GREATER_THAN"
  | .greaterEqual => "GREATER_EQUAL"
  | .bang => "NOT"
  | .andAnd => "AND"
  | .orOr => "OR"
  | .dot => "DOT"
  | .comma => "COMMA"
  | .lparen => "LPAREN"
  | .rparen => "RPAREN"
  | .lbrace => "LBRACE"
  | .rbrace => "RBRACE"
  | .lbracket => "LBRACKET"
  | .rbracket => "RBRACKET"
  | .colon => "COLON"
  | .semicolon => "SEMICOLON"
  | .arrow => "ARROW"
  | .comment => "COMMENT"
  | .eof => "EOF"
  | .error => "ERROR"

/-- The kind with a given name. -/
def ofName? (name : String) : Option Kind :=
  all.find? fun kind => kind.name == name

/-- The reserved words and the two boolean literals. -/
def keywords : List (String × Kind) :=
  [("module", .kwModule), ("import", .kwImport), ("as", .kwAs), ("type", .kwType),
   ("struct", .kwStruct), ("const", .kwConst), ("let", .kwLet), ("fn", .kwFn), ("int", .kwInt),
   ("bool", .kwBool), ("string", .kwString), ("if", .kwIf), ("else", .kwElse),
   ("while", .kwWhile), ("return", .kwReturn), ("true", .kwTrue), ("false", .kwFalse)]

/-- The kind of a keyword; every other word is a name. -/
def keyword? (word : String) : Option Kind :=
  keywords.lookup word

/-- The operators and delimiters of one character. -/
def singleMarks : List (Char × Kind) :=
  [('+', .plus), ('-', .minus), ('*', .star), ('/', .slash), ('%', .percent), ('=', .assign),
   ('<', .less), ('>', .greater), ('!', .bang), ('.', .dot), (',', .comma), ('(', .lparen),
   (')', .rparen), ('\x7b', .lbrace), ('\x7d', .rbrace), ('[', .lbracket), (']', .rbracket),
   (':', .colon), (';', .semicolon)]

/-- The kind of a one-character mark. -/
def single? (c : Char) : Option Kind :=
  singleMarks.lookup c

/-- The operators and delimiters of two characters. -/
def doubleMarks : List ((Char × Char) × Kind) :=
  [(('=', '='), .equal), (('!', '='), .notEqual), (('<', '='), .lessEqual),
   (('>', '='), .greaterEqual), (('&', '&'), .andAnd), (('|', '|'), .orOr), (('-', '>'), .arrow)]

/-- The kind of a two-character mark. -/
def double? (first second : Char) : Option Kind :=
  doubleMarks.lookup (first, second)

/-- Names tell kinds apart: the kind with the name of a kind is that kind. -/
theorem ofName?_name (kind : Kind) : ofName? kind.name = some kind := by
  cases kind <;> decide +kernel

end Kind

end Quill
