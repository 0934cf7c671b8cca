import Quill.Program.OfSource

/-!
# Log events

A run of the front end can be followed by its events. Reading tokens yields one event for each
token and one for the outcome; reading a program yields one for the outcome; the commands add
an event at their start and another when the source is rejected. An event says how serious it is,
which part it comes from, what happened, and the values that belong to it, in a fixed order.
-/

set_option autoImplicit false

namespace Quill.Log

/-- How serious an event is. -/
inductive Level where
  | error | warn | info | debug | trace
deriving DecidableEq, Repr

namespace Level

/-- Every level, the most serious first. -/
def all : List Level := [error, warn, info, debug, trace]

/-- The name of a level. -/
def name : Level → String
  | error => "ERROR"
  | warn => "WARN"
  | info => "INFO"
  | debug => "DEBUG"
  | trace => "TRACE"

/-- The place of a level in the order of seriousness, which starts with the most serious. -/
def rank : Level → Nat
  | error => 1
  | warn => 2
  | info => 3
  | debug => 4
  | trace => 5

end Level

/-- The parts of the program from which events come. -/
inductive Part where
  /-- The commands. -/
  | commands
  /-- The reading of a source as a whole. -/
  | sources
  /-- The reading of one token after the other. -/
  | tokens
  /-- The reading of a program from its tokens. -/
  | programs
deriving DecidableEq, Repr

/-- The name of a part. A part that belongs to another has the other's name in front of its own. -/
def Part.name : Part → String
  | commands => "quill"
  | sources => "quill_parse"
  | tokens => "quill_parse::lexer"
  | programs => "quill_parse::parser"

/-- A value that belongs to an event. -/
inductive Value where
  | number (value : Nat)
  | text (value : String)
deriving DecidableEq, Repr

/-- The value as it stands in a log line. -/
def Value.shown : Value → String
  | number value => toString value
  | text value => value

/-- Something that happened in a run. -/
inductive Event where
  /-- A command starts to read the tokens of a file. -/
  | tokenizing (file : String)
  /-- A command starts to read the program in a file. -/
  | parsing (file : String)
  /-- A token was read. -/
  | token (found : Token)
  /-- All tokens of a source were read. -/
  | tokenized (count : Nat)
  /-- The tokens of a source could not be read. -/
  | tokenizeFailed (error : LexicalError)
  /-- A program was read from a number of tokens. -/
  | parsed (count : Nat) (program : Program)
  /-- A token list is no program. -/
  | parseFailed (error : SyntaxError)
  /-- A command rejects the source. -/
  | rejected
deriving DecidableEq, Repr

namespace Event

/-- How serious the event is. -/
def level : Event → Level
  | tokenizing _ | parsing _ => .info
  | token _ => .trace
  | tokenized _ | tokenizeFailed _ | parsed _ _ | parseFailed _ => .debug
  | rejected => .error

/-- The part from which the event comes. -/
def part : Event → Part
  | tokenizing _ | parsing _ | rejected => .commands
  | tokenized _ | tokenizeFailed _ => .sources
  | token _ => .tokens
  | parsed _ _ | parseFailed _ => .programs

/-- What happened. -/
def message : Event → String
  | tokenizing _ => "tokenizing"
  | parsing _ => "parsing"
  | token _ => "token"
  | tokenized _ => "tokenized source"
  | tokenizeFailed _ => "tokenize failed"
  | parsed _ _ => "parsed program"
  | parseFailed _ => "parse failed"
  | rejected => "source rejected"

/-- The values that belong to the event. -/
def fields : Event → List (String × Value)
  | tokenizing file | parsing file => [("file", .text file)]
  | token found => [("kind", .text found.kind.name), ("text", .text found.text),
      ("line", .number found.pos.line), ("column", .number found.pos.column)]
  | tokenized count => [("tokens", .number count)]
  | tokenizeFailed error => [("line", .number error.pos.line),
      ("column", .number error.pos.column), ("scanned", .number error.tokens.length),
      ("error", .text error.message)]
  | parsed count program => [("tokens", .number count),
      ("imports", .number program.imports.length), ("items", .number program.items.length)]
  | parseFailed error => [("line", .number error.token.pos.line),
      ("column", .number error.token.pos.column), ("error", .text error.message)]
  | rejected => []

end Event

/-- The events of reading the tokens of a source, given the outcome. -/
def ofScan : Except LexicalError (List Token) → List Event
  | .ok tokens => tokens.map .token ++ [.tokenized tokens.length]
  | .error error => error.tokens.map .token ++ [.tokenizeFailed error]

/-- The events of reading a program from tokens, given the outcome. -/
def ofParse (tokens : List Token) : Except SyntaxError Program → List Event
  | .ok program => [.parsed tokens.length program]
  | .error error => [.parseFailed error]

/-- The events of reading a source: its tokens and, if they could be read, its program. -/
def ofSource (source : String) : List Event :=
  let scanned := Token.scan source
  ofScan scanned ++ match scanned with
    | .ok tokens => ofParse tokens (Program.ofTokens tokens)
    | .error _ => []

end Quill.Log
