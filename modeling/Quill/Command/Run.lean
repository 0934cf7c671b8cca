import Quill.Command.Line
import Quill.Log.Filter
import Quill.Report.Document
import Quill.Report.Outline
import Quill.Report.TokenTable
import Quill.Source.Read

/-!
# Running the commands

`lex` reports the tokens of a source, `parse` its program. Each writes a report, and for a source
that is rejected also a line that says why. The JSON report covers both outcomes; the token
table shows the tokens before the failure; the other reports are empty for a rejected source.

A run of a command line writes what happens to the error output in order: the events that the
filter shows, and the reason why the file could not be read or the source was rejected.
-/

set_option autoImplicit false

namespace Quill.Command

/-- What a command writes for a source, and whether it accepts the source. -/
structure Output where
  accepted : Bool
  out : String
  err : String
deriving DecidableEq, Repr

/-- The line that tells why a source is rejected. -/
def reason (why : Rejection) : String :=
  "error: " ++ why.display ++ "\n"

/-- The report on the outcome of reading the tokens of a source. -/
def reportTokens (format : LexFormat) (outcome : Except LexicalError (List Token)) : Output :=
  let document := (Report.tokensDocument outcome).text
  match format, outcome with
  | .pretty, .ok tokens => ⟨true, Report.tokenTable tokens, ""⟩
  | .pretty, .error error => ⟨false, Report.tokenTable error.tokens, reason (.lexical error)⟩
  | .json, .ok _ => ⟨true, document, ""⟩
  | .json, .error error => ⟨false, document, reason (.lexical error)⟩

/-- The report on the outcome of reading a source as a program. -/
def reportProgram (format : ParseFormat) (outcome : Except Rejection Program) : Output :=
  let document := (Report.programDocument outcome).text
  match format, outcome with
  | .pretty, .ok program => ⟨true, program.outlineText Text.isPrintable, ""⟩
  | .source, .ok program => ⟨true, program.canonical, ""⟩
  | .json, .ok _ => ⟨true, document, ""⟩
  | .json, .error why => ⟨false, document, reason why⟩
  | _, .error why => ⟨false, "", reason why⟩

/-- The tokens of a source, reported. -/
def lex (format : LexFormat) (source : String) : Output :=
  reportTokens format (Token.scan source)

/-- The program of a source, reported. -/
def parse (format : ParseFormat) (source : String) : Output :=
  reportProgram format (Program.ofSource source)

namespace Request

/-- The event at the start of a request. -/
def opening : Request → Log.Event
  | .lex file _ => .tokenizing file
  | .parse file _ => .parsing file

/-- What a request writes for a source. -/
def output (source : String) : Request → Output
  | .lex _ format => Command.lex format source
  | .parse _ format => Command.parse format source

/-- The events of reading a source on request. -/
def events (source : String) : Request → List Log.Event
  | .lex _ _ => Log.ofScan (Token.scan source)
  | .parse _ _ => Log.ofSource source

end Request

/-- What a run leaves behind: its exit code and what it wrote. -/
structure Result where
  exit : Nat
  out : String
  err : String
deriving DecidableEq, Repr

/-- The exit code of a command line that is refused. -/
def usageExit : Nat := 2

/-- Runs a request on what stands under its path. The time stamp stands before each event. -/
def run (filter : Log.Filter) (time : String) (request : Request) (found : Source.Found) :
    Result :=
  let shown := Log.lines filter time
  let opening := shown [request.opening]
  match Source.read request.file found with
  | .error error => ⟨1, "", opening ++ error.report⟩
  | .ok source =>
    let output := request.output source
    let err := opening ++ shown (request.events source) ++ output.err
    if output.accepted then ⟨0, output.out, err⟩
    else ⟨1, output.out, err ++ shown [.rejected]⟩

end Quill.Command
