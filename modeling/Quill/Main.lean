import Quill.Command.Run
import Std.Time.Format

/-!
# The command line program

Reads the command line, the log filter from its environment variable (`filterVariable`) and the
file, runs the request, and writes what the run leaves behind. Everything that is decided is
decided by `Command.run`.
-/

set_option autoImplicit false

namespace Quill.Command

/-- What stands under a path of the file system. -/
def look (path : String) : IO Source.Found := do
  try
    return .file (← IO.FS.readBinFile path)
  catch
    | .noFileOrDirectory .. => return .nothing
    | .inappropriateType (some _) .. => return .belowFile
    | .inappropriateType none .. => return .directory
    | other => throw other

/-- The present time as it stands before a log line. -/
def timeStamp : IO String := do
  let now ← Std.Time.Timestamp.now
  let date := Std.Time.PlainDateTime.ofWallTime (.ofNanoseconds now.toNanosecondsSinceUnixEpoch)
  return date.format "uuuu-MM-dd'T'HH:mm:ss.SSSSSS'Z'"

/-- The environment variable that the log filter is read from. -/
def filterVariable : String := "RUST_LOG"

/-- How the program is called. -/
def usage : String :=
  "usage: quill lex FILE [--format pretty|json]\n"
    ++ "       quill parse FILE [--format pretty|json|source]\n"

/-- Runs the program with the words of a command line and returns its exit code. -/
def runWords (words : List String) : IO UInt32 := do
  match Request.ofWords? words with
  | none =>
    (← IO.getStderr).putStr usage
    return usageExit.toUInt32
  | some request =>
    let filter := Log.Filter.ofSetting (← IO.getEnv filterVariable)
    let result := run filter (← timeStamp) request (← look request.file)
    (← IO.getStdout).putStr result.out
    (← IO.getStderr).putStr result.err
    return result.exit.toUInt32

end Quill.Command

/-- The entry point of the program. -/
def main (words : List String) : IO UInt32 :=
  Quill.Command.runWords words
