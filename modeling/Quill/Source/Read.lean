/-!
# Reading a source file

A source file is read whole, up to a limit of one million bytes. The limit is checked before the
content is looked at, so a file over the limit is refused even if it is no text. What stands
under a path is given as a `Found`, so the rule does not depend on how files are stored.
-/

set_option autoImplicit false

namespace Quill.Source

/-- The greatest length of a source file, in bytes. -/
def sizeLimit : Nat := 1000000

/-- What stands under a path. -/
inductive Found where
  /-- A file with its content. -/
  | file (content : ByteArray)
  /-- A directory. -/
  | directory
  /-- Nothing. -/
  | nothing
  /-- Something below a file, which has nothing below it. -/
  | belowFile

/-- Why a path could not be read. -/
inductive Obstacle where
  | missing
  | notDirectory
  | isDirectory
  | notText
deriving DecidableEq, Repr

/-- The wording of an obstacle. -/
def Obstacle.message : Obstacle → String
  | missing => "No such file or directory (os error 2)"
  | notDirectory => "Not a directory (os error 20)"
  | isDirectory => "Is a directory (os error 21)"
  | notText => "stream did not contain valid UTF-8"

/-- Why a source was not read. -/
inductive ReadError where
  /-- The file has more bytes than the limit allows. -/
  | tooLarge (size : Nat)
  /-- The path could not be read. -/
  | unreadable (path : String) (obstacle : Obstacle)
deriving DecidableEq, Repr

namespace ReadError

/-- What went wrong, in one line. -/
def message : ReadError → String
  | tooLarge size =>
    "source file exceeds " ++ toString (sizeLimit / 1000000) ++ "MB limit (" ++ toString size
      ++ " bytes)"
  | unreadable path _ => "failed to read source file '" ++ path ++ "'"

/-- The wording of the error, followed by that of its cause if it has one. -/
def chain (error : ReadError) : List String :=
  match error with
  | tooLarge _ => [error.message]
  | unreadable _ obstacle => [error.message, obstacle.message]

/-- The error with its cause, as a command reports it. -/
def report (error : ReadError) : String :=
  match error with
  | tooLarge _ => "Error: " ++ error.message ++ "\n"
  | unreadable _ obstacle =>
    "Error: " ++ error.message ++ "\n\nCaused by:\n    " ++ obstacle.message ++ "\n"

end ReadError

/-- The text of a source file, given what stands under its path. -/
def read (path : String) : Found → Except ReadError String
  | .file content =>
    if content.size > sizeLimit then .error (.tooLarge content.size)
    else match String.fromUTF8? content with
      | some text => .ok text
      | none => .error (.unreadable path .notText)
  | .directory => .error (.unreadable path .isDirectory)
  | .nothing => .error (.unreadable path .missing)
  | .belowFile => .error (.unreadable path .notDirectory)

end Quill.Source
