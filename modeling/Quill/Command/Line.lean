/-!
# Command lines

A command line names a command, a file and perhaps a format.

```
lex FILE [--format pretty|json]
parse FILE [--format pretty|json|source]
```

The option may stand before or after the file, its value may be joined to it by an equals sign,
and it is given at most once. A word that starts with a dash is an option, a single dash and all
words after `--` excepted. Every other line is refused.
-/

set_option autoImplicit false

namespace Quill.Command

/-- The formats of a token report. -/
inductive LexFormat where
  | pretty | json
deriving DecidableEq, Repr

/-- The formats of a program report. -/
inductive ParseFormat where
  | pretty | json | source
deriving DecidableEq, Repr

/-- A token format by its name. -/
def LexFormat.ofName? : String → Option LexFormat
  | "pretty" => some pretty
  | "json" => some json
  | _ => none

/-- A program format by its name. -/
def ParseFormat.ofName? : String → Option ParseFormat
  | "pretty" => some pretty
  | "json" => some json
  | "source" => some source
  | _ => none

/-- What a command line asks for. -/
inductive Request where
  | lex (file : String) (format : LexFormat)
  | parse (file : String) (format : ParseFormat)
deriving DecidableEq, Repr

/-- The words of a command line after the command's name, sorted: the files named and the
values given to the format option, each in order. -/
structure Words where
  files : List String
  formats : List String

/-- Whether a word is an option rather than a file. -/
def isOption (word : String) : Bool :=
  word.startsWith "-" && word ≠ "-"

/-- Sorts the words after the command's name. An unknown option, or the format option without a
value, is refused. -/
def sortWords : List String → Option Words
  | [] => some ⟨[], []⟩
  | "--" :: words => some ⟨words, []⟩
  | "--format" :: value :: words =>
    if isOption value then none
    else (sortWords words).map fun sorted => { sorted with formats := value :: sorted.formats }
  | word :: words =>
    if word.startsWith "--format=" then
      (sortWords words).map fun sorted =>
        { sorted with formats := String.ofList (word.toList.drop 9) :: sorted.formats }
    else if isOption word then none
    else (sortWords words).map fun sorted => { sorted with files := word :: sorted.files }

/-- The file and the format of a command, given the names of its formats. -/
def fileAndFormat {α : Type} (ofName? : String → Option α) (standard : α)
    (words : List String) : Option (String × α) := do
  let sorted ← sortWords words
  match sorted.files, sorted.formats with
  | [file], [] => some (file, standard)
  | [file], [format] => (ofName? format).map fun format => (file, format)
  | _, _ => none

/-- What a command line asks for, if it is one. -/
def Request.ofWords? : List String → Option Request
  | "lex" :: words =>
    (fileAndFormat LexFormat.ofName? .pretty words).map fun (file, format) => .lex file format
  | "parse" :: words =>
    (fileAndFormat ParseFormat.ofName? .pretty words).map fun (file, format) =>
      .parse file format
  | _ => none

/-- The file that is to be read. -/
def Request.file : Request → String
  | lex file _ | parse file _ => file

end Quill.Command
