import Quill.Log.Event
import Quill.Text.Classes

/-!
# Directives of a log filter

A directive says how serious an event has to be in order to be shown. It has three parts.

* The *target* is the start of the names of the parts of the program about which the directive
  speaks. The empty target speaks about all of them.
* The *scope* narrows a directive to the events that have a value of a given name, or to what
  happens inside a span. A span is a stretch of a run that has a name; a run of the front end
  opens none, so that a directive of this scope can be written and has no effect.
* The *threshold* is the least serious level that is shown.

## How a directive is written

```
directive := threshold | target scope? ('=' threshold?)? | scope ('=' threshold?)?
scope     := '[' span? ('{' field ('=' value)? '}')? ']'
threshold := 'off' | 'error' | 'warn' | 'info' | 'debug' | 'trace' | number
```

The names of the levels may be written in any case; a number is the rank of a level, and zero is
`off`. A directive without a threshold shows everything. A word that is no threshold is a target,
and white space belongs to the word.
-/

set_option autoImplicit false

namespace Quill.Log

/-- The events about which a directive speaks, among those of its target. -/
inductive Scope where
  /-- All of them. -/
  | all
  /-- Those that have a value of this name. -/
  | having (field : String)
  /-- Those inside a span, of which a run has none. -/
  | span
deriving DecidableEq, Repr

/-- How serious the events of a target have to be: at least as serious as the threshold, where
none lets no event through. -/
structure Directive where
  target : String
  scope : Scope
  threshold : Option Level
deriving DecidableEq, Repr

namespace Scope

/-- Whether an event is in a scope. The message counts as a value of each event. -/
def covers (scope : Scope) (event : Event) : Bool :=
  match scope with
  | all => true
  | having field => field == "message" || event.fields.any fun value => value.1 == field
  | span => false

/-- Whether a scope is at most as narrow as another. Names of values are compared in
lexicographic order, so that of two scopes one always yields to the other. -/
def yields : Scope → Scope → Bool
  | all, _ => true
  | having _, all => false
  | having field, having other => field ≤ other
  | having _, span => true
  | span, span => true
  | span, _ => false

/-- The scope at the head of a text that stands after an opening bracket, and the text after the
closing bracket. A scope that names a span, or the content of a value, is about spans. -/
def ofChars? (cs : List Char) : Option (Scope × List Char) :=
  let (name, afterName) := cs.span fun c => c != ']' && c != '\x7b'
  match afterName with
  | ']' :: rest => some (span, rest)
  | '\x7b' :: inside =>
    let (field, afterField) := inside.span fun c => c != '\x7d'
    match afterField with
    | '\x7d' :: ']' :: rest =>
      if field = [] then none
      else if name = [] && !field.contains '=' then some (having (String.ofList field), rest)
      else some (span, rest)
    | _ => none
  | _ => none

end Scope

namespace Directive

/-- A number in decimal digits, perhaps with a plus sign before it. -/
def number? (cs : List Char) : Option Nat :=
  let digits := match cs with
    | '+' :: rest => rest
    | _ => cs
  if digits ≠ [] && digits.all Char.isDigit then
    some (digits.foldl (fun n d => 10 * n + (d.toNat - '0'.toNat)) 0)
  else none

/-- A threshold as it is written: by the name of a level or by its rank. -/
def threshold? (text : String) : Option (Option Level) :=
  match number? text.toList with
  | some 0 => some none
  | some rank => (Level.all.find? fun level => level.rank == rank).map some
  | none =>
    if text.toLower = "off" then some none
    else (Level.all.find? fun level => level.name.toLower == text.toLower).map some

/-- The threshold at the end of a directive, after its target and scope. An indented directive,
one with white space in front, has no threshold. -/
def ending? (indented : Bool) : List Char → Option (Option Level)
  | '=' :: level =>
    if indented then none
    else if level = [] then some (some .trace)
    else threshold? (String.ofList level)
  | rest => if rest.all Text.isWhiteSpace then some (some .trace) else none

/-- A character with which a directive may start. -/
def mayStart (c : Char) : Bool :=
  Text.isNamePart c || c == '-' || c == ':' || c == '['

/-- A directive as it is written. -/
def parse? (text : String) : Option Directive :=
  let cs := text.toList
  let indented := cs.head?.any Text.isWhiteSpace
  let (target, rest) := cs.span fun c => c != '=' && c != '['
  if !(cs.dropWhile Text.isWhiteSpace).head?.any mayStart then none
  else match rest with
    | [] =>
      match threshold? text with
      | some threshold => some ⟨"", .all, threshold⟩
      | none => some ⟨text, .all, some .trace⟩
    | '[' :: inside =>
      match Scope.ofChars? inside with
      | some (scope, rest) =>
        (ending? indented rest).map fun threshold => ⟨String.ofList target, scope, threshold⟩
      | none => none
    | rest => (ending? indented rest).map fun threshold => ⟨String.ofList target, .all, threshold⟩

/-- Whether a directive speaks about an event. -/
def covers (directive : Directive) (event : Event) : Bool :=
  directive.target.toList.isPrefixOf event.part.name.toList && directive.scope.covers event

/-- Whether a directive lets a level through. -/
def lets (directive : Directive) (level : Level) : Bool :=
  match directive.threshold with
  | some least => level.rank ≤ least.rank
  | none => false

/-- Whether a directive yields to another that speaks about the same event: the other has a longer
target, or one as long and a scope at least as narrow. -/
def yields (directive other : Directive) : Bool :=
  directive.target.length < other.target.length ||
    (directive.target.length == other.target.length && directive.scope.yields other.scope)

end Directive

end Quill.Log
