import Quill.Report.Layout
import Quill.Report.Quoted

/-!
# JSON documents

The part of JSON that the reports use: no fractions, no negative numbers, and objects whose
fields keep their order. A document is written with one field or element to a line, indented by
two spaces a level; an empty list or object stays on one line.
-/

set_option autoImplicit false

namespace Quill.Report

/-- A JSON value. -/
inductive Json where
  | null
  | bool (value : Bool)
  | number (value : Nat)
  | string (value : String)
  | array (elements : List Json)
  | object (fields : List (String × Json))

namespace Json

/-- A field that may be absent, as `null`. -/
def ofOption {α : Type} (encode : α → Json) : Option α → Json
  | some value => encode value
  | none => .null

/-- One alternative of several: an object with a single field, named for the alternative. -/
def variant (name : String) (body : Json) : Json :=
  .object [(name, body)]

/-- The conventions of JSON documents. -/
def style : Style := ⟨2, ""⟩

mutual
/-- The layout of a value. -/
def layout : Json → Layout
  | null => .line "null"
  | bool value => .line (if value then "true" else "false")
  | number value => .line (toString value)
  | string value => .line (quoted jsonEscape value)
  | array elements => .group "[" "]" (elementLayouts elements)
  | object fields => .group "\x7b" "\x7d" (fieldLayouts fields)

/-- The layouts of the elements of an array. -/
def elementLayouts : List Json → List (String × Layout)
  | [] => []
  | element :: elements => ("", layout element) :: elementLayouts elements

/-- The layouts of the fields of an object. -/
def fieldLayouts : List (String × Json) → List (String × Layout)
  | [] => []
  | (key, value) :: fields =>
    (quoted jsonEscape key ++ ": ", layout value) :: fieldLayouts fields
end

/-- The text of a document. -/
def text (document : Json) : String :=
  document.layout.text style

end Json

end Quill.Report
