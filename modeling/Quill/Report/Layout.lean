/-!
# Indented layouts

A layout is a single line, or a group: an opening, members, and a closing. Each member may have a
label in front. A layout is written as lines at levels of indentation: the members of a group
stand one level deeper than its opening and its closing, and each member is followed by a comma.
A group without members is written on one line.

A style says how wide a level is and whether the last member of a group has a comma as well.
-/

set_option autoImplicit false

namespace Quill.Report

/-- A text laid out in lines. -/
inductive Layout where
  | line (text : String)
  | group (opening closing : String) (members : List (String × Layout))

/-- A line with its level of indentation. -/
structure Line where
  level : Nat
  text : String
deriving DecidableEq, Repr

/-- The conventions of a report. -/
structure Style where
  /-- The number of spaces to a level. -/
  width : Nat
  /-- What follows the last member of a group. -/
  afterLast : String

/-- The text of a line, with the space before it and the line feed after it. -/
def Line.written (style : Style) (line : Line) : String :=
  String.ofList (List.replicate (style.width * line.level) ' ') ++ line.text ++ "\n"

namespace Layout

/-- A group of members without labels. -/
def list (opening closing : String) (members : List Layout) : Layout :=
  .group opening closing (members.map fun member => ("", member))

mutual
/-- The lines of a layout at a level, between a label and what follows it on its last line, and
then the lines `rest`. -/
def lines (style : Style) (level : Nat) (label after : String) : Layout → List Line → List Line
  | .line text, rest => ⟨level, label ++ text ++ after⟩ :: rest
  | .group opening closing [], rest => ⟨level, label ++ opening ++ closing ++ after⟩ :: rest
  | .group opening closing (first :: others), rest =>
    ⟨level, label ++ opening⟩ :: memberLines style (level + 1) (first :: others)
      (⟨level, closing ++ after⟩ :: rest)

/-- The lines of the members of a group, at their level, and then the lines `rest`. -/
def memberLines (style : Style) (level : Nat) : List (String × Layout) → List Line → List Line
  | [], rest => rest
  | [(label, member)], rest => lines style level label style.afterLast member rest
  | (label, member) :: members, rest =>
    lines style level label "," member (memberLines style level members rest)
end

/-- The text of a layout. -/
def text (style : Style) (layout : Layout) : String :=
  String.join ((layout.lines style 0 "" "" []).map (Line.written style))

end Layout

end Quill.Report
