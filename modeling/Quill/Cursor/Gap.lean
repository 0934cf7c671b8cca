import Quill.Cursor.Basic
import Quill.Text.Classes

/-!
# Gaps between lexemes

A gap is any run of white space and closed comments. A comment runs from two slashes to the next
two slashes, which close it; the two that open it do not overlap the two that close it, so four
slashes in a row are an empty comment and three are the start of one. Line feeds have no part in
this: a comment may cover several lines, and several comments may stand on one.

A comment that is never closed is no part of a gap. The cursor stays before it.
-/

set_option autoImplicit false

namespace Quill.Cursor

open Quill.Text

/-- Passes the inside of a comment and the two slashes that close it. -/
def closeComment? (cs : List Char) (pos : Pos) : Option Cursor :=
  match cs with
  | '/' :: '/' :: cs => some ⟨cs, (pos.step '/').step '/'⟩
  | c :: cs => closeComment? cs (pos.step c)
  | [] => none

/-- Closing a comment leaves less text than it was given. -/
theorem closeComment?_length_lt {cs : List Char} {pos : Pos} {after : Cursor}
    (h : closeComment? cs pos = some after) : after.rest.length < cs.length := by
  fun_induction closeComment? cs pos with
  | case1 =>
    cases h
    simp only [List.length_cons]
    omega
  | case2 _ _ _ _ ih =>
    have := ih h
    simp only [List.length_cons]
    omega
  | case3 => simp at h

/-- Passes a whole comment at the head of a text. -/
def comment? (cs : List Char) (pos : Pos) : Option Cursor :=
  match cs with
  | '/' :: '/' :: inside => closeComment? inside ((pos.step '/').step '/')
  | _ => none

/-- Passing a comment leaves less text than it was given. -/
theorem comment?_length_lt {cs : List Char} {pos : Pos} {after : Cursor}
    (h : comment? cs pos = some after) : after.rest.length < cs.length := by
  unfold comment? at h
  split at h
  · have := closeComment?_length_lt h
    simp only [List.length_cons]
    omega
  · simp at h

/-- Passes the gap at the head of a text, given the position of its first character. -/
def passGap (cs : List Char) (pos : Pos) : Cursor :=
  match cs with
  | [] => ⟨[], pos⟩
  | c :: cs =>
    if isWhiteSpace c then
      passGap cs (pos.step c)
    else
      match _passed : comment? (c :: cs) pos with
      | some after => passGap after.rest after.pos
      | none => ⟨c :: cs, pos⟩
termination_by cs.length
decreasing_by
  · simp
  · exact comment?_length_lt _passed

/-- Passing a gap adds no text. -/
theorem passGap_length_le (cs : List Char) (pos : Pos) :
    (passGap cs pos).rest.length ≤ cs.length := by
  fun_induction passGap cs pos with
  | case1 => simp
  | case2 pos c cs _ ih =>
    simp only [List.length_cons]
    omega
  | case3 pos c cs _ after passed ih =>
    have := comment?_length_lt passed
    omega
  | case4 => simp

/-- The cursor after the gap at which it stands. -/
def skipGap (cursor : Cursor) : Cursor :=
  passGap cursor.rest cursor.pos

end Quill.Cursor
