import Quill.Report.Json
import Quill.Proofs.Report.Quoted

/-!
# JSON documents are told apart

Different JSON values have different texts. The layout of a value determines it, since literals,
numbers and strings have no word in common, and the words of documents can be told apart
(`legible_vocabulary`).
-/

set_option autoImplicit false

namespace Quill.Report.Json

/-! ## Words -/

/-- The values of which there is only one. -/
def literals : List String :=
  ["null", "true", "false"]

/-- The openings of groups with their closings. -/
def brackets : List (String × String) :=
  [("[", "]"), ("\x7b", "\x7d")]

/-- The words of JSON documents: values on one line, brackets and braces, and keys of objects. -/
def vocabulary : Vocabulary where
  IsWord word := word ∈ literals ∨ (∃ n : Nat, word = toString n) ∨
    ∃ text, word = quoted jsonEscape text
  IsGroup opening closing := (opening, closing) ∈ brackets
  IsLabel opening label := (opening = "[" ∧ label = "") ∨
    (opening = "\x7b" ∧ ∃ key, label = quoted jsonEscape key ++ ": ")

theorem isDigit_of_mem_toString {n : Nat} {c : Char} (h : c ∈ (toString n).toList) :
    c.isDigit = true := by
  rw [Nat.toString_eq_repr, Nat.repr_eq_ofList_toDigits, String.toList_ofList] at h
  exact Nat.isDigit_of_mem_toDigits (by decide) (Nat.le_refl 10) h

/-- A number is no word that has a character other than a digit. -/
theorem toString_ne {word : String} (h : word.toList.all Char.isDigit = false) (n : Nat) :
    toString n ≠ word := by
  rintro rfl
  have hdigits : (toString n).toList.all Char.isDigit = true :=
    List.all_eq_true.mpr fun c => isDigit_of_mem_toString
  rw [hdigits] at h
  exact Bool.noConfusion h

theorem toString_plain (n : Nat) : Plain (toString n) := by
  refine ⟨fun h => absurd (isDigit_of_mem_toString h) (by decide), fun h => ?_⟩
  exact absurd (isDigit_of_mem_toString (List.mem_of_head? h)) (by decide)

theorem toString_ended (n : Nat) : Ended (toString n) := by
  unfold Ended
  cases h : (toString n).toList.getLast? with
  | none =>
    rw [List.getLast?_eq_none_iff, String.toList_eq_nil_iff] at h
    exact absurd h Nat.repr_ne_empty
  | some c =>
    rintro rfl
    exact absurd (isDigit_of_mem_toString (List.mem_of_getLast? h)) (by decide)

/-- The digits of a number give its value back. -/
theorem toString_inj {m n : Nat} (h : toString m = toString n) : m = n := by
  rw [Nat.toString_eq_repr, Nat.toString_eq_repr, Nat.repr_eq_ofList_toDigits,
    Nat.repr_eq_ofList_toDigits] at h
  have hdigits : Nat.toDigits 10 m = Nat.toDigits 10 n := by
    simpa using congrArg String.toList h
  rw [← Nat.ofDigitChars_ten_toDigits (n := m), hdigits, Nat.ofDigitChars_ten_toDigits]

/-- A string is no word that starts without a quote. -/
theorem quoted_ne {word : String} (h : word.toList.head? ≠ some '"') (text : String) :
    quoted jsonEscape text ≠ word := by
  rintro rfl
  simp [toList_quoted] at h

/-- No number is written like a string, which has a quote in front. -/
theorem toString_ne_quoted (n : Nat) (text : String) : toString n ≠ quoted jsonEscape text := by
  refine toString_ne ?_ n
  rw [toList_quoted]
  rfl

/-- What sets a word apart from numbers and from strings: it has a character that is no digit, and
starts without a quote. -/
def IsFixed (word : String) : Prop :=
  word.toList.all Char.isDigit = false ∧ word.toList.head? ≠ some '"'
deriving Decidable

/-- What is needed of the literals: they are plain, end as values end, are neither numbers nor
strings, and are no empty pairs of brackets. -/
theorem literal_facts : ∀ word ∈ literals, Plain word ∧ Ended word ∧ IsFixed word ∧
    ∀ pair ∈ brackets, word ≠ pair.1 ++ pair.2 := by
  decide

/-- What is needed of the brackets: the pairs are plain, end as values end, are neither numbers nor
strings, and are told apart when they are empty. -/
theorem bracket_facts : ∀ pair ∈ brackets, Plain pair.1 ∧ Plain pair.2 ∧ Ended pair.2 ∧
    IsFixed (pair.1 ++ pair.2) ∧
    ∀ other ∈ brackets, pair.1 ++ pair.2 = other.1 ++ other.2 → pair = other := by
  decide

/-- No number is written like a literal. -/
theorem toString_ne_literal {word : String} (h : word ∈ literals) (n : Nat) : toString n ≠ word :=
  toString_ne (literal_facts word h).2.2.1.1 n

/-- No string is written like a literal. -/
theorem quoted_ne_literal {word : String} (h : word ∈ literals) (text : String) :
    quoted jsonEscape text ≠ word :=
  quoted_ne (literal_facts word h).2.2.1.2 text

theorem key_plain (key : String) : Plain (quoted jsonEscape key ++ ": ") :=
  (quoted_plain isEscape_jsonEscape key).append (by decide)

/-- A key ends where its quoted text does. -/
theorem key_inj {key key' : String} {s t : List Char}
    (h : (quoted jsonEscape key ++ ": ").toList ++ s =
      (quoted jsonEscape key' ++ ": ").toList ++ t) : key = key' := by
  rw [String.toList_append, String.toList_append, List.append_assoc, List.append_assoc] at h
  exact (isEscape_jsonEscape.quoted_inj h).1

/-- The words of JSON documents can be told apart. -/
theorem legible_vocabulary : vocabulary.Legible where
  word_plain := by
    rintro word (h | ⟨n, rfl⟩ | ⟨text, rfl⟩)
    · exact (literal_facts word h).1
    · exact toString_plain n
    · exact quoted_plain isEscape_jsonEscape text
  opening_plain h := (bracket_facts _ h).1
  closing_plain h := (bracket_facts _ h).2.1
  label_plain := by
    rintro opening label (⟨-, rfl⟩ | ⟨-, key, rfl⟩)
    · decide
    · exact key_plain key
  word_ended := by
    rintro word (h | ⟨n, rfl⟩ | ⟨text, rfl⟩)
    · exact (literal_facts word h).2.1
    · exact toString_ended n
    · exact quoted_ended jsonEscape text
  closing_ended h := (bracket_facts _ h).2.2.1
  word_ne := by
    rintro word opening closing (h | ⟨n, rfl⟩ | ⟨text, rfl⟩) hgroup
    · exact (literal_facts word h).2.2.2 _ hgroup
    · exact toString_ne (bracket_facts _ hgroup).2.2.2.1.1 n
    · exact quoted_ne (bracket_facts _ hgroup).2.2.2.1.2 text
  group_inj h h' hsame := Prod.mk.inj ((bracket_facts _ h).2.2.2.2 _ h' hsame)
  label_code := by
    -- one opening has either no labels or keys
    rintro opening label label' (⟨rfl, rfl⟩ | ⟨rfl, key, rfl⟩)
      (⟨hopening, rfl⟩ | ⟨hopening, key', rfl⟩) s t h
    · rfl
    · exact absurd hopening (by decide)
    · exact absurd hopening (by decide)
    · rw [key_inj h]

/-! ## Layouts -/

mutual
/-- The layout of a value is made of the words of JSON. -/
theorem uses_layout : ∀ value : Json, (layout value).Uses vocabulary
  | null => .inl (by decide)
  | bool true => .inl (by decide)
  | bool false => .inl (by decide)
  | number value => .inr (.inl ⟨value, rfl⟩)
  | string value => .inr (.inr ⟨value, rfl⟩)
  | array elements => ⟨List.mem_cons_self, uses_elementLayouts elements⟩
  | object fields => ⟨List.mem_cons_of_mem _ List.mem_cons_self, uses_fieldLayouts fields⟩

theorem uses_elementLayouts : ∀ elements : List Json,
    Layout.MembersUse vocabulary "[" (elementLayouts elements)
  | [] => trivial
  | element :: elements => ⟨.inl ⟨rfl, rfl⟩, uses_layout element, uses_elementLayouts elements⟩

theorem uses_fieldLayouts : ∀ fields : List (String × Json),
    Layout.MembersUse vocabulary "\x7b" (fieldLayouts fields)
  | [] => trivial
  | (key, value) :: fields =>
    ⟨.inr ⟨rfl, key, rfl⟩, uses_layout value, uses_fieldLayouts fields⟩
end

/-- A value on one line is a literal, a number or a string. -/
theorem layout_eq_line {value : Json} {word : String} (h : layout value = .line word) :
    (word ∈ literals ∧ (value = null ∧ word = "null" ∨ value = bool true ∧ word = "true" ∨
      value = bool false ∧ word = "false")) ∨
    (∃ n, value = number n ∧ word = toString n) ∨
    ∃ text, value = string text ∧ word = quoted jsonEscape text := by
  cases value with
  | null =>
    obtain rfl := Layout.line.inj h
    exact .inl ⟨by decide, .inl ⟨rfl, rfl⟩⟩
  | bool value =>
    obtain rfl := Layout.line.inj h
    cases value with
    | true => exact .inl ⟨by decide, .inr (.inl ⟨rfl, rfl⟩)⟩
    | false => exact .inl ⟨by decide, .inr (.inr ⟨rfl, rfl⟩)⟩
  | number n => exact .inr (.inl ⟨n, rfl, (Layout.line.inj h).symm⟩)
  | string text => exact .inr (.inr ⟨text, rfl, (Layout.line.inj h).symm⟩)
  -- a group is never a line
  | array elements => exact Layout.noConfusion h
  | object fields => exact Layout.noConfusion h

/-- A value on one line is determined by its word. -/
theorem eq_of_layout_eq_line {a b : Json} {word : String} (ha : layout a = .line word)
    (hb : layout b = .line word) : a = b := by
  rcases layout_eq_line ha with ⟨hword, hvalue⟩ | ⟨n, rfl, rfl⟩ | ⟨text, rfl, rfl⟩
  · rcases layout_eq_line hb with ⟨-, hvalue'⟩ | ⟨n, rfl, rfl⟩ | ⟨text, rfl, rfl⟩
    · rcases hvalue with ⟨rfl, rfl⟩ | ⟨rfl, rfl⟩ | ⟨rfl, rfl⟩ <;> simpa [eq_comm] using hvalue'
    · exact absurd rfl (toString_ne_literal hword n)
    · exact absurd rfl (quoted_ne_literal hword text)
  · rcases layout_eq_line hb with ⟨hword, -⟩ | ⟨n', rfl, hn⟩ | ⟨text, rfl, htext⟩
    · exact absurd rfl (toString_ne_literal hword n)
    · exact congrArg number (toString_inj hn)
    · exact absurd htext (toString_ne_quoted n text)
  · rcases layout_eq_line hb with ⟨hword, -⟩ | ⟨n, rfl, hn⟩ | ⟨text', rfl, htext⟩
    · exact absurd rfl (quoted_ne_literal hword text)
    · exact absurd hn.symm (toString_ne_quoted n text)
    · have hlists :
          (quoted jsonEscape text).toList ++ [] = (quoted jsonEscape text').toList ++ [] :=
        congrArg (fun word => word.toList ++ []) htext
      exact congrArg string (isEscape_jsonEscape.quoted_inj hlists).1

mutual
/-- The layout of a value determines the value. -/
theorem layout_inj : ∀ a b : Json, layout a = layout b → a = b
  | null, b, h => eq_of_layout_eq_line rfl h.symm
  | bool value, b, h => eq_of_layout_eq_line rfl h.symm
  | number value, b, h => eq_of_layout_eq_line rfl h.symm
  | string value, b, h => eq_of_layout_eq_line rfl h.symm
  | array elements, b, h => by
    cases b with
    | array elements' => rw [elementLayouts_inj elements elements' (Layout.group.inj h).2.2]
    | object fields => simp [layout] at h
    | _ => exact Layout.noConfusion h
  | object fields, b, h => by
    cases b with
    | object fields' => rw [fieldLayouts_inj fields fields' (Layout.group.inj h).2.2]
    | array elements => simp [layout] at h
    | _ => exact Layout.noConfusion h

/-- Elements with equal layouts are equal, one by one. -/
theorem elementLayouts_inj : ∀ as bs : List Json, elementLayouts as = elementLayouts bs → as = bs
  | [], [], _ => rfl
  | a :: as, b :: bs, h => by
    obtain ⟨hmember, hmembers⟩ := List.cons.inj h
    rw [layout_inj a b (Prod.mk.inj hmember).2, elementLayouts_inj as bs hmembers]

/-- Fields with equal layouts are equal, keys and values. -/
theorem fieldLayouts_inj : ∀ as bs : List (String × Json),
    fieldLayouts as = fieldLayouts bs → as = bs
  | [], [], _ => rfl
  | (key, a) :: as, (key', b) :: bs, h => by
    obtain ⟨hmember, hmembers⟩ := List.cons.inj h
    obtain ⟨hlabel, hlayout⟩ := Prod.mk.inj hmember
    have hkeys := congrArg (fun label => String.toList label ++ []) hlabel
    rw [key_inj hkeys, layout_inj a b hlayout, fieldLayouts_inj as bs hmembers]
end

/-- Different values have different texts. -/
theorem text_injective : Function.Injective text := by
  intro a b h
  exact layout_inj a b (Layout.text_inj legible_vocabulary (.inl rfl) (by decide) (uses_layout a)
    (uses_layout b) h)

end Quill.Report.Json
