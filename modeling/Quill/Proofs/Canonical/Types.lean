import Quill.Proofs.Canonical.Texts
import Quill.Proofs.RoundTrip.Words
import Quill.Syntax.Canonical

/-!
# The texts of types are unambiguous

Parentheses have two uses in the text of a type: around the parameters of a function, and around a
function type that is the element of an array. Nothing ends the result of a function, and a suffix
`[]` may follow a name, a group or a result. Even so no two types have the same text, as long as
their names are names of types (`TypeExpr.canonical_unambiguous`).

A type is a number of array suffixes around a name or a function type (`NamesTypes.exists_arrays`).
What may follow a type goes on neither a name nor suffixes, so the text of a type is read off from
the left, whatever it stands before (`Told`). A name ends where its characters do. After the
parenthesis that closes a first group there comes a suffix if the group is an element, and an arrow
if it holds parameters (`group_ne_params`). So the one rule that puts a function type in parentheses
is enough.
-/

set_option autoImplicit false

namespace Quill

open Lexical Text

/-- The name of a type: one of the three that are built in, or names with points between them. -/
def IsTypeName (name : String) : Prop :=
  name = "int" ∨ name = "bool" ∨ name = "string" ∨
    ∃ names, names ≠ [] ∧ (∀ part ∈ names, IsName part) ∧ name = QualifiedName.dotted ⟨names⟩

namespace TypeExpr

/-! ## Names and suffixes -/

/-- A character that the name of a type may have. -/
def isTypeNamePart (c : Char) : Bool :=
  isNamePart c || c == '.'

/-- The name of a type starts with a letter and has only the characters of such names. -/
theorem exists_cons_of_isTypeName {name : String} (h : IsTypeName name) :
    (∃ c cs, name.toList = c :: cs ∧ isLetter c = true) ∧
      ∀ c ∈ name.toList, isTypeNamePart c = true := by
  rcases h with rfl | rfl | rfl | ⟨names, hne, hnames, rfl⟩
  · exact ⟨⟨'i', _, rfl, by decide⟩, List.all_eq_true.mp (by decide)⟩
  · exact ⟨⟨'b', _, rfl, by decide⟩, List.all_eq_true.mp (by decide)⟩
  · exact ⟨⟨'s', _, rfl, by decide⟩, List.all_eq_true.mp (by decide)⟩
  · -- a point stands between two names only, so that the first character is that of the first name
    constructor
    · obtain ⟨first, others, rfl⟩ := List.exists_cons_of_ne_nil hne
      obtain ⟨c, cs, hfirst, hc, -⟩ := (hnames first List.mem_cons_self).exists_cons
      rw [QualifiedName.dotted, toList_intercalate_cons, hfirst, List.cons_append]
      exact ⟨c, _, rfl, hc⟩
    · intro d hd
      rcases mem_of_mem_intercalate hd with hpoint | ⟨part, hpart, hd⟩
      · rw [List.mem_singleton.mp hpoint]
        decide
      · obtain ⟨c, cs, hcs, hc, htail, -⟩ := (hnames part hpart).exists_cons
        have hname : isNamePart d = true := by
          rcases List.mem_cons.mp (hcs ▸ hd) with rfl | hd
          · exact isNamePart_of_isLetter hc
          · exact htail d hd
        rw [isTypeNamePart, hname, Bool.true_or]

/-- A text that may follow a type: it goes on neither a name nor array suffixes. -/
def MayFollow (text : List Char) : Prop :=
  ¬ StartsWith (fun c => isTypeNamePart c || c == '[') text

/-- A character that is neither part of a type name nor an opening bracket may follow a type,
whatever comes after it. -/
theorem mayFollow_cons {c : Char} (h : (isTypeNamePart c || c == '[') = false) (text : List Char) :
    MayFollow (c :: text) := by
  intro hstart
  rw [StartsWith, h] at hstart
  exact Bool.noConfusion hstart

/-- Array suffixes. -/
def suffixes : Nat → List Char
  | 0 => []
  | n + 1 => '[' :: ']' :: suffixes n

/-- Suffixes before a text that does not go on them are told from the text. -/
theorem suffixes_append_inj {m n : Nat} {s t : List Char} (hs : MayFollow s) (ht : MayFollow t)
    (h : suffixes m ++ s = suffixes n ++ t) : m = n ∧ s = t := by
  have hbracket : ∀ {text rest : List Char}, MayFollow text → text ≠ '[' :: rest := by
    rintro text rest hfollow rfl
    exact hfollow rfl
  induction m generalizing n with
  | zero =>
    cases n with
    | zero => exact ⟨rfl, h⟩
    | succ n => exact absurd h (hbracket hs)
  | succ m ih =>
    cases n with
    | zero => exact absurd h.symm (hbracket ht)
    | succ n =>
      obtain ⟨rfl, hst⟩ := ih (List.cons.inj (List.cons.inj h).2).2
      exact ⟨rfl, hst⟩

/-- No suffix is a character of a name. -/
theorem not_startsWith_suffixes (n : Nat) {s : List Char} (hs : MayFollow s) :
    ¬ StartsWith isTypeNamePart (suffixes n ++ s) := by
  cases n with
  | zero =>
    intro hstart
    cases s with
    | nil => exact hstart
    | cons c cs =>
      apply hs
      show (isTypeNamePart c || c == '[') = true
      rw [show isTypeNamePart c = true from hstart, Bool.true_or]
  | succ n =>
    show ¬ isTypeNamePart '[' = true
    decide

/-! ## Types as suffixes around a core -/

/-- A type with a number of array suffixes. -/
def arrays : Nat → TypeExpr → TypeExpr
  | 0, type => type
  | n + 1, type => arrays n (.array type)

/-- An array around arrays of a type is the same number of arrays around its array. -/
theorem array_arrays (n : Nat) (type : TypeExpr) : (arrays n type).array = arrays n type.array := by
  induction n generalizing type with
  | zero => rfl
  | succ n ih => exact ih type.array

/-- The names in a type are names of types. -/
def NamesTypes (type : TypeExpr) : Prop :=
  ∀ name ∈ type.texts, IsTypeName name

/-- The parameters of a function type that names types name types. -/
theorem NamesTypes.params {params : List TypeExpr} {result : TypeExpr}
    (h : (func params result).NamesTypes) : ∀ param ∈ params, param.NamesTypes := by
  intro param hparam name hname
  apply h
  rw [texts, textsList_eq_flatMap]
  exact List.mem_append_left _ (List.mem_flatMap.mpr ⟨param, hparam, hname⟩)

/-- The result of a function type that names types names types. -/
theorem NamesTypes.result {params : List TypeExpr} {result : TypeExpr}
    (h : (func params result).NamesTypes) : result.NamesTypes :=
  fun name hname => h name (List.mem_append_right _ hname)

/-- A type is a name or a function type with array suffixes. -/
theorem NamesTypes.exists_arrays : ∀ {type : TypeExpr}, type.NamesTypes →
    ∃ n, (∃ name, IsTypeName name ∧ type = arrays n (.named name)) ∨
      ∃ params result, (func params result).NamesTypes ∧ type = arrays n (.func params result)
  | .named name, h => ⟨0, .inl ⟨name, h name List.mem_cons_self, rfl⟩⟩
  | .func params result, h => ⟨0, .inr ⟨params, result, h, rfl⟩⟩
  | .array element, h => by
    have helement : element.NamesTypes := h
    obtain ⟨n, ⟨name, hname, rfl⟩ | ⟨params, result, hcore, rfl⟩⟩ := helement.exists_arrays
    · exact ⟨n + 1, .inl ⟨name, hname, array_arrays n _⟩⟩
    · exact ⟨n + 1, .inr ⟨params, result, hcore, array_arrays n _⟩⟩

/-- The suffixes of an array of arrays stand after the text of the inner array. -/
theorem toList_arrays_array (n : Nat) (element : TypeExpr) :
    (arrays n element.array).canonical.toList =
      element.array.canonical.toList ++ suffixes n := by
  induction n generalizing element with
  | zero => exact (List.append_nil _).symm
  | succ n ih =>
    rw [arrays, ih, canonical, if_neg (by simp [isFunc])]
    simp [suffixes]

/-- The suffixes of an array of a named type stand after the name. -/
theorem toList_arrays_named (n : Nat) (name : String) :
    (arrays n (.named name)).canonical.toList = name.toList ++ suffixes n := by
  cases n with
  | zero => exact (List.append_nil _).symm
  | succ n =>
    rw [arrays, toList_arrays_array, canonical, if_neg (by simp [isFunc])]
    simp [suffixes, canonical]

/-- A function type with suffixes is put in parentheses. -/
theorem toList_arrays_func (n : Nat) (params : List TypeExpr) (result : TypeExpr) :
    (arrays (n + 1) (.func params result)).canonical.toList =
      '(' :: ((func params result).canonical.toList ++ ')' :: suffixes (n + 1)) := by
  rw [arrays, toList_arrays_array, canonical.eq_2, isFunc, if_pos rfl]
  simp [suffixes]

/-- Types with a comma and a space before each. -/
def furtherParams (params : List TypeExpr) : List Char :=
  params.flatMap fun param => ',' :: ' ' :: param.canonical.toList

theorem canonicalList_eq_map (types : List TypeExpr) :
    canonicalList types = types.map canonical := by
  induction types with
  | nil => rfl
  | cons type types ih => rw [canonicalList, ih, List.map_cons]

/-- A function type without parameters starts with an empty pair of parentheses. -/
theorem toList_func_nil (result : TypeExpr) :
    (func [] result).canonical.toList =
      '(' :: ')' :: (" -> ".toList ++ result.canonical.toList) := by
  simp [canonical, canonicalList]

/-- A function type with parameters starts with a parenthesis and its first parameter. -/
theorem toList_func_cons (first : TypeExpr) (others : List TypeExpr) (result : TypeExpr) :
    (func (first :: others) result).canonical.toList =
      '(' :: (first.canonical.toList ++ (furtherParams others ++
        ')' :: (" -> ".toList ++ result.canonical.toList))) := by
  simp only [canonical, canonicalList, canonicalList_eq_map, String.toList_append,
    toList_intercalate_cons, List.flatMap_map, furtherParams, List.append_assoc]
  rfl

/-! ## Texts that are told apart -/

/-- The text of a type is told from that of every other type, whatever follows the two. -/
def Told (type : TypeExpr) : Prop :=
  ∀ other : TypeExpr, other.NamesTypes → ∀ s t, MayFollow s → MayFollow t →
    type.canonical.toList ++ s = other.canonical.toList ++ t → type = other ∧ s = t

/-- A type with a function type at its core starts with a parenthesis. -/
theorem starts_arrays_func (n : Nat) (params : List TypeExpr) (result : TypeExpr) :
    ∃ cs, (arrays n (.func params result)).canonical.toList = '(' :: cs := by
  cases n with
  | zero =>
    cases params with
    | nil => exact ⟨_, toList_func_nil result⟩
    | cons first others => exact ⟨_, toList_func_cons first others result⟩
  | succ n => exact ⟨_, toList_arrays_func n params result⟩

/-- A name with suffixes is told from a function type with suffixes by its first character. -/
theorem arrays_named_ne_func {m n : Nat} {name : String} {params : List TypeExpr}
    {result : TypeExpr} (hname : IsTypeName name) {s t : List Char} :
    (arrays m (.named name)).canonical.toList ++ s ≠
      (arrays n (.func params result)).canonical.toList ++ t := by
  obtain ⟨⟨c, cs, hcs, hc⟩, -⟩ := exists_cons_of_isTypeName hname
  obtain ⟨ds, hds⟩ := starts_arrays_func n params result
  rw [toList_arrays_named, hcs, hds]
  intro h
  obtain rfl : c = '(' := (List.cons.inj h).1
  exact absurd hc (by decide)

/-- Arrays of a named type are told from every other type by their text and what follows it. -/
theorem told_arrays_named (n : Nat) {name : String} (hname : IsTypeName name) :
    Told (arrays n (.named name)) := by
  intro other hother s t hs ht h
  obtain ⟨m, ⟨name', hname', rfl⟩ | ⟨params, result, -, rfl⟩⟩ := hother.exists_arrays
  · rw [toList_arrays_named, toList_arrays_named, List.append_assoc, List.append_assoc] at h
    -- both names end where the first character stands that no name has
    have hrun := takeWhile_run (exists_cons_of_isTypeName hname).2 (not_startsWith_suffixes n hs)
    have hrun' := takeWhile_run (exists_cons_of_isTypeName hname').2 (not_startsWith_suffixes m ht)
    rw [h, hrun'] at hrun
    obtain rfl := String.toList_injective hrun
    obtain ⟨rfl, hst⟩ := suffixes_append_inj hs ht (List.append_cancel_left h)
    exact ⟨rfl, hst⟩
  · exact absurd h (arrays_named_ne_func hname)

/-! ## Function types -/

/-- What stands after a parameter, further ones or the closing parenthesis, may follow a type. -/
theorem mayFollow_furtherParams (params : List TypeExpr) (text : List Char) :
    MayFollow (furtherParams params ++ ')' :: text) := by
  cases params with
  | nil => exact mayFollow_cons (by decide) _
  | cons param params => exact mayFollow_cons (by decide) _

/-- A list of parameters does not start like a group: the parenthesis that closes a group has a
suffix after it. -/
theorem group_ne_params {params params' : List TypeExpr} {result result' : TypeExpr}
    (hfirst : ∀ param ∈ params', ∀ s t, MayFollow s → MayFollow t →
      (func params result).canonical.toList ++ s = param.canonical.toList ++ t → s = t)
    (n : Nat) (s t : List Char) : (arrays (n + 1) (.func params result)).canonical.toList ++ s ≠
      (func params' result').canonical.toList ++ t := by
  intro h
  rw [toList_arrays_func] at h
  cases params' with
  | nil =>
    obtain ⟨cs, hcs⟩ := starts_arrays_func 0 params result
    rw [toList_func_nil, show (func params result).canonical.toList = '(' :: cs from hcs] at h
    -- the group starts with a function type, and the list is empty
    exact absurd (List.cons.inj (List.cons.inj h).2).1 (by decide)
  | cons first others =>
    rw [toList_func_cons] at h
    simp only [List.cons_append, List.append_assoc, List.cons.injEq, true_and] at h
    have hafter := hfirst first List.mem_cons_self _ _ (mayFollow_cons (by decide) _)
      (mayFollow_furtherParams others _) h
    cases others with
    | nil =>
      -- a suffix stands where the arrow would be
      exact absurd (List.cons.inj (List.cons.inj hafter).2).1 (by decide)
    | cons second others => exact absurd (List.cons.inj hafter).1 (by decide)

/-- Further parameters, up to the parenthesis that closes the list, are told apart. -/
theorem furtherParams_inj {params params' : List TypeExpr} (htold : ∀ param ∈ params, Told param)
    (hnames : ∀ param ∈ params', param.NamesTypes) {s t : List Char}
    (h : furtherParams params ++ ')' :: s = furtherParams params' ++ ')' :: t) :
    params = params' ∧ s = t := by
  induction params generalizing params' with
  | nil =>
    cases params' with
    | nil => exact ⟨rfl, (List.cons.inj h).2⟩
    | cons param' params' => exact absurd (List.cons.inj h).1 (by decide)
  | cons param params ih =>
    cases params' with
    -- a comma on one side, the closing parenthesis on the other
    | nil => exact absurd (List.cons.inj h).1 (by decide)
    | cons param' params' =>
      simp only [furtherParams, List.flatMap_cons, List.cons_append, List.append_assoc,
        List.cons.injEq, true_and] at h
      -- a comma or a parenthesis follows each parameter, and either may follow a type
      obtain ⟨rfl, hrest⟩ := htold param List.mem_cons_self param'
        (hnames param' List.mem_cons_self) _ _ (mayFollow_furtherParams params s)
        (mayFollow_furtherParams params' t) h
      obtain ⟨rfl, hst⟩ := ih (fun p hp => htold p (List.mem_cons_of_mem _ hp))
        (fun p hp => hnames p (List.mem_cons_of_mem _ hp)) hrest
      exact ⟨rfl, hst⟩

/-- The text of a type has a first character, which does not close a list. -/
theorem NamesTypes.exists_cons {type : TypeExpr} (h : type.NamesTypes) :
    ∃ c cs, type.canonical.toList = c :: cs ∧ c ≠ ')' := by
  obtain ⟨n, ⟨name, hname, rfl⟩ | ⟨params, result, -, rfl⟩⟩ := h.exists_arrays
  · obtain ⟨⟨c, cs, hcs, hc⟩, -⟩ := exists_cons_of_isTypeName hname
    rw [toList_arrays_named, hcs]
    refine ⟨c, _, rfl, ?_⟩
    rintro rfl
    exact absurd hc (by decide)
  · obtain ⟨cs, hcs⟩ := starts_arrays_func n params result
    exact ⟨'(', cs, hcs, by decide⟩

/-- Function types with the same text have the same parameters, and their results have the same
text. -/
theorem params_inj {params params' : List TypeExpr} {result result' : TypeExpr}
    (htold : ∀ param ∈ params, Told param) (hnames : ∀ param ∈ params, param.NamesTypes)
    (hnames' : ∀ param ∈ params', param.NamesTypes) {s t : List Char}
    (h : (func params result).canonical.toList ++ s =
      (func params' result').canonical.toList ++ t) :
    params = params' ∧ result.canonical.toList ++ s = result'.canonical.toList ++ t := by
  cases params with
  | nil =>
    cases params' with
    | nil =>
      rw [toList_func_nil, toList_func_nil] at h
      simp only [List.cons_append, List.append_assoc, List.cons.injEq, true_and] at h
      exact ⟨rfl, List.append_cancel_left h⟩
    -- the closing parenthesis against the first character of a parameter
    | cons first' others' =>
      obtain ⟨c, cs, hfirst', hc⟩ := (hnames' first' List.mem_cons_self).exists_cons
      rw [toList_func_nil, toList_func_cons, hfirst'] at h
      exact absurd (List.cons.inj (List.cons.inj h).2).1.symm hc
  | cons first others =>
    cases params' with
    | nil =>
      obtain ⟨c, cs, hfirst, hc⟩ := (hnames first List.mem_cons_self).exists_cons
      rw [toList_func_nil, toList_func_cons, hfirst] at h
      exact absurd (List.cons.inj (List.cons.inj h).2).1 hc
    | cons first' others' =>
      rw [toList_func_cons, toList_func_cons] at h
      simp only [List.cons_append, List.append_assoc, List.cons.injEq, true_and] at h
      obtain ⟨rfl, hothers⟩ := htold first List.mem_cons_self first'
        (hnames' first' List.mem_cons_self) _ _ (mayFollow_furtherParams others _)
        (mayFollow_furtherParams others' _) h
      obtain ⟨rfl, hresult⟩ := furtherParams_inj
        (fun param hparam => htold param (List.mem_cons_of_mem _ hparam))
        (fun param hparam => hnames' param (List.mem_cons_of_mem _ hparam)) hothers
      exact ⟨rfl, List.append_cancel_left hresult⟩

section
variable {params : List TypeExpr} {result : TypeExpr}

/-- A function type is told apart if its parameters and its result are. -/
theorem told_func (hnames : (func params result).NamesTypes)
    (hparams : ∀ param ∈ params, Told param) (hresult : Told result) :
    Told (func params result) := by
  intro other hother s t hs ht h
  obtain ⟨m, ⟨name, hname, rfl⟩ | ⟨params', result', hcore, rfl⟩⟩ := hother.exists_arrays
  · exact absurd h.symm (arrays_named_ne_func (n := 0) hname)
  · cases m with
    | zero =>
      obtain ⟨rfl, htext⟩ := params_inj hparams hnames.params hcore.params h
      obtain ⟨rfl, hst⟩ := hresult result' hcore.result s t hs ht htext
      exact ⟨rfl, hst⟩
    | succ m =>
      refine absurd h.symm (group_ne_params ?_ m t s)
      intro param hparam s t hs ht h
      exact (hparams param hparam _ hcore t s ht hs h.symm).2.symm

/-- A function type with suffixes is told apart if its parameters and its result are. -/
theorem told_arrays_func (hnames : (func params result).NamesTypes)
    (hparams : ∀ param ∈ params, Told param) (hresult : Told result) (n : Nat) :
    Told (arrays n (.func params result)) := by
  have hfunc := told_func hnames hparams hresult
  cases n with
  | zero => exact hfunc
  | succ n =>
    intro other hother s t hs ht h
    obtain ⟨m, ⟨name, hname, rfl⟩ | ⟨params', result', hcore, rfl⟩⟩ := hother.exists_arrays
    · exact absurd h.symm (arrays_named_ne_func hname)
    · cases m with
      | zero =>
        refine absurd h (group_ne_params ?_ n s t)
        intro param hparam s t hs ht h
        exact (hfunc param (hcore.params param hparam) s t hs ht h).2
      | succ m =>
        rw [toList_arrays_func, toList_arrays_func] at h
        simp only [List.cons_append, List.append_assoc, List.cons.injEq, true_and] at h
        obtain ⟨hcore, h⟩ := hfunc _ hcore _ _ (mayFollow_cons (by decide) _)
          (mayFollow_cons (by decide) _) h
        obtain ⟨hnm, hst⟩ := suffixes_append_inj hs ht (List.cons.inj h).2
        rw [hcore, hnm]
        exact ⟨rfl, hst⟩

end

/-! ## All types -/

mutual
/-- Every type is told apart. The element of an array has one suffix more than the array. -/
theorem told_arrays : ∀ type : TypeExpr, type.NamesTypes → ∀ n, Told (arrays n type)
  | .named name, h, n => told_arrays_named n (h name List.mem_cons_self)
  | .array element, h, n => told_arrays element h (n + 1)
  | .func params result, h, n =>
    told_arrays_func h (told_of_mem params h.params) (told_arrays result h.result 0) n

/-- Every type in a list of types that name types is told by its text. -/
theorem told_of_mem : ∀ types : List TypeExpr, (∀ type ∈ types, type.NamesTypes) →
    ∀ type ∈ types, Told type
  | [], _ => List.forall_mem_nil _
  | type :: types, h => by
    obtain ⟨hfirst, hothers⟩ := List.forall_mem_cons.mp h
    exact List.forall_mem_cons.mpr ⟨told_arrays type hfirst 0, told_of_mem types hothers⟩
end

/-- Two types have the same text just if they are the same type. -/
theorem canonical_unambiguous {type type' : TypeExpr} (h : type.NamesTypes)
    (h' : type'.NamesTypes) : type.canonical = type'.canonical ↔ type = type' := by
  constructor
  · intro htext
    have hnil : MayFollow [] := by
      intro hstart
      exact hstart
    have hsame : type.canonical.toList ++ [] = type'.canonical.toList ++ [] := by rw [htext]
    exact (told_arrays type h 0 type' h' [] [] hnil hnil hsame).1
  · rintro rfl
    rfl

/-- An array of functions that give arrays, and a function that gives arrays of arrays. -/
theorem canonical_unambiguous_group_result :
    (array (func [] (array (named "geo.shape")))).NamesTypes ∧
      (func [] (array (array (named "geo.shape")))).NamesTypes ∧
      (array (func [] (array (named "geo.shape")))).canonical = "(() -> geo.shape[])[]" ∧
      (func [] (array (array (named "geo.shape")))).canonical = "() -> geo.shape[][]" ∧
      (array (func [] (array (named "geo.shape")))).canonical ≠
        (func [] (array (array (named "geo.shape")))).canonical := by
  have hshape : IsTypeName "geo.shape" := by
    refine .inr (.inr (.inr ⟨["geo", "shape"], by decide, ?_, rfl⟩))
    intro part hpart
    rcases List.mem_cons.mp hpart with rfl | hpart
    · show IsLexeme .ident ['g', 'e', 'o']
      exact .name (by decide) (List.all_eq_true.mp (by decide)) (by decide)
    · rw [List.mem_singleton.mp hpart]
      show IsLexeme .ident ['s', 'h', 'a', 'p', 'e']
      exact .name (by decide) (List.all_eq_true.mp (by decide)) (by decide)
  have hgroup : (array (func [] (array (named "geo.shape")))).NamesTypes := by
    intro name hname
    rwa [List.mem_singleton.mp hname]
  have hresult : (func [] (array (array (named "geo.shape")))).NamesTypes := by
    intro name hname
    rwa [List.mem_singleton.mp hname]
  refine ⟨hgroup, hresult, by decide, by decide, ?_⟩
  intro htext
  exact TypeExpr.noConfusion ((canonical_unambiguous hgroup hresult).mp htext)

end TypeExpr

end Quill
