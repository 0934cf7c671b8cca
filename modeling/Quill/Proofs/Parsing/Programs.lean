import Quill.Program.OfTokens
import Quill.Proofs.Parsing.Items

/-!
# Reading programs is deriving them

A token list is a program exactly if it derives one, or does so up to one end-of-input token that
stands last (`ofTokens_eq_ok_iff`). Imports and declarations are told apart by their first tokens:
imports go on while one is ahead, and declarations until the end of the input is.
-/

set_option autoImplicit false

namespace Quill.Grammar

open Reading (outcome)

variable {α β : Type} {result : β}

/-! ## Reading one after another

Imports, declarations and programs are not read as readings. Their parts are, and what is read
after a part still starts from what the part leaves. -/

theorem bind_eq_ok_iff {found : Except Stop α} {second : α → Except Stop β} :
    (found >>= second) = .ok result ↔ ∃ value, found = .ok value ∧ second value = .ok result := by
  cases found <;> simp [bind, Except.bind]

theorem reading_bind_eq_ok_iff {ts : List Token} {found : Except Stop (Reading ts α)}
    {second : Reading ts α → Except Stop β} :
    (found >>= second) = .ok result ↔
      ∃ value rest, ∃ h : outcome found = .ok (value, rest),
        second ⟨value, rest, Reading.rest_length_lt h⟩ = .ok result := by
  rw [bind_eq_ok_iff]
  constructor
  · rintro ⟨reading, rfl, h⟩
    exact ⟨reading.value, reading.rest, rfl, h⟩
  · rintro ⟨value, rest, hfound, h⟩
    cases found with
    | ok reading =>
      obtain ⟨rfl, rfl⟩ := Prod.mk.inj (Except.ok.inj hfound)
      exact ⟨reading, rfl, h⟩
    | error stop => simp at hfound

/-- The first of two parts, read. -/
theorem reading_bind_of_ok {ts rest : List Token} {found : Except Stop (Reading ts α)} {value : α}
    {second : Reading ts α → Except Stop β} (h : outcome found = .ok (value, rest)) :
    (found >>= second) = second ⟨value, rest, Reading.rest_length_lt h⟩ := by
  cases found with
  | ok reading =>
    obtain ⟨rfl, rfl⟩ := Prod.mk.inj (Except.ok.inj h)
    rfl
  | error stop => simp at h

/-! ## Imports -/

/-- What is read as imports is derived one by one. -/
theorem imports_sound {ts rest : List Token} {decls : List Import}
    (h : imports ts = .ok (decls, rest)) :
    ∃ parts : List (List Token × Import), ts = parts.flatMap Prod.fst ++ rest ∧
      (∀ decl ∈ parts, DerivesImport decl.1 decl.2) ∧ parts.map Prod.snd = decls := by
  induction hn : ts.length using Nat.strongRecOn generalizing ts decls with
  | ind n ih =>
    rw [imports] at h
    split at h
    · obtain ⟨first, us, hfirst, h⟩ := reading_bind_eq_ok_iff.mp h
      obtain ⟨⟨others, left⟩, hothers, h⟩ := bind_eq_ok_iff.mp h
      obtain ⟨rfl, rfl⟩ := Prod.mk.inj (Except.ok.inj h)
      have hfewer : us.length < n := hn ▸ Reading.rest_length_lt hfirst
      obtain ⟨vs, rfl, hvs⟩ := importDecl_sound hfirst
      obtain ⟨parts, rfl, hparts, rfl⟩ := ih _ hfewer hothers rfl
      exact ⟨(vs, first) :: parts, by simp, List.forall_mem_cons.mpr ⟨hvs, hparts⟩, rfl⟩
    · obtain ⟨rfl, rfl⟩ := Prod.mk.inj (Except.ok.inj h)
      exact ⟨[], rfl, by simp, rfl⟩

/-- Derived imports are read up to a token that starts no further one. -/
theorem imports_complete {parts : List (List Token × Import)}
    (hparts : ∀ decl ∈ parts, DerivesImport decl.1 decl.2) {rest : List Token}
    (hrest : ahead rest ≠ .kwImport) :
    imports (parts.flatMap Prod.fst ++ rest) = .ok (parts.map Prod.snd, rest) := by
  induction parts with
  | nil =>
    rw [List.flatMap_nil, List.nil_append, imports, if_neg hrest]
    rfl
  | cons first others ih =>
    obtain ⟨hfirst, hothers⟩ := List.forall_mem_cons.mp hparts
    have hahead : ahead (first.1 ++ (others.flatMap Prod.fst ++ rest)) = .kwImport := by
      obtain ⟨us, decl⟩ := first
      cases hfirst with
      | bare hkeyword => exact hkeyword
      | renamed hkeyword => exact hkeyword
    rw [List.flatMap_cons, List.append_assoc, imports, if_pos hahead, reading_bind_eq_ok_iff]
    refine ⟨first.2, _, importDecl_complete hfirst _, ?_⟩
    exact bind_eq_ok_iff.mpr ⟨_, ih hothers, rfl⟩

/-! ## Declarations -/

/-- What is read as items is derived one by one, and the input ends after them. -/
theorem items_sound {ts rest : List Token} {decls : List Item}
    (h : items ts = .ok (decls, rest)) :
    ahead rest = .eof ∧ ∃ parts : List (List Token × Item), ts = parts.flatMap Prod.fst ++ rest ∧
      (∀ item ∈ parts, DerivesItem item.1 item.2) ∧ parts.map Prod.snd = decls := by
  induction hn : ts.length using Nat.strongRecOn generalizing ts decls with
  | ind n ih =>
    rw [items] at h
    split at h
    · rename_i hend
      obtain ⟨rfl, rfl⟩ := Prod.mk.inj (Except.ok.inj h)
      exact ⟨hend, [], rfl, by simp, rfl⟩
    · obtain ⟨first, us, hfirst, h⟩ := reading_bind_eq_ok_iff.mp h
      obtain ⟨⟨others, left⟩, hothers, h⟩ := bind_eq_ok_iff.mp h
      obtain ⟨rfl, rfl⟩ := Prod.mk.inj (Except.ok.inj h)
      have hfewer : us.length < n := hn ▸ Reading.rest_length_lt hfirst
      obtain ⟨vs, rfl, hvs⟩ := item_sound hfirst
      obtain ⟨hend, parts, rfl, hparts, rfl⟩ := ih _ hfewer hothers rfl
      exact ⟨hend, (vs, first) :: parts, by simp, List.forall_mem_cons.mpr ⟨hvs, hparts⟩, rfl⟩

/-- The kinds of tokens that a declaration starts with. -/
def itemStarts : List Kind :=
  [.kwType, .kwStruct, .kwConst, .kwFn, .kwLet]

theorem DerivesItem.starts {us : List Token} {tree : Item} (h : DerivesItem us tree) :
    ∃ t vs, us = t :: vs ∧ t.kind ∈ itemStarts := by
  cases h with
  | typeAlias hkeyword => exact ⟨_, _, rfl, by simp [hkeyword, itemStarts]⟩
  | struct hkeyword => exact ⟨_, _, rfl, by simp [hkeyword, itemStarts]⟩
  | const hkeyword => exact ⟨_, _, rfl, by simp [hkeyword, itemStarts]⟩
  | procedure hkeyword => exact ⟨_, _, rfl, by simp [hkeyword, itemStarts]⟩
  | function hkeyword => exact ⟨_, _, rfl, by simp [hkeyword, itemStarts]⟩
  | letDecl h =>
    cases h with
    | bare hkeyword => exact ⟨_, _, rfl, by simp [hkeyword, itemStarts]⟩
    | valued hkeyword => exact ⟨_, _, rfl, by simp [hkeyword, itemStarts]⟩

/-- A kind that starts no declaration is ahead of declarations only if there are none. -/
theorem ahead_items_ne {kind : Kind} (hkind : kind ∉ itemStarts) {parts : List (List Token × Item)}
    (hparts : ∀ item ∈ parts, DerivesItem item.1 item.2) {rest : List Token}
    (hrest : parts = [] → ahead rest ≠ kind) :
    ahead (parts.flatMap Prod.fst ++ rest) ≠ kind := by
  cases parts with
  | nil => exact hrest rfl
  | cons first others =>
    obtain ⟨t, vs, hts, ht⟩ := (hparts first List.mem_cons_self).starts
    rw [List.flatMap_cons, hts]
    rintro rfl
    exact hkind ht

/-- Declarations are read off the front of a list as they stand there. What is read after them, or
the stop there, is what would be read, or would stop reading, without them. -/
theorem items_append {parts : List (List Token × Item)}
    (hparts : ∀ item ∈ parts, DerivesItem item.1 item.2) (rest : List Token) :
    items (parts.flatMap Prod.fst ++ rest) =
      (items rest).map fun found => (parts.map Prod.snd ++ found.1, found.2) := by
  induction parts with
  | nil =>
    rw [List.flatMap_nil, List.nil_append]
    cases items rest <;> rfl
  | cons first others ih =>
    obtain ⟨hfirst, hothers⟩ := List.forall_mem_cons.mp hparts
    have hahead : ahead ((first :: others).flatMap Prod.fst ++ rest) ≠ .eof :=
      ahead_items_ne (by decide) hparts fun hnil => absurd hnil (List.cons_ne_nil first others)
    rw [items, if_neg hahead, List.flatMap_cons, List.append_assoc,
      reading_bind_of_ok (item_complete hfirst _), ih hothers]
    cases items rest <;> rfl

theorem items_of_end {ts : List Token} (h : ahead ts = .eof) : items ts = .ok ([], ts) := by
  rw [items, if_pos h]
  rfl

/-- Derived items are read up to the end of the input. -/
theorem items_complete {parts : List (List Token × Item)}
    (hparts : ∀ item ∈ parts, DerivesItem item.1 item.2) {rest : List Token}
    (hrest : ahead rest = .eof) :
    items (parts.flatMap Prod.fst ++ rest) = .ok (parts.map Prod.snd, rest) := by
  rw [items_append hparts, items_of_end hrest, Except.map, List.append_nil]

/-! ## Programs -/

/-- A program is read exactly where one is derived, up to an end-of-input token that stands
last. -/
theorem program_eq_ok_iff {ts : List Token} {tree : Program} :
    program ts = .ok tree ↔ ∃ body, DerivesProgram body tree ∧
      (ts = body ∨ ∃ last : Token, last.kind = .eof ∧ ts = body ++ [last]) := by
  constructor
  · intro h
    rw [program] at h
    obtain ⟨name, us, hheader, h⟩ := reading_bind_eq_ok_iff.mp h
    obtain ⟨⟨imports, vs⟩, himports, h⟩ := bind_eq_ok_iff.mp h
    obtain ⟨⟨items, rest⟩, hitems, h⟩ := bind_eq_ok_iff.mp h
    obtain ⟨keyword, ns, closing, rfl, hkeyword, hns, hclosing⟩ := moduleHeader_sound hheader
    obtain ⟨is, rfl, his, rfl⟩ := imports_sound himports
    obtain ⟨hend, ds, rfl, hds, rfl⟩ := items_sound hitems
    dsimp only at h
    split at h
    · simp [throw, throwThe, MonadExceptOf.throw] at h
    · rename_i hshort
      obtain rfl := Except.ok.inj h
      refine ⟨_, .intro hkeyword hns hclosing his hds, ?_⟩
      -- the declarations end at the end of the input, so at most that token is left
      match rest with
      | [] => exact .inl (by simp)
      | [last] => exact .inr ⟨last, hend, by simp⟩
      | other :: extra :: more => exact absurd rfl (hshort other extra more)
  · rintro ⟨_, @⟨us, keyword, closing, segments, is, ds, hkeyword, hus, hclosing, his, hds⟩, hts⟩
    -- what is left after the body is read: nothing, or the end-of-input token
    obtain ⟨rest, hend, hrest, rfl⟩ : ∃ rest : List Token, ahead rest = .eof ∧ rest.length ≤ 1 ∧
        ts = keyword ::
          (us ++ closing :: (is.flatMap Prod.fst ++ (ds.flatMap Prod.fst ++ rest))) := by
      rcases hts with rfl | ⟨last, hlast, rfl⟩
      · exact ⟨[], rfl, by simp, by simp⟩
      · exact ⟨[last], hlast, by simp, by simp⟩
    have hahead : ahead (ds.flatMap Prod.fst ++ rest) ≠ .kwImport := by
      apply ahead_items_ne (by decide) hds
      intro _
      rw [hend]
      decide
    rw [program, reading_bind_eq_ok_iff]
    refine ⟨⟨segments⟩, _, moduleHeader_complete hkeyword hus hclosing _, ?_⟩
    refine bind_eq_ok_iff.mpr ⟨_, imports_complete his hahead, ?_⟩
    refine bind_eq_ok_iff.mpr ⟨_, items_complete hds hend, ?_⟩
    dsimp only
    split
    · simp at hrest
    · rfl

/-! ## The last token -/

/-- The list ends in a semicolon or a closing brace. -/
def Closed (us : List Token) : Prop :=
  ∃ init last, us = init ++ [last] ∧ (last.kind = .semicolon ∨ last.kind = .rbrace)

theorem Closed.prepend {us : List Token} (h : Closed us) (ts : List Token) : Closed (ts ++ us) := by
  obtain ⟨init, last, rfl, hlast⟩ := h
  exact ⟨ts ++ init, last, by simp, hlast⟩

/-- A closed list stays closed when closed lists are put after it. -/
theorem Closed.append_parts {α : Type} {us : List Token} (h : Closed us)
    {parts : List (List Token × α)} (hparts : ∀ part ∈ parts, Closed part.1) :
    Closed (us ++ parts.flatMap Prod.fst) := by
  induction parts generalizing us with
  | nil => simpa using h
  | cons part others ih =>
    have hpart := (hparts part List.mem_cons_self).prepend us
    rw [List.flatMap_cons, ← List.append_assoc]
    exact ih hpart fun other hother => hparts other (List.mem_cons_of_mem part hother)

theorem DerivesImport.closed {us : List Token} {decl : Import} (h : DerivesImport us decl) :
    Closed us := by
  cases h with
  | @bare us keyword closing _ _ _ hclosing => exact ⟨keyword :: us, closing, rfl, .inl hclosing⟩
  | @renamed us keyword sign name closing _ _ _ _ _ hclosing =>
    exact ⟨keyword :: (us ++ [sign, name]), closing, by simp, .inl hclosing⟩

theorem DerivesItem.closed {us : List Token} {tree : Item} (h : DerivesItem us tree) :
    Closed us := by
  -- functions end in a block, everything else in a semicolon
  have hblock : ∀ {block : List Token} {body : List Stmt}, DerivesStmt block (.block body) →
      Closed block := by
    intro block body h
    cases h with
    | @block opening closing body _ _ hclosing =>
      exact ⟨opening :: body.flatMap Prod.fst, closing, rfl, .inr hclosing⟩
  cases h with
  | @typeAlias us keyword name sign closing _ _ _ _ _ hclosing =>
    exact ⟨keyword :: name :: sign :: us, closing, rfl, .inl hclosing⟩
  | @struct inner keyword name opening last closing _ _ _ _ _ _ _ hclosing =>
    exact ⟨keyword :: name :: opening :: (inner ++ [last]), closing, by simp, .inl hclosing⟩
  | @const us vs keyword sign closing _ _ _ _ _ _ hclosing =>
    exact ⟨keyword :: (us ++ sign :: vs), closing, by simp, .inl hclosing⟩
  | @procedure inner block keyword name opening last _ _ _ _ _ _ _ _ h =>
    have whole := (hblock h).prepend (keyword :: name :: opening :: (inner ++ [last]))
    simpa using whole
  | @function inner us block keyword name opening last arrow _ _ _ _ _ _ _ _ _ _ _ h =>
    have whole := (hblock h).prepend (keyword :: name :: opening :: (inner ++ last :: arrow :: us))
    simpa using whole
  | letDecl h =>
    cases h with
    | @bare us keyword closing _ _ _ hclosing =>
      exact ⟨keyword :: us, closing, rfl, .inl hclosing⟩
    | @valued us vs keyword sign closing _ _ _ _ _ _ hclosing =>
      exact ⟨keyword :: (us ++ sign :: vs), closing, by simp, .inl hclosing⟩

theorem DerivesProgram.closed {us : List Token} {tree : Program} (h : DerivesProgram us tree) :
    Closed us := by
  obtain @⟨us, keyword, closing, segments, imports, items, -, -, hclosing, himports, hitems⟩ := h
  have header : Closed (keyword :: (us ++ [closing])) :=
    ⟨keyword :: us, closing, rfl, .inl hclosing⟩
  have whole := (header.append_parts fun decl hdecl => (himports decl hdecl).closed).append_parts
    fun item hitem => (hitems item hitem).closed
  simpa using whole

/-- A list with an end-of-input token last is a program exactly if what stands before it derives
the program: no derivation ends in such a token. -/
theorem program_append_eof_iff {us : List Token} {last : Token} (hlast : last.kind = .eof)
    {tree : Program} : program (us ++ [last]) = .ok tree ↔ DerivesProgram us tree := by
  rw [program_eq_ok_iff]
  constructor
  · rintro ⟨body, hbody, hts | ⟨other, -, hts⟩⟩
    -- the body would take in the end-of-input token, but it ends in another one
    · obtain ⟨init, closing, rfl, hclosing⟩ := hbody.closed
      obtain ⟨-, hlists⟩ := List.append_inj' hts rfl
      obtain rfl := List.singleton_inj.mp hlists
      rw [hlast] at hclosing
      exact absurd hclosing (by decide)
    · obtain ⟨rfl, -⟩ := List.append_inj' hts rfl
      exact hbody
  · intro h
    exact ⟨us, h, .inr ⟨last, hlast, rfl⟩⟩

end Quill.Grammar

namespace Quill.Program

open Quill.Grammar

/-- The parser accepts what the reader of programs accepts. -/
theorem ofTokens_eq_ok_iff_program {ts : List Token} {tree : Program} :
    ofTokens ts = .ok tree ↔ Grammar.program ts = .ok tree := by
  rw [ofTokens]
  cases Grammar.program ts <;> simp

/-- The grammar decides what a program is: a token list is a program exactly if it derives that
program, alone or before an end-of-input token that stands last. -/
theorem ofTokens_eq_ok_iff (ts : List Token) (program : Program) :
    ofTokens ts = .ok program ↔ ∃ body, DerivesProgram body program ∧
      (ts = body ∨ ∃ last : Token, last.kind = .eof ∧ ts = body ++ [last]) := by
  rw [ofTokens_eq_ok_iff_program, program_eq_ok_iff]

end Quill.Program
