import Quill.Report.Quoted
import Quill.Proofs.Report.Layouts

/-!
# Quoted texts are told apart

A quoted text determines the text, also when more follows it, if the escapes of characters form a
prefix code and no escape starts with the quote that ends the text (`IsEscape`). The quotes and
escapes keep line feeds and leading spaces off the line as well.

The escapes of JSON and those of outlines are of this kind. A character that needs one has an escape
after a backslash; the others stand for themselves, and the backslash is not one of these. In an
outline the escape may be a code point of any length, which the brace after it ends.
-/

set_option autoImplicit false

namespace Quill.Report

/-- The escapes of characters can be told apart in a quoted text on one line. -/
structure IsEscape (escape : Char → String) : Prop where
  code : IsPrefixCode (fun _ => True) fun c => (escape c).toList
  ne_quote (c : Char) (s t : List Char) : (escape c).toList ++ s ≠ '"' :: t
  lineFeed (c : Char) : '\n' ∉ (escape c).toList

section

variable {escape : Char → String}

theorem toList_quoted (escape : Char → String) (text : String) :
    (quoted escape text).toList =
      '"' :: (text.toList.flatMap (fun c => (escape c).toList) ++ ['"']) := by
  simp [quoted, List.flatMap_map]

/-- Quoted texts form a prefix code: the first quote that is no part of an escape ends the text. -/
theorem IsEscape.quoted_inj (hescape : IsEscape escape) {a b : String} {s t : List Char}
    (h : (quoted escape a).toList ++ s = (quoted escape b).toList ++ t) : a = b ∧ s = t := by
  rw [toList_quoted, toList_quoted] at h
  simp only [List.cons_append, List.append_assoc, List.nil_append] at h
  have hquote : ∀ (rest : List Char) (c : Char) (more : List Char), True →
      (escape c).toList ++ more ≠ '"' :: rest :=
    fun rest c more _ => hescape.ne_quote c more rest
  obtain ⟨htext, hrest⟩ := hescape.code.flatMap (hquote s) (hquote t) (fun _ _ => trivial)
    (fun _ _ => trivial) (List.cons.inj h).2
  exact ⟨String.toList_injective htext, (List.cons.inj hrest).2⟩

/-- A quoted text is plain: line feeds are escaped, and it starts with a quote. -/
theorem quoted_plain (hescape : IsEscape escape) (text : String) : Plain (quoted escape text) := by
  refine ⟨?_, ?_⟩
  · rw [toList_quoted]
    simp only [List.mem_cons, List.mem_append, List.mem_flatMap, List.not_mem_nil, or_false]
    rintro (hquote | ⟨c, -, hc⟩ | hquote)
    · exact absurd hquote (by decide)
    · exact hescape.lineFeed c hc
    · exact absurd hquote (by decide)
  · simp [toList_quoted]

theorem quoted_ended (escape : Char → String) (text : String) : Ended (quoted escape text) :=
  Ended.append _ (by decide)

/-- Escapes after a backslash that can be told apart, where all other characters stand for
themselves, and quote, backslash and line feed do not. -/
theorem isEscape_of_backslash {special : Char → Prop} (hquote : special '"')
    (hbackslash : special '\\') (hlineFeed : special '\n')
    (hself : ∀ c, ¬ special c → escape c = c.toString)
    (hescape : ∀ c, special c → ∃ more, (escape c).toList = '\\' :: more ∧ '\n' ∉ more)
    (hcode : IsPrefixCode special fun c => (escape c).toList) : IsEscape escape := by
  have hplain : ∀ c, ¬ special c → (escape c).toList = [c] := by
    intro c hc
    rw [hself c hc, Char.toString_eq_singleton, String.toList_singleton]
  have hne : ∀ c, ¬ special c → c ≠ '\\' := by
    rintro c hc rfl
    exact hc hbackslash
  refine ⟨?_, ?_, ?_⟩
  · intro c d _ _ s t (h : (escape c).toList ++ s = (escape d).toList ++ t)
    -- an escape and a character by itself are told apart by the backslash
    by_cases hc : special c <;> by_cases hd : special d
    · exact hcode c d hc hd s t h
    · obtain ⟨more, hcs, -⟩ := hescape c hc
      rw [hcs, hplain d hd] at h
      exact absurd (List.cons.inj h).1.symm (hne d hd)
    · obtain ⟨more, hds, -⟩ := hescape d hd
      rw [hds, hplain c hc] at h
      exact absurd (List.cons.inj h).1 (hne c hc)
    · rw [hplain c hc, hplain d hd] at h
      exact (List.cons.inj h).1
  · intro c s t h
    by_cases hc : special c
    · obtain ⟨more, hcs, -⟩ := hescape c hc
      rw [hcs] at h
      exact absurd (List.cons.inj h).1 (by decide)
    · rw [hplain c hc] at h
      obtain rfl := (List.cons.inj h).1
      exact hc hquote
  · intro c h
    by_cases hc : special c
    · obtain ⟨more, hcs, hmore⟩ := hescape c hc
      rw [hcs, List.mem_cons] at h
      exact h.elim (by decide) hmore
    · rw [hplain c hc, List.mem_singleton] at h
      obtain rfl := h
      exact hc hlineFeed

end

/-! ## The escapes of JSON -/

/-- The characters that JSON does not write as themselves. -/
def jsonSpecials : List Char :=
  '"' :: '\\' :: (List.range 0x20).map Char.ofNat

/-- Every other character stands for itself. -/
theorem jsonEscape_eq_toString {c : Char} (h : c ∉ jsonSpecials) : jsonEscape c = c.toString := by
  have hquote : c ≠ '"' := fun hc => h (by rw [hc]; exact List.mem_cons_self)
  have hbackslash : c ≠ '\\' :=
    fun hc => h (by rw [hc]; exact List.mem_cons_of_mem _ List.mem_cons_self)
  have hcontrol : ¬ c.toNat < 0x20 := by
    intro hlow
    refine h (List.mem_cons_of_mem _ (List.mem_cons_of_mem _ (List.mem_map.mpr ⟨c.toNat, ?_, ?_⟩)))
    · exact List.mem_range.mpr hlow
    · exact Char.ofNat_toNat c
  -- so no test of the escape but the last one holds
  have hne : ∀ d : Char, d.toNat < 0x20 → c ≠ d := by
    rintro d hd rfl
    exact hcontrol hd
  unfold jsonEscape
  rw [if_neg hquote, if_neg hbackslash, if_neg (hne '\n' (by decide)),
    if_neg (hne '\r' (by decide)), if_neg (hne '\t' (by decide)), if_neg (by omega),
    if_neg (by omega), if_neg (by omega), if_neg hcontrol]

/-- The escape of a special character is a backslash with more, on one line. -/
theorem jsonEscape_of_special {c : Char} (h : c ∈ jsonSpecials) :
    ∃ more, (jsonEscape c).toList = '\\' :: more ∧ '\n' ∉ more := by
  have hall : jsonSpecials.all (fun c => (jsonEscape c).toList.head? == some '\\' &&
      !(jsonEscape c).toList.contains '\n') = true := by
    decide +kernel
  obtain ⟨hhead, hline⟩ :
      (jsonEscape c).toList.head? = some '\\' ∧ '\n' ∉ (jsonEscape c).toList := by
    simpa using List.all_eq_true.mp hall c h
  obtain ⟨more, hmore⟩ := List.head?_eq_some_iff.mp hhead
  rw [hmore] at hline
  exact ⟨more, hmore, fun hmem => hline (List.mem_cons_of_mem _ hmem)⟩

/-- The escape of a special character is not the start of that of another one. -/
theorem eq_of_jsonEscape_starts {c d : Char} (hc : c ∈ jsonSpecials) (hd : d ∈ jsonSpecials)
    (h : (jsonEscape c).toList <+: (jsonEscape d).toList) : c = d := by
  have hall : jsonSpecials.all (fun c => jsonSpecials.all fun d =>
      !(jsonEscape c).toList.isPrefixOf (jsonEscape d).toList || c == d) = true := by
    decide +kernel
  have hpair := List.all_eq_true.mp (List.all_eq_true.mp hall c hc) d hd
  rw [List.isPrefixOf_iff_prefix.mpr h] at hpair
  simpa using hpair

/-- The escapes of JSON can be told apart. -/
theorem isEscape_jsonEscape : IsEscape jsonEscape := by
  have hcode : IsPrefixCode (fun c => c ∈ jsonSpecials) fun c => (jsonEscape c).toList := by
    intro c d hc hd s t (h : (jsonEscape c).toList ++ s = (jsonEscape d).toList ++ t)
    -- of two escapes that start one text, the shorter one starts the longer one
    rcases List.prefix_or_prefix_of_prefix (List.prefix_append _ s) (h ▸ List.prefix_append _ t)
      with hstart | hstart
    · exact eq_of_jsonEscape_starts hc hd hstart
    · exact (eq_of_jsonEscape_starts hd hc hstart).symm
  exact isEscape_of_backslash (by decide) (by decide) (by decide)
    (fun c => jsonEscape_eq_toString) (fun c => jsonEscape_of_special) hcode

/-! ## The escapes of outlines -/

/-- A digit of a code point. -/
theorem mem_hexDigits {n : Nat} {c : Char} (h : c ∈ Nat.toDigits 16 n) :
    ∃ digit < 16, c = Nat.digitChar digit := by
  induction n using Nat.strongRecOn with
  | ind n ih =>
    rw [Nat.toDigits_eq_if (by decide)] at h
    split at h
    · rename_i hn
      exact ⟨n, hn, List.mem_singleton.mp h⟩
    · rcases List.mem_append.mp h with hfront | hlast
      · exact ih (n / 16) (by omega) hfront
      · exact ⟨n % 16, Nat.mod_lt n (by decide), List.mem_singleton.mp hlast⟩

/-- A character that is no hexadecimal digit does not stand among the digits of a number. -/
theorem not_mem_hexDigits {c : Char} (h : ∀ digit < 16, c ≠ Nat.digitChar digit) (n : Nat) :
    c ∉ Nat.toDigits 16 n := by
  intro hmem
  obtain ⟨digit, hdigit, hc⟩ := mem_hexDigits hmem
  exact h digit hdigit hc

/-- The digits of a code point determine it. -/
theorem hexDigits_inj {m n : Nat} (h : Nat.toDigits 16 m = Nat.toDigits 16 n) : m = n := by
  have hdigits : ∀ a < 16, ∀ b < 16, Nat.digitChar a = Nat.digitChar b → a = b := by decide
  have hlonger : ∀ (k : Nat) (a b : Char), Nat.toDigits 16 (k / 16) ++ [a] ≠ [b] := by
    intro k a b h
    have hnil : Nat.toDigits 16 (k / 16) = [] := by simpa using congrArg List.dropLast h
    exact Nat.toDigits_ne_nil hnil
  -- digit by digit from the last one; a number of one digit is not the start of a longer one
  induction m using Nat.strongRecOn generalizing n with
  | ind m ih =>
    rw [Nat.toDigits_eq_if (by decide), Nat.toDigits_eq_if (n := n) (by decide)] at h
    split at h <;> split at h
    · rename_i hm hn
      exact hdigits m hm n hn (List.singleton_inj.mp h)
    · exact absurd h.symm (hlonger n _ _)
    · exact absurd h (hlonger m _ _)
    · obtain ⟨hfront, hlast⟩ := List.append_inj' h rfl
      have hquotient : m / 16 = n / 16 := ih (m / 16) (by omega) hfront
      have hremainder : m % 16 = n % 16 :=
        hdigits _ (Nat.mod_lt m (by decide)) _ (Nat.mod_lt n (by decide))
          (List.singleton_inj.mp hlast)
      omega

/-- The characters that an outline writes with a letter of their own, or as themselves, after a
backslash. -/
def outlineLetters : List (Char × Char) :=
  [('"', '"'), ('\\', '\\'), ('\n', 'n'), ('\r', 'r'), ('\t', 't'), ('\x00', '0')]

/-- The characters that an outline does not write as themselves. -/
def IsOutlineSpecial (plain : Char → Bool) (c : Char) : Prop :=
  c ∈ outlineLetters.map Prod.fst ∨ plain c = false

/-- Without a letter of its own, a character stands for itself or is written by its code point. -/
theorem outlineEscape_of_not_mem (plain : Char → Bool) {c : Char}
    (h : c ∉ outlineLetters.map Prod.fst) : outlineEscape plain c =
      if plain c then c.toString else "\\u\x7b" ++ hex c.toNat ++ "\x7d" := by
  have hne : ∀ d ∈ outlineLetters.map Prod.fst, c ≠ d := by
    rintro d hd rfl
    exact h hd
  have hzero : c.toNat ≠ 0 := by
    intro hc
    exact hne '\x00' (by decide) (Char.toNat_inj.mp hc)
  unfold outlineEscape
  rw [if_neg (hne '"' (by decide)), if_neg (hne '\\' (by decide)), if_neg (hne '\n' (by decide)),
    if_neg (hne '\r' (by decide)), if_neg (hne '\t' (by decide)), if_neg hzero]

theorem outlineEscape_of_not_special {plain : Char → Bool} {c : Char}
    (h : ¬ IsOutlineSpecial plain c) : outlineEscape plain c = c.toString := by
  rw [IsOutlineSpecial, not_or, Bool.not_eq_false] at h
  rw [outlineEscape_of_not_mem plain h.1, if_pos h.2]

/-- The escape of a special character is a letter after a backslash, or the code point. -/
theorem outlineEscape_of_special {plain : Char → Bool} {c : Char} (h : IsOutlineSpecial plain c) :
    (∃ letter, (c, letter) ∈ outlineLetters ∧ (outlineEscape plain c).toList = ['\\', letter]) ∨
      (outlineEscape plain c).toList =
        '\\' :: 'u' :: '\x7b' :: (Nat.toDigits 16 c.toNat ++ ['\x7d']) := by
  by_cases hletter : c ∈ outlineLetters.map Prod.fst
  · obtain ⟨⟨_, letter⟩, hmem, rfl⟩ := List.mem_map.mp hletter
    refine .inl ⟨letter, hmem, ?_⟩
    simp only [outlineLetters, List.mem_cons, Prod.mk.injEq, List.not_mem_nil, or_false] at hmem
    rcases hmem with ⟨rfl, rfl⟩ | ⟨rfl, rfl⟩ | ⟨rfl, rfl⟩ | ⟨rfl, rfl⟩ | ⟨rfl, rfl⟩ | ⟨rfl, rfl⟩ <;>
      simp [outlineEscape]
  · right
    rw [outlineEscape_of_not_mem plain hletter, if_neg (by simp [h.resolve_left hletter])]
    simp [hex]

/-- The escapes of outlines can be told apart, whatever characters are plain. -/
theorem isEscape_outlineEscape (plain : Char → Bool) : IsEscape (outlineEscape plain) := by
  have hletters : ∀ pair ∈ outlineLetters, pair.2 ≠ '\n' ∧ pair.2 ≠ 'u' ∧
      ∀ other ∈ outlineLetters, pair.2 = other.2 → pair.1 = other.1 := by
    decide
  have hbrace : ∀ n, '\x7d' ∉ Nat.toDigits 16 n := not_mem_hexDigits (by decide)
  have hlineFeed : ∀ n, '\n' ∉ Nat.toDigits 16 n := not_mem_hexDigits (by decide)
  have hspecial : ∀ d ∈ outlineLetters.map Prod.fst, IsOutlineSpecial plain d :=
    fun d hd => .inl hd
  apply isEscape_of_backslash (hspecial '"' (by decide)) (hspecial '\\' (by decide))
    (hspecial '\n' (by decide))
  · exact fun c => outlineEscape_of_not_special
  · intro c hc
    rcases outlineEscape_of_special hc with ⟨letter, hmem, hcs⟩ | hcs
    · exact ⟨_, hcs, by simpa using (hletters _ hmem).1.symm⟩
    · exact ⟨_, hcs, by simp [hlineFeed]⟩
  · intro c d hc hd s t (h : (outlineEscape plain c).toList ++ s =
      (outlineEscape plain d).toList ++ t)
    -- the letters differ, and none of them starts a code point, which its brace ends
    rcases outlineEscape_of_special hc with ⟨letter, hmem, hcs⟩ | hcs <;>
      rcases outlineEscape_of_special hd with ⟨letter', hmem', hds⟩ | hds <;>
      simp only [hcs, hds, List.cons_append, List.append_assoc, List.nil_append, List.cons.injEq,
        true_and] at h
    · exact (hletters _ hmem).2.2 _ hmem' h.1
    · exact absurd h.1 (hletters _ hmem).2.1
    · exact absurd h.1.symm (hletters _ hmem').2.1
    · exact Char.toNat_inj.mp (hexDigits_inj (eq_of_append_cons (hbrace _) (hbrace _) h))

end Quill.Report
