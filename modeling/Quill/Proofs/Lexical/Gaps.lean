import Quill.Cursor.Gap
import Quill.Proofs.Lexical.Rules

/-!
# Passing gaps

The cursor passes exactly the longest gap at which it stands.

* `closeComment?_eq_some_iff`: the scan for the end of a comment finds the first two slashes.
* `passGap_sound`: what is passed is a gap, the position moves over it, and no further gap
  starts after it.
* `passGap_append`: a gap at the head of a text is passed before what follows it.
* `passGap_complete`: a gap after which no other starts is passed as a whole.
-/

set_option autoImplicit false

namespace Quill.Lexical

open Quill.Text Quill.Cursor

/-! ## The inside of a comment -/

/-- A comment may be empty. -/
theorem isInside_nil : IsInside [] := by
  intro before after h
  cases before with
  | nil => rfl
  | cons c cs =>
    have short := congrArg List.length h
    simp only [List.nil_append, List.length_cons, List.length_append, List.length_nil] at short
    omega

/-- A character may be put before the inside of a comment unless two slashes arise. -/
theorem isInside_cons {c : Char} {cs : List Char} :
    IsInside (c :: cs) ↔ IsInside cs ∧ ¬ (c = '/' ∧ StartsWith (· == '/') (cs ++ ['/', '/'])) := by
  constructor
  · intro h
    constructor
    · intro before after hsplit
      -- a split of the shorter text, with `c` put in front, is one of the longer text
      have whole := h (c :: before) after (by rw [List.cons_append, hsplit, List.cons_append])
      exact (List.cons.inj whole).2
    · rintro ⟨rfl, hstart⟩
      cases hcs : cs ++ ['/', '/'] with
      | nil => simp at hcs
      | cons d ds =>
        rw [hcs] at hstart
        have hd : d = '/' := by simpa [StartsWith] using hstart
        subst hd
        -- the two slashes would close the comment before its inside is over
        have early := h [] ds (by rw [List.cons_append, hcs, List.nil_append])
        exact absurd early (by simp)
  · rintro ⟨h, hstart⟩ before after hsplit
    cases before with
    | nil =>
      rw [List.cons_append, List.nil_append] at hsplit
      obtain ⟨rfl, htail⟩ := List.cons.inj hsplit
      exact absurd ⟨rfl, by rw [htail]; simp [StartsWith]⟩ hstart
    | cons d ds =>
      rw [List.cons_append, List.cons_append] at hsplit
      obtain ⟨rfl, htail⟩ := List.cons.inj hsplit
      rw [h ds after htail]

/-- The scan for the end of a comment finds the first two slashes in a row. -/
theorem closeComment?_eq_some_iff {cs : List Char} {pos : Pos} {after : Cursor} :
    closeComment? cs pos = some after ↔ ∃ inside, IsInside inside ∧
      cs = inside ++ '/' :: '/' :: after.rest ∧ after.pos = pos.advance (inside ++ ['/', '/']) := by
  fun_induction closeComment? cs pos with
  | case1 pos cs =>
    constructor
    · intro h
      obtain rfl := Option.some.inj h
      exact ⟨[], isInside_nil, rfl, rfl⟩
    · rintro ⟨inside, hi, hcs, hpos⟩
      -- the two slashes at the head end the inside, which is therefore empty
      cases inside with
      | nil =>
        simp only [List.nil_append, List.cons.injEq, true_and] at hcs
        rw [hcs]
        exact congrArg some (Cursor.mk.injEq .. |>.mpr ⟨rfl, hpos.symm⟩)
      | cons d ds =>
        simp only [List.cons_append, List.cons.injEq] at hcs
        obtain ⟨rfl, hcs⟩ := hcs
        refine absurd ⟨rfl, ?_⟩ (isInside_cons.mp hi).2
        cases ds with
        | nil => simp [StartsWith]
        | cons e es =>
          simp only [List.cons_append, List.cons.injEq] at hcs
          simp [StartsWith, ← hcs.1]
  | case2 pos c cs hnot ih =>
    rw [ih]
    constructor
    · rintro ⟨inside, hi, rfl, hpos⟩
      refine ⟨c :: inside, isInside_cons.mpr ⟨hi, ?_⟩, rfl, hpos⟩
      rintro ⟨rfl, hstart⟩
      cases inside with
      | nil => exact hnot _ rfl rfl
      | cons d ds =>
        have hd : d = '/' := by simpa [StartsWith] using hstart
        subst hd
        exact hnot _ rfl rfl
    · rintro ⟨inside, hi, hcs, hpos⟩
      cases inside with
      | nil =>
        simp only [List.nil_append, List.cons.injEq] at hcs
        obtain ⟨rfl, rfl⟩ := hcs
        exact absurd rfl (hnot _ rfl)
      | cons d ds =>
        simp only [List.cons_append, List.cons.injEq] at hcs
        obtain ⟨rfl, rfl⟩ := hcs
        exact ⟨ds, (isInside_cons.mp hi).1, rfl, hpos⟩
  | case3 pos =>
    constructor
    · simp
    · rintro ⟨inside, -, hcs, -⟩
      simp at hcs

/-- A comment at the head of a text is passed exactly if it is closed. -/
theorem comment?_eq_some_iff {cs : List Char} {pos : Pos} {after : Cursor} :
    comment? cs pos = some after ↔ ∃ inside, IsInside inside ∧
      cs = '/' :: '/' :: (inside ++ '/' :: '/' :: after.rest) ∧
      after.pos = pos.advance ('/' :: '/' :: (inside ++ ['/', '/'])) := by
  unfold comment?
  split
  · rename_i rest
    rw [closeComment?_eq_some_iff]
    constructor
    · rintro ⟨inside, hi, rfl, hpos⟩
      exact ⟨inside, hi, rfl, hpos⟩
    · rintro ⟨inside, hi, hcs, hpos⟩
      simp only [List.cons.injEq, true_and] at hcs
      exact ⟨inside, hi, hcs, hpos⟩
  · rename_i hnot
    constructor
    · simp
    · rintro ⟨inside, -, rfl, -⟩
      exact absurd rfl (hnot _)

/-! ## Gaps -/

/-- What the cursor passes is a gap, and no further gap starts where it stops. -/
theorem passGap_sound (cs : List Char) (pos : Pos) : ∃ gap, Gap gap ∧
    cs = gap ++ (passGap cs pos).rest ∧ (passGap cs pos).pos = pos.advance gap ∧
    Settled (passGap cs pos).rest := by
  -- the cases of the scan: the end, white space, a closed comment, anything else
  fun_induction passGap cs pos with
  | case1 pos =>
    refine ⟨[], .nil, rfl, rfl, ?_⟩
    intro gap rest _ h
    exact (List.append_eq_nil_iff.mp h.symm).1
  | case2 pos c cs hc ih =>
    obtain ⟨gap, hg, hcs, hpos, hend⟩ := ih
    exact ⟨c :: gap, .space hc hg, by rw [List.cons_append, ← hcs], hpos, hend⟩
  | case3 pos c cs hc after passed ih =>
    obtain ⟨gap, hg, hrest, hpos, hend⟩ := ih
    obtain ⟨inside, hi, hcs, hafter⟩ := comment?_eq_some_iff.mp passed
    refine ⟨'/' :: '/' :: (inside ++ '/' :: '/' :: gap), .comment hi hg, ?_, ?_, hend⟩
    · rw [hcs]
      simp only [List.cons_append, List.append_assoc]
      rw [← hrest]
    · rw [hpos, hafter, ← Pos.advance_append]
      simp
  | case4 pos c cs hc passed =>
    refine ⟨[], .nil, rfl, rfl, ?_⟩
    -- a gap here could only start with the white space or the comment that was not found
    intro gap rest hg h
    cases hg with
    | nil => rfl
    | space hd _ =>
      simp only [List.cons_append, List.cons.injEq] at h
      exact absurd (h.1 ▸ hd) hc
    | @comment inside ds hi _ =>
      have found : comment? (c :: cs) pos = some ⟨ds ++ rest,
          pos.advance ('/' :: '/' :: (inside ++ ['/', '/']))⟩ :=
        comment?_eq_some_iff.mpr ⟨inside, hi, by simpa using h, rfl⟩
      rw [passed] at found
      simp at found

/-- A gap at the head of a text is passed, and then whatever gap follows it. -/
theorem passGap_append {gap : List Char} (hg : Gap gap) (rest : List Char) (pos : Pos) :
    passGap (gap ++ rest) pos = passGap rest (pos.advance gap) := by
  induction hg generalizing pos with
  | nil => rfl
  | @space c cs hc _ ih =>
    rw [List.cons_append, passGap, if_pos hc]
    exact ih (pos.step c)
  | @comment inside cs hi _ ih =>
    -- whatever follows the comment, the comment is found where it stands
    have found : comment? ('/' :: '/' :: (inside ++ '/' :: '/' :: cs) ++ rest) pos =
        some ⟨cs ++ rest, pos.advance ('/' :: '/' :: (inside ++ ['/', '/']))⟩ :=
      comment?_eq_some_iff.mpr ⟨inside, hi, by simp, rfl⟩
    rw [List.cons_append] at found ⊢
    rw [passGap, if_neg (by decide)]
    split
    · rename_i after passed
      obtain rfl := Option.some.inj (passed.symm.trans found)
      rw [ih, ← Pos.advance_append]
      simp
    · rename_i passed
      rw [found] at passed
      simp at passed

/-- A gap that ends where no other gap starts is passed as a whole. -/
theorem passGap_complete {gap rest : List Char} (hg : Gap gap) (hend : Settled rest) (pos : Pos) :
    passGap (gap ++ rest) pos = ⟨rest, pos.advance gap⟩ := by
  rw [passGap_append hg]
  -- what is passed of `rest` is a gap at its head, hence empty
  obtain ⟨more, hmore, hrest, hpos, -⟩ := passGap_sound rest (pos.advance gap)
  obtain rfl := hend more _ hmore hrest
  rw [List.nil_append] at hrest
  exact Cursor.mk.injEq .. |>.mpr ⟨hrest.symm, hpos⟩

end Quill.Lexical
