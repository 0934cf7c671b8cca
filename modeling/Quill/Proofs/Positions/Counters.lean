import Quill.Text.Position

/-!
# Lines and columns in 32 bits

A position is a pair of natural numbers, which have no greatest. Counters hold a line and a column
in 32 bits each, and for each character one of them is incremented: the line at a line feed, the
column at any other character. An increment overflows where the sum is no number of 32 bits; the
counters are then worth nothing, so moving them gives no result.

As long as no increment overflows, counters show the position that they stand for, and whether one
overflows is decided by the positions on the way over the text alone: each of them has to fit into
32 bits (`Counters.advance?_eq_some_iff`, `Pos.countsTo_iff`).
-/

set_option autoImplicit false

namespace Quill

/-! ## The way over a text -/

namespace Pos

/-- A property holds of every position on the way over a text, the first and the last included. -/
def Along (property : Pos → Prop) (p : Pos) (text : List Char) : Prop :=
  ∀ used, used <+: text → property (p.advance used)

theorem along_nil {property : Pos → Prop} {p : Pos} : p.Along property [] ↔ property p := by
  simp [Along]

theorem along_cons {property : Pos → Prop} {p : Pos} {c : Char} {text : List Char} :
    p.Along property (c :: text) ↔ property p ∧ (p.step c).Along property text := by
  constructor
  · intro h
    refine ⟨h [] List.nil_prefix, fun used hused => ?_⟩
    exact h (c :: used) (List.cons_prefix_cons.mpr ⟨rfl, hused⟩)
  · rintro ⟨hfirst, hnext⟩ used hused
    rcases List.prefix_cons_iff.mp hused with rfl | ⟨more, rfl, hmore⟩
    · exact hfirst
    · exact hnext more hmore

/-- What holds along a text may be weakened. -/
theorem Along.imp {property other : Pos → Prop} {p : Pos} {text : List Char}
    (h : p.Along property text) (himp : ∀ q, property q → other q) : p.Along other text :=
  fun used hused => himp _ (h used hused)

/-- Line and column are numbers of 32 bits. -/
def Fits (p : Pos) : Prop :=
  p.line < UInt32.size ∧ p.column < UInt32.size

end Pos

/-! ## Counters -/

/-- A line and a column, each held in 32 bits. -/
structure Counters where
  line : UInt32
  column : UInt32
deriving DecidableEq, Repr

namespace Counters

/-- The position that counters show. -/
def pos (k : Counters) : Pos := ⟨k.line.toNat, k.column.toNat⟩

/-- One more than a number of 32 bits, unless this overflows. -/
def increment? (n : UInt32) : Option UInt32 :=
  if n.toNat + 1 < UInt32.size then some (n + 1) else none

/-- The counters after one character, unless the increment overflows. -/
def step? (k : Counters) (c : Char) : Option Counters :=
  if c = '\n' then (increment? k.line).map fun line => ⟨line, 1⟩
  else (increment? k.column).map fun column => ⟨k.line, column⟩

/-- The counters after a text, unless an increment on the way overflows. -/
def advance? (k : Counters) (text : List Char) : Option Counters :=
  text.foldlM step? k

theorem pos_fits (k : Counters) : k.pos.Fits :=
  ⟨k.line.toNat_lt_size, k.column.toNat_lt_size⟩

theorem pos_inj {k k' : Counters} : k.pos = k'.pos ↔ k = k' := by
  obtain ⟨line, column⟩ := k
  obtain ⟨line', column'⟩ := k'
  simp [pos, UInt32.toNat_inj]

/-- Every position that fits is shown by counters. -/
theorem exists_pos_eq {p : Pos} (h : p.Fits) : ∃ k : Counters, k.pos = p := by
  refine ⟨⟨UInt32.ofNat p.line, UInt32.ofNat p.column⟩, ?_⟩
  rw [pos, UInt32.toNat_ofNat_of_lt' h.1, UInt32.toNat_ofNat_of_lt' h.2]

/-- A counter goes up by one exactly when the number one greater has room in it. -/
theorem increment?_eq_some_iff {n m : UInt32} :
    increment? n = some m ↔ m.toNat = n.toNat + 1 := by
  unfold increment?
  split
  · rename_i hlt
    have hsum : (n + 1).toNat = n.toNat + 1 := by
      rw [UInt32.toNat_add]
      exact Nat.mod_eq_of_lt hlt
    rw [Option.some.injEq, ← UInt32.toNat_inj, hsum, eq_comm]
  · have := m.toNat_lt_size
    simp only [reduceCtorEq, false_iff]
    omega

/-- A step of the counters is a step of the position that they show. -/
theorem step?_eq_some_iff {k k' : Counters} {c : Char} :
    k.step? c = some k' ↔ k'.pos = k.pos.step c := by
  unfold step? Pos.step
  split
  · -- a line feed: the line goes up, and the column starts again
    rw [Option.map_eq_some_iff]
    constructor
    · rintro ⟨line, hline, rfl⟩
      exact congrArg (Pos.mk · 1) (increment?_eq_some_iff.mp hline)
    · intro h
      have hline := (Pos.mk.inj h).1
      refine ⟨k'.line, increment?_eq_some_iff.mpr hline, pos_inj.mp ?_⟩
      rw [h]
      exact congrArg (Pos.mk · 1) hline
  · rw [Option.map_eq_some_iff]
    constructor
    · rintro ⟨column, hcolumn, rfl⟩
      exact congrArg (Pos.mk k.line.toNat) (increment?_eq_some_iff.mp hcolumn)
    · intro h
      have hcolumn := (Pos.mk.inj h).2
      refine ⟨k'.column, increment?_eq_some_iff.mpr hcolumn, pos_inj.mp ?_⟩
      rw [h]
      exact congrArg (Pos.mk k.line.toNat) hcolumn

/-- Counters move over a text just when all positions on the way fit, and they then show the
position after the text. -/
theorem advance?_eq_some_iff {k k' : Counters} {text : List Char} :
    k.advance? text = some k' ↔ k.pos.Along Pos.Fits text ∧ k'.pos = k.pos.advance text := by
  induction text generalizing k with
  | nil =>
    rw [Pos.along_nil, Pos.advance_nil, pos_inj, eq_comm (a := k')]
    simp [advance?, pos_fits]
  | cons c text ih =>
    have hfirst : k.advance? (c :: text) = (k.step? c).bind fun m => m.advance? text := by
      rw [advance?, List.foldlM_cons]
      rfl
    rw [hfirst, Option.bind_eq_some_iff, Pos.along_cons, Pos.advance_cons]
    constructor
    · rintro ⟨m, hstep, hrest⟩
      rw [step?_eq_some_iff] at hstep
      rw [ih, hstep] at hrest
      exact ⟨⟨k.pos_fits, hrest.1⟩, hrest.2⟩
    · rintro ⟨⟨-, hrest⟩, hend⟩
      -- the position after the first character fits, so that counters show it
      obtain ⟨m, hm⟩ := exists_pos_eq (hrest [] List.nil_prefix)
      rw [Pos.advance_nil] at hm
      refine ⟨m, step?_eq_some_iff.mpr hm, ih.mpr ?_⟩
      rw [hm]
      exact ⟨hrest, hend⟩

/-- From the greatest column a line feed can be passed, and no other character. -/
example : (⟨1, 4294967295⟩ : Counters).advance? ['\n', 'x'] = some ⟨2, 2⟩ ∧
    (⟨1, 4294967295⟩ : Counters).advance? ['x', '\n'] = none := by
  decide

end Counters

/-! ## Counting without overflow -/

/-- Counting in 32 bits leads over the text from one position to another: there are counters that
show the first, no increment overflows while they are moved over the text, and they then show the
second. -/
def Pos.CountsTo (p : Pos) (text : List Char) (q : Pos) : Prop :=
  ∃ k k' : Counters, k.pos = p ∧ k.advance? text = some k' ∧ k'.pos = q

/-- Counting in 32 bits leads to the position after the text just when all positions on the way
fit. -/
theorem Pos.countsTo_iff {p q : Pos} {text : List Char} :
    p.CountsTo text q ↔ p.Along Fits text ∧ q = p.advance text := by
  constructor
  · rintro ⟨k, k', rfl, hmoved, rfl⟩
    exact Counters.advance?_eq_some_iff.mp hmoved
  · rintro ⟨hway, rfl⟩
    obtain ⟨k, rfl⟩ := Counters.exists_pos_eq (hway [] List.nil_prefix)
    obtain ⟨k', hk'⟩ := Counters.exists_pos_eq (hway text List.prefix_rfl)
    exact ⟨k, k', rfl, Counters.advance?_eq_some_iff.mpr ⟨hway, hk'⟩, hk'⟩

end Quill
