import Quill.Report.Layout

/-!
# Reading a layout back from its text

No two layouts of a report have the same text, if the words that the report puts on its lines can be
told apart (`Vocabulary.Legible`). Two facts make it so.

* A text determines its lines and their levels, because no word holds a line feed or starts with a
  space.
* The lines determine the layout, because the members of a group are all the lines that stand deeper
  than its opening.
-/

set_option autoImplicit false

namespace Quill.Report

/-! ## Prefix codes -/

section Codes

variable {α : Type} {p : α → Prop} {word : α → List Char}

/-- The words of some things tell the things apart, also when more follows: no word is the start of
another one. -/
def IsPrefixCode (p : α → Prop) (word : α → List Char) : Prop :=
  ∀ a b, p a → p b → ∀ s t, word a ++ s = word b ++ t → a = b

/-- Words one after the other, up to where no word starts, determine the things they stand for. -/
theorem IsPrefixCode.flatMap (hcode : IsPrefixCode p word) {s t : List Char}
    (hs : ∀ a rest, p a → word a ++ rest ≠ s) (ht : ∀ a rest, p a → word a ++ rest ≠ t)
    {as bs : List α} (has : ∀ a ∈ as, p a) (hbs : ∀ b ∈ bs, p b)
    (h : as.flatMap word ++ s = bs.flatMap word ++ t) : as = bs ∧ s = t := by
  -- the first words agree, and so do the rests; where one list ends no word of the other starts
  induction as generalizing bs with
  | nil =>
    cases bs with
    | nil => exact ⟨rfl, h⟩
    | cons b bs =>
      rw [List.flatMap_cons, List.append_assoc] at h
      exact absurd h.symm (hs b _ (hbs b List.mem_cons_self))
  | cons a as ih =>
    have ha := has a List.mem_cons_self
    rw [List.flatMap_cons, List.append_assoc] at h
    cases bs with
    | nil => exact absurd h (ht a _ ha)
    | cons b bs =>
      rw [List.flatMap_cons, List.append_assoc] at h
      obtain rfl := hcode a b ha (hbs b List.mem_cons_self) _ _ h
      obtain ⟨rfl, hst⟩ := ih (fun c hc => has c (List.mem_cons_of_mem a hc))
        (fun c hc => hbs c (List.mem_cons_of_mem a hc)) (List.append_cancel_left h)
      exact ⟨rfl, hst⟩

end Codes

/-! ## Words on a line -/

/-- A word that neither breaks its line nor adds to the space before it. -/
def Plain (word : String) : Prop :=
  '\n' ∉ word.toList ∧ word.toList.head? ≠ some ' '
deriving Decidable

/-- Two plain words put together are plain. -/
theorem Plain.append {first second : String} (h : Plain first) (h' : Plain second) :
    Plain (first ++ second) := by
  refine ⟨?_, ?_⟩
  · rw [String.toList_append, List.mem_append, not_or]
    exact ⟨h.1, h'.1⟩
  · rw [String.toList_append, List.head?_append]
    cases hfirst : first.toList.head? with
    | none => exact h'.2
    | some c => exact fun hc => h.2 (hfirst.trans hc)

/-- What may follow the last word of a layout: nothing, or a comma. -/
def IsAfter (after : String) : Prop :=
  after = "" ∨ after = ","

theorem IsAfter.plain {after : String} (h : IsAfter after) : Plain after := by
  rcases h with rfl | rfl <;> decide

/-- A word whose end can be told from a comma after it: it has a last character, and that is no
comma. -/
def Ended (word : String) : Prop :=
  word.toList.getLast?.getD ',' ≠ ','
deriving Decidable

theorem Ended.append (first : String) {second : String} (h : Ended second) :
    Ended (first ++ second) := by
  unfold Ended at h ⊢
  rw [String.toList_append, List.getLast?_append]
  cases hlast : second.toList.getLast? with
  | none => simp [hlast] at h
  | some c => simpa [hlast] using h

/-- A word that is ended is told from what follows it. -/
theorem Ended.append_inj {word word' after after' : String} (h : Ended word) (h' : Ended word')
    (hafter : IsAfter after) (hafter' : IsAfter after') (heq : word ++ after = word' ++ after') :
    word = word' ∧ after = after' := by
  have hnot : ∀ {ended other : String}, Ended ended → ended ≠ other ++ "," := by
    rintro ended other hended rfl
    simp [Ended] at hended
  rcases hafter with rfl | rfl <;> rcases hafter' with rfl | rfl
  · exact ⟨by simpa using heq, rfl⟩
  · exact absurd (by simpa using heq) (hnot h)
  · exact absurd (by simpa using heq.symm) (hnot h')
  · exact ⟨by simpa using heq, rfl⟩

/-! ## From a text to its lines -/

/-- What stands before the first mark in a text, such as the line feed that ends a line. -/
theorem eq_of_append_cons {mark : Char} {a b s t : List Char} (ha : mark ∉ a) (hb : mark ∉ b)
    (h : a ++ mark :: s = b ++ mark :: t) : a = b := by
  -- the longer of the two starts with the other one, and would go on with the mark
  rcases List.append_eq_append_iff.mp h with ⟨more, rfl, hmore⟩ | ⟨more, rfl, hmore⟩
  · cases more with
    | nil => exact (List.append_nil a).symm
    | cons c more =>
      obtain rfl := (List.cons.inj hmore).1
      simp at hb
  · cases more with
    | nil => exact List.append_nil b
    | cons c more =>
      obtain rfl := (List.cons.inj hmore).1
      simp at ha

/-- Space before a word that does not start with a space is told from the word. -/
theorem replicate_append_inj {m n : Nat} {s t : List Char} (hs : s.head? ≠ some ' ')
    (ht : t.head? ≠ some ' ') (h : List.replicate m ' ' ++ s = List.replicate n ' ' ++ t) :
    m = n ∧ s = t := by
  induction m generalizing n with
  | zero =>
    cases n with
    | zero => exact ⟨rfl, h⟩
    | succ n =>
      rw [List.replicate_succ, List.cons_append] at h
      exact absurd (congrArg List.head? h) hs
  | succ m ih =>
    cases n with
    | zero =>
      rw [List.replicate_succ, List.cons_append] at h
      exact absurd (congrArg List.head? h.symm) ht
    | succ n =>
      obtain ⟨rfl, hst⟩ := ih (List.cons.inj h).2
      exact ⟨rfl, hst⟩

/-- A line is written as its indentation, its text and a line feed. -/
theorem Line.toList_written (style : Style) (line : Line) :
    (line.written style).toList =
      List.replicate (style.width * line.level) ' ' ++ line.text.toList ++ ['\n'] := by
  simp [Line.written]

/-- Lines of plain words form a prefix code: the line feed ends them, and the space before the word
gives the level. -/
theorem Line.isPrefixCode_written {style : Style} (hwidth : 0 < style.width) :
    IsPrefixCode (fun line : Line => Plain line.text)
      fun line => (line.written style).toList := by
  rintro ⟨m, a⟩ ⟨n, b⟩ ha hb s t h
  -- the line feed after the word is the first one
  have hfree : ∀ {k : Nat} {word : String}, Plain word →
      '\n' ∉ List.replicate k ' ' ++ word.toList := by
    intro k word hword
    rw [List.mem_append, not_or]
    exact ⟨fun hmem => absurd (List.eq_of_mem_replicate hmem) (by decide), hword.1⟩
  simp only [toList_written, List.append_assoc _ ['\n'], List.singleton_append] at h
  obtain ⟨hlevel, htext⟩ :=
    replicate_append_inj ha.2 hb.2 (eq_of_append_cons (hfree ha) (hfree hb) h)
  obtain rfl := Nat.eq_of_mul_eq_mul_left hwidth hlevel
  obtain rfl := String.toList_injective htext
  rfl

/-- A text determines the lines it is made of. -/
theorem Line.join_written_inj {style : Style} (hwidth : 0 < style.width) {as bs : List Line}
    (has : ∀ line ∈ as, Plain line.text) (hbs : ∀ line ∈ bs, Plain line.text)
    (h : String.join (as.map (written style)) = String.join (bs.map (written style))) :
    as = bs := by
  have hnonempty : ∀ (line : Line) (rest : List Char), Plain line.text →
      (line.written style).toList ++ rest ≠ [] := by
    intro line rest _
    simp [toList_written]
  have hflat : as.flatMap (fun line => (written style line).toList) ++ [] =
      bs.flatMap (fun line => (written style line).toList) ++ [] := by
    simpa [List.flatMap_map] using congrArg String.toList h
  exact ((isPrefixCode_written hwidth).flatMap hnonempty hnonempty has hbs hflat).1

/-! ## From the lines to the layout -/

/-- The words that a report puts on its lines: the words that stand alone, the openings of groups
with their closings, and the labels in a group with a given opening. -/
structure Vocabulary where
  IsWord : String → Prop
  IsGroup : String → String → Prop
  IsLabel : String → String → Prop

/-- The words can be told apart. -/
structure Vocabulary.Legible (v : Vocabulary) : Prop where
  word_plain {word : String} : v.IsWord word → Plain word
  opening_plain {opening closing : String} : v.IsGroup opening closing → Plain opening
  closing_plain {opening closing : String} : v.IsGroup opening closing → Plain closing
  label_plain {opening label : String} : v.IsLabel opening label → Plain label
  word_ended {word : String} : v.IsWord word → Ended word
  closing_ended {opening closing : String} : v.IsGroup opening closing → Ended closing
  /-- A word is not a group without members. -/
  word_ne {word opening closing : String} :
    v.IsWord word → v.IsGroup opening closing → word ≠ opening ++ closing
  /-- A group without members shows its opening and its closing. -/
  group_inj {opening closing opening' closing' : String} :
    v.IsGroup opening closing → v.IsGroup opening' closing' →
      opening ++ closing = opening' ++ closing' → opening = opening' ∧ closing = closing'
  label_code (opening : String) : IsPrefixCode (v.IsLabel opening) String.toList

namespace Layout

mutual
/-- A layout is made of the words of a vocabulary. -/
def Uses (v : Vocabulary) : Layout → Prop
  | .line text => v.IsWord text
  | .group opening closing members => v.IsGroup opening closing ∧ MembersUse v opening members

/-- The members of a group, with their labels, are made of the words of a vocabulary. -/
def MembersUse (v : Vocabulary) (opening : String) : List (String × Layout) → Prop
  | [] => True
  | (label, member) :: members =>
    v.IsLabel opening label ∧ Uses v member ∧ MembersUse v opening members
end

/-- Lines whose first one, if there is one, stands less deep than a level. -/
def Above (level : Nat) (rest : List Line) : Prop :=
  ∀ line ∈ rest.head?, line.level < level

/-- The members of a group, one by one: a member is followed by a comma, or as the last one is. -/
theorem memberLines_cons (style : Style) (level : Nat) (label : String) (member : Layout)
    (members : List (String × Layout)) (rest : List Line) :
    memberLines style level ((label, member) :: members) rest =
      lines style level label (if members = [] then style.afterLast else ",") member
        (memberLines style level members rest) := by
  cases members <;> simp [memberLines]

/-- The first line of a layout stands at the level of the layout. -/
theorem lines_eq_cons (style : Style) (level : Nat) (label after : String) (layout : Layout)
    (rest : List Line) :
    ∃ text others, lines style level label after layout rest = ⟨level, text⟩ :: others := by
  match layout with
  | .line text => exact ⟨_, _, rfl⟩
  | .group opening closing [] => exact ⟨_, _, rfl⟩
  | .group opening closing (first :: others) => exact ⟨_, _, rfl⟩

/-- The first line of the members of a group stands at the level of the members. -/
theorem memberLines_eq_cons (style : Style) (level : Nat) (member : String × Layout)
    (members : List (String × Layout)) (rest : List Line) :
    ∃ text others, memberLines style level (member :: members) rest = ⟨level, text⟩ :: others := by
  obtain ⟨label, layout⟩ := member
  rw [memberLines_cons]
  exact lines_eq_cons _ _ _ _ _ _

theorem above_cons (level : Nat) (text : String) (others : List Line) :
    Above (level + 1) (⟨level, text⟩ :: others) := by
  rintro line ⟨⟩
  exact Nat.lt_succ_self level

/-- The members of a group are not among lines that stand above them. -/
theorem memberLines_ne_of_above {style : Style} {level : Nat} {member : String × Layout}
    {members : List (String × Layout)} {rest others : List Line} (hothers : Above level others) :
    memberLines style level (member :: members) rest ≠ others := by
  rintro rfl
  obtain ⟨text, more, hlines⟩ := memberLines_eq_cons style level member members rest
  rw [hlines] at hothers
  exact Nat.lt_irrefl level (hothers _ rfl)

/-- After a member come the next member, at its level, or the lines after the group. -/
theorem above_memberLines {style : Style} {level : Nat} {members : List (String × Layout)}
    {rest : List Line} (hrest : Above level rest) :
    Above (level + 1) (memberLines style level members rest) := by
  cases members with
  | nil =>
    intro line hline
    exact Nat.lt_succ_of_lt (hrest line hline)
  | cons member members =>
    obtain ⟨text, more, hlines⟩ := memberLines_eq_cons style level member members rest
    rw [hlines]
    exact above_cons level text more

/-- The word of a layout that is written on one line. -/
def word? : Layout → Option String
  | .line text => some text
  | .group opening closing [] => some (opening ++ closing)
  | .group _ _ (_ :: _) => none

/-- A layout with a word is one line: the label, the word and what follows. -/
theorem lines_of_word? {layout : Layout} {word : String} (h : layout.word? = some word)
    (style : Style) (level : Nat) (label after : String) (rest : List Line) :
    lines style level label after layout rest = ⟨level, label ++ (word ++ after)⟩ :: rest := by
  match layout with
  | .line text =>
    obtain rfl := Option.some.inj h
    rw [lines, String.append_assoc]
  | .group opening closing [] =>
    obtain rfl := Option.some.inj h
    simp only [lines, String.append_assoc]

/-- A layout without a word is a group with members. -/
theorem exists_members_of_word? {layout : Layout} (h : layout.word? = none) :
    ∃ opening closing member members, layout = .group opening closing (member :: members) := by
  match layout with
  | .group opening closing (member :: members) => exact ⟨opening, closing, member, members, rfl⟩

section

variable {v : Vocabulary} (hv : v.Legible)

include hv

theorem ended_of_word? {layout : Layout} (hlayout : layout.Uses v) {word : String}
    (h : layout.word? = some word) : Ended word := by
  match layout with
  | .line text =>
    obtain rfl := Option.some.inj h
    exact hv.word_ended hlayout
  | .group opening closing [] =>
    obtain rfl := Option.some.inj h
    exact (hv.closing_ended hlayout.1).append opening

/-- Layouts of one vocabulary with the same word are equal. -/
theorem eq_of_word? {a b : Layout} (ha : a.Uses v) (hb : b.Uses v) {word : String}
    (hword : a.word? = some word) (hword' : b.word? = some word) : a = b := by
  have hsame := hword.trans hword'.symm
  match a, b with
  | .line text, .line text' => exact congrArg Layout.line (Option.some.inj hsame)
  | .line text, .group opening closing [] =>
    exact absurd (Option.some.inj hsame) (hv.word_ne ha hb.1)
  | .group opening closing [], .line text =>
    exact absurd (Option.some.inj hsame).symm (hv.word_ne hb ha.1)
  | .group opening closing [], .group opening' closing' [] =>
    obtain ⟨rfl, rfl⟩ := hv.group_inj ha.1 hb.1 (Option.some.inj hsame)
    rfl

end

/-- No other layout of a vocabulary has the lines of this one, wherever it stands: after labels that
are told apart, and before lines that are not deeper. -/
def Told (v : Vocabulary) (style : Style) (a : Layout) : Prop :=
  ∀ (b : Layout) (level : Nat) (label label' after after' : String) (rest rest' : List Line),
    b.Uses v → (∀ s t, label ++ s = label' ++ t → label = label') →
    IsAfter after → IsAfter after' → Above (level + 1) rest → Above (level + 1) rest' →
    lines style level label after a rest = lines style level label' after' b rest' →
    label = label' ∧ a = b ∧ rest = rest'

/-- No other members of groups with an opening have the lines of these ones. -/
def MembersTold (v : Vocabulary) (style : Style) (opening : String)
    (as : List (String × Layout)) : Prop :=
  ∀ (bs : List (String × Layout)) (level : Nat) (rest rest' : List Line),
    MembersUse v opening bs → Above level rest → Above level rest' →
    memberLines style level as rest = memberLines style level bs rest' → as = bs ∧ rest = rest'

section

variable {v : Vocabulary} {style : Style}

/-- A layout on one line, against another one, or against a group whose members stand deeper on the
next line. -/
theorem told_of_word? (hv : v.Legible) {a : Layout} (ha : a.Uses v) {word : String}
    (hword : a.word? = some word) : Told v style a := by
  intro b level label label' after after' rest rest' hb hlabel hafter hafter' hrest hrest' h
  rw [lines_of_word? hword] at h
  cases hword' : b.word? with
  | none =>
    obtain ⟨opening, closing, member, members, rfl⟩ := exists_members_of_word? hword'
    exact absurd (List.cons.inj h).2.symm (memberLines_ne_of_above hrest)
  | some word' =>
    rw [lines_of_word? hword'] at h
    obtain ⟨hline, hrests⟩ := List.cons.inj h
    have htext := (Line.mk.inj hline).2
    -- the labels agree, and the word ends before the comma, if there is one
    obtain rfl := hlabel _ _ htext
    obtain ⟨rfl, -⟩ := (ended_of_word? hv ha hword).append_inj (ended_of_word? hv hb hword') hafter
      hafter' ((String.append_right_inj label).mp htext)
    exact ⟨rfl, eq_of_word? hv ha hb hword hword', hrests⟩

/-- A group with members: the opening on the first line tells how the members are labelled, and
after them stands the closing. -/
theorem told_group (hv : v.Legible) {opening closing : String} {member : String × Layout}
    {members : List (String × Layout)} (hgroup : v.IsGroup opening closing)
    (hmembers : MembersTold v style opening (member :: members)) :
    Told v style (.group opening closing (member :: members)) := by
  intro b level label label' after after' rest rest' hb hlabel hafter hafter' hrest hrest' h
  cases hword : b.word? with
  | some word =>
    rw [lines_of_word? hword] at h
    exact absurd (List.cons.inj h).2 (memberLines_ne_of_above hrest')
  | none =>
    obtain ⟨opening', closing', member', members', rfl⟩ := exists_members_of_word? hword
    obtain ⟨hline, hlines⟩ := List.cons.inj h
    have htext := (Line.mk.inj hline).2
    obtain rfl := hlabel _ _ htext
    obtain rfl := (String.append_right_inj label).mp htext
    -- one level deeper, the members end where the closing stands
    obtain ⟨hsame, hclosings⟩ :=
      hmembers _ _ _ _ hb.2 (above_cons _ _ _) (above_cons _ _ _) hlines
    obtain ⟨hlast, hrests⟩ := List.cons.inj hclosings
    obtain ⟨rfl, -⟩ := (hv.closing_ended hgroup).append_inj (hv.closing_ended hb.1) hafter hafter'
      (Line.mk.inj hlast).2
    exact ⟨rfl, congrArg (Layout.group opening closing) hsame, hrests⟩

theorem membersTold_nil (opening : String) : MembersTold v style opening [] := by
  intro bs level rest rest' _ hrest _ h
  cases bs with
  | nil => exact ⟨rfl, h⟩
  | cons b bs => exact absurd h.symm (memberLines_ne_of_above hrest)

/-- A member, before those that come after it. -/
theorem membersTold_cons (hv : v.Legible) (hstyle : IsAfter style.afterLast)
    {opening label : String} {a : Layout} {as : List (String × Layout)}
    (hlabel : v.IsLabel opening label) (ha : Told v style a)
    (has : MembersTold v style opening as) :
    MembersTold v style opening ((label, a) :: as) := by
  intro bs level rest rest' hbs hrest hrest' h
  cases bs with
  | nil => exact absurd h (memberLines_ne_of_above hrest')
  | cons b bs =>
    obtain ⟨label', b⟩ := b
    have hafter : ∀ members : List (String × Layout),
        IsAfter (if members = [] then style.afterLast else ",") := by
      intro members
      split
      · exact hstyle
      · exact .inr rfl
    have hlabels : ∀ s t, label ++ s = label' ++ t → label = label' := by
      intro s t h
      refine hv.label_code opening label label' hlabel hbs.1 s.toList t.toList ?_
      rw [← String.toList_append, h, String.toList_append]
    -- the first member ends before the next one, which stands at its level and not deeper
    rw [memberLines_cons, memberLines_cons] at h
    obtain ⟨rfl, rfl, hrests⟩ := ha b level label label' _ _ _ _ hbs.2.1 hlabels (hafter as)
      (hafter bs) (above_memberLines hrest) (above_memberLines hrest') h
    obtain ⟨rfl, hafters⟩ := has bs level rest rest' hbs.2.2 hrest hrest' hrests
    exact ⟨rfl, hafters⟩

mutual
/-- The lines of a layout determine it. -/
theorem told_of_uses (hv : v.Legible) (hstyle : IsAfter style.afterLast) :
    ∀ a : Layout, a.Uses v → Told v style a
  | .line _, ha => told_of_word? hv ha rfl
  | .group _ _ [], ha => told_of_word? hv ha rfl
  | .group _ _ (member :: members), ha =>
    told_group hv ha.1 (membersTold_of_use hv hstyle (member :: members) ha.2)

/-- The lines of the members of a group determine them. -/
theorem membersTold_of_use (hv : v.Legible) (hstyle : IsAfter style.afterLast) {opening : String} :
    ∀ as : List (String × Layout), MembersUse v opening as → MembersTold v style opening as
  | [], _ => membersTold_nil opening
  | (_, a) :: as, ha =>
    membersTold_cons hv hstyle ha.1 (told_of_uses hv hstyle a ha.2.1)
      (membersTold_of_use hv hstyle as ha.2.2)
end

/-! ## From a text to the layout -/

mutual
/-- The lines of a layout hold plain words. -/
theorem plain_lines (hv : v.Legible) (hstyle : IsAfter style.afterLast) :
    ∀ (a : Layout) {level : Nat} {label after : String} {rest : List Line}, a.Uses v →
      Plain label → IsAfter after → (∀ line ∈ rest, Plain line.text) →
      ∀ line ∈ lines style level label after a rest, Plain line.text
  | .line _, _, _, _, _, ha, hlabel, hafter, hrest => by
    rw [lines, List.forall_mem_cons]
    exact ⟨(hlabel.append (hv.word_plain ha)).append hafter.plain, hrest⟩
  | .group _ _ [], _, _, _, _, ha, hlabel, hafter, hrest => by
    rw [lines, List.forall_mem_cons]
    exact ⟨((hlabel.append (hv.opening_plain ha.1)).append (hv.closing_plain ha.1)).append
      hafter.plain, hrest⟩
  | .group _ _ (member :: members), _, _, _, _, ha, hlabel, hafter, hrest => by
    rw [lines, List.forall_mem_cons]
    refine ⟨hlabel.append (hv.opening_plain ha.1), ?_⟩
    refine plain_memberLines hv hstyle (member :: members) ha.2 ?_
    rw [List.forall_mem_cons]
    exact ⟨(hv.closing_plain ha.1).append hafter.plain, hrest⟩

/-- The lines of the members of a group hold plain words. -/
theorem plain_memberLines (hv : v.Legible) (hstyle : IsAfter style.afterLast) {opening : String} :
    ∀ (as : List (String × Layout)) {level : Nat} {rest : List Line}, MembersUse v opening as →
      (∀ line ∈ rest, Plain line.text) →
      ∀ line ∈ memberLines style level as rest, Plain line.text
  | [], _, _, _, hrest => hrest
  | [(_, a)], _, _, ha, hrest => plain_lines hv hstyle a ha.2.1 (hv.label_plain ha.1) hstyle hrest
  | (_, a) :: b :: as, _, _, ha, hrest =>
    plain_lines hv hstyle a ha.2.1 (hv.label_plain ha.1) (.inr rfl)
      (plain_memberLines hv hstyle (b :: as) ha.2.2 hrest)
end

/-- Layouts of a legible vocabulary are equal if their texts are. -/
theorem text_inj (hv : v.Legible) (hstyle : IsAfter style.afterLast) (hwidth : 0 < style.width)
    {a b : Layout} (ha : a.Uses v) (hb : b.Uses v) (h : a.text style = b.text style) : a = b := by
  have hempty : Plain "" := by decide
  have hplain : ∀ {c : Layout}, c.Uses v → ∀ line ∈ lines style 0 "" "" c [], Plain line.text :=
    fun hc => plain_lines hv hstyle _ hc hempty (.inl rfl) (List.forall_mem_nil _)
  have hlines := Line.join_written_inj hwidth (hplain ha) (hplain hb) h
  have habove : Above 1 [] := nofun
  exact (told_of_uses hv hstyle a ha b 0 "" "" "" "" [] [] hb (fun _ _ _ => rfl) (.inl rfl)
    (.inl rfl) habove habove hlines).2.1

end

end Layout

end Quill.Report
