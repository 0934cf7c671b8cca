import Mathlib.Data.String.Basic
import Quill.Proofs.Lexical.FirstFault
import Quill.Proofs.Parsing.FirstError
import Quill.Proofs.Positions.Counters
import Quill.Source.Read

/-!
# The range of positions

Every position of the front end is that of a place in the source (`Pos.OccursIn`): those that a
cursor has while it is read from, those of tokens and faults, and those on the way to the end of a
token, from which the stand-in for the end of the input has its position. This is so because each
token stands in the source (`Token.StandsIn`), and because a reading, also one that finds a fault,
passes a piece of the source.

A source has no more places than one for each character and one for the end, so lines and columns
are bounded by its length (`Pos.OccursIn.within`). A file that is read has at most one million
bytes, and each character takes at least one of them (`Source.length_le_of_read`), so that 32 bits
are enough to count in (`Source.read_positions_within`).
-/

set_option autoImplicit false

namespace Quill

variable {source : List Char}

/-! ## Places in a source -/

namespace Pos

/-- Line and column are at least one and at most a limit. -/
structure Within (limit : Nat) (p : Pos) : Prop where
  one_le_line : 1 ≤ p.line
  line_le : p.line ≤ limit
  one_le_column : 1 ≤ p.column
  column_le : p.column ≤ limit

theorem Within.mono {limit greater : Nat} {p : Pos} (h : p.Within limit) (hle : limit ≤ greater) :
    p.Within greater :=
  ⟨h.one_le_line, h.line_le.trans hle, h.one_le_column, h.column_le.trans hle⟩

theorem Within.fits {limit : Nat} {p : Pos} (h : p.Within limit) (hlimit : limit < UInt32.size) :
    p.Fits :=
  ⟨h.line_le.trans_lt hlimit, h.column_le.trans_lt hlimit⟩

/-- The position is that of a place in the source: after some beginning of it. -/
def OccursIn (source : List Char) (p : Pos) : Prop :=
  ∃ before, before <+: source ∧ p = start.advance before

/-- Lines and columns are bounded by the number of places in the source. -/
theorem OccursIn.within {p : Pos} (h : p.OccursIn source) : p.Within (source.length + 1) := by
  obtain ⟨before, hbefore, rfl⟩ := h
  have hlength := hbefore.length_le
  -- each line but the first and each column but the first takes a character before the place
  have hlines : before.count '\n' ≤ before.length := List.count_le_length
  have hcolumns : (before.rtakeWhile (· != '\n')).length ≤ before.length :=
    (List.rtakeWhile_suffix _ _).length_le
  rw [advance_start]
  constructor <;> simp only [counted] <;> omega

/-- On the way over a piece of the source there are only positions of places in the source. -/
theorem along_occursIn {before piece : List Char} (h : before ++ piece <+: source) :
    (start.advance before).Along (OccursIn source) piece := by
  intro used hused
  refine ⟨before ++ used, ?_, (advance_append _ _ _).symm⟩
  exact ((List.prefix_append_right_inj before).mpr hused).trans h

end Pos

/-! ## Tokens in a source -/

namespace Token

/-- The text of the token is a piece of the source, and its position is that of the piece. -/
def StandsIn (source : List Char) (t : Token) : Prop :=
  ∃ before, before ++ t.text.toList <+: source ∧ t.pos = Pos.start.advance before

/-- On the way from the start of a token to its end there are only positions of places in the
source. -/
theorem StandsIn.along {t : Token} (h : t.StandsIn source) :
    t.pos.Along (Pos.OccursIn source) t.text.toList := by
  obtain ⟨before, hbefore, hpos⟩ := h
  rw [hpos]
  exact Pos.along_occursIn hbefore

theorem StandsIn.pos {t : Token} (h : t.StandsIn source) : t.pos.OccursIn source :=
  h.along [] List.nil_prefix

/-- The end-of-input token stands wherever there is a place. -/
theorem standsIn_eofAt {before : List Char} (h : before <+: source) :
    (eofAt (Pos.start.advance before)).StandsIn source :=
  ⟨before, by simpa [eofAt] using h, rfl⟩

/-- The stand-in has the position of a place in the source as the tokens before it have. -/
theorem standIn_occursIn {ts : List Token} (h : ∀ t ∈ ts, t.StandsIn source) :
    (standIn ts).pos.OccursIn source := by
  rw [standIn]
  cases hlast : ts.getLast? with
  | none => exact ⟨[], List.nil_prefix, rfl⟩
  | some last =>
    exact (h last (List.mem_of_getLast? hlast)).along _ List.prefix_rfl

end Token

/-! ## Readings of a source -/

namespace Cursor

open Lexical

/-- What a reading passes is a piece of the source, directly after what was passed before. -/
theorem StandsAfter.append_passed {cursor : Cursor} {before : List Char}
    (h : cursor.StandsAfter source before) : before ++ cursor.passed <+: source := by
  obtain ⟨hsource, hpos⟩ := h
  obtain ⟨-, hrest, -⟩ := next_passes hpos
  exact ⟨cursor.next.2.rest, by rw [hsource, List.append_assoc, ← hrest]⟩

/-- While a reading passes its piece, the cursor has the positions of places in the source. -/
theorem StandsAfter.along {cursor : Cursor} {before : List Char}
    (h : cursor.StandsAfter source before) :
    cursor.pos.Along (Pos.OccursIn source) cursor.passed := by
  rw [h.2]
  exact Pos.along_occursIn h.append_passed

/-- A reading gives a token that stands in the source, or a fault at a place in it. -/
theorem StandsAfter.next_found {cursor : Cursor} {before : List Char}
    (h : cursor.StandsAfter source before) :
    (∀ token, cursor.next.1 = .ok token → token.StandsIn source) ∧
      ∀ fault pos, cursor.next.1 = .error (fault, pos) → pos.OccursIn source := by
  have hpiece := h.append_passed
  obtain ⟨hpasses, -⟩ := next_passes h.2
  -- the rest of the proof is about the piece and what is found, whatever the cursor is
  generalize cursor.passed = piece at hpasses hpiece
  generalize cursor.next.2.rest = rest at hpasses
  cases hfound : cursor.next.1 with
  | ok token =>
    rw [hfound] at hpasses
    refine ⟨?_, by simp⟩
    rintro _ ⟨⟩
    cases hpasses with
    | finished hgap =>
      rw [← Pos.advance_start]
      exact Token.standsIn_eofAt hpiece
    | @token gap _ _ hgap _ _ htoken =>
      rw [← Pos.advance_start] at htoken
      exact ⟨before ++ gap, by rwa [List.append_assoc], htoken⟩
  | error found =>
    rw [hfound] at hpasses
    refine ⟨by simp, ?_⟩
    rintro fault pos ⟨⟩
    cases hpasses with
    | @fault gap construct _ _ hgap _ _ =>
      -- the fault is after the gap, the construct itself does not matter
      refine ⟨before ++ gap, ?_, (Pos.advance_start _).symm⟩
      rw [← List.append_assoc] at hpiece
      exact (List.prefix_append _ _).trans hpiece

end Cursor

/-! ## Runs -/

/-- The tokens of a piece of the source stand in the source. -/
theorem Lexical.Lexes.standsIn {next text : List Char} {pos : Pos} {ts : List Token}
    (h : Lexes next pos text ts) (before : List Char) (hpos : pos = Pos.start.advance before)
    (htext : before ++ text <+: source) : ∀ t ∈ ts, t.StandsIn source := by
  -- along the lexemes; `before` is the source up to the lexeme that comes next
  induction h generalizing before with
  | gap _ => exact fun t ht => absurd ht List.not_mem_nil
  | @token pos gap word text kind ts _ _ _ _ ih =>
    subst hpos
    have hword : before ++ gap ++ word <+: source := by
      refine List.IsPrefix.trans ⟨text, ?_⟩ htext
      simp
    intro t ht
    rcases List.mem_cons.mp ht with rfl | ht
    · exact ⟨before ++ gap, by rwa [String.toList_ofList], (Pos.advance_append _ _ _).symm⟩
    · refine ih (before ++ (gap ++ word)) (Pos.advance_append _ _ _).symm ?_ t ht
      simpa using htext

namespace Token

open Lexical

/-- The tokens of a source stand in it. -/
theorem standsIn_of_scan {source : String} {ts : List Token} (h : scan source = .ok ts) :
    ∀ t ∈ ts, t.StandsIn source.toList := by
  obtain ⟨us, hus, rfl⟩ := tokens_eq_ok_iff.mp h
  intro t ht
  rw [List.reverse_nil, List.nil_append] at ht
  rcases List.mem_append.mp ht with ht | ht
  · exact hus.standsIn [] rfl List.prefix_rfl t ht
  · obtain rfl := List.mem_singleton.mp ht
    exact standsIn_eofAt List.prefix_rfl

/-- The first fault of a source is at a place in it, and the tokens before the fault stand in it. -/
theorem standsIn_of_scan_error {source : String} {e : LexicalError} (h : scan source = .error e) :
    e.pos.OccursIn source.toList ∧ ∀ t ∈ e.tokens, t.StandsIn source.toList := by
  obtain ⟨text, rest, us, hsource, hus, htokens, hpos, -⟩ := tokens_eq_error h
  have htext : text <+: source.toList := ⟨rest, hsource.symm⟩
  rw [htokens, List.reverse_nil, List.nil_append]
  exact ⟨⟨text, htext, hpos⟩, hus.standsIn [] rfl htext⟩

end Token

/-- A syntax error names one of the tokens that were read or the stand-in after them. -/
theorem Program.token_of_error {ts : List Token} {e : SyntaxError} (h : ofTokens ts = .error e) :
    e.token ∈ ts ∨ e.token = Token.standIn ts := by
  obtain ⟨stop, hstop, rfl⟩ := ofTokens_eq_error_iff.mp h
  obtain ⟨used, hused, -⟩ := Grammar.program_error_local hstop
  cases hrest : stop.rest with
  | nil => exact .inr (by simp [Stop.token, hrest])
  | cons t us =>
    refine .inl ?_
    rw [hused, hrest]
    simp [Stop.token, hrest]

/-! ## Sources that are read -/

namespace Source

theorem fromUTF8?_eq_some_iff {content : ByteArray} {text : String} :
    String.fromUTF8? content = some text ↔ content = text.toUTF8 := by
  unfold String.fromUTF8?
  split
  · constructor
    · rintro ⟨⟩
      rfl
    · rintro rfl
      rfl
  · rename_i hinvalid
    constructor
    · simp
    · rintro rfl
      exact absurd text.isValidUTF8 hinvalid

/-- A source is read just when a file with its bytes stands under the path and these are not too
many. -/
theorem read_eq_ok_iff {path : String} {found : Found} {source : String} :
    read path found = .ok source ↔
      found = .file source.toUTF8 ∧ source.utf8ByteSize ≤ sizeLimit := by
  cases found with
  | file content =>
    rw [Found.file.injEq, ← fromUTF8?_eq_some_iff]
    constructor
    · intro h
      simp only [read] at h
      split at h
      · simp at h
      · rename_i hsize
        split at h
        · rename_i text htext
          obtain rfl := Except.ok.inj h
          obtain rfl := fromUTF8?_eq_some_iff.mp htext
          exact ⟨htext, Nat.le_of_not_gt hsize⟩
        · simp at h
    · rintro ⟨htext, hsize⟩
      have hcontent := fromUTF8?_eq_some_iff.mp htext
      -- the size of the file is that of the text it holds
      have hfits : ¬ content.size > sizeLimit := by
        rw [hcontent]
        exact Nat.not_lt.mpr hsize
      simp only [read, if_neg hfits, htext]
  | directory | nothing | belowFile => simp [read]

/-- Each character takes at least one byte. -/
theorem length_le_utf8Len (cs : List Char) : cs.length ≤ String.utf8Len cs := by
  induction cs with
  | nil => exact Nat.zero_le _
  | cons c cs ih =>
    rw [List.length_cons, String.utf8Len_cons]
    exact Nat.add_le_add ih c.utf8Size_pos

/-- A source that is read has no more characters than the limit allows bytes. -/
theorem length_le_of_read {path : String} {found : Found} {source : String}
    (h : read path found = .ok source) : source.toList.length ≤ sizeLimit := by
  obtain ⟨-, hsize⟩ := read_eq_ok_iff.mp h
  rw [← String.utf8Len_toList] at hsize
  exact (length_le_utf8Len _).trans hsize

/-- The places of a source that is read are in range. -/
theorem within_of_read {path : String} {found : Found} {source : String}
    (h : read path found = .ok source) {p : Pos} (hp : p.OccursIn source.toList) :
    p.Within 1000001 :=
  hp.within.mono (Nat.succ_le_succ (length_le_of_read h))

/-- A text of line feeds alone. -/
def lineFeeds (n : Nat) : String := String.ofList (List.replicate n '\n')

theorem utf8ByteSize_lineFeeds (n : Nat) : (lineFeeds n).utf8ByteSize = n := by
  rw [lineFeeds, String.utf8ByteSize_ofList]
  induction n with
  | zero => rfl
  | succ n ih =>
    rw [List.replicate_succ, String.utf8Len_cons, ih]
    rfl

theorem advance_lineFeeds (n : Nat) : Pos.start.advance (lineFeeds n).toList = ⟨n + 1, 1⟩ := by
  rw [lineFeeds, String.toList_ofList]
  induction n with
  | zero => rfl
  | succ n ih =>
    rw [List.replicate_succ', Pos.advance_append, ih]
    rfl

/-- A source of line feeds alone has no token, and its end is on the line after the last of them. -/
theorem scan_lineFeeds (n : Nat) : Token.scan (lineFeeds n) = .ok [Token.eofAt ⟨n + 1, 1⟩] := by
  have hgap : Lexical.Gap (lineFeeds n).toList := by
    rw [lineFeeds, String.toList_ofList]
    induction n with
    | zero => exact .nil
    | succ n ih => exact .space (by decide) ih
  refine Lexical.tokens_eq_ok_iff.mpr ⟨[], .gap hgap, ?_⟩
  rw [← advance_lineFeeds]
  rfl

/-- Whatever source is read, lines and columns stay between one and 1000001, so that counting them
in 32 bits overflows nowhere. This is so on the way of the cursor during any number of readings, of
what each of these readings finds, of all tokens of the source and of its first fault, and on the
way to the end of the last token of any part of the tokens, where the stand-in for the end of the
input is placed that a syntax error in this part may name. -/
theorem read_positions_within {path : String} {found : Found} {source : String}
    (h : read path found = .ok source) :
    (∀ n, ((Cursor.ofSource source).after n).pos.Along (Pos.Within 1000001)
        ((Cursor.ofSource source).after n).passed ∧
      ((Cursor.ofSource source).after n).pos.CountsTo ((Cursor.ofSource source).after n).passed
        ((Cursor.ofSource source).after (n + 1)).pos) ∧
    (∀ n, ∀ outcome ∈ Cursor.nexts n (Cursor.ofSource source),
      (∀ token, outcome = .ok token → token.pos.Within 1000001) ∧
      ∀ fault pos, outcome = .error (fault, pos) → pos.Within 1000001) ∧
    (∀ e, Token.scan source = .error e →
      e.pos.Within 1000001 ∧ ∀ t ∈ e.tokens, t.pos.Within 1000001) ∧
    ∀ ts, Token.scan source = .ok ts → (∀ t ∈ ts, t.pos.Within 1000001) ∧
      ∀ part, part <+: ts →
        (∀ last, part.getLast? = some last →
          last.pos.Along (Pos.Within 1000001) last.text.toList ∧
          last.pos.CountsTo last.text.toList last.endPos) ∧
        (Token.standIn part).pos.Within 1000001 ∧
        ∀ e, Program.ofTokens part = .error e → e.token.pos.Within 1000001 := by
  have hplace : ∀ p : Pos, p.OccursIn source.toList → p.Within 1000001 :=
    fun p => within_of_read h
  have hfits : ∀ p : Pos, p.OccursIn source.toList → p.Fits :=
    fun p hp => (hplace p hp).fits (by decide)
  refine ⟨fun n => ?_, fun n outcome houtcome => ?_, fun e he => ?_, fun ts hts => ?_⟩
  · have hstands := Cursor.standsAfter_after source n
    obtain ⟨-, -, hafter⟩ := Lexical.next_passes hstands.2
    refine ⟨hstands.along.imp hplace, Pos.countsTo_iff.mpr ⟨hstands.along.imp hfits, ?_⟩⟩
    rw [Cursor.after_succ, hafter, Pos.advance_append, ← hstands.2]
  · rw [Cursor.nexts_eq_map] at houtcome
    obtain ⟨k, -, rfl⟩ := List.mem_map.mp houtcome
    obtain ⟨htoken, hfault⟩ := (Cursor.standsAfter_after source k).next_found
    exact ⟨fun token hk => hplace _ (htoken token hk).pos,
      fun fault pos hk => hplace _ (hfault fault pos hk)⟩
  · obtain ⟨hpos, htokens⟩ := Token.standsIn_of_scan_error he
    exact ⟨hplace _ hpos, fun t ht => hplace _ (htokens t ht).pos⟩
  · have htokens := Token.standsIn_of_scan hts
    refine ⟨fun t ht => hplace _ (htokens t ht).pos, fun part hpart => ?_⟩
    have hstand : ∀ t ∈ part, t.StandsIn source.toList :=
      fun t ht => htokens t (hpart.subset ht)
    have hstandIn := hplace _ (Token.standIn_occursIn hstand)
    refine ⟨fun last hlast => ?_, hstandIn, fun e he => ?_⟩
    · have hway := (hstand last (List.mem_of_getLast? hlast)).along
      exact ⟨hway.imp hplace, Pos.countsTo_iff.mpr ⟨hway.imp hfits, rfl⟩⟩
    · rcases Program.token_of_error he with hread | hassumed
      · exact hplace _ (hstand _ hread).pos
      · rwa [hassumed]

/-- The range is not too wide: the end of a file of one million line feeds, which is read, has the
greatest line. -/
theorem read_positions_within_line_feeds :
    read "feeds.quill" (.file (lineFeeds 1000000).toUTF8) = .ok (lineFeeds 1000000) ∧
      Token.scan (lineFeeds 1000000) = .ok [Token.eofAt ⟨1000001, 1⟩] ∧
      (Token.eofAt ⟨1000001, 1⟩).pos.Within 1000001 := by
  have hsize : (lineFeeds 1000000).utf8ByteSize ≤ sizeLimit := by
    rw [utf8ByteSize_lineFeeds, sizeLimit]
  have hread : read "feeds.quill" (.file (lineFeeds 1000000).toUTF8) = .ok (lineFeeds 1000000) :=
    read_eq_ok_iff.mpr ⟨rfl, hsize⟩
  have hscan := scan_lineFeeds 1000000
  obtain ⟨-, -, -, htokens⟩ := read_positions_within hread
  exact ⟨hread, hscan, (htokens _ hscan).1 _ (List.mem_singleton_self _)⟩

end Source

end Quill
