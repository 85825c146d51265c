import Marginalia.Proofs.SourceText.Edits
import Marginalia.Proofs.SourceText.Index
import Marginalia.Proofs.Text.Utf8

/-!
Looking up lines and tokens by offset.

An offset counts bytes, so it may be inside a character.  It is then on the line of the character
(`lineOf_of_within`), and since a line feed is one byte, the line is still the number of line feeds
among the bytes before the offset (`lineOf_eq`).  A search by halves is for the place where a
property ends that holds of a first stretch of a list: of the lines that start no later than the
offset (`initial_lineStarts`), or of the tokens that end no later (`initial_tokens`).  What stands
before that place is told in `lt_bisect_lineStarts_iff`, and from it which line is found
(`lineOf_eq_some_iff`).
-/

namespace Marginalia

namespace Text

/-! ### Offsets between the bytes of a text -/

/-- An offset is in one of the characters of a text, or at its end. -/
theorem exists_within {chars : List Char} {offset : Nat} (h : offset ≤ byteLength chars) :
    ∃ before after, chars = before ++ after ∧ byteLength before ≤ offset ∧
      ∀ c ∈ after.head?, offset < byteLength before + c.utf8Size := by
  induction chars generalizing offset with
  | nil =>
      refine ⟨[], [], rfl, Nat.zero_le _, fun c hc => ?_⟩
      cases hc
  | cons c rest ih =>
      rcases Nat.lt_or_ge offset c.utf8Size with hlt | hge
      · refine ⟨[], c :: rest, rfl, Nat.zero_le _, fun d hd => ?_⟩
        obtain rfl : c = d := Option.some.inj hd
        rw [byteLength_nil]
        omega
      · rw [byteLength_cons] at h
        have hrest : offset - c.utf8Size ≤ byteLength rest := by omega
        obtain ⟨before, after, rfl, hle, hhead⟩ := ih hrest
        refine ⟨c :: before, after, rfl, ?_, fun d hd => ?_⟩
        · rw [byteLength_cons]
          omega
        · have := hhead d hd
          rw [byteLength_cons]
          omega

theorem length_encode (chars : List Char) : (Utf8.encode chars).length = byteLength chars := by
  induction chars with
  | nil => rfl
  | cons c rest ih =>
      show (String.utf8EncodeChar c ++ Utf8.encode rest).length = _
      rw [List.length_append, String.length_utf8EncodeChar, ih, byteLength_cons]

theorem eq_lineFeed_of_mem {c : Char} (h : 0x0A ∈ String.utf8EncodeChar c) : c = '\n' :=
  Char.toNat_inj.mp (Utf8.eq_of_mem_utf8EncodeChar (by decide) h)

theorem count_utf8EncodeChar (c : Char) :
    (String.utf8EncodeChar c).count 0x0A = [c].count '\n' := by
  by_cases hc : c = '\n'
  · rw [hc]
    rfl
  · rw [List.count_eq_zero.mpr fun h => hc (eq_lineFeed_of_mem h), List.count_eq_zero.mpr]
    rw [List.mem_singleton]
    exact fun h => hc h.symm

/-- The line feeds of a text are the bytes of that value. -/
theorem count_encode (chars : List Char) : (Utf8.encode chars).count 0x0A = chars.count '\n' := by
  induction chars with
  | nil => rfl
  | cons c rest ih =>
      show (String.utf8EncodeChar c ++ Utf8.encode rest).count 0x0A = ([c] ++ rest).count '\n'
      rw [List.count_append, List.count_append, count_utf8EncodeChar, ih]

/-- No part of a character but all of it is a line feed. -/
theorem count_take_encode_of_within {before after : List Char} {offset : Nat}
    (hlo : byteLength before ≤ offset)
    (hhi : ∀ c ∈ after.head?, offset < byteLength before + c.utf8Size) :
    ((Utf8.encode (before ++ after)).take offset).count 0x0A = before.count '\n' := by
  have hlength := length_encode before
  rw [Utf8.encode_append, List.take_append, List.take_of_length_le (by omega), List.count_append,
    count_encode, hlength]
  suffices h : ((Utf8.encode after).take (offset - byteLength before)).count 0x0A = 0 by
    rw [h, Nat.add_zero]
  rcases after with - | ⟨c, rest⟩
  · simp
  · have hlt := hhi c rfl
    show ((String.utf8EncodeChar c ++ Utf8.encode rest).take _).count 0x0A = 0
    rw [List.take_append_of_le_length (by rw [String.length_utf8EncodeChar]; omega)]
    apply List.count_eq_zero.mpr
    intro hmem
    -- a line feed is one byte, so nothing of it is before the offset
    obtain rfl := eq_lineFeed_of_mem (List.mem_of_mem_take hmem)
    have hsize : '\n'.utf8Size = 1 := rfl
    rw [show offset - byteLength before = 0 by omega] at hmem
    cases hmem

/-- A part of a text that an offset is in. -/
theorem exists_part_at {parts : List (List Char)} {offset : Nat}
    (h : offset < byteLength parts.flatten) :
    ∃ a part b, parts = a ++ part :: b ∧ byteLength a.flatten ≤ offset ∧
      offset < byteLength a.flatten + byteLength part := by
  induction parts generalizing offset with
  | nil => exact absurd h (Nat.not_lt_zero _)
  | cons part more ih =>
      rcases Nat.lt_or_ge offset (byteLength part) with hlt | hge
      · exact ⟨[], part, more, rfl, Nat.zero_le _, by simpa using hlt⟩
      · rw [List.flatten_cons, byteLength_append] at h
        have hmore : offset - byteLength part < byteLength more.flatten := by omega
        obtain ⟨a, found, b, rfl, hlo, hhi⟩ := ih hmore
        refine ⟨part :: a, found, b, rfl, ?_, ?_⟩
        · rw [List.flatten_cons, byteLength_append]
          omega
        · rw [List.flatten_cons, byteLength_append]
          omega

end Text

namespace SourceText

open Text

variable {text : String} {stamp : UInt64}

/-! ### Lines -/

/-- The line of an offset is the number of line feeds among the bytes before the offset. -/
theorem lineOf_eq (offset : Nat) :
    (index text stamp).lineOf offset
      = if text.utf8ByteSize < offset then none
        else some (((Utf8.encode text.toList).take offset).count 0x0A) := by
  rw [← byteLength_toList]
  split
  next hlt =>
    rw [lineOf]
    exact if_pos hlt
  next hle =>
    obtain ⟨before, after, htext, hlo, hhi⟩ := exists_within (Nat.not_lt.mp hle)
    rw [lineOf_of_within htext (Nat.not_lt.mp hle) hlo hhi, htext,
      count_take_encode_of_within hlo hhi]

/-- The starts of lines that are not after an offset come first. -/
theorem initial_lineStarts (offset : Nat) :
    Initial fun i => (index text stamp).lineStarts[i]?.any (· ≤ offset) := by
  simp only [index, List.getElem?_toArray]
  apply initial_of_pairwise
  refine (pairwise_lineStarts text.toList).imp fun hlt hle => ?_
  rw [decide_eq_true_eq] at hle ⊢
  omega

/-- The tokens that end no later than an offset come first. -/
theorem initial_tokens (offset : Nat) :
    Initial fun i => (index text stamp).tokens[i]?.any (·.stop ≤ offset) := by
  simp only [index, List.getElem?_toArray]
  apply initial_of_pairwise
  refine (pairwise_spansFrom 0 (runs text.toList)).imp_of_mem fun _ hb hlt hle => ?_
  have := (bounds_of_mem_spansFrom hb).2.1
  rw [decide_eq_true_eq] at hle ⊢
  omega

/-- The lines that start no later than an offset are those before the place that is searched for. -/
theorem lt_bisect_lineStarts_iff (text : String) (stamp : UInt64) (offset line : Nat) :
    line < bisect (fun i => (index text stamp).lineStarts[i]?.any (· ≤ offset)) 0
        (index text stamp).lineStarts.size ↔
      ∃ start, (index text stamp).lineStarts[line]? = some start ∧ start ≤ offset := by
  rw [lt_bisect_iff (initial_lineStarts offset)]
  · rcases (index text stamp).lineStarts[line]? with - | start
    · simp
    · simp
  · intro i hi
    rw [Array.getElem?_eq_none hi]
    rfl

/-- The first line starts no later than any offset, so there is something before that place. -/
theorem bisect_lineStarts_pos (text : String) (stamp : UInt64) (offset : Nat) :
    0 < bisect (fun i => (index text stamp).lineStarts[i]?.any (· ≤ offset)) 0
      (index text stamp).lineStarts.size :=
  (lt_bisect_lineStarts_iff text stamp offset 0).mpr ⟨0, rfl, Nat.zero_le offset⟩

/-- An offset is on the line that starts no later and whose next line, if any, starts later. -/
theorem lineOf_eq_some_iff {offset line : Nat} :
    (index text stamp).lineOf offset = some line ↔
      offset ≤ text.utf8ByteSize ∧
        ∃ start, (index text stamp).lineStarts[line]? = some start ∧ start ≤ offset ∧
          (line + 1 = (index text stamp).lineStarts.size ∨
            ∃ next, (index text stamp).lineStarts[line + 1]? = some next ∧ offset < next) := by
  have hlength : (index text stamp).length = text.utf8ByteSize := length_eq _
  have hpos := bisect_lineStarts_pos text stamp offset
  have hline := lt_bisect_lineStarts_iff text stamp offset line
  have hnext := lt_bisect_lineStarts_iff text stamp offset (line + 1)
  rw [lineOf, hlength]
  generalize bisect _ 0 (index text stamp).lineStarts.size = k at hpos hline hnext
  split
  next hlt =>
    constructor
    · intro h
      cases h
    · rintro ⟨hle, -⟩
      omega
  next hle =>
    have hk : some (k - 1) = some line ↔ line < k ∧ ¬line + 1 < k := by
      rw [Option.some.injEq]
      omega
    rw [hk, hline, hnext]
    constructor
    · rintro ⟨⟨start, hstart, hso⟩, hlast⟩
      refine ⟨Nat.not_lt.mp hle, start, hstart, hso, ?_⟩
      rcases hget : (index text stamp).lineStarts[line + 1]? with - | next
      · have := Array.getElem?_eq_none_iff.mp hget
        have := (Array.getElem?_eq_some_iff.mp hstart).1
        exact Or.inl (by omega)
      · exact Or.inr ⟨next, rfl, Nat.lt_of_not_le fun hno => hlast ⟨next, hget, hno⟩⟩
    · rintro ⟨-, start, hstart, hso, hlast⟩
      refine ⟨⟨start, hstart, hso⟩, ?_⟩
      rintro ⟨next, hget, hno⟩
      rcases hlast with hsize | ⟨next', hget', hlt⟩
      · have := (Array.getElem?_eq_some_iff.mp hget).1
        omega
      · rw [hget] at hget'
        cases hget'
        omega

/-! ### Tokens -/

/-- The token at an offset is the one whose span holds the offset. -/
theorem tokenAt_eq_some_iff {offset token : Nat} :
    (index text stamp).tokenAt offset = some token ↔
      ∃ span, (index text stamp).tokens[token]? = some span ∧ span.start ≤ offset ∧
        offset < span.stop := by
  constructor
  · intro h
    rcases Nat.lt_or_ge offset (byteLength text.toList) with hlt | hge
    · rw [← flatten_runs text.toList] at hlt
      obtain ⟨a, run, b, hruns, hlo, hhi⟩ := exists_part_at hlt
      rw [tokenAt_of_runs hruns hlo hhi] at h
      rw [← Option.some.inj h]
      exact ⟨_, getElem?_tokens_of_runs hruns, hlo, hhi⟩
    · rw [tokenAt_of_le hge] at h
      cases h
  · rintro ⟨span, hspan, hlo, hhi⟩
    obtain ⟨a, run, b, hruns, rfl, rfl⟩ := exists_runs_of_getElem? hspan
    exact tokenAt_of_runs hruns hlo hhi

/-- There is a token at every offset before the end of the text. -/
theorem tokenAt_eq_none_iff {offset : Nat} :
    (index text stamp).tokenAt offset = none ↔ text.utf8ByteSize ≤ offset := by
  rw [← byteLength_toList]
  constructor
  · intro h
    by_contra hlt
    rw [Nat.not_le, ← flatten_runs text.toList] at hlt
    obtain ⟨a, run, b, hruns, hlo, hhi⟩ := exists_part_at hlt
    rw [tokenAt_of_runs hruns hlo hhi] at h
    cases h
  · exact tokenAt_of_le

/-- However a text was edited, its lines and tokens are found by offset:

* an offset past the end of the text is on no line, and any other, also one inside a character, on
  the line whose number is that of the line feeds among the bytes before the offset;
* so each line is the line of the offset where it starts, and the line of an offset in the text is
  the one that starts no later and is the last or is followed by one that starts later;
* there is no token at an offset past the last byte, and at any other the token whose span holds the
  offset, and no other token's span does;
* what is searched for is where a property ends that holds of a first stretch of the lines, or of
  the tokens, and not of the rest, and at least the first line has it. -/
theorem lookups_by_offset (text : String) (edits : List Edit) :
    let s := ((ofText text).editAll edits).2
    let d := s.document
    (∀ offset, d.lineOf offset
        = if s.text.utf8ByteSize < offset then none
          else some (((Utf8.encode s.text.toList).take offset).count 0x0A)) ∧
      (∀ line < d.lineCount, ∃ start, d.lineStart line = some start ∧ d.lineOf start = some line) ∧
      (∀ offset line, d.lineOf offset = some line ↔
        offset ≤ s.text.utf8ByteSize ∧ ∃ start, d.lineStart line = some start ∧ start ≤ offset ∧
          (line + 1 = d.lineCount ∨
            ∃ next, d.lineStart (line + 1) = some next ∧ offset < next)) ∧
      (∀ offset, d.elementAt offset = none ↔ s.text.utf8ByteSize ≤ offset) ∧
      (∀ offset token, d.elementAt offset = some token ↔
        ∃ span, d.range token = some span ∧ span.start ≤ offset ∧ offset < span.stop) ∧
      ∀ offset, Initial (fun i => s.lineStarts[i]?.any (· ≤ offset)) ∧
        0 < bisect (fun i => s.lineStarts[i]?.any (· ≤ offset)) 0 s.lineStarts.size ∧
        Initial (fun i => s.tokens[i]?.any (·.stop ≤ offset)) := by
  intro s d
  obtain ⟨edited, hedited⟩ := editAll_index text 0 edits
  have hs : s = index edited _ := hedited
  have htext : s.text = edited := congrArg SourceText.text hs
  rw [htext]
  simp only [d, hs]
  refine ⟨lineOf_eq, ?_, fun offset line => lineOf_eq_some_iff, fun offset => tokenAt_eq_none_iff,
    fun offset token => tokenAt_eq_some_iff, fun offset => ⟨initial_lineStarts offset,
      bisect_lineStarts_pos _ _ offset, initial_tokens offset⟩⟩
  intro line hline
  have hget := Array.getElem?_eq_getElem hline
  obtain ⟨before, after, hcut, hstart⟩ := exists_lineCut_of_lineStart hget
  refine ⟨_, hget, ?_⟩
  rw [← hstart, ← hcut.count]
  exact lineOf_byteLength hcut.split

/-- The second byte of a character of two bytes is where the character is, before the line feed
that an edit adds. -/
theorem lookups_by_offset_inside_character :
    let s := ((ofText "\u00E9").editAll [.replace ⟨2, 2⟩ "\nx"]).2
    let d := s.document
    (1 < d.lineCount ∧ d.lineStart 1 = some 3 ∧ d.lineOf 3 = some 1) ∧ d.lineOf 1 = some 0 ∧
      d.elementAt 1 = some 0 := by
  intro s d
  obtain ⟨hlineOf, hlines, -, -, htokens, -⟩ :=
    lookups_by_offset "\u00E9" [.replace ⟨2, 2⟩ "\nx"]
  have hcount : 1 < d.lineCount := by
    decide +kernel
  have hstart : d.lineStart 1 = some 3 := by
    decide +kernel
  obtain ⟨start, hget, hline⟩ := hlines 1 hcount
  obtain rfl : start = 3 := Option.some.inj (hget.symm.trans hstart)
  refine ⟨⟨hcount, hstart, hline⟩, ?_, ?_⟩
  · rw [hlineOf]
    decide +kernel
  · exact (htokens 1 0).mpr ⟨⟨0, 2⟩, by decide +kernel, by decide, by decide⟩

end SourceText

end Marginalia
