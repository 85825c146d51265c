import Marginalia.Proofs.Text.Decimal
import Marginalia.Wire.Line
import Mathlib.Data.List.Basic
import Mathlib.Data.List.TakeWhile

/-!
The two shapes of line, and writing lines of them.

A line shows its numbers in one way only (`singleNumber?_eq_some_iff`,
`headerNumbers?_eq_some_iff`), since a run of digits ends where the first other character stands
(`digitRun?_eq_some_iff`), and the colon after the number of a single finding is the first one of
the line (`afterColon_of_single`).  `singleLine` and `headerLine` write a finding's line with its numbers in
base ten; `classify` reads them back (`classify_singleLine`, `classify_headerLine`).  Conversely
`classify_ok` says what is known of a finding or a header however its line was written: its number
counts lines from 1, and a message begins with a space and has no line feed.
-/

namespace Marginalia.Wire

open Text

/-- The line of a single finding, whose line is counted from 1. -/
def singleLine (number : UInt32) (message : String) : String :=
  "\tline " ++ decimalText number.toNat ++ ": " ++ message

/-- The header of a range finding. -/
def headerLine (first last : UInt32) (description : String) : String :=
  "line " ++ decimalText first.toNat ++ "-" ++ decimalText last.toNat ++ " (" ++ description ++ "):"

/-! ### Numbers -/

/-- A number as it is written: decimal digits of any script, at least one. -/
def IsNumeral (digits : List Char) : Prop := digits ≠ [] ∧ ∀ c ∈ digits, isDigit c

theorem isNumeral_toDigits (n : Nat) : IsNumeral (Nat.toDigits 10 n) :=
  ⟨Nat.toDigits_ne_nil, fun _ => isDigit_of_mem_toDigits⟩

/-- A run of digits ends where the first other character stands. -/
theorem digitRun?_eq_some_iff {chars digits rest : List Char} :
    digitRun? chars = some (digits, rest) ↔
      IsNumeral digits ∧ (∀ c ∈ rest.head?, ¬isDigit c) ∧ chars = digits ++ rest := by
  constructor
  · intro h
    rw [digitRun?] at h
    split at h
    · cases h
    next d run hrun =>
      cases h
      refine ⟨⟨List.cons_ne_nil _ _, ?_⟩, ?_, ?_⟩
      · rw [← hrun]
        exact fun c hc => List.mem_takeWhile_imp hc
      · intro c hc
        have hhead := List.head?_dropWhile_not isDigit chars
        rw [Option.mem_def.mp hc] at hhead
        rw [hhead]
        exact Bool.false_ne_true
      · rw [← hrun, List.takeWhile_append_dropWhile]
  · rintro ⟨⟨hne, hdigits⟩, hhead, rfl⟩
    -- the run takes all the digits and nothing of the rest
    have hstop : rest.takeWhile isDigit = [] ∧ rest.dropWhile isDigit = rest := by
      cases rest with
      | nil => exact ⟨rfl, rfl⟩
      | cons c rest =>
          have hc := hhead c rfl
          exact ⟨List.takeWhile_cons_of_neg hc, List.dropWhile_cons_of_neg hc⟩
    rw [digitRun?, List.takeWhile_append_of_pos hdigits, List.dropWhile_append_of_pos hdigits,
      hstop.1, hstop.2, List.append_nil]
    cases digits with
    | nil => exact absurd rfl hne
    | cons d digits => rfl

theorem digitRun?_append {digits : List Char} (h : IsNumeral digits) {c : Char} (hc : ¬isDigit c)
    (rest : List Char) : digitRun? (digits ++ c :: rest) = some (digits, c :: rest) := by
  refine digitRun?_eq_some_iff.mpr ⟨h, fun d hd => ?_, rfl⟩
  obtain rfl : c = d := Option.some.inj hd
  exact hc

theorem number?_toDigits (n : UInt32) : number? (Nat.toDigits 10 n.toNat) = .ok n := by
  rw [number?, decimal?_toDigits]
  show (if n.toNat < UInt32.size then _ else _) = _
  rw [if_pos n.toNat_lt, UInt32.ofNat_toNat]

theorem lineNumber?_toDigits {n : UInt32} (hn : n ≠ 0) :
    lineNumber? (Nat.toDigits 10 n.toNat) = .ok n := by
  rw [lineNumber?, number?_toDigits]
  show (if n = 0 then _ else _) = _
  rw [if_neg hn]

theorem ok_of_bind_eq_ok {α β : Type} {x : Except Fault α} {f : α → Except Fault β} {b : β}
    (h : x >>= f = .ok b) : ∃ a, x = .ok a ∧ f a = .ok b := by
  cases x with
  | error fault => cases h
  | ok a => exact ⟨a, rfl, h⟩

/-- A number that counts lines from 1 is not 0. -/
theorem lineNumber?_ne_zero {digits : List Char} {n : UInt32} (h : lineNumber? digits = .ok n) :
    n ≠ 0 := by
  obtain ⟨m, -, h⟩ := ok_of_bind_eq_ok h
  split at h
  · cases h
  next hm =>
    cases h
    exact hm

/-! ### The numbers of a line -/

/-- A single finding has a number, and a message without line feed. -/
theorem singleNumber?_eq_some_iff {line digits : List Char} :
    singleNumber? line = some digits ↔
      IsNumeral digits ∧ ∃ message, '\n' ∉ message ∧
        line = "\tline ".toList ++ (digits ++ (": ".toList ++ message)) := by
  constructor
  · intro h
    rw [singleNumber?] at h
    obtain ⟨numbered, hline, hnumber⟩ := Option.bind_eq_some_iff.mp h
    obtain ⟨⟨run, rest⟩, hrun, hrest⟩ := Option.bind_eq_some_iff.mp hnumber
    obtain ⟨message, hcolon, hmessage⟩ := Option.bind_eq_some_iff.mp hrest
    obtain ⟨hnumeral, -, rfl⟩ := digitRun?_eq_some_iff.mp hrun
    rw [← List.isPrefixOf?_eq_some_iff_append_eq.mp hline,
      ← List.isPrefixOf?_eq_some_iff_append_eq.mp hcolon]
    split at hmessage
    · cases hmessage
    next hfeed =>
      cases hmessage
      exact ⟨hnumeral, message, by simpa using hfeed, rfl⟩
  · rintro ⟨hnumeral, message, hmessage, rfl⟩
    have hline := List.isPrefixOf?_eq_some_iff_append_eq.mpr
      (rfl : "\tline ".toList ++ (digits ++ (": ".toList ++ message)) = _)
    have hrun := digitRun?_append hnumeral (c := ':') (by decide) (' ' :: message)
    have hfeed : message.contains '\n' = false := by
      simpa using hmessage
    rw [singleNumber?, hline, Option.bind_eq_bind, Option.bind_some]
    show Option.bind (digitRun? (digits ++ ':' :: ' ' :: message)) _ = _
    rw [hrun, Option.bind_some]
    show (if message.contains '\n' = true then _ else _) = _
    rw [hfeed]
    rfl

/-- The description of a header ends at the first closing parenthesis. -/
theorem dropWhile_eq_close_iff {chars : List Char} :
    chars.dropWhile (· != ')') = [')', ':'] ↔
      ∃ description, ')' ∉ description ∧ chars = description ++ [')', ':'] := by
  constructor
  · intro h
    refine ⟨chars.takeWhile (· != ')'), fun hmem => ?_, ?_⟩
    · exact absurd (List.mem_takeWhile_imp hmem) (by decide)
    · rw [← h, List.takeWhile_append_dropWhile]
  · rintro ⟨description, hdescription, rfl⟩
    rw [List.dropWhile_append_of_pos fun c hc => ?_, List.dropWhile_cons_of_neg (by decide)]
    rw [bne_iff_ne]
    rintro rfl
    exact hdescription hc

/-- A header has two numbers and a description without closing parenthesis. -/
theorem headerNumbers?_eq_some_iff {line first last : List Char} :
    headerNumbers? line = some (first, last) ↔
      IsNumeral first ∧ IsNumeral last ∧ ∃ description, ')' ∉ description ∧
        line = "line ".toList ++ (first ++ ('-' ::
          (last ++ (" (".toList ++ (description ++ [')', ':']))))) := by
  constructor
  · intro h
    rw [headerNumbers?] at h
    obtain ⟨numbered, hline, hnumbers⟩ := Option.bind_eq_some_iff.mp h
    obtain ⟨⟨run, rest⟩, hrun, hrest⟩ := Option.bind_eq_some_iff.mp hnumbers
    obtain ⟨numbered', hdash, hnumber⟩ := Option.bind_eq_some_iff.mp hrest
    obtain ⟨⟨run', rest'⟩, hrun', hrest'⟩ := Option.bind_eq_some_iff.mp hnumber
    obtain ⟨described, hopen, hdescribed⟩ := Option.bind_eq_some_iff.mp hrest'
    obtain ⟨hfirst, -, rfl⟩ := digitRun?_eq_some_iff.mp hrun
    obtain ⟨hlast, -, rfl⟩ := digitRun?_eq_some_iff.mp hrun'
    rw [← List.isPrefixOf?_eq_some_iff_append_eq.mp hline,
      ← List.isPrefixOf?_eq_some_iff_append_eq.mp hdash,
      ← List.isPrefixOf?_eq_some_iff_append_eq.mp hopen]
    split at hdescribed
    next hclose =>
      obtain ⟨description, hdescription, rfl⟩ := dropWhile_eq_close_iff.mp hclose
      cases hdescribed
      exact ⟨hfirst, hlast, description, hdescription, rfl⟩
    · cases hdescribed
  · rintro ⟨hfirst, hlast, description, hdescription, rfl⟩
    have hline := List.isPrefixOf?_eq_some_iff_append_eq.mpr
      (rfl : "line ".toList ++ (first ++ ('-' ::
        (last ++ (" (".toList ++ (description ++ [')', ':']))))) = _)
    have hrun := digitRun?_append hfirst (c := '-') (by decide)
      (last ++ (" (".toList ++ (description ++ [')', ':'])))
    have hrun' := digitRun?_append hlast (c := ' ') (by decide) ('(' :: (description ++ [')', ':']))
    rw [headerNumbers?, hline, Option.bind_eq_bind, Option.bind_some, hrun, Option.bind_eq_bind,
      Option.bind_some]
    show Option.bind (digitRun? (last ++ ' ' :: '(' :: (description ++ [')', ':']))) _ = _
    rw [hrun', Option.bind_some]
    show (if (description ++ [')', ':']).dropWhile (· != ')') = [')', ':'] then _ else _) = _
    rw [if_pos (dropWhile_eq_close_iff.mpr ⟨description, hdescription, rfl⟩)]

/-! ### The shapes of a line -/

/-- A line with the shape of a single finding. -/
structure IsSingleLine (line digits message : String) : Prop where
  line_eq : line = "\tline " ++ digits ++ ": " ++ message
  numeral : IsNumeral digits.toList
  one_line : '\n' ∉ message.toList

/-- A line with the shape of a header. -/
structure IsHeaderLine (line first last description : String) : Prop where
  line_eq : line = "line " ++ first ++ "-" ++ last ++ " (" ++ description ++ "):"
  first_numeral : IsNumeral first.toList
  last_numeral : IsNumeral last.toList
  closed : ')' ∉ description.toList

variable {line : String}

theorem exists_isSingleLine_iff {digits : String} :
    (∃ message, IsSingleLine line digits message) ↔
      singleNumber? line.toList = some digits.toList := by
  have hline : ∀ message : String,
      line.toList = "\tline ".toList ++ (digits.toList ++ (": ".toList ++ message.toList)) ↔
      line = "\tline " ++ digits ++ ": " ++ message := by
    intro message
    rw [← String.toList_inj]
    simp only [String.toList_append, List.append_assoc]
  rw [singleNumber?_eq_some_iff]
  constructor
  · rintro ⟨message, hsaid, hnumeral, hmessage⟩
    exact ⟨hnumeral, message.toList, hmessage, (hline message).mpr hsaid⟩
  · rintro ⟨hnumeral, message, hmessage, hsaid⟩
    rw [← String.toList_ofList (l := message)] at hmessage hsaid
    exact ⟨.ofList message, (hline _).mp hsaid, hnumeral, hmessage⟩

theorem exists_isHeaderLine_iff {first last : String} :
    (∃ description, IsHeaderLine line first last description) ↔
      headerNumbers? line.toList = some (first.toList, last.toList) := by
  have hline : ∀ description : String,
      line.toList = "line ".toList ++ (first.toList ++ ('-' ::
        (last.toList ++ (" (".toList ++ (description.toList ++ [')', ':']))))) ↔
      line = "line " ++ first ++ "-" ++ last ++ " (" ++ description ++ "):" := by
    intro description
    rw [← String.toList_inj]
    simp only [String.toList_append, List.append_assoc]
    rfl
  rw [headerNumbers?_eq_some_iff]
  constructor
  · rintro ⟨description, hdescribed, hfirst, hlast, hclosed⟩
    exact ⟨hfirst, hlast, description.toList, hclosed, (hline description).mpr hdescribed⟩
  · rintro ⟨hfirst, hlast, description, hclosed, hdescribed⟩
    rw [← String.toList_ofList (l := description)] at hclosed hdescribed
    exact ⟨.ofList description, (hline _).mp hdescribed, hfirst, hlast, hclosed⟩

/-- Whether a line is a single finding is told by its shape. -/
theorem isSingle_iff : isSingle line = true ↔ ∃ digits message, IsSingleLine line digits message := by
  rw [isSingle, Option.isSome_iff_exists]
  constructor
  · rintro ⟨digits, hnumber⟩
    refine ⟨.ofList digits, exists_isSingleLine_iff.mpr ?_⟩
    rw [String.toList_ofList]
    exact hnumber
  · rintro ⟨digits, h⟩
    exact ⟨_, exists_isSingleLine_iff.mp h⟩

/-- Whether a line is a header is told by its shape. -/
theorem isHeader_iff :
    isHeader line = true ↔ ∃ first last description, IsHeaderLine line first last description := by
  rw [isHeader, Option.isSome_iff_exists]
  constructor
  · rintro ⟨⟨first, last⟩, hnumbers⟩
    refine ⟨.ofList first, .ofList last, exists_isHeaderLine_iff.mpr ?_⟩
    rw [String.toList_ofList, String.toList_ofList]
    exact hnumbers
  · rintro ⟨first, last, h⟩
    exact ⟨_, exists_isHeaderLine_iff.mp h⟩

/-- Only a single finding begins with a tab. -/
theorem isSingle_of_isHeader (h : isHeader line = true) : isSingle line = false := by
  obtain ⟨first, last, description, rfl, -⟩ := isHeader_iff.mp h
  -- the prefix of a single finding fails at the first character
  rw [isSingle, singleNumber?]
  simp only [String.toList_append, List.append_assoc]
  rfl

/-! ### Classification -/

/-- The first colon of a single finding is the one after its number. -/
theorem afterColon_of_single {digits message : String} (h : IsSingleLine line digits message) :
    afterColon line = " " ++ message := by
  have hline : line.toList
      = ("\tline ".toList ++ digits.toList) ++ ':' :: (' ' :: message.toList) := by
    rw [h.line_eq]
    simp only [String.toList_append, List.append_assoc]
    rfl
  -- a colon is not a digit of any script
  have hbefore : ∀ c ∈ "\tline ".toList ++ digits.toList, (c != ':') = true := by
    intro c hc
    rw [bne_iff_ne]
    rintro rfl
    rcases List.mem_append.mp hc with hc | hc
    · exact absurd hc (by decide)
    · exact absurd (h.numeral.2 _ hc) (by decide)
  rw [afterColon, hline, List.dropWhile_append_of_pos hbefore,
    List.dropWhile_cons_of_neg (by decide), List.drop_one, List.tail_cons, ← String.toList_inj,
    String.toList_ofList, String.toList_append]
  rfl

/-- A single finding has its number judged, and keeps the space before its message. -/
theorem classify_of_single {digits message : String} (h : IsSingleLine line digits message) :
    classify line = some do
      let n ← lineNumber? digits.toList
      return .single ⟨n - 1, " " ++ message⟩ := by
  rw [classify, exists_isSingleLine_iff.mp ⟨_, h⟩, afterColon_of_single h]

/-- A header has its first number judged before its last. -/
theorem classify_of_header {first last description : String}
    (h : IsHeaderLine line first last description) :
    classify line = some do
      let a ← lineNumber? first.toList
      let b ← number? last.toList
      return .header ⟨a, b⟩ := by
  have hheader : isHeader line = true := isHeader_iff.mpr ⟨_, _, _, h⟩
  have hsingle : singleNumber? line.toList = none := by
    rw [← Option.not_isSome_iff_eq_none]
    exact Bool.eq_false_iff.mp (isSingle_of_isHeader hheader)
  rw [classify, hsingle, exists_isHeaderLine_iff.mp ⟨_, h⟩]

theorem classify_eq_none_iff :
    classify line = none ↔ ¬isSingle line = true ∧ ¬isHeader line = true := by
  rw [isSingle, isHeader, Option.not_isSome_iff_eq_none, Option.not_isSome_iff_eq_none, classify]
  cases singleNumber? line.toList with
  | some parts =>
      constructor
      · intro h
        cases h
      · rintro ⟨h, -⟩
        cases h
  | none =>
      cases headerNumbers? line.toList with
      | some parts =>
          constructor
          · intro h
            cases h
          · rintro ⟨-, h⟩
            cases h
      | none => exact ⟨fun _ => ⟨rfl, rfl⟩, fun _ => rfl⟩

/-- A line that is classified has one of the two shapes. -/
theorem shape_of_classify {answer : Except Fault Shape} (h : classify line = some answer) :
    (∃ digits message, IsSingleLine line digits message) ∨
      ∃ first last description, IsHeaderLine line first last description := by
  rw [← isSingle_iff, ← isHeader_iff]
  by_contra hnone
  rw [not_or, ← classify_eq_none_iff, h] at hnone
  cases hnone

/-! ### Written lines -/

theorem isSingleLine_singleLine (number : UInt32) {message : String}
    (hmessage : '\n' ∉ message.toList) :
    IsSingleLine (singleLine number message) (decimalText number.toNat) message := by
  refine ⟨rfl, ?_, hmessage⟩
  rw [toList_decimalText]
  exact isNumeral_toDigits _

theorem isHeaderLine_headerLine (first last : UInt32) {description : String}
    (hdescription : ')' ∉ description.toList) :
    IsHeaderLine (headerLine first last description) (decimalText first.toNat)
      (decimalText last.toNat) description := by
  refine ⟨rfl, ?_, ?_, hdescription⟩
  · rw [toList_decimalText]
    exact isNumeral_toDigits _
  · rw [toList_decimalText]
    exact isNumeral_toDigits _

theorem classify_singleLine {number : UInt32} (hnumber : number ≠ 0) {message : String}
    (hmessage : '\n' ∉ message.toList) :
    classify (singleLine number message)
      = some (.ok (.single ⟨number - 1, " " ++ message⟩)) := by
  rw [classify_of_single (isSingleLine_singleLine number hmessage), toList_decimalText,
    lineNumber?_toDigits hnumber]
  rfl

theorem classify_headerLine {first : UInt32} (hfirst : first ≠ 0) (last : UInt32)
    {description : String} (hdescription : ')' ∉ description.toList) :
    classify (headerLine first last description) = some (.ok (.header ⟨first, last⟩)) := by
  rw [classify_of_header (isHeaderLine_headerLine first last hdescription), toList_decimalText,
    toList_decimalText, lineNumber?_toDigits hfirst, number?_toDigits]
  rfl

/-! ### What is recognised -/

/-- A line that is recognised holds a number that counts lines from 1: that of a single finding,
whose message begins with a space and has no line feed, or the first of a header. -/
theorem classify_ok {shape : Shape} (h : classify line = some (.ok shape)) :
    (∃ number message, number ≠ 0 ∧ '\n' ∉ message.toList ∧
        shape = .single ⟨number - 1, " " ++ message⟩) ∨
      ∃ header : Header, header.first ≠ 0 ∧ shape = .header header := by
  rcases shape_of_classify h with ⟨digits, message, hline⟩ | ⟨first, last, description, hline⟩
  · left
    rw [classify_of_single hline] at h
    obtain ⟨n, hn, hshape⟩ := ok_of_bind_eq_ok (Option.some.inj h)
    exact ⟨n, message, lineNumber?_ne_zero hn, hline.one_line, (Except.ok.inj hshape).symm⟩
  · right
    rw [classify_of_header hline] at h
    obtain ⟨a, ha, hrest⟩ := ok_of_bind_eq_ok (Option.some.inj h)
    obtain ⟨b, hb, hshape⟩ := ok_of_bind_eq_ok hrest
    exact ⟨⟨a, b⟩, lineNumber?_ne_zero ha, (Except.ok.inj hshape).symm⟩

end Marginalia.Wire
