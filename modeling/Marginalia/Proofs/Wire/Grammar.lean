import Marginalia.Proofs.Wire.Line

/-!
What a line says, told by its shape and the values of its numbers.

`HasValue` is the value of a number on its own, whichever line it is on: its digits read in base ten,
if all of them are ASCII digits.  A number on a line either fits 32 bits or is a fault (`ReadsAs`),
and where it counts lines from 1 it must not be 0 either (`CountsAs`).  `Says` has one rule for each
way in which the numbers of a shape can be read, and `classify` follows it (`classify_eq_some_iff`):
the first number of a header is judged before the last.
-/

namespace Marginalia.Wire

open Text

/-! ### Values of numbers -/

/-- A number is written in ASCII digits and comes to `n` in base ten.  Leading zeros do not count. -/
def HasValue (digits : String) (n : Nat) : Prop :=
  (∀ c ∈ digits.toList, c.isDigit) ∧ Nat.ofDigitChars 10 digits.toList 0 = n

/-- What a number is read as. -/
inductive ReadsAs (digits : String) : Except Fault UInt32 → Prop
  | value {n : UInt32} : HasValue digits n.toNat → ReadsAs digits (.ok n)
  | unusable : (∀ n : UInt32, ¬HasValue digits n.toNat) →
      ReadsAs digits (.error (.badNumber digits))

/-- What a number is read as that counts lines from 1. -/
inductive CountsAs (digits : String) : Except Fault UInt32 → Prop
  | line {n : UInt32} : HasValue digits n.toNat → n ≠ 0 → CountsAs digits (.ok n)
  | zero : HasValue digits 0 → CountsAs digits (.error .zeroLine)
  | unusable : (∀ n : UInt32, ¬HasValue digits n.toNat) →
      CountsAs digits (.error (.badNumber digits))

theorem HasValue.zero_append {digits : String} {n : Nat} (h : HasValue digits n) :
    HasValue ("0" ++ digits) n := by
  have hcons : ("0" ++ digits).toList = '0' :: digits.toList := String.toList_append
  refine ⟨?_, ?_⟩
  · rw [hcons, List.forall_mem_cons]
    exact ⟨rfl, h.1⟩
  · rw [hcons, Nat.ofDigitChars_cons]
    exact h.2

theorem hasValue_iff {digits : String} (hne : IsNumeral digits.toList) {n : Nat} :
    HasValue digits n ↔ decimal? digits.toList = some n := by
  rw [decimal?_eq_some_iff]
  exact ⟨fun h => ⟨hne.1, h⟩, fun h => h.2⟩

variable {digits : String}

theorem number?_eq_ok_iff (hnumeral : IsNumeral digits.toList) {n : UInt32} :
    number? digits.toList = .ok n ↔ HasValue digits n.toNat := by
  rw [hasValue_iff hnumeral, number?]
  cases decimal? digits.toList with
  | none =>
      constructor
      · intro h
        cases h
      · intro h
        cases h
  | some k =>
      rw [Option.some_inj]
      dsimp only
      constructor
      · intro h
        split at h
        next hfits =>
          cases h
          exact (UInt32.toNat_ofNat_of_lt' hfits).symm
        · cases h
      · rintro rfl
        rw [if_pos n.toNat_lt, UInt32.ofNat_toNat]

theorem number?_eq_error {fault : Fault} (h : number? digits.toList = .error fault) :
    fault = .badNumber digits := by
  rw [number?, String.ofList_toList] at h
  split at h
  · split at h
    · cases h
    · cases h
      rfl
  · cases h
    rfl

/-- A number is read as what its value says. -/
theorem number?_eq_iff (hnumeral : IsNumeral digits.toList) {answer : Except Fault UInt32} :
    number? digits.toList = answer ↔ ReadsAs digits answer := by
  constructor
  · rintro rfl
    cases hread : number? digits.toList with
    | ok n => exact .value ((number?_eq_ok_iff hnumeral).mp hread)
    | error fault =>
        -- had the number a value of 32 bits, it would have been read
        rw [number?_eq_error hread]
        refine .unusable fun n hn => ?_
        rw [(number?_eq_ok_iff hnumeral).mpr hn] at hread
        cases hread
  · intro h
    cases h with
    | value hn => exact (number?_eq_ok_iff hnumeral).mpr hn
    | unusable hnone =>
        cases hread : number? digits.toList with
        | ok n => exact absurd ((number?_eq_ok_iff hnumeral).mp hread) (hnone n)
        | error fault => rw [number?_eq_error hread]

/-- A number that counts lines is read like any other, and then must not be 0. -/
theorem lineNumber?_eq_iff (hnumeral : IsNumeral digits.toList) {answer : Except Fault UInt32} :
    lineNumber? digits.toList = answer ↔ CountsAs digits answer := by
  constructor
  · rintro rfl
    rw [lineNumber?]
    cases hread : number? digits.toList with
    | ok n =>
        have hn : HasValue digits n.toNat := (number?_eq_ok_iff hnumeral).mp hread
        show CountsAs digits (if n = 0 then .error .zeroLine else .ok n)
        split
        next hzero =>
          rw [hzero] at hn
          exact .zero hn
        next hne => exact .line hn hne
    | error fault =>
        cases (number?_eq_iff hnumeral).mp hread with
        | unusable hnone => exact .unusable hnone
  · intro h
    rw [lineNumber?]
    cases h with
    | line hn hne =>
        rw [(number?_eq_ok_iff hnumeral).mpr hn]
        exact if_neg hne
    | zero hzero =>
        have hread : number? digits.toList = .ok 0 := (number?_eq_ok_iff hnumeral).mpr hzero
        rw [hread]
        rfl
    | unusable hnone =>
        rw [(number?_eq_iff hnumeral).mpr (.unusable hnone)]
        rfl

/-! ### What a line says -/

/-- What a line says.  A single finding is on the line that its number counts from 1, and its message
keeps the space before it. -/
inductive Says (line : String) : Except Fault Shape → Prop
  | single {digits message : String} {n : UInt32} :
      IsSingleLine line digits message → CountsAs digits (.ok n) →
      Says line (.ok (.single ⟨n - 1, " " ++ message⟩))
  | singleFault {digits message : String} {fault : Fault} :
      IsSingleLine line digits message → CountsAs digits (.error fault) →
      Says line (.error fault)
  | header {first last description : String} {a b : UInt32} :
      IsHeaderLine line first last description → CountsAs first (.ok a) → ReadsAs last (.ok b) →
      Says line (.ok (.header ⟨a, b⟩))
  | firstFault {first last description : String} {fault : Fault} :
      IsHeaderLine line first last description → CountsAs first (.error fault) →
      Says line (.error fault)
  | lastFault {first last description : String} {a : UInt32} {fault : Fault} :
      IsHeaderLine line first last description → CountsAs first (.ok a) →
      ReadsAs last (.error fault) → Says line (.error fault)

variable {line : String}

theorem says_of_single {digits message : String} (hline : IsSingleLine line digits message)
    {answer : Except Fault Shape} (h : classify line = some answer) : Says line answer := by
  rw [classify_of_single hline] at h
  cases hn : lineNumber? digits.toList with
  | error fault =>
      rw [hn] at h
      obtain rfl : Except.error fault = answer := Option.some.inj h
      exact .singleFault hline ((lineNumber?_eq_iff hline.numeral).mp hn)
  | ok n =>
      rw [hn] at h
      obtain rfl : Except.ok (Shape.single ⟨n - 1, " " ++ message⟩) = answer := Option.some.inj h
      exact .single hline ((lineNumber?_eq_iff hline.numeral).mp hn)

theorem says_of_header {first last description : String}
    (hline : IsHeaderLine line first last description) {answer : Except Fault Shape}
    (h : classify line = some answer) : Says line answer := by
  rw [classify_of_header hline] at h
  cases ha : lineNumber? first.toList with
  | error fault =>
      rw [ha] at h
      obtain rfl : Except.error fault = answer := Option.some.inj h
      exact .firstFault hline ((lineNumber?_eq_iff hline.first_numeral).mp ha)
  | ok a =>
      have hfirst := (lineNumber?_eq_iff hline.first_numeral).mp ha
      cases hb : number? last.toList with
      | error fault =>
          rw [ha, hb] at h
          obtain rfl : Except.error fault = answer := Option.some.inj h
          exact .lastFault hline hfirst ((number?_eq_iff hline.last_numeral).mp hb)
      | ok b =>
          rw [ha, hb] at h
          obtain rfl : Except.ok (Shape.header ⟨a, b⟩) = answer := Option.some.inj h
          exact .header hline hfirst ((number?_eq_iff hline.last_numeral).mp hb)

/-- A line is classified as what it says. -/
theorem classify_eq_some_iff {answer : Except Fault Shape} :
    classify line = some answer ↔ Says line answer := by
  constructor
  · intro h
    rcases shape_of_classify h with ⟨digits, message, hline⟩ | ⟨first, last, description, hline⟩
    · exact says_of_single hline h
    · exact says_of_header hline h
  · intro h
    cases h with
    | single hline hn =>
        rw [classify_of_single hline, (lineNumber?_eq_iff hline.numeral).mpr hn]
        rfl
    | singleFault hline hn =>
        rw [classify_of_single hline, (lineNumber?_eq_iff hline.numeral).mpr hn]
        rfl
    | header hline ha hb =>
        rw [classify_of_header hline, (lineNumber?_eq_iff hline.first_numeral).mpr ha,
          (number?_eq_iff hline.last_numeral).mpr hb]
        rfl
    | firstFault hline ha =>
        rw [classify_of_header hline, (lineNumber?_eq_iff hline.first_numeral).mpr ha]
        rfl
    | lastFault hline ha hb =>
        rw [classify_of_header hline, (lineNumber?_eq_iff hline.first_numeral).mpr ha,
          (number?_eq_iff hline.last_numeral).mpr hb]
        rfl

/-! ### What is recognised -/

/-- No number that counts from 1 falls below 0 when it is counted from 0. -/
theorem toNat_sub_one {n : UInt32} (h : n ≠ 0) : (n - 1).toNat + 1 = n.toNat := by
  have hpos : n.toNat ≠ 0 := fun hzero => h (UInt32.toNat_inj.mp hzero)
  have hle : 1 ≤ n := UInt32.le_iff_toNat_le.mpr (Nat.one_le_iff_ne_zero.mpr hpos)
  rw [UInt32.toNat_sub_of_le n 1 hle]
  show n.toNat - 1 + 1 = n.toNat
  omega

/-- The line of a single finding is one less than the number on it, and its text is what is after the
first colon. -/
theorem single_of_classify {finding : Finding}
    (h : classify line = some (.ok (.single finding))) :
    finding.line.toNat + 1 < UInt32.size ∧ finding.text = afterColon line ∧
      ∃ digits message, IsSingleLine line digits message ∧
        HasValue digits (finding.line.toNat + 1) := by
  cases classify_eq_some_iff.mp h with
  | @single digits message n hline hcounts =>
      cases hcounts with
      | line hn hne =>
          have hnumber : (n - 1).toNat + 1 = n.toNat := toNat_sub_one hne
          refine ⟨?_, (afterColon_of_single hline).symm, digits, message, hline, ?_⟩
          · rw [hnumber]
            exact n.toNat_lt_size
          · rw [hnumber]
            exact hn

/-- A header has the two numbers on its line, and opens a finding on the first of these lines. -/
theorem header_of_classify {header : Header}
    (h : classify line = some (.ok (.header header))) :
    header.opened.line.toNat + 1 = header.first.toNat ∧
      ∃ first last description, IsHeaderLine line first last description ∧
        HasValue first header.first.toNat ∧ HasValue last header.last.toNat := by
  cases classify_eq_some_iff.mp h with
  | header hline hfirst hlast =>
      cases hfirst with
      | line ha hne =>
          cases hlast with
          | value hb => exact ⟨toNat_sub_one hne, _, _, _, hline, ha, hb⟩

/-! ### Zeros before a number -/

theorem isNumeral_zero_append (h : IsNumeral digits.toList) : IsNumeral ("0" ++ digits).toList := by
  have hcons : ("0" ++ digits).toList = '0' :: digits.toList := String.toList_append
  rw [hcons]
  exact ⟨List.cons_ne_nil _ _, List.forall_mem_cons.mpr ⟨by decide, h.2⟩⟩

theorem CountsAs.zero_append {n : UInt32} (h : CountsAs digits (.ok n)) :
    CountsAs ("0" ++ digits) (.ok n) := by
  cases h with
  | line hn hne => exact .line hn.zero_append hne

theorem ReadsAs.zero_append {n : UInt32} (h : ReadsAs digits (.ok n)) :
    ReadsAs ("0" ++ digits) (.ok n) := by
  cases h with
  | value hn => exact .value hn.zero_append

theorem classify_zero_single {digits message : String} (hline : IsSingleLine line digits message)
    {shape : Shape} (h : classify line = some (.ok shape)) :
    classify ("\tline " ++ ("0" ++ digits) ++ ": " ++ message) = some (.ok shape) := by
  rw [classify_of_single hline] at h
  obtain ⟨n, hn, hshape⟩ := ok_of_bind_eq_ok (Option.some.inj h)
  obtain rfl := Except.ok.inj hshape
  have hcounts : CountsAs digits (.ok n) := (lineNumber?_eq_iff hline.numeral).mp hn
  exact classify_eq_some_iff.mpr
    (.single ⟨rfl, isNumeral_zero_append hline.numeral, hline.one_line⟩ hcounts.zero_append)

theorem classify_zero_header {first last description : String}
    (hline : IsHeaderLine line first last description) {shape : Shape}
    (h : classify line = some (.ok shape)) :
    classify ("line " ++ ("0" ++ first) ++ "-" ++ ("0" ++ last) ++ " (" ++ description ++ "):")
      = some (.ok shape) := by
  rw [classify_of_header hline] at h
  obtain ⟨a, ha, hrest⟩ := ok_of_bind_eq_ok (Option.some.inj h)
  obtain ⟨b, hb, hshape⟩ := ok_of_bind_eq_ok hrest
  obtain rfl := Except.ok.inj hshape
  have hfirst : CountsAs first (.ok a) := (lineNumber?_eq_iff hline.first_numeral).mp ha
  have hlast : ReadsAs last (.ok b) := (number?_eq_iff hline.last_numeral).mp hb
  have hzeros : IsHeaderLine
      ("line " ++ ("0" ++ first) ++ "-" ++ ("0" ++ last) ++ " (" ++ description ++ "):")
      ("0" ++ first) ("0" ++ last) description :=
    ⟨rfl, isNumeral_zero_append hline.first_numeral, isNumeral_zero_append hline.last_numeral,
      hline.closed⟩
  exact classify_eq_some_iff.mpr (.header hzeros hfirst.zero_append hlast.zero_append)

/-! ### The grammar -/

/-- A line is classified just when it has one of the two shapes, never both, and then as what it
says.  The number on the line of a finding is counted from 1, so counting it from 0 does not wrap
around.  Zeros before a number make no difference to what is recognised. -/
theorem classify_exact (line : String) :
    (∀ answer, classify line = some answer ↔ Says line answer) ∧
      (classify line = none ↔
        (¬∃ digits message, IsSingleLine line digits message) ∧
          ¬∃ first last description, IsHeaderLine line first last description) ∧
      (isSingle line = true ↔ ∃ digits message, IsSingleLine line digits message) ∧
      (isHeader line = true ↔
        ∃ first last description, IsHeaderLine line first last description) ∧
      ¬(isSingle line = true ∧ isHeader line = true) ∧
      (∀ finding, classify line = some (.ok (.single finding)) →
        finding.line.toNat ≤ UInt32.size - 2 ∧ finding.text = afterColon line ∧
          ∃ digits message, IsSingleLine line digits message ∧
            HasValue digits (finding.line.toNat + 1)) ∧
      (∀ header, classify line = some (.ok (.header header)) →
        header.opened.line.toNat ≤ UInt32.size - 2 ∧
          header.opened.line.toNat + 1 = header.first.toNat ∧
          ∃ first last description, IsHeaderLine line first last description ∧
            HasValue first header.first.toNat ∧ HasValue last header.last.toNat) ∧
      ∀ shape, classify line = some (.ok shape) →
        (∀ digits message, IsSingleLine line digits message →
          classify ("\tline " ++ ("0" ++ digits) ++ ": " ++ message) = some (.ok shape)) ∧
        ∀ first last description, IsHeaderLine line first last description →
          classify ("line " ++ ("0" ++ first) ++ "-" ++ ("0" ++ last) ++ " (" ++ description
            ++ "):") = some (.ok shape) := by
  refine ⟨fun answer => classify_eq_some_iff, ?_, isSingle_iff, isHeader_iff, ?_, ?_, ?_, ?_⟩
  · rw [classify_eq_none_iff, isSingle_iff, isHeader_iff]
  · rintro ⟨hsingle, hheader⟩
    rw [isSingle_of_isHeader hheader] at hsingle
    cases hsingle
  · intro finding h
    obtain ⟨hfits, htext, hshape⟩ := single_of_classify h
    exact ⟨by omega, htext, hshape⟩
  · intro header h
    obtain ⟨hnumber, hshape⟩ := header_of_classify h
    have hfits : header.first.toNat < UInt32.size := header.first.toNat_lt_size
    exact ⟨by omega, hnumber, hshape⟩
  · intro shape h
    exact ⟨fun _ _ hline => classify_zero_single hline h,
      fun _ _ _ hline => classify_zero_header hline h⟩

/-- A number with zeros before it, on a line with a second colon; a header that ends before it
starts, whose description has a line feed; a number that is one too large; and digits without a
value. -/
theorem classify_exact_at_the_edges :
    (classify "\tline 007: a: b" = some (.ok (.single ⟨6, " a: b"⟩)) ∧
      afterColon "\tline 007: a: b" = " a: b" ∧
      classify "\tline 0007: a: b" = some (.ok (.single ⟨6, " a: b"⟩))) ∧
      (classify "line 2-0 (x\n):" = some (.ok (.header ⟨2, 0⟩)) ∧
        (Header.opened ⟨2, 0⟩).line.toNat + 1 = 2) ∧
      classify "\tline 4294967296: x" = some (.error (.badNumber "4294967296")) ∧
      classify "\tline \u0663: x" = some (.error (.badNumber "\u0663")) := by
  have hseven : IsSingleLine "\tline 007: a: b" "007" "a: b" :=
    ⟨rfl, ⟨by decide, List.all_eq_true.mp (by decide +kernel)⟩, by decide⟩
  have hvalue : HasValue "007" (7 : UInt32).toNat :=
    ⟨List.all_eq_true.mp (by decide), by decide⟩
  have htwo : HasValue "2" (2 : UInt32).toNat := ⟨List.all_eq_true.mp (by decide), by decide⟩
  have hzero : HasValue "0" (0 : UInt32).toNat := ⟨List.all_eq_true.mp (by decide), by decide⟩
  have hheader : IsHeaderLine "line 2-0 (x\n):" "2" "0" "x\n" :=
    ⟨rfl, ⟨by decide, List.all_eq_true.mp (by decide +kernel)⟩,
      ⟨by decide, List.all_eq_true.mp (by decide +kernel)⟩, by decide⟩
  have hlarge : IsSingleLine "\tline 4294967296: x" "4294967296" "x" :=
    ⟨rfl, ⟨by decide, List.all_eq_true.mp (by decide +kernel)⟩, by decide⟩
  have hforeign : IsSingleLine "\tline \u0663: x" "\u0663" "x" :=
    ⟨rfl, ⟨by decide, List.all_eq_true.mp (by decide +kernel)⟩, by decide⟩
  obtain ⟨hanswer, -, -, -, -, hfinding, -, hzeros⟩ := classify_exact "\tline 007: a: b"
  have hclassify : classify "\tline 007: a: b" = some (.ok (.single ⟨6, " a: b"⟩)) :=
    (hanswer _).mpr (.single hseven (.line hvalue (by decide)))
  refine ⟨⟨hclassify, (hfinding _ hclassify).2.1.symm, (hzeros _ hclassify).1 _ _ hseven⟩,
    ?_, ?_, ?_⟩
  · obtain ⟨hanswer, -, -, -, -, -, hopened, -⟩ := classify_exact "line 2-0 (x\n):"
    have hclassify : classify "line 2-0 (x\n):" = some (.ok (.header ⟨2, 0⟩)) :=
      (hanswer _).mpr (.header hheader (.line htwo (by decide)) (.value hzero))
    exact ⟨hclassify, (hopened _ hclassify).2.1⟩
  · obtain ⟨hanswer, -⟩ := classify_exact "\tline 4294967296: x"
    refine (hanswer _).mpr (.singleFault hlarge (.unusable fun n hn => ?_))
    have hn : 4294967296 = n.toNat := hn.2
    exact absurd n.toNat_lt (by omega)
  · obtain ⟨hanswer, -⟩ := classify_exact "\tline \u0663: x"
    refine (hanswer _).mpr (.singleFault hforeign (.unusable fun n hn => ?_))
    exact absurd (hn.1 '\u0663' (by decide)) (by decide)

end Marginalia.Wire
