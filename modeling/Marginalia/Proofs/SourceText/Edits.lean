import Marginalia.SourceText
import Mathlib.Data.List.Basic

/-!
Texts under edits.

An edit replaces a span or the whole text (`Edit`).  A span can be replaced just when the text can
be cut at both its ends (`IsCut`), that is when it is in order, inside the text, and begins and ends
at character boundaries (`exists_isCut_iff`).  An edit that is refused changes nothing
(`SourceText.edit_cases`).  Whatever edits are made and refused, what results is the index of the
text reached, with the number of edits made for its stamp (`SourceText.editAll_index`).
-/

namespace Marginalia

open Text

/-! ### Cuts -/

/-- The length of a text is that of the list of its characters. -/
theorem byteLength_toList (text : String) : byteLength text.toList = text.utf8ByteSize := by
  have h : ∀ chars : List Char, byteLength chars = (String.ofList chars).utf8ByteSize := by
    intro chars
    induction chars with
    | nil => rfl
    | cons c rest ih =>
        rw [byteLength_cons, ih, String.ofList_cons, String.utf8ByteSize_append,
          String.utf8ByteSize_singleton]
  rw [h, String.ofList_toList]

/-- A text can be cut at its character boundaries. -/
theorem exists_splitAt?_iff {text : String} {offset : Nat} :
    (∃ cut, splitAt? offset text.toList = some cut) ↔
      String.Pos.Raw.IsValid text ⟨offset⟩ := by
  rw [String.Pos.Raw.isValid_iff_exists_append]
  constructor
  · rintro ⟨⟨before, after⟩, h⟩
    obtain ⟨hchars, rfl⟩ := splitAt?_eq_some_iff.mp h
    refine ⟨.ofList before, .ofList after, ?_, ?_⟩
    · rw [← String.ofList_append, ← hchars, String.ofList_toList]
    · rw [String.Pos.Raw.ext_iff, String.byteIdx_rawEndPos, ← byteLength_toList,
        String.toList_ofList]
  · rintro ⟨before, after, rfl, hoffset⟩
    refine ⟨(before.toList, after.toList), splitAt?_eq_some_iff.mpr ⟨String.toList_append, ?_⟩⟩
    rw [byteLength_toList, ← String.byteIdx_rawEndPos, ← hoffset]

/-- A span that is not in order, or reaches beyond the text. -/
def IsOutside (text : String) (span : Span) : Prop :=
  span.stop < span.start ∨ text.utf8ByteSize < span.stop

/-- A span that begins and ends at character boundaries of a text. -/
def EndsAtBoundaries (text : String) (span : Span) : Prop :=
  String.Pos.Raw.IsValid text ⟨span.start⟩ ∧ String.Pos.Raw.IsValid text ⟨span.stop⟩

/-- A text cut at both ends of a span. -/
structure IsCut (text : String) (span : Span) (before inside after : String) : Prop where
  text_eq : text = before ++ inside ++ after
  start_eq : before.utf8ByteSize = span.start
  stop_eq : (before ++ inside).utf8ByteSize = span.stop

/-- A text can be cut at both ends of a span that is in order and ends at character boundaries. -/
theorem exists_isCut_iff {text : String} {span : Span} :
    (∃ before inside after, IsCut text span before inside after) ↔
      span.start ≤ span.stop ∧ EndsAtBoundaries text span := by
  constructor
  · rintro ⟨before, inside, after, rfl, hstart, hstop⟩
    refine ⟨?_, ?_, ?_⟩
    · rw [← hstart, ← hstop, String.utf8ByteSize_append]
      exact Nat.le_add_right _ _
    · refine String.Pos.Raw.isValid_iff_exists_append.mpr ⟨before, inside ++ after, ?_, ?_⟩
      · rw [String.append_assoc]
      · rw [← hstart]
        rfl
    · refine String.Pos.Raw.isValid_iff_exists_append.mpr ⟨before ++ inside, after, rfl, ?_⟩
      rw [← hstop]
      rfl
  · rintro ⟨hle, hstart, hstop⟩
    obtain ⟨⟨before, rest⟩, hbefore⟩ := exists_splitAt?_iff.mpr hstart
    obtain ⟨⟨whole, after⟩, hwhole⟩ := exists_splitAt?_iff.mpr hstop
    obtain ⟨hrest, hbefore⟩ := splitAt?_eq_some_iff.mp hbefore
    obtain ⟨hafter, hwhole⟩ := splitAt?_eq_some_iff.mp hwhole
    have hlength : byteLength before ≤ byteLength whole := by
      rw [hbefore, hwhole]
      exact hle
    obtain ⟨inside, rfl, -⟩ := exists_append_of_le (hrest.symm.trans hafter) hlength
    refine ⟨.ofList before, .ofList inside, .ofList after, ?_, ?_, ?_⟩
    · rw [← String.ofList_append, ← String.ofList_append, ← hafter, String.ofList_toList]
    · rw [← byteLength_toList, String.toList_ofList, hbefore]
    · rw [← String.ofList_append, ← byteLength_toList, String.toList_ofList, hwhole]

/-- What a cut takes out of a text is the part of it at the span. -/
theorem exists_isCut_iff_slice? {text : String} {span : Span} {inside : String} :
    (∃ before after, IsCut text span before inside after) ↔
      slice? text.toList span.start span.stop = some inside.toList := by
  rw [slice?_eq_some_iff]
  constructor
  · rintro ⟨before, after, rfl, hstart, hstop⟩
    refine ⟨before.toList, after.toList, by simp, ?_, ?_⟩
    · rw [byteLength_toList, hstart]
    · rw [byteLength_toList, ← hstop, ← hstart, String.utf8ByteSize_append]
  · rintro ⟨before, after, htext, hstart, hstop⟩
    refine ⟨.ofList before, .ofList after, ?_, ?_, ?_⟩
    · rw [← String.toList_inj, htext]
      simp
    · rw [← byteLength_toList, String.toList_ofList, hstart]
    · rw [String.utf8ByteSize_append, ← byteLength_toList, ← byteLength_toList,
        String.toList_ofList, hstart, hstop]

/-! ### One edit -/

/-- An edit of a text. -/
inductive Edit where
  | replace (span : Span) (replacement : String)
  | setText (text : String)

namespace SourceText

variable {s : SourceText}

/-- Edit a text.  An edit that is refused leaves it as it is. -/
def edit (s : SourceText) : Edit → Except EditError Unit × SourceText
  | .replace span replacement =>
      match s.replace span replacement with
      | .ok edited => (.ok (), edited)
      | .error error => (.error error, s)
  | .setText text => (.ok (), s.setText text)

theorem length_eq (s : SourceText) : s.length = s.text.utf8ByteSize :=
  byteLength_toList s.text

/-- What an edit is checked for first. -/
theorem isOutside_iff {span : Span} :
    IsOutside s.text span ↔ span.stop < span.start ∨ s.length < span.stop := by
  rw [IsOutside, length_eq]

theorem replace_of_isOutside {span : Span} (h : IsOutside s.text span) (replacement : String) :
    s.replace span replacement = .error (.outOfBounds span s.text.utf8ByteSize) := by
  rw [replace, if_pos (isOutside_iff.mp h), length_eq]

theorem replace_of_not_endsAtBoundaries {span : Span} (hinside : ¬IsOutside s.text span)
    (h : ¬EndsAtBoundaries s.text span) (replacement : String) :
    s.replace span replacement = .error (.notCharBoundary span) := by
  rw [replace, if_neg fun hout => hinside (isOutside_iff.mpr hout)]
  split
  next hstart hstop =>
    exact absurd ⟨exists_splitAt?_iff.mp ⟨_, hstart⟩, exists_splitAt?_iff.mp ⟨_, hstop⟩⟩ h
  · rfl

theorem replace_of_isCut {span : Span} {before inside after : String}
    (h : IsCut s.text span before inside after) (replacement : String) :
    s.replace span replacement = .ok (s.setText (before ++ replacement ++ after)) := by
  obtain ⟨htext, hstart, hstop⟩ := h
  have hinside : ¬IsOutside s.text span := by
    rw [IsOutside, htext, String.utf8ByteSize_append]
    rw [String.utf8ByteSize_append] at hstop ⊢
    omega
  have hbefore : splitAt? span.start s.text.toList
      = some (before.toList, inside.toList ++ after.toList) := by
    rw [splitAt?_eq_some_iff, byteLength_toList, htext]
    simp [hstart]
  have hafter : splitAt? span.stop s.text.toList
      = some (before.toList ++ inside.toList, after.toList) := by
    rw [splitAt?_eq_some_iff, ← String.toList_append, byteLength_toList, htext]
    simp [hstop]
  rw [replace, if_neg fun hout => hinside (isOutside_iff.mpr hout), hbefore, hafter]
  simp [String.ofList_append, String.append_assoc]

/-- What becomes of replacing a span: it is refused where it is not inside the text, else where it
cuts a character, and else what is cut out of the text is replaced. -/
theorem edit_replace_cases (s : SourceText) (span : Span) (replacement : String) :
    IsOutside s.text span ∧ s.edit (.replace span replacement)
        = (.error (.outOfBounds span s.text.utf8ByteSize), s) ∨
      ¬IsOutside s.text span ∧ ¬EndsAtBoundaries s.text span ∧
        s.edit (.replace span replacement) = (.error (.notCharBoundary span), s) ∨
      ¬IsOutside s.text span ∧ EndsAtBoundaries s.text span ∧
        ∃ before inside after, IsCut s.text span before inside after ∧
          s.edit (.replace span replacement)
            = (.ok (), s.setText (before ++ replacement ++ after)) := by
  by_cases hinside : IsOutside s.text span
  · refine Or.inl ⟨hinside, ?_⟩
    rw [edit, replace_of_isOutside hinside]
  · by_cases hends : EndsAtBoundaries s.text span
    · have hle : span.start ≤ span.stop := Nat.not_lt.mp fun hlt => hinside (Or.inl hlt)
      obtain ⟨before, inside, after, hcut⟩ := exists_isCut_iff.mpr ⟨hle, hends⟩
      refine Or.inr (Or.inr ⟨hinside, hends, before, inside, after, hcut, ?_⟩)
      rw [edit, replace_of_isCut hcut]
    · refine Or.inr (Or.inl ⟨hinside, hends, ?_⟩)
      rw [edit, replace_of_not_endsAtBoundaries hinside hends]

/-- The answers to replacing a span tell what is wrong with it. -/
theorem edit_replace_answers (s : SourceText) (span : Span) (replacement : String) :
    let answer := (s.edit (.replace span replacement)).1
    (answer = .error (.outOfBounds span s.text.utf8ByteSize) ↔ IsOutside s.text span) ∧
      (answer = .error (.notCharBoundary span)
        ↔ ¬IsOutside s.text span ∧ ¬EndsAtBoundaries s.text span) ∧
      (answer = .ok () ↔ ¬IsOutside s.text span ∧ EndsAtBoundaries s.text span) := by
  rcases edit_replace_cases s span replacement with
    ⟨hinside, h⟩ | ⟨hinside, hends, h⟩ | ⟨hinside, hends, _, _, _, _, h⟩
  · simp [h, hinside]
  · simp [h, hinside, hends]
  · simp [h, hinside, hends]

/-- A span that is replaced is cut out of the text. -/
theorem exists_isCut_of_ok {span : Span} {replacement : String}
    (h : (s.edit (.replace span replacement)).1 = .ok ()) :
    ∃ before inside after, IsCut s.text span before inside after ∧
      (s.edit (.replace span replacement)).2
        = index (before ++ replacement ++ after) (s.stamp + 1) := by
  rcases edit_replace_cases s span replacement with
    ⟨-, heq⟩ | ⟨-, -, heq⟩ | ⟨-, -, before, inside, after, hcut, heq⟩
  · rw [heq] at h
    cases h
  · rw [heq] at h
    cases h
  · exact ⟨before, inside, after, hcut, by rw [heq]; rfl⟩

/-- Replacing a span keeps what is before it and after it. -/
theorem text_of_edit_replace {span : Span} {replacement : String}
    (h : (s.edit (.replace span replacement)).1 = .ok ()) :
    ∃ before inside after, IsCut s.text span before inside after ∧
      (s.edit (.replace span replacement)).2.text = before ++ replacement ++ after := by
  obtain ⟨before, inside, after, hcut, hedited⟩ := exists_isCut_of_ok h
  exact ⟨before, inside, after, hcut, congrArg SourceText.text hedited⟩

/-- An edit is refused and changes nothing, or is made, and then the new text is indexed and gets
the next stamp. -/
theorem edit_cases (s : SourceText) (e : Edit) :
    (∃ error, s.edit e = (.error error, s)) ∨
      ∃ text, s.edit e = (.ok (), index text (s.stamp + 1)) := by
  cases e with
  | setText text => exact Or.inr ⟨text, rfl⟩
  | replace span replacement =>
      rcases edit_replace_cases s span replacement with
        ⟨-, h⟩ | ⟨-, -, h⟩ | ⟨-, -, before, _, after, -, h⟩
      · exact Or.inl ⟨_, h⟩
      · exact Or.inl ⟨_, h⟩
      · exact Or.inr ⟨before ++ replacement ++ after, h⟩

theorem edit_of_error {e : Edit} {error : EditError} (h : (s.edit e).1 = .error error) :
    (s.edit e).2 = s := by
  rcases edit_cases s e with ⟨error', heq⟩ | ⟨text, heq⟩
  · rw [heq]
  · rw [heq] at h
    cases h

/-! ### Edits one after another -/

/-- Edit a text several times.  The answers are in the order of the edits. -/
def editAll (s : SourceText) : List Edit → List (Except EditError Unit) × SourceText
  | [] => ([], s)
  | e :: edits =>
      let first := s.edit e
      let rest := first.2.editAll edits
      (first.1 :: rest.1, rest.2)

theorem editAll_append (s : SourceText) (earlier later : List Edit) :
    s.editAll (earlier ++ later)
      = ((s.editAll earlier).1 ++ ((s.editAll earlier).2.editAll later).1,
          ((s.editAll earlier).2.editAll later).2) := by
  induction earlier generalizing s with
  | nil => rfl
  | cons e earlier ih => rw [List.cons_append, editAll, editAll, ih]; rfl

/-- The number of edits that are made and not refused. -/
def editsMade (s : SourceText) (edits : List Edit) : Nat := (s.editAll edits).1.countP (·.isOk)

theorem editsMade_append (s : SourceText) (earlier later : List Edit) :
    s.editsMade (earlier ++ later)
      = s.editsMade earlier + (s.editAll earlier).2.editsMade later := by
  rw [editsMade, editAll_append, List.countP_append, editsMade, editsMade]

/-- What any edits leave is the index of the text they leave, and the stamp counts those made. -/
theorem editAll_index (text : String) (stamp : UInt64) (edits : List Edit) :
    ∃ edited, ((index text stamp).editAll edits).2
      = index edited (stamp + .ofNat ((index text stamp).editsMade edits)) := by
  induction edits generalizing text stamp with
  | nil => exact ⟨text, congrArg (index text) (UInt64.add_zero stamp).symm⟩
  | cons e edits ih =>
      rcases edit_cases (index text stamp) e with ⟨error, he⟩ | ⟨next, he⟩
      · have hmade : (index text stamp).editsMade (e :: edits)
            = (index text stamp).editsMade edits := by
          rw [editsMade, editAll, he]
          exact List.countP_cons_of_neg Bool.false_ne_true
        rw [hmade, editAll, he]
        exact ih text stamp
      · have hmade : (index text stamp).editsMade (e :: edits)
            = (index next (stamp + 1)).editsMade edits + 1 := by
          rw [editsMade, editAll, he]
          exact List.countP_cons_of_pos rfl
        obtain ⟨edited, hedited⟩ := ih next (stamp + 1)
        have hstamp : stamp + 1 + UInt64.ofNat ((index next (stamp + 1)).editsMade edits)
            = stamp + UInt64.ofNat ((index next (stamp + 1)).editsMade edits + 1) := by
          rw [UInt64.ofNat_add, UInt64.add_assoc, UInt64.add_comm 1]
          rfl
        refine ⟨edited, ?_⟩
        rw [hmade, editAll, he, ← hstamp]
        exact hedited

/-- The stamp of a text that was opened and edited counts the edits made. -/
theorem stamp_editAll {text : String} {edits : List Edit}
    (h : (ofText text).editsMade edits < UInt64.size) :
    ((ofText text).editAll edits).2.stamp.toNat = (ofText text).editsMade edits := by
  obtain ⟨edited, hedited⟩ := editAll_index text 0 edits
  rw [ofText] at h ⊢
  rw [hedited]
  show (0 + UInt64.ofNat _).toNat = _
  rw [UInt64.zero_add, UInt64.toNat_ofNat_of_lt' h]

/-- Whatever edits are made of a text, and however many are refused in between, as long as fewer
than `UInt64.size` are made:

* its lines and tokens are those of the text it has come to, opened afresh, its stamp is the number
  of the edits made, and every edit made gives it a stamp it has not had before;
* replacing a span is refused as out of bounds where the span is not in order or not inside the
  text, else as cutting a character where it does not begin and end at character boundaries, and
  else made, and what is before the span and after it stays;
* an edit that is refused leaves the text, its lines, its tokens and its stamp as they are, and
  replacing the whole text is never refused. -/
theorem edited_is_fresh (text : String) (edits : List Edit)
    (hmade : (ofText text).editsMade edits < UInt64.size) :
    let s := ((ofText text).editAll edits).2
    (s.lineStarts = (ofText s.text).lineStarts ∧ s.tokens = (ofText s.text).tokens) ∧
      s.stamp.toNat = (ofText text).editsMade edits ∧
      (∀ earlier e later, edits = earlier ++ e :: later →
        (((ofText text).editAll earlier).2.edit e).1 = .ok () →
          ((ofText text).editAll earlier).2.stamp ≠ s.stamp) ∧
      (∀ span replacement,
        let edited := s.edit (.replace span replacement)
        (edited.1 = .error (.outOfBounds span s.text.utf8ByteSize) ↔ IsOutside s.text span) ∧
          (edited.1 = .error (.notCharBoundary span)
            ↔ ¬IsOutside s.text span ∧ ¬EndsAtBoundaries s.text span) ∧
          (edited.1 = .ok () ↔ ¬IsOutside s.text span ∧ EndsAtBoundaries s.text span) ∧
          (edited.1 = .ok () → ∃ before inside after, IsCut s.text span before inside after ∧
            edited.2.text = before ++ replacement ++ after)) ∧
      (∀ e error, (s.edit e).1 = .error error → (s.edit e).2 = s) ∧
      ∀ whole, (s.edit (.setText whole)).1 = .ok () ∧ (s.edit (.setText whole)).2.text = whole := by
  intro s
  refine ⟨?_, stamp_editAll hmade, ?_, ?_, ?_, fun whole => ⟨rfl, rfl⟩⟩
  · obtain ⟨edited, hedited⟩ := editAll_index text 0 edits
    have hs : s = index edited _ := hedited
    rw [hs]
    exact ⟨rfl, rfl⟩
  · rintro earlier e later rfl hok hstamp
    have hcount := editsMade_append (ofText text) earlier (e :: later)
    have hone : 0 < ((ofText text).editAll earlier).2.editsMade (e :: later) := by
      rw [editsMade, editAll, hok]
      exact List.countP_pos_iff.mpr ⟨_, List.mem_cons_self, rfl⟩
    have hstamps := congrArg UInt64.toNat hstamp
    rw [stamp_editAll (by omega), stamp_editAll hmade] at hstamps
    omega
  · intro span replacement edited
    obtain ⟨houtside, hcuts, hok⟩ := edit_replace_answers s span replacement
    exact ⟨houtside, hcuts, hok, text_of_edit_replace⟩
  · exact fun e error h => edit_of_error h

/-- Of five edits three are refused: past the end, inside a character, and out of order. -/
theorem edited_is_fresh_mixed :
    let edits : List Edit :=
      [.replace ⟨0, 9⟩ "x", .replace ⟨2, 3⟩ "x", .replace ⟨1, 3⟩ "+x", .replace ⟨3, 1⟩ "",
        .setText "\u00E9 z"]
    let s := ((ofText "a\u00E9b").editAll edits).2
    (ofText "a\u00E9b").editsMade edits < UInt64.size ∧ s.stamp.toNat = 2 ∧
      s.tokens = (ofText s.text).tokens ∧
      ((ofText "a\u00E9b").editAll (edits.take 2)).2.stamp ≠ s.stamp ∧
      ¬EndsAtBoundaries s.text ⟨1, 2⟩ ∧
      (∃ before inside after, IsCut s.text ⟨0, 2⟩ before inside after ∧
        (s.edit (.replace ⟨0, 2⟩ "y")).2.text = before ++ "y" ++ after) ∧
      (s.edit (.replace ⟨1, 2⟩ "y")).2 = s := by
  intro edits s
  have hmade : (ofText "a\u00E9b").editsMade edits = 2 := by decide +kernel
  have hsize : (ofText "a\u00E9b").editsMade edits < UInt64.size := by
    rw [hmade]
    decide
  have hcut : (s.edit (.replace ⟨1, 2⟩ "y")).1 = .error (.notCharBoundary ⟨1, 2⟩) := by
    decide +kernel
  obtain ⟨⟨-, htokens⟩, hstamp, hstamps, hreplace, hrefused, -⟩ :=
    edited_is_fresh "a\u00E9b" edits hsize
  refine ⟨hsize, hstamp.trans hmade, htokens, ?_, ?_, ?_, ?_⟩
  · exact hstamps (edits.take 2) _ [_, _] rfl (by decide +kernel)
  · exact ((hreplace ⟨1, 2⟩ "y").2.1.mp hcut).2
  · exact (hreplace ⟨0, 2⟩ "y").2.2.2 (by decide +kernel)
  · exact hrefused _ _ hcut

end SourceText

end Marginalia
