import Marginalia.SourceText
import Marginalia.Proofs.Text.Tokens

/-!
What the index of a source text says of the text.

Lookups are by offset, and what they find is told here by cutting the text: the line of an offset by
the text before it (`lineOf_byteLength`), the token at an offset by the tokens before it
(`tokenAt_of_runs`), the place and the text of a token in the same way (`getElem?_tokens_of_runs`,
`tokenText_of_runs`).
-/

namespace Marginalia

namespace SourceText

open Text

variable {text : String} {stamp : UInt64}

/-! ### Lines -/

/-- There is a line for each line feed, and one more. -/
theorem size_lineStarts : (index text stamp).lineStarts.size = text.toList.count '\n' + 1 := by
  rw [index, List.size_toArray, length_lineStarts]

theorem lineStart_of_lineCut {line : Nat} {before after : List Char}
    (h : LineCut text.toList line before after) :
    (index text stamp).lineStarts[line]? = some (byteLength before) := by
  rw [index, List.getElem?_toArray, getElem?_lineStarts h]

/-- A line starts where the text can be cut for it. -/
theorem exists_lineCut_of_lineStart {line start : Nat}
    (h : (index text stamp).lineStarts[line]? = some start) :
    ∃ before after, LineCut text.toList line before after ∧ byteLength before = start := by
  have hlt : line < (index text stamp).lineStarts.size := (Array.getElem?_eq_some_iff.mp h).1
  rw [size_lineStarts] at hlt
  obtain ⟨before, after, hcut⟩ := exists_lineCut (Nat.le_of_lt_succ hlt)
  rw [lineStart_of_lineCut hcut] at h
  exact ⟨before, after, hcut, Option.some.inj h⟩

/-- The line of an offset is the number of line feeds before the character that the offset is in,
or before the end of the text. -/
theorem lineOf_of_within {before after : List Char} {offset : Nat}
    (h : text.toList = before ++ after) (hle : offset ≤ byteLength text.toList)
    (hlo : byteLength before ≤ offset)
    (hhi : ∀ c ∈ after.head?, offset < byteLength before + c.utf8Size) :
    (index text stamp).lineOf offset = some (before.count '\n') := by
  have hinside : ¬(index text stamp).length < offset := Nat.not_lt.mpr hle
  have hbisect : bisect (fun i => (index text stamp).lineStarts[i]?.any (· ≤ offset)) 0
      (index text stamp).lineStarts.size = (Text.lineStarts before).length := by
    simp only [index, List.getElem?_toArray, List.size_toArray, h, lineStarts_append]
    apply bisect_append
    · intro start hstart
      rw [decide_eq_true_eq]
      rcases List.mem_cons.mp hstart with rfl | hstart
      · exact Nat.zero_le _
      · have := (bounds_of_mem_lineStartsFrom hstart).2
        omega
    · intro start hstart
      rw [decide_eq_false_iff_not]
      rcases after with - | ⟨c, rest⟩
      · cases hstart
      · have := le_of_mem_lineStartsFrom hstart
        have := hhi c rfl
        omega
  rw [lineOf, if_neg hinside, hbisect, length_lineStarts, Nat.add_sub_cancel]

/-- An offset is on the line whose number is that of the line feeds before it. -/
theorem lineOf_byteLength {before after : List Char} (h : text.toList = before ++ after) :
    (index text stamp).lineOf (byteLength before) = some (before.count '\n') := by
  apply lineOf_of_within h
  · rw [h, byteLength_append]
    exact Nat.le_add_right _ _
  · exact Nat.le_refl _
  · intro c _
    exact Nat.lt_add_of_pos_right (Char.utf8Size_pos c)

/-! ### Tokens -/

theorem getElem?_tokens (i : Nat) :
    (index text stamp).tokens[i]? = (spansFrom 0 (runs text.toList))[i]? := by
  rw [index, List.getElem?_toArray, tokenSpans]

theorem size_tokens : (index text stamp).tokens.size = (runs text.toList).length := by
  rw [index, List.size_toArray, tokenSpans, length_spansFrom]

variable {a b : List (List Char)} {run : List Char}

/-- A token starts where those before it end. -/
theorem getElem?_tokens_of_runs (h : runs text.toList = a ++ run :: b) :
    (index text stamp).tokens[a.length]?
      = some ⟨byteLength a.flatten, byteLength a.flatten + byteLength run⟩ := by
  rw [getElem?_tokens, h, spansFrom_append, Nat.zero_add,
    List.getElem?_append_right (by rw [length_spansFrom]), length_spansFrom, Nat.sub_self]
  rfl

/-- A token before another one is among those before it. -/
theorem mem_spansFrom_of_lt (h : runs text.toList = a ++ run :: b) {i : Nat} (hi : i < a.length)
    {span : Span} (hspan : (index text stamp).tokens[i]? = some span) : span ∈ spansFrom 0 a := by
  rw [getElem?_tokens, h, spansFrom_append,
    List.getElem?_append_left (by rwa [length_spansFrom])] at hspan
  exact List.mem_of_getElem? hspan

/-- The token at an offset is the one whose characters are there. -/
theorem tokenAt_of_runs (h : runs text.toList = a ++ run :: b) {offset : Nat}
    (hlo : byteLength a.flatten ≤ offset) (hhi : offset < byteLength a.flatten + byteLength run) :
    (index text stamp).tokenAt offset = some a.length := by
  have hbisect : bisect (fun i => (index text stamp).tokens[i]?.any (·.stop ≤ offset)) 0
      (index text stamp).tokens.size = a.length := by
    rw [← length_spansFrom 0 a]
    simp only [index, List.getElem?_toArray, List.size_toArray, tokenSpans, h, spansFrom_append]
    apply bisect_append
    · intro span hspan
      have := bounds_of_mem_spansFrom hspan
      rw [decide_eq_true_eq]
      omega
    · intro span hspan
      rw [decide_eq_false_iff_not]
      rcases List.mem_cons.mp hspan with rfl | hspan
      · dsimp only
        omega
      · have := bounds_of_mem_spansFrom hspan
        omega
  rw [tokenAt, hbisect, getElem?_tokens_of_runs h, Option.any_some, if_pos (decide_eq_true hlo)]

/-- There is no token at the end of the text or after it. -/
theorem tokenAt_of_le {offset : Nat} (h : byteLength text.toList ≤ offset) :
    (index text stamp).tokenAt offset = none := by
  have hbisect : bisect (fun i => (index text stamp).tokens[i]?.any (·.stop ≤ offset)) 0
      (index text stamp).tokens.size = (index text stamp).tokens.size := by
    simp only [index, List.getElem?_toArray, List.size_toArray, tokenSpans]
    rw [← List.append_nil (spansFrom 0 (runs text.toList))]
    refine (bisect_append ?_ fun span hspan => absurd hspan List.not_mem_nil).trans ?_
    · intro span hspan
      have := bounds_of_mem_spansFrom hspan
      rw [flatten_runs] at this
      rw [decide_eq_true_eq]
      omega
    · rw [List.append_nil]
  rw [tokenAt, hbisect, Array.getElem?_eq_none (Nat.le_refl _)]
  rfl

/-- A token is one of the runs of the text, after as many as its number says. -/
theorem exists_runs_of_getElem? {token : Nat} {span : Span}
    (h : (index text stamp).tokens[token]? = some span) :
    ∃ a run b, runs text.toList = a ++ run :: b ∧ a.length = token ∧
      span = ⟨byteLength a.flatten, byteLength a.flatten + byteLength run⟩ := by
  have hlt : token < (index text stamp).tokens.size := (Array.getElem?_eq_some_iff.mp h).1
  rw [size_tokens] at hlt
  have hruns : runs text.toList = (runs text.toList).take token
      ++ (runs text.toList)[token] :: (runs text.toList).drop (token + 1) := by
    simp
  have hlength : ((runs text.toList).take token).length = token :=
    List.length_take_of_le (Nat.le_of_lt hlt)
  have hspan : (index text stamp).tokens[((runs text.toList).take token).length]? = some _ :=
    getElem?_tokens_of_runs hruns
  rw [hlength, h] at hspan
  exact ⟨_, _, _, hruns, hlength, Option.some.inj hspan⟩

/-- The text of a token is that of its characters. -/
theorem tokenText_of_runs (h : runs text.toList = a ++ run :: b) :
    (index text stamp).tokenText a.length = some (String.ofList run) := by
  have htext : text.toList = a.flatten ++ (run ++ b.flatten) := by
    rw [← flatten_runs text.toList, h, List.flatten_append, List.flatten_cons]
  have hslice : slice? (index text stamp).text.toList (byteLength a.flatten)
      (byteLength a.flatten + byteLength run) = some run := by
    show slice? text.toList _ _ = _
    rw [htext, slice?_append]
  rw [tokenText, getElem?_tokens_of_runs h]
  show (slice? (index text stamp).text.toList (byteLength a.flatten)
    (byteLength a.flatten + byteLength run)).bind _ = _
  rw [hslice]
  rfl

end SourceText

end Marginalia
