import Marginalia.Text.Blank
import Mathlib.Data.List.TakeWhile

/-!
White space around a text.

A text is what trimming leaves of it, between white space (`exists_append_trim`), and with white
space around it a text is trimmed to the same (`trim_append`).
-/

namespace Marginalia.Text

/-- A text of white space alone. -/
def AllBlank (chars : List Char) : Prop := ∀ c ∈ chars, isBlank c = true

theorem trimStart_append {before : List Char} (h : AllBlank before) (chars : List Char) :
    trimStart (before ++ chars) = trimStart chars :=
  List.dropWhile_append_of_pos h

theorem trimEnd_append (chars : List Char) {after : List Char} (h : AllBlank after) :
    trimEnd (chars ++ after) = trimEnd chars := by
  have hreverse : AllBlank after.reverse := fun c hc => h c (List.mem_reverse.mp hc)
  rw [trimEnd, List.reverse_append, trimStart_append hreverse, trimEnd]

/-- White space around a text is trimmed away with its own. -/
theorem trim_append {before after : List Char} (hbefore : AllBlank before)
    (hafter : AllBlank after) (chars : List Char) :
    trim (before ++ (chars ++ after)) = trim chars := by
  rw [trim, trimStart_append hbefore, trimStart, List.dropWhile_append]
  split
  next hnil =>
    -- the text is white space too, and then all of it goes from the start
    have hstart : trimStart chars = [] := List.isEmpty_iff.mp hnil
    rw [List.dropWhile_eq_nil_iff.mpr hafter, trim, hstart]
  · exact trimEnd_append _ hafter

/-- Trimming takes away white space, from the two ends. -/
theorem exists_append_trim (chars : List Char) :
    ∃ before after, AllBlank before ∧ AllBlank after ∧ chars = before ++ (trim chars ++ after) := by
  refine ⟨chars.takeWhile isBlank, ((trimStart chars).reverse.takeWhile isBlank).reverse,
    fun c hc => List.mem_takeWhile_imp hc,
    fun c hc => List.mem_takeWhile_imp (List.mem_reverse.mp hc), ?_⟩
  rw [trim, trimEnd, trimStart, ← List.reverse_append, List.takeWhile_append_dropWhile,
    List.reverse_reverse, trimStart, List.takeWhile_append_dropWhile]

theorem mem_of_mem_trim {chars : List Char} {c : Char} (h : c ∈ trim chars) : c ∈ chars := by
  obtain ⟨before, after, -, -, hchars⟩ := exists_append_trim chars
  rw [hchars]
  exact List.mem_append_right _ (List.mem_append_left _ h)

/-- A text is trimmed to itself if neither end is blank. -/
theorem trim_of_ends {c d : Char} (hc : isBlank c = false) (hd : isBlank d = false)
    (inside : List Char) : trim (c :: (inside ++ [d])) = c :: (inside ++ [d]) := by
  simp [trim, trimEnd, trimStart, hc, hd]

end Marginalia.Text
