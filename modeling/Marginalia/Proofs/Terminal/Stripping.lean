import Marginalia.Terminal
import Mathlib.Data.List.Basic

/-!
What stripping leaves of a text.

Stripping is a scan that keeps the safe characters it meets in plain text.  `Mode.run` is where the
scan stands after some characters, and stripping an append is stripping the first part and going on
from there (`strip_append`).  What is left is safe (`mem_strip`), a text that is safe is left as it
is (`strip_of_safe`), and so sanitizing is stripping, for all texts (`toList_sanitize`), and to
sanitize twice is to sanitize once (`sanitize_leaves_safe_text`).
-/

namespace Marginalia.Terminal

/-! ### The scan -/

/-- The mode after some characters. -/
def Mode.run (mode : Mode) (chars : List Char) : Mode := chars.foldl Mode.after mode

theorem strip_append (mode : Mode) (a b : List Char) :
    strip mode (a ++ b) = strip mode a ++ strip (mode.run a) b := by
  induction a generalizing mode with
  | nil => rfl
  | cons c a ih =>
      rw [List.cons_append, strip, strip, ih]
      split
      · rfl
      · rfl

/-- What is left was there before, and is safe. -/
theorem mem_strip {mode : Mode} {chars : List Char} {c : Char} (h : c ∈ strip mode chars) :
    c ∈ chars ∧ isUnsafe c = false := by
  induction chars generalizing mode with
  | nil => exact absurd h List.not_mem_nil
  | cons d chars ih =>
      rw [strip] at h
      split at h
      next hkept =>
        rcases List.mem_cons.mp h with rfl | h
        · exact ⟨List.mem_cons_self, hkept.2⟩
        · exact ⟨List.mem_cons_of_mem d (ih h).1, (ih h).2⟩
      · exact ⟨List.mem_cons_of_mem d (ih h).1, (ih h).2⟩

/-- What is left was there before, in the same order. -/
theorem strip_sublist (mode : Mode) (chars : List Char) : (strip mode chars).Sublist chars := by
  induction chars generalizing mode with
  | nil => exact .slnil
  | cons c chars ih =>
      rw [strip]
      split
      · exact (ih _).cons_cons c
      · exact (ih _).cons c

/-! ### Safe texts -/

theorem isUnsafe_eq_false_iff {c : Char} :
    isUnsafe c = false ↔ isControl c = false ∨ c = '\n' ∨ c = '\t' := by
  rw [isUnsafe]
  grind

theorem isUnsafe_escape : isUnsafe escape = true := by decide

/-- A safe character in plain text leaves the scan in plain text. -/
theorem after_plain_of_safe {c : Char} (h : isUnsafe c = false) : Mode.plain.after c = .plain := by
  refine if_neg fun heq => ?_
  rw [heq, isUnsafe_escape] at h
  cases h

theorem run_plain_of_safe {chars : List Char} (h : ∀ c ∈ chars, isUnsafe c = false) :
    Mode.plain.run chars = .plain := by
  induction chars with
  | nil => rfl
  | cons c chars ih =>
      obtain ⟨hc, hchars⟩ := List.forall_mem_cons.mp h
      rw [Mode.run, List.foldl_cons, after_plain_of_safe hc]
      exact ih hchars

/-- A safe text is left as it is. -/
theorem strip_of_safe {chars : List Char} (h : ∀ c ∈ chars, isUnsafe c = false) :
    strip .plain chars = chars := by
  induction chars with
  | nil => rfl
  | cons c chars ih =>
      obtain ⟨hc, hchars⟩ := List.forall_mem_cons.mp h
      rw [strip, if_pos ⟨rfl, hc⟩, after_plain_of_safe hc, ih hchars]

theorem isSafe_iff {text : String} :
    isSafe text = true ↔ ∀ c ∈ text.toList, isUnsafe c = false := by
  simp [isSafe]

/-- A text is made anew only where it is not safe. -/
theorem stripped?_eq_none_iff {text : String} :
    stripped? text = none ↔ ∀ c ∈ text.toList, isUnsafe c = false := by
  rw [← isSafe_iff]
  simp [stripped?]

/-- Sanitizing is stripping, also of the texts that are returned as they are. -/
theorem toList_sanitize (text : String) :
    (sanitize text).toList = strip .plain text.toList := by
  rw [sanitize, stripped?]
  split
  next hsafe => rw [strip_of_safe (isSafe_iff.mp hsafe), Option.getD_none]
  · rw [Option.getD_some, String.toList_ofList]

theorem stripped?_sanitize (text : String) : stripped? (sanitize text) = none := by
  apply stripped?_eq_none_iff.mpr
  intro c hc
  rw [toList_sanitize] at hc
  exact (mem_strip hc).2

theorem sanitize_of_stripped? {text : String} (h : stripped? text = none) :
    sanitize text = text := by
  rw [sanitize, h, Option.getD_none]

/-- What sanitizing leaves of a text.

* It holds no escape, and no control character but line feeds and tabs.
* It is left of the text, in order.
* It is safe, and to sanitize it again makes no new text.
* A text is returned as it is just when no character of it is unsafe, and then stripping would make
  the same text. -/
theorem sanitize_leaves_safe_text (text : String) :
    (∀ c ∈ (sanitize text).toList, c ≠ escape ∧ (isControl c = false ∨ c = '\n' ∨ c = '\t')) ∧
      (sanitize text).toList.Sublist text.toList ∧
      (stripped? (sanitize text) = none ∧ sanitize (sanitize text) = sanitize text) ∧
      (stripped? text = none ↔ ∀ c ∈ text.toList, isUnsafe c = false) ∧
      (stripped? text = none → sanitize text = text ∧ strip .plain text.toList = text.toList) := by
  have hagain := stripped?_sanitize text
  refine ⟨?_, ?_, ⟨hagain, sanitize_of_stripped? hagain⟩, stripped?_eq_none_iff, ?_⟩
  · intro c hc
    have hsafe : isUnsafe c = false := stripped?_eq_none_iff.mp hagain c hc
    refine ⟨?_, isUnsafe_eq_false_iff.mp hsafe⟩
    rintro rfl
    rw [isUnsafe_escape] at hsafe
    cases hsafe
  · rw [toList_sanitize]
    exact strip_sublist .plain text.toList
  · intro h
    exact ⟨sanitize_of_stripped? h, strip_of_safe (stripped?_eq_none_iff.mp h)⟩

/-- An escape that takes another, a command that is never finished, and controls outside of both. -/
theorem sanitize_leaves_safe_text_of_hostile :
    let text := "a\x1b\x1b[\x9b\n\tb\x7f\x1b]c\x1b"
    let shown := "a[\n\tb"
    sanitize text = shown ∧
      ('[' ∈ shown.toList ∧ '[' ≠ escape ∧ (isControl '[' = false ∨ '[' = '\n' ∨ '[' = '\t')) ∧
      shown.toList.Sublist text.toList ∧ sanitize shown = shown ∧
      stripped? text ≠ none ∧ stripped? shown = none ∧
      strip .plain shown.toList = shown.toList := by
  intro text shown
  have hshown : sanitize text = shown := by decide +kernel
  obtain ⟨hsafe, hsublist, ⟨hagain, hsame⟩, -, -⟩ := sanitize_leaves_safe_text text
  rw [hshown] at hsafe hsublist hagain hsame
  obtain ⟨-, -, -, hiff, hstrip⟩ := sanitize_leaves_safe_text shown
  have hmem : '[' ∈ shown.toList := by decide +kernel
  exact ⟨hshown, ⟨hmem, hsafe '[' hmem⟩, hsublist, hsame, by decide +kernel,
    hiff.mpr (isSafe_iff.mp (by decide +kernel)), (hstrip hagain).2⟩

/-! ### Texts of one line -/

/-- A text that can be printed as it is on one line. -/
def IsPlain (chars : List Char) : Prop := ∀ c ∈ chars, isUnsafe c = false ∧ c ≠ '\n'

theorem isPlain_append {a b : List Char} : IsPlain (a ++ b) ↔ IsPlain a ∧ IsPlain b :=
  List.forall_mem_append

/-- Stripping makes no line feeds. -/
theorem isPlain_strip (mode : Mode) {chars : List Char} (h : '\n' ∉ chars) :
    IsPlain (strip mode chars) :=
  fun _ hc => ⟨(mem_strip hc).2, fun heq => h (heq ▸ (mem_strip hc).1)⟩

theorem isPlain_sanitize {text : String} (h : '\n' ∉ text.toList) :
    IsPlain (sanitize text).toList := by
  rw [toList_sanitize]
  exact isPlain_strip .plain h

/-! ### Escape sequences that end -/

/-- Every escape sequence that begins in a text ends in it. -/
def IsClosed (text : String) : Prop := Mode.plain.run text.toList = .plain

instance (text : String) : Decidable (IsClosed text) :=
  inferInstanceAs (Decidable (_ = _))

end Marginalia.Terminal
