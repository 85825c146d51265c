import Marginalia.Text.Lines
import Mathlib.Data.List.Basic

/-!
The lines of a text, and the text of some lines.

A text without line feeds is one line, or none if it is empty (`lines_of_not_mem`), and a line feed
after it ends that line (`lines_append_lineFeed`).  So lines without line ends in them are the lines
of their text (`lines_joined`), and can be told from it (`join_inj`).  Where there are no carriage
returns, the lines are the pieces between line feeds (`splitOn_lineFeed`).
-/

namespace Marginalia.Text

/-! ### Lines of a text -/

/-- A text without line ends in it. -/
def IsUnbroken (chars : List Char) : Prop := ∀ c ∈ chars, c ≠ '\n' ∧ c ≠ '\r'

theorem IsUnbroken.not_mem {chars : List Char} (h : IsUnbroken chars) : '\n' ∉ chars :=
  fun hmem => (h _ hmem).1 rfl

theorem isUnbroken_nil : IsUnbroken [] := fun _ h => absurd h List.not_mem_nil

theorem isUnbroken_append {a b : List Char} :
    IsUnbroken (a ++ b) ↔ IsUnbroken a ∧ IsUnbroken b := List.forall_mem_append

/-- A character that does not begin the end of a line begins the first line, or is added to it. -/
theorem lines_cons {c : Char} {chars : List Char} (hfeed : c ≠ '\n')
    (hreturn : ∀ rest, c = '\r' → chars ≠ '\n' :: rest) :
    lines (c :: chars) = (c :: (lines chars).headD []) :: (lines chars).tail := by
  rw [lines]
  · cases lines chars <;> rfl
  · exact hfeed
  · exact hreturn

/-- A line feed ends a line. -/
theorem lines_append_lineFeed {line : List Char} (h : IsUnbroken line) (rest : List Char) :
    lines (line ++ '\n' :: rest) = line :: lines rest := by
  induction line with
  | nil => rfl
  | cons c line ih =>
      obtain ⟨hc, hline⟩ := List.forall_mem_cons.mp h
      rw [List.cons_append, lines_cons hc.1 fun _ heq => absurd heq hc.2, ih hline]
      rfl

/-- Without a line feed there is one line, if there is anything. -/
theorem lines_of_not_mem {line : List Char} (h : '\n' ∉ line) :
    lines line = if line = [] then [] else [line] := by
  induction line with
  | nil => rfl
  | cons c line ih =>
      rw [List.mem_cons, not_or] at h
      obtain ⟨hc, hline⟩ := h
      have hnext : ∀ rest, c = '\r' → line ≠ '\n' :: rest := by
        rintro rest - rfl
        exact hline List.mem_cons_self
      rw [lines_cons (Ne.symm hc) hnext, ih hline, if_neg (List.cons_ne_nil c line)]
      split
      next hnil => rw [hnil]; rfl
      · rfl

/-- Without a line feed all of a text is its first line. -/
theorem firstLine_of_not_mem {chars : List Char} (h : '\n' ∉ chars) :
    firstLine chars = trim chars := by
  rw [firstLine, lines_of_not_mem h]
  split
  next hnil => rw [hnil, List.headD_nil]
  · rw [List.headD_cons]

theorem firstLine_append {line : List Char} (h : IsUnbroken line) (rest : List Char) :
    firstLine (line ++ '\n' :: rest) = trim line := by
  rw [firstLine, lines_append_lineFeed h, List.headD_cons]

/-- No line holds a line feed, and all that a line holds is in the text. -/
theorem mem_of_mem_lines {chars line : List Char} (h : line ∈ lines chars) {c : Char}
    (hc : c ∈ line) : c ∈ chars ∧ c ≠ '\n' := by
  induction chars using lines.induct generalizing line with
  | case1 => cases h
  | case2 rest ih =>
      rw [lines] at h
      rcases List.mem_cons.mp h with rfl | h
      · cases hc
      · exact ⟨List.mem_cons_of_mem _ (ih h hc).1, (ih h hc).2⟩
  | case3 rest ih =>
      rw [lines] at h
      rcases List.mem_cons.mp h with rfl | h
      · cases hc
      · exact ⟨List.mem_cons_of_mem _ (List.mem_cons_of_mem _ (ih h hc).1), (ih h hc).2⟩
  | case4 d rest hfeed hreturn hnil ih =>
      rw [lines_cons hfeed hreturn, hnil] at h
      obtain rfl := List.mem_singleton.mp h
      obtain rfl := List.mem_singleton.mp hc
      exact ⟨List.mem_cons_self, hfeed⟩
  | case5 d rest hfeed hreturn first more heq ih =>
      rw [lines_cons hfeed hreturn, heq] at h
      rw [heq] at ih
      rcases List.mem_cons.mp h with rfl | h
      · rcases List.mem_cons.mp hc with rfl | hc
        · exact ⟨List.mem_cons_self, hfeed⟩
        · exact ⟨List.mem_cons_of_mem _ (ih List.mem_cons_self hc).1, (ih List.mem_cons_self hc).2⟩
      · have hmem := ih (List.mem_cons_of_mem _ h) hc
        exact ⟨List.mem_cons_of_mem _ hmem.1, hmem.2⟩

/-- Without carriage returns the lines of a text are its pieces between line feeds, but for an empty
piece at the end. -/
theorem splitOn_lineFeed {chars : List Char} (h : '\r' ∉ chars) :
    ∃ last, (last = [] ∨ last = [[]]) ∧ chars.splitOn '\n' = lines chars ++ last := by
  by_cases hmem : '\n' ∈ chars
  · obtain ⟨first, rest, rfl, hfirst⟩ := List.eq_append_cons_of_mem hmem
    rw [List.mem_append, List.mem_cons, not_or, not_or] at h
    have hunbroken : IsUnbroken first := by
      intro c hc
      exact ⟨fun heq => hfirst (heq ▸ hc), fun heq => h.1 (heq ▸ hc)⟩
    obtain ⟨last, hlast, hrest⟩ := splitOn_lineFeed h.2.2
    refine ⟨last, hlast, ?_⟩
    rw [List.splitOn_append_cons_self_of_not_mem hfirst, lines_append_lineFeed hunbroken, hrest,
      List.cons_append]
  · rw [List.splitOn_eq_singleton hmem, lines_of_not_mem hmem]
    split
    next hnil => exact ⟨[[]], Or.inr rfl, by rw [hnil]; rfl⟩
    · exact ⟨[], Or.inl rfl, rfl⟩
termination_by chars.length
decreasing_by
  rw [‹chars = _›, List.length_append, List.length_cons]
  omega

/-! ### The text of some lines -/

/-- The text of some lines, each with its line feed. -/
def joined (body : List String) : List Char := body.flatMap fun line => line.toList ++ ['\n']

theorem joined_cons (line : String) (rest : List String) :
    joined (line :: rest) = line.toList ++ '\n' :: joined rest := by
  rw [joined, List.flatMap_cons, List.append_assoc]
  rfl

theorem toList_join_lines (body : List String) :
    (String.join (body.map (· ++ "\n"))).toList = joined body := by
  rw [String.toList_join, List.flatMap_map, joined]
  simp only [String.toList_append]
  rfl

/-- Unbroken lines are the lines of their text. -/
theorem lines_joined {body : List String} (h : ∀ line ∈ body, IsUnbroken line.toList) :
    lines (joined body) = body.map String.toList := by
  induction body with
  | nil => rfl
  | cons line rest ih =>
      obtain ⟨hline, hrest⟩ := List.forall_mem_cons.mp h
      rw [joined_cons, lines_append_lineFeed hline, ih hrest, List.map_cons]

/-- Lines without line feeds are the pieces of their text between line feeds; after the last one
there is nothing. -/
theorem splitOn_joined {body : List String} (h : ∀ line ∈ body, '\n' ∉ line.toList) :
    (joined body).splitOn '\n' = body.map String.toList ++ [[]] := by
  induction body with
  | nil => rfl
  | cons line rest ih =>
      obtain ⟨hline, hrest⟩ := List.forall_mem_cons.mp h
      rw [joined_cons, List.splitOn_append_cons_self_of_not_mem hline, ih hrest, List.map_cons,
        List.cons_append]

/-- Unbroken lines can be told from their text. -/
theorem join_inj {a b : List String} (ha : ∀ line ∈ a, IsUnbroken line.toList)
    (hb : ∀ line ∈ b, IsUnbroken line.toList) :
    String.join (a.map (· ++ "\n")) = String.join (b.map (· ++ "\n")) ↔ a = b := by
  refine ⟨fun h => ?_, fun h => by rw [h]⟩
  have hlines := congrArg (fun text => lines text.toList) h
  rw [toList_join_lines, toList_join_lines, lines_joined ha, lines_joined hb] at hlines
  exact (List.map_injective_iff.mpr fun _ _ => String.toList_inj.mp) hlines

/-! ### Characters of a text -/

/-- What is decided on the characters of a text one after another.  As there are finitely many
characters in all, `decide` would go through those by itself. -/
theorem forall_mem_of_all {p : Char → Prop} [DecidablePred p] {chars : List Char}
    (h : (chars.all fun c => decide (p c)) = true) : ∀ c ∈ chars, p c :=
  fun c hc => of_decide_eq_true (List.all_eq_true.mp h c hc)

theorem forall_mem_toList_append {p : Char → Prop} {a b : String} (ha : ∀ c ∈ a.toList, p c)
    (hb : ∀ c ∈ b.toList, p c) : ∀ c ∈ (a ++ b).toList, p c := by
  rw [String.toList_append]
  exact List.forall_mem_append.mpr ⟨ha, hb⟩

end Marginalia.Text
