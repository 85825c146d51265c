import Mathlib.Data.List.SplitBy
import Marginalia.Text.Tokens

/-!
Where tokens and lines start.

The tokens of a text are what the library's `splitBy` cuts it into (`runs_eq_splitBy`), so a text
may be cut between two characters that do not join, and its tokens are those of both parts
(`runs_append`).  A token starts where the tokens before it end (`spansFrom_append`).

A line starts after nothing or after a line feed (`LineCut`).  Its number is the number of line
feeds before it, and its offset is among the starts of lines under that number
(`lineStarts_append`, `getElem?_lineStarts`).
-/

namespace Marginalia.Text

/-! ### Tokens as characters -/

/-- Within a token each character joins the next. -/
theorem isChain_of_mem_runs {chars run : List Char} (h : run ∈ runs chars) :
    run.IsChain fun c d => joins c d := by
  induction chars generalizing run with
  | nil => cases h
  | cons c rest ih =>
      rw [runs] at h
      rcases hparts : runs rest with - | ⟨first, more⟩
      · rw [hparts] at h
        rw [List.mem_singleton.mp h]
        exact List.isChain_singleton c
      · rw [hparts] at h ih
        rw [pushFront] at h
        split at h
        next hjoins =>
          rcases List.mem_cons.mp h with rfl | h
          · refine List.isChain_cons.mpr ⟨fun d hd => ?_, ih List.mem_cons_self⟩
            rw [Option.mem_def.mp hd, Option.any_some] at hjoins
            exact hjoins
          · exact ih (List.mem_cons_of_mem _ h)
        · rcases List.mem_cons.mp h with rfl | h
          · exact List.isChain_singleton c
          · exact ih h

/-- The last character of a token does not join the first of the next. -/
theorem isChain_runs (chars : List Char) :
    (runs chars).IsChain fun a b => ∃ ha hb, joins (a.getLast ha) (b.head hb) = false := by
  induction chars with
  | nil => exact List.isChain_nil
  | cons c rest ih =>
      rw [runs]
      rcases hparts : runs rest with - | ⟨first, more⟩
      · exact List.isChain_singleton [c]
      · have hne : first ≠ [] := ne_nil_of_mem_runs (hparts ▸ List.mem_cons_self)
        rw [hparts] at ih
        rw [pushFront, List.head?_eq_some_head hne, Option.any_some]
        split
        · obtain ⟨hnext, hmore⟩ := List.isChain_cons.mp ih
          refine List.isChain_cons.mpr ⟨fun run hrun => ?_, hmore⟩
          obtain ⟨ha, hb, hapart⟩ := hnext run hrun
          refine ⟨List.cons_ne_nil c first, hb, ?_⟩
          rw [List.getLast_cons hne]
          exact hapart
        next hapart =>
          refine List.isChain_cons.mpr ⟨fun run hrun => ?_, ih⟩
          obtain rfl : first = run := Option.some.inj hrun
          exact ⟨List.cons_ne_nil c [], hne, eq_false_of_ne_true hapart⟩

/-- The tokens are the parts into which the text falls where two characters do not join. -/
theorem runs_eq_splitBy (chars : List Char) : runs chars = chars.splitBy joins :=
  (List.splitBy_eq_iff.mpr ⟨(flatten_runs chars).symm, fun h => ne_nil_of_mem_runs h rfl,
    fun _ => isChain_of_mem_runs, isChain_runs chars⟩).symm

/-- Where two characters do not join, the text may be cut. -/
theorem runs_append {before after : List Char}
    (h : ∀ c ∈ before.getLast?, ∀ d ∈ after.head?, joins c d = false) :
    runs (before ++ after) = runs before ++ runs after := by
  rw [runs_eq_splitBy, runs_eq_splitBy, runs_eq_splitBy, List.splitBy_append h]

theorem runs_ne_nil {chars : List Char} (h : chars ≠ []) : runs chars ≠ [] := by
  rw [runs_eq_splitBy]
  exact List.splitBy_ne_nil.mpr h

theorem kind_eq_blank_iff {c : Char} : kind c = .blank ↔ isBlank c = true := by
  rw [kind]
  split
  next h => exact iff_of_true rfl h
  next h =>
    refine iff_of_false ?_ h
    split
    · exact Kind.noConfusion
    · exact Kind.noConfusion

/-- White space does not join with other characters. -/
theorem joins_eq_false {c d : Char} (h : isBlank c ≠ isBlank d) : joins c d = false := by
  have hkind : kind c ≠ kind d := by
    intro heq
    apply h
    rw [Bool.eq_iff_iff, ← kind_eq_blank_iff, ← kind_eq_blank_iff, heq]
  rw [joins, beq_eq_false_iff_ne.mpr hkind, Bool.false_and]

/-- All characters of a token are of the kind of its first. -/
theorem kind_of_isChain {c : Char} {run : List Char}
    (h : (c :: run).IsChain fun c d => joins c d) : ∀ d ∈ run, kind d = kind c := by
  induction run generalizing c with
  | nil => exact fun d hd => absurd hd List.not_mem_nil
  | cons first run ih =>
      obtain ⟨hjoins, hrun⟩ := List.isChain_cons_cons.mp h
      have hkind : kind c = kind first := by
        rw [joins, Bool.and_eq_true] at hjoins
        exact eq_of_beq hjoins.1
      intro d hd
      rcases List.mem_cons.mp hd with rfl | hd
      · exact hkind.symm
      · exact (ih hrun d hd).trans hkind.symm

/-- White space is one token. -/
theorem runs_of_blank {blanks : List Char} (hne : blanks ≠ [])
    (h : ∀ c ∈ blanks, isBlank c = true) : runs blanks = [blanks] := by
  rw [runs_eq_splitBy]
  apply List.splitBy_of_isChain hne
  apply List.Pairwise.isChain
  apply List.pairwise_of_forall_mem_list
  intro c hc d hd
  rw [joins, kind_eq_blank_iff.mpr (h c hc), kind_eq_blank_iff.mpr (h d hd)]
  rfl

/-! ### Tokens as spans -/

theorem spansFrom_append (offset : Nat) (a b : List (List Char)) :
    spansFrom offset (a ++ b)
      = spansFrom offset a ++ spansFrom (offset + byteLength a.flatten) b := by
  induction a generalizing offset with
  | nil => rfl
  | cons part more ih =>
      rw [List.cons_append, spansFrom, ih, spansFrom, List.cons_append, List.flatten_cons,
        byteLength_append, Nat.add_assoc]

@[simp] theorem length_spansFrom (offset : Nat) (parts : List (List Char)) :
    (spansFrom offset parts).length = parts.length := by
  induction parts generalizing offset with
  | nil => rfl
  | cons part more ih => rw [spansFrom, List.length_cons, ih, List.length_cons]

/-- Spans lie within the text they are the parts of. -/
theorem bounds_of_mem_spansFrom {offset : Nat} {parts : List (List Char)} {span : Span}
    (h : span ∈ spansFrom offset parts) :
    offset ≤ span.start ∧ span.start ≤ span.stop ∧
      span.stop ≤ offset + byteLength parts.flatten := by
  induction parts generalizing offset with
  | nil => cases h
  | cons part more ih =>
      rw [List.flatten_cons, byteLength_append]
      rw [spansFrom] at h
      rcases List.mem_cons.mp h with rfl | h
      · dsimp only
        omega
      · have := ih h
        omega

/-- Spans of consecutive parts lie one after the other. -/
theorem pairwise_spansFrom (offset : Nat) (parts : List (List Char)) :
    (spansFrom offset parts).Pairwise fun a b => a.stop ≤ b.start := by
  induction parts generalizing offset with
  | nil => exact List.Pairwise.nil
  | cons part more ih =>
      rw [spansFrom]
      exact List.pairwise_cons.mpr ⟨fun _ h => (bounds_of_mem_spansFrom h).1, ih _⟩

/-- A part that is not empty ends after it starts. -/
theorem start_lt_stop {offset : Nat} {parts : List (List Char)} (hne : ∀ part ∈ parts, part ≠ [])
    {span : Span} (h : span ∈ spansFrom offset parts) : span.start < span.stop := by
  induction parts generalizing offset with
  | nil => cases h
  | cons part more ih =>
      obtain ⟨hpart, hmore⟩ := List.forall_mem_cons.mp hne
      rw [spansFrom] at h
      rcases List.mem_cons.mp h with rfl | h
      · have : byteLength part ≠ 0 := fun hzero => hpart (byteLength_eq_zero.mp hzero)
        dsimp only
        omega
      · exact ih hmore h

/-! ### Starts of lines -/

/-- A text cut where one of its lines starts: after nothing, or after a line feed. -/
structure LineCut (chars : List Char) (line : Nat) (before after : List Char) : Prop where
  split : chars = before ++ after
  count : before.count '\n' = line
  fresh : before = [] ∨ before.getLast? = some '\n'

/-- A text can be cut where a line starts if it has enough line feeds. -/
theorem exists_lineCut {chars : List Char} {line : Nat} (h : line ≤ chars.count '\n') :
    ∃ before after, LineCut chars line before after := by
  induction line with
  | zero => exact ⟨[], chars, rfl, rfl, Or.inl rfl⟩
  | succ line ih =>
      obtain ⟨before, after, hcut⟩ := ih (Nat.le_of_succ_le h)
      -- the next line starts after the next line feed
      have hmem : '\n' ∈ after := by
        apply List.count_pos_iff.mp
        have := hcut.count
        rw [hcut.split, List.count_append] at h
        omega
      obtain ⟨text, rest, rfl, htext⟩ := List.eq_append_cons_of_mem hmem
      refine ⟨before ++ text ++ ['\n'], rest, ?_, ?_, Or.inr List.getLast?_concat⟩
      · rw [hcut.split]
        simp
      · rw [List.count_append, List.count_append, hcut.count, List.count_eq_zero.mpr htext]
        rfl

/-- A later line starts no earlier. -/
theorem LineCut.byteLength_le {chars before after before' after' : List Char} {line line' : Nat}
    (h : LineCut chars line before after) (h' : LineCut chars line' before' after')
    (hle : line ≤ line') : byteLength before ≤ byteLength before' := by
  rcases List.append_eq_append_iff.mp (h.split.symm.trans h'.split) with
    ⟨between, rfl, -⟩ | ⟨between, rfl, -⟩
  · rw [byteLength_append]
    omega
  · -- nothing is between, or else it ends in a line feed and the first line is the later one
    have hcount : between.count '\n' = 0 := by
      have := h.count
      rw [List.count_append, h'.count] at this
      omega
    rcases List.eq_nil_or_concat between with rfl | ⟨text, c, rfl⟩
    · rw [List.append_nil]
    · rw [List.concat_eq_append, ← List.append_assoc] at h
      rcases h.fresh with hnil | hlast
      · exact absurd hnil (by simp)
      · rw [List.getLast?_concat] at hlast
        rw [Option.some.inj hlast, List.concat_eq_append, List.count_append,
          List.count_singleton_self] at hcount
        exact absurd hcount (Nat.succ_ne_zero _)

theorem lineStartsFrom_append (offset : Nat) (a b : List Char) :
    lineStartsFrom offset (a ++ b)
      = lineStartsFrom offset a ++ lineStartsFrom (offset + byteLength a) b := by
  induction a generalizing offset with
  | nil => rfl
  | cons c rest ih =>
      rw [List.cons_append, lineStartsFrom, lineStartsFrom, ih, byteLength_cons, Nat.add_assoc]
      split <;> rfl

@[simp] theorem length_lineStartsFrom (offset : Nat) (chars : List Char) :
    (lineStartsFrom offset chars).length = chars.count '\n' := by
  induction chars generalizing offset with
  | nil => rfl
  | cons c rest ih =>
      rw [lineStartsFrom, List.count_cons]
      by_cases hc : c = '\n'
      · rw [if_pos hc, List.length_cons, ih, hc]
        rfl
      · rw [if_neg hc, ih, beq_eq_false_iff_ne.mpr hc]
        rfl

/-- A line after the first starts past the start of the text and not past its end. -/
theorem bounds_of_mem_lineStartsFrom {offset start : Nat} {chars : List Char}
    (h : start ∈ lineStartsFrom offset chars) :
    offset < start ∧ start ≤ offset + byteLength chars := by
  induction chars generalizing offset with
  | nil => cases h
  | cons c rest ih =>
      have hc := Char.utf8Size_pos c
      rw [byteLength_cons]
      have hrest : start ∈ lineStartsFrom (offset + c.utf8Size) rest →
          offset < start ∧ start ≤ offset + (c.utf8Size + byteLength rest) := by
        intro h
        have := ih h
        omega
      rw [lineStartsFrom] at h
      split at h
      · rcases List.mem_cons.mp h with rfl | h
        · omega
        · exact hrest h
      · exact hrest h

/-- A line after the first starts no earlier than the first character ends. -/
theorem le_of_mem_lineStartsFrom {offset start : Nat} {c : Char} {rest : List Char}
    (h : start ∈ lineStartsFrom offset (c :: rest)) : offset + c.utf8Size ≤ start := by
  have hrest : start ∈ lineStartsFrom (offset + c.utf8Size) rest → offset + c.utf8Size ≤ start :=
    fun h => Nat.le_of_lt (bounds_of_mem_lineStartsFrom h).1
  rw [lineStartsFrom] at h
  split at h
  · rcases List.mem_cons.mp h with rfl | h
    · exact Nat.le_refl _
    · exact hrest h
  · exact hrest h

/-- The lines start one after the other. -/
theorem pairwise_lineStartsFrom (offset : Nat) (chars : List Char) :
    (lineStartsFrom offset chars).Pairwise (· < ·) := by
  induction chars generalizing offset with
  | nil => exact List.Pairwise.nil
  | cons c rest ih =>
      rw [lineStartsFrom]
      split
      · exact List.pairwise_cons.mpr ⟨fun _ h => (bounds_of_mem_lineStartsFrom h).1, ih _⟩
      · exact ih _

theorem pairwise_lineStarts (chars : List Char) : (lineStarts chars).Pairwise (· < ·) :=
  List.pairwise_cons.mpr
    ⟨fun _ h => (bounds_of_mem_lineStartsFrom h).1, pairwise_lineStartsFrom 0 chars⟩

theorem length_lineStarts (chars : List Char) :
    (lineStarts chars).length = chars.count '\n' + 1 := by
  rw [lineStarts, List.length_cons, length_lineStartsFrom]

theorem lineStarts_append (a b : List Char) :
    lineStarts (a ++ b) = lineStarts a ++ lineStartsFrom (byteLength a) b := by
  rw [lineStarts, lineStarts, lineStartsFrom_append, Nat.zero_add, List.cons_append]

/-- A line starts where the text is cut for it. -/
theorem getElem?_lineStarts {chars before after : List Char} {line : Nat}
    (h : LineCut chars line before after) :
    (lineStarts chars)[line]? = some (byteLength before) := by
  obtain ⟨rfl, rfl, rfl | hlast⟩ := h
  · rfl
  · obtain ⟨text, rfl⟩ := List.getLast?_eq_some_iff.mp hlast
    have hline : '\n'.utf8Size = 1 := rfl
    rw [lineStarts_append, lineStarts_append,
      List.getElem?_append_left (by simp [length_lineStarts]),
      List.getElem?_append_right (by simp [length_lineStarts])]
    simp [length_lineStarts, lineStartsFrom, hline]

end Marginalia.Text
