import Mathlib.Data.List.DropRight
import Marginalia.Document.Anchor
import Marginalia.Proofs.SourceText.Index

/-!
The anchor of a line of a source text.

The anchor of a line is the first token that starts where the line starts or after it
(`anchor_is_first_token`).  The first line has the first token.  Any other line starts after a line
feed, which is white space, and white space is one token: where the line starts with white space,
the token there began on an earlier line, and the anchor is the token after it, if there is one.
Either way the tokens are cut before what the line starts with, white space aside
(`anchor_of_lineCut`).
-/

namespace Marginalia

namespace Text

/-- A line feed and the white space around it are one token. -/
theorem exists_run_across (text : List Char) {blanks : List Char}
    (h : ∀ c ∈ blanks, isBlank c = true) :
    ∃ pre mid, text = pre ++ mid ∧
      runs (text ++ '\n' :: blanks) = runs pre ++ [mid ++ '\n' :: blanks] := by
  have htext := List.rdropWhile_append_rtakeWhile (p := isBlank) (l := text)
  have hblank : ∀ c ∈ text.rtakeWhile isBlank ++ '\n' :: blanks, isBlank c = true := by
    intro c hc
    rcases List.mem_append.mp hc with hc | hc
    · exact List.mem_rtakeWhile_imp hc
    · rcases List.mem_cons.mp hc with rfl | hc
      · rfl
      · exact h c hc
  have hcut : ∀ c ∈ (text.rdropWhile isBlank).getLast?,
      ∀ d ∈ (text.rtakeWhile isBlank ++ '\n' :: blanks).head?, joins c d = false := by
    intro c hc d hd
    obtain ⟨hne, rfl⟩ := List.mem_getLast?_eq_getLast hc
    apply joins_eq_false
    rw [hblank d (List.mem_of_mem_head? hd)]
    exact List.rdropWhile_last_not isBlank text hne
  refine ⟨_, _, htext.symm, ?_⟩
  rw [← runs_of_blank (by simp) hblank, ← runs_append hcut, ← List.append_assoc, htext]

/-- A token that starts with a character that is not white space holds no white space. -/
theorem not_isBlank_of_runs {c : Char} {rest run : List Char} {more : List (List Char)}
    (h : runs (c :: rest) = run :: more) (hc : isBlank c = false) :
    ∀ d ∈ run, isBlank d = false := by
  have hmem : run ∈ runs (c :: rest) := h ▸ List.mem_cons_self
  have hflatten : run ++ more.flatten = c :: rest := by
    rw [← flatten_runs (c :: rest), h, List.flatten_cons]
  obtain ⟨first, run, rfl⟩ := List.exists_cons_of_ne_nil (ne_nil_of_mem_runs hmem)
  obtain ⟨rfl, -⟩ := List.cons.inj hflatten
  intro d hd
  rw [← Bool.not_eq_true, ← kind_eq_blank_iff] at hc ⊢
  rcases List.mem_cons.mp hd with rfl | hd
  · exact hc
  · rwa [kind_of_isChain (isChain_of_mem_runs hmem) d hd]

end Text

namespace SourceText

open Text

variable {text : String} {stamp : UInt64} {line : UInt32} {before after : List Char}

/-! ### The token where a line starts -/

/-- The anchor of a line by the token where it starts: that token if it starts on the line, and else
the one after it. -/
theorem anchor_of_runs (hcut : LineCut text.toList line.toNat before after)
    {a b : List (List Char)} {run : List Char} (h : runs text.toList = a ++ run :: b)
    (hlo : byteLength a.flatten ≤ byteLength before)
    (hhi : byteLength before < byteLength a.flatten + byteLength run) :
    (index text stamp).document.anchor line
      = if a.flatten.count '\n' = line.toNat then .ok a.length
        else if b = [] then .error (.noSibling line) else .ok (a.length + 1) := by
  have htext : text.toList = a.flatten ++ (run ++ b.flatten) := by
    rw [← flatten_runs text.toList, h, List.flatten_append, List.flatten_cons]
  have hline : (index text stamp).document.lineStart line.toNat = some (byteLength before) :=
    lineStart_of_lineCut hcut
  have htoken : (index text stamp).document.elementAt (byteLength before) = some a.length :=
    tokenAt_of_runs h hlo hhi
  have hstart : (index text stamp).document.start a.length = some (byteLength a.flatten) :=
    congrArg (Option.map Span.start) (getElem?_tokens_of_runs h)
  have hlineOf : (index text stamp).document.lineOf (byteLength a.flatten)
      = some (a.flatten.count '\n') := lineOf_byteLength htext
  have hnext : (index text stamp).document.nextSibling a.length
      = if b = [] then none else some (a.length + 1) := by
    show (index text stamp).nextToken a.length = _
    rw [nextToken, size_tokens, h, List.length_append, List.length_cons]
    rcases b with - | ⟨next, more⟩
    · simp
    · simp
  rw [Document.anchor, hline]
  dsimp only
  rw [htoken]
  dsimp only
  rw [hstart, Option.bind_some, hlineOf, hnext]
  simp only [Option.some.injEq]
  split
  · rfl
  · rcases b with - | ⟨next, more⟩ <;> rfl

/-- Where no token runs across the start of a line, the token that starts there is the anchor. -/
theorem anchor_of_starting (stamp : UInt64) (hcut : LineCut text.toList line.toNat before after)
    (hafter : after ≠ [])
    (hapart : ∀ c ∈ before.getLast?, ∀ d ∈ after.head?, joins c d = false) :
    runs text.toList = runs before ++ runs after ∧
      (index text stamp).document.anchor line = .ok (runs before).length := by
  have hruns : runs text.toList = runs before ++ runs after := by
    rw [hcut.split, runs_append hapart]
  refine ⟨hruns, ?_⟩
  rcases hnext : runs after with - | ⟨run, b⟩
  · exact absurd hnext (runs_ne_nil hafter)
  · rw [hnext] at hruns
    have hpos : byteLength run ≠ 0 := fun hzero =>
      ne_nil_of_mem_runs (hnext ▸ List.mem_cons_self) (byteLength_eq_zero.mp hzero)
    rw [anchor_of_runs hcut hruns, flatten_runs, if_pos hcut.count]
    · rw [flatten_runs]
    · rw [flatten_runs]
      omega

/-- Where white space runs across the start of a line, the token after it is the anchor, if there is
one. -/
theorem anchor_of_crossing (stamp : UInt64) {pre : List Char}
    (hcut : LineCut text.toList line.toNat (pre ++ ['\n']) after)
    (hblank : after.takeWhile isBlank ≠ []) :
    ∃ a, runs text.toList = a ++ runs (trimStart after) ∧
      (∀ span ∈ spansFrom 0 a, span.start < byteLength (pre ++ ['\n'])) ∧
      (index text stamp).document.anchor line
        = if trimStart after = [] then .error (.noSibling line) else .ok a.length := by
  obtain ⟨early, mid, rfl, hrun⟩ := exists_run_across pre
    (fun c hc => List.mem_takeWhile_imp (p := isBlank) (l := after) hc)
  have hsplit : text.toList
      = (early ++ mid ++ '\n' :: after.takeWhile isBlank) ++ trimStart after := by
    rw [hcut.split]
    simp [trimStart]
  have hapart : ∀ c ∈ (early ++ mid ++ '\n' :: after.takeWhile isBlank).getLast?,
      ∀ d ∈ (trimStart after).head?, joins c d = false := by
    intro c hc d hd
    rw [List.getLast?_append_of_ne_nil _ (List.cons_ne_nil _ _)] at hc
    have hcblank : isBlank c = true := by
      rcases List.mem_cons.mp (List.mem_of_getLast? hc) with rfl | hc
      · rfl
      · exact List.mem_takeWhile_imp hc
    obtain ⟨rest, hrest⟩ := List.head?_eq_some_iff.mp hd
    apply joins_eq_false
    rw [hcblank, isBlank_of_trimStart_eq_cons hrest]
    exact Bool.false_ne_true.symm
  have hruns : runs text.toList
      = runs early ++ (mid ++ '\n' :: after.takeWhile isBlank) :: runs (trimStart after) := by
    rw [hsplit, runs_append hapart, hrun, List.append_assoc, List.singleton_append]
  -- the white space starts before the line does, and ends after that
  have hearly : byteLength early < byteLength (early ++ mid ++ ['\n']) := by
    have := Char.utf8Size_pos '\n'
    simp only [byteLength_append, byteLength_cons]
    omega
  have hpast : byteLength (early ++ mid ++ ['\n'])
      < byteLength early + byteLength (mid ++ '\n' :: after.takeWhile isBlank) := by
    have : byteLength (after.takeWhile isBlank) ≠ 0 := fun hzero =>
      hblank (byteLength_eq_zero.mp hzero)
    simp only [byteLength_append, byteLength_cons, byteLength_nil]
    omega
  have hcount : early.count '\n' ≠ line.toNat := by
    have := hcut.count
    simp only [List.count_append, List.count_singleton_self] at this
    omega
  refine ⟨runs early ++ [mid ++ '\n' :: after.takeWhile isBlank], ?_, ?_, ?_⟩
  · rw [hruns, List.append_assoc, List.singleton_append]
  · intro span hspan
    rw [spansFrom_append, flatten_runs] at hspan
    rcases List.mem_append.mp hspan with hspan | hspan
    · have hlt := start_lt_stop (fun _ => ne_nil_of_mem_runs) hspan
      have hle := (bounds_of_mem_spansFrom hspan).2.2
      rw [flatten_runs] at hle
      omega
    · rw [List.mem_singleton.mp hspan]
      dsimp only
      omega
  · rw [anchor_of_runs hcut hruns (by rw [flatten_runs]; omega) (by rwa [flatten_runs]),
      flatten_runs, if_neg hcount, List.length_append, List.length_singleton]
    by_cases hrest : trimStart after = []
    · rw [if_pos hrest, hrest]
      rfl
    · rw [if_neg hrest, if_neg (runs_ne_nil hrest)]

/-! ### The first token from there on -/

/-- What a line starts with, the white space aside that belongs to an earlier line. -/
def lineHead (line : UInt32) (after : List Char) : List Char :=
  if line = 0 then after else trimStart after

/-- The tokens may be cut before what a line starts with; the anchor of the line is the first token
after the cut, and those before it start before the line does.  If there is none after it, there is
no anchor. -/
theorem anchor_of_lineCut (stamp : UInt64) (hcut : LineCut text.toList line.toNat before after)
    (hafter : after ≠ []) :
    (lineHead line after = [] →
        (index text stamp).document.anchor line = .error (.noSibling line)) ∧
      (lineHead line after ≠ [] → ∃ a, runs text.toList = a ++ runs (lineHead line after) ∧
        (∀ span ∈ spansFrom 0 a, span.start < byteLength before) ∧
        (index text stamp).document.anchor line = .ok a.length) := by
  -- where a token starts with the line, the cut is there
  have hstarting : lineHead line after = after →
      (∀ c ∈ before.getLast?, ∀ d ∈ after.head?, joins c d = false) →
      ∃ a, runs text.toList = a ++ runs (lineHead line after) ∧
        (∀ span ∈ spansFrom 0 a, span.start < byteLength before) ∧
        (index text stamp).document.anchor line = .ok a.length := by
    intro hhead hapart
    obtain ⟨hruns, hanchor⟩ := anchor_of_starting stamp hcut hafter hapart
    refine ⟨runs before, by rw [hhead, hruns], fun span hspan => ?_, hanchor⟩
    have hlt := start_lt_stop (fun _ => ne_nil_of_mem_runs) hspan
    have hle := (bounds_of_mem_spansFrom hspan).2.2
    rw [flatten_runs] at hle
    omega
  rcases hcut.fresh with rfl | hlast
  · -- the first line
    have hline : line = 0 := UInt32.toNat_inj.mp hcut.count.symm
    have hhead : lineHead line after = after := if_pos hline
    refine ⟨fun hnil => absurd (hhead ▸ hnil) hafter, fun _ => hstarting hhead ?_⟩
    intro c hc
    cases hc
  · obtain ⟨pre, rfl⟩ := List.getLast?_eq_some_iff.mp hlast
    have hline : line ≠ 0 := by
      intro hzero
      have := hcut.count
      rw [hzero, List.count_append, List.count_singleton_self] at this
      exact absurd this (Nat.succ_ne_zero _)
    have hhead : lineHead line after = trimStart after := if_neg hline
    by_cases hblank : after.takeWhile isBlank = []
    · -- the line does not start with white space
      have htrim : trimStart after = after := by
        have := List.takeWhile_append_dropWhile (p := isBlank) (l := after)
        rw [hblank] at this
        exact this
      refine ⟨fun hnil => absurd (htrim ▸ hhead ▸ hnil) hafter, fun _ => ?_⟩
      apply hstarting (hhead.trans htrim)
      intro c hc d hd
      obtain rfl : '\n' = c := Option.some.inj (hlast.symm.trans hc)
      obtain ⟨rest, hrest⟩ := List.head?_eq_some_iff.mp hd
      apply joins_eq_false
      rw [isBlank_of_trimStart_eq_cons (htrim.trans hrest)]
      exact Bool.false_ne_true.symm
    · obtain ⟨a, hruns, hspans, hanchor⟩ := anchor_of_crossing stamp hcut hblank
      rw [hhead]
      refine ⟨fun hnil => ?_, fun hrest => ⟨a, hruns, hspans, ?_⟩⟩
      · rw [hanchor, if_pos hnil]
      · rw [hanchor, if_neg hrest]

/-- A token is the first that starts at an offset or after it. -/
structure IsFirstFrom (s : SourceText) (offset token : Nat) : Prop where
  starts : ∃ span, s.tokens[token]? = some span ∧ offset ≤ span.start
  least : ∀ i < token, ∀ span, s.tokens[i]? = some span → span.start < offset

/-- From a later offset the first token is no earlier. -/
theorem IsFirstFrom.le {s : SourceText} {offset offset' token token' : Nat}
    (h : IsFirstFrom s offset token) (h' : IsFirstFrom s offset' token') (hle : offset ≤ offset') :
    token ≤ token' := by
  obtain ⟨span, hspan, hstart⟩ := h'.starts
  by_contra hlt
  have := h.least token' (Nat.lt_of_not_le hlt) span hspan
  omega

/-- Where the tokens may be cut, the token after the cut is the first from an offset if those before
it start before the offset and the text before it reaches the offset. -/
theorem isFirstFrom_of_runs {a b : List (List Char)} {run : List Char} {offset : Nat}
    (h : runs text.toList = a ++ run :: b) (hle : offset ≤ byteLength a.flatten)
    (hspans : ∀ span ∈ spansFrom 0 a, span.start < offset) :
    IsFirstFrom (index text stamp) offset a.length where
  starts := ⟨_, getElem?_tokens_of_runs h, hle⟩
  least := fun _ hi span hspan => hspans span (mem_spansFrom_of_lt h hi hspan)

/-- Before the head of a line are the text before the line and, unless it is the first, the white
space that the line starts with. -/
theorem flatten_of_lineHead (hcut : LineCut text.toList line.toNat before after)
    {a : List (List Char)} (h : runs text.toList = a ++ runs (lineHead line after)) :
    a.flatten = before ++ if line = 0 then [] else after.takeWhile isBlank := by
  have htext : a.flatten ++ lineHead line after = before ++ after := by
    rw [← hcut.split, ← flatten_runs text.toList, h, List.flatten_append, flatten_runs]
  by_cases hline : line = 0
  · rw [lineHead, if_pos hline] at htext
    rw [if_pos hline, List.append_nil]
    exact List.append_cancel_right htext
  · have hafter : before ++ after = before ++ after.takeWhile isBlank ++ trimStart after := by
      simp [trimStart]
    rw [lineHead, if_neg hline, hafter] at htext
    rw [if_neg hline]
    exact List.append_cancel_right htext

/-- Where a line has a head, the anchor is the first token from the start of the line on.  For the
first line that is the first token, and for any other the token after the white space that the line
starts with, which holds none. -/
theorem exists_anchor (stamp : UInt64) (hcut : LineCut text.toList line.toNat before after)
    (hhead : lineHead line after ≠ []) :
    ∃ token, (index text stamp).document.anchor line = .ok token ∧
      IsFirstFrom (index text stamp) (byteLength before) token ∧ (line = 0 → token = 0) ∧
      (line ≠ 0 → ∃ span word, (index text stamp).tokens[token]? = some span ∧
        span.start = byteLength (before ++ after.takeWhile isBlank) ∧
        (index text stamp).tokenText token = some word ∧
        ∀ c ∈ word.toList, isBlank c = false) := by
  have hafter : after ≠ [] := by
    rintro rfl
    apply hhead
    rw [lineHead]
    split <;> rfl
  obtain ⟨a, hruns, hspans, hanchor⟩ := (anchor_of_lineCut stamp hcut hafter).2 hhead
  have hflatten := flatten_of_lineHead hcut hruns
  obtain ⟨run, b, hrun⟩ := List.exists_cons_of_ne_nil (runs_ne_nil hhead)
  rw [hrun] at hruns
  refine ⟨a.length, hanchor, isFirstFrom_of_runs hruns ?_ hspans, ?_, ?_⟩
  · rw [hflatten, byteLength_append]
    omega
  · intro hline
    have hbefore : before = [] := by
      rcases hcut.fresh with hnil | hlast
      · exact hnil
      · have hmem := List.count_pos_iff.mpr (List.mem_of_getLast? hlast)
        rw [hcut.count, hline] at hmem
        exact absurd hmem (Nat.lt_irrefl 0)
    rw [if_pos hline, List.append_nil, hbefore] at hflatten
    rcases a with - | ⟨part, more⟩
    · rfl
    · have hmem : part ∈ runs text.toList := by
        rw [hruns]
        exact List.mem_cons_self
      exact absurd (List.append_eq_nil_iff.mp hflatten).1 (ne_nil_of_mem_runs hmem)
  · intro hline
    rw [if_neg hline] at hflatten
    refine ⟨_, _, getElem?_tokens_of_runs hruns, ?_, tokenText_of_runs hruns, ?_⟩
    · rw [hflatten]
    · rw [String.toList_ofList]
      rw [lineHead, if_neg hline] at hrun hhead
      obtain ⟨c, rest, hrest⟩ := List.exists_cons_of_ne_nil hhead
      rw [hrest] at hrun
      exact not_isBlank_of_runs hrun (isBlank_of_trimStart_eq_cons hrest)

/-! ### Every line -/

/-- A line after the last has no anchor. -/
theorem anchor_of_lt (h : text.toList.count '\n' < line.toNat) :
    (index text stamp).document.anchor line
      = .error (.lineOutOfRange line (text.toList.count '\n' + 1)) := by
  have hline : (index text stamp).document.lineStart line.toNat = none :=
    Array.getElem?_eq_none (by rw [size_lineStarts]; omega)
  have hcount : (index text stamp).document.lineCount = text.toList.count '\n' + 1 := by
    show (index text stamp).lineStarts.size = _
    exact size_lineStarts
  rw [Document.anchor, hline, hcount]

/-- A line that starts where the text ends has no anchor. -/
theorem anchor_of_end (hcut : LineCut text.toList line.toNat before []) :
    (index text stamp).document.anchor line
      = .error (.noElement (byteLength text.toList)) := by
  have hend : before = text.toList := by
    rw [hcut.split, List.append_nil]
  have hline : (index text stamp).document.lineStart line.toNat
      = some (byteLength text.toList) := by
    rw [← hend]
    exact lineStart_of_lineCut hcut
  have htoken : (index text stamp).document.elementAt (byteLength text.toList) = none :=
    tokenAt_of_le (Nat.le_refl _)
  rw [Document.anchor, hline]
  dsimp only
  rw [htoken]

/-- Only a line with a head has an anchor. -/
theorem lineHead_ne_nil_of_anchor (hcut : LineCut text.toList line.toNat before after) {token : Nat}
    (h : (index text stamp).document.anchor line = .ok token) : lineHead line after ≠ [] := by
  intro hhead
  rcases eq_or_ne after [] with rfl | hafter
  · rw [anchor_of_end hcut] at h
    cases h
  · rw [(anchor_of_lineCut stamp hcut hafter).1 hhead] at h
    cases h

/-- A line with an anchor is a line of the text, and the anchor is the first token from its start
on. -/
theorem isFirstFrom_of_anchor {token : Nat}
    (h : (index text stamp).document.anchor line = .ok token) :
    ∃ before after, LineCut text.toList line.toNat before after ∧
      IsFirstFrom (index text stamp) (byteLength before) token := by
  rcases Nat.lt_or_ge (text.toList.count '\n') line.toNat with hlt | hge
  · rw [anchor_of_lt hlt] at h
    cases h
  · obtain ⟨before, after, hcut⟩ := exists_lineCut hge
    obtain ⟨token', hanchor, hfirst, -⟩ :=
      exists_anchor stamp hcut (lineHead_ne_nil_of_anchor hcut h)
    rw [h] at hanchor
    cases hanchor
    exact ⟨before, after, hcut, hfirst⟩

/-- The anchor of a later line is no earlier. -/
theorem anchor_le {line' : UInt32} {token token' : Nat} (hle : line ≤ line')
    (h : (index text stamp).document.anchor line = .ok token)
    (h' : (index text stamp).document.anchor line' = .ok token') : token ≤ token' := by
  obtain ⟨before, after, hcut, hfirst⟩ := isFirstFrom_of_anchor h
  obtain ⟨before', after', hcut', hfirst'⟩ := isFirstFrom_of_anchor h'
  exact hfirst.le hfirst' (hcut.byteLength_le hcut' (UInt32.le_iff_toNat_le.mp hle))

/-- The anchor of a line is the first token that starts where the line starts or after it.

A line has none if there are not enough line feeds, if it starts where the text ends, or if it is
not the first and all the rest of the text is white space.  For the first line it is the first
token, and for any other the token of other characters after the white space that the line starts
with.  The anchors ascend with the lines. -/
theorem anchor_is_first_token (text : String) (stamp : UInt64) (line : UInt32) :
    let s := index text stamp
    let chars := text.toList
    (if chars.count '\n' < line.toNat then
        s.document.anchor line = .error (.lineOutOfRange line (chars.count '\n' + 1))
      else ∃ before after, LineCut chars line.toNat before after ∧
        s.document.lineStart line.toNat = some (byteLength before) ∧
        if byteLength before = s.length then
          s.document.anchor line = .error (.noElement s.length)
        else if line ≠ 0 ∧ after.all isBlank = true then
          s.document.anchor line = .error (.noSibling line)
        else ∃ token, s.document.anchor line = .ok token ∧
          IsFirstFrom s (byteLength before) token ∧ (line = 0 → token = 0) ∧
          (line ≠ 0 → ∃ span word, s.tokens[token]? = some span ∧
            span.start = byteLength (before ++ after.takeWhile isBlank) ∧
            s.tokenText token = some word ∧ ∀ c ∈ word.toList, isBlank c = false)) ∧
      ∀ line' token token', line ≤ line' → s.document.anchor line = .ok token →
        s.document.anchor line' = .ok token' → token ≤ token' := by
  intro s chars
  refine ⟨?_, fun line' token token' hle h h' => anchor_le hle h h'⟩
  split
  next hlt => exact anchor_of_lt hlt
  next hge =>
    obtain ⟨before, after, hcut⟩ := exists_lineCut (Nat.le_of_not_lt hge)
    refine ⟨before, after, hcut, lineStart_of_lineCut hcut, ?_⟩
    have hlength : s.length = byteLength before + byteLength after := by
      rw [← byteLength_append, ← hcut.split]
      rfl
    split
    next hend =>
      obtain rfl : after = [] := byteLength_eq_zero.mp (by omega)
      exact anchor_of_end hcut
    next hend =>
      have hafter : after ≠ [] := by
        rintro rfl
        exact hend (by rw [hlength, byteLength_nil, Nat.add_zero])
      split
      next hblank =>
        apply (anchor_of_lineCut stamp hcut hafter).1
        rw [lineHead, if_neg hblank.1, trimStart, List.dropWhile_eq_nil_iff]
        exact List.all_eq_true.mp hblank.2
      next hblank =>
        apply exists_anchor stamp hcut
        intro hhead
        rw [lineHead] at hhead
        split at hhead
        next hline => exact hafter hhead
        next hline =>
          rw [trimStart, List.dropWhile_eq_nil_iff] at hhead
          exact hblank ⟨hline, List.all_eq_true.mpr hhead⟩

/-- A blank line and the indented line after it have one anchor, the word after all of the white
space. -/
theorem anchor_is_first_token_of_blank :
    let s := index "é\n\n  b c" 0
    ((1 : UInt32) ≤ 2 ∧ s.document.anchor 1 = .ok 2 ∧ s.document.anchor 2 = .ok 2) ∧ 2 ≤ 2 ∧
      ∃ span word, s.tokens[2]? = some span ∧ s.tokenText 2 = some word ∧
        ∀ c ∈ word.toList, isBlank c = false := by
  intro s
  have h1 : s.document.anchor 1 = .ok 2 := by
    decide +kernel
  have h2 : s.document.anchor 2 = .ok 2 := by
    decide +kernel
  refine ⟨⟨by decide, h1, h2⟩, ?_, ?_⟩
  · exact (anchor_is_first_token "é\n\n  b c" 0 1).2 2 2 2 (by decide) h1 h2
  · have h := (anchor_is_first_token "é\n\n  b c" 0 2).1
    rw [if_neg (by decide)] at h
    obtain ⟨before, after, -, -, h⟩ := h
    split at h
    · rw [h2] at h
      cases h
    · split at h
      · rw [h2] at h
        cases h
      · obtain ⟨token, hanchor, -, -, hword⟩ := h
        rw [h2] at hanchor
        cases hanchor
        obtain ⟨span, word, hspan, -, htext, hblank⟩ := hword (by decide)
        exact ⟨span, word, hspan, htext, hblank⟩

end SourceText

end Marginalia
