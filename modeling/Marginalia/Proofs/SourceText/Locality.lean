import Marginalia.Proofs.SourceText.Edits
import Marginalia.Proofs.SourceText.Index

/-!
What an edit leaves of the lines and tokens of a text.

The index of a text is made anew by every edit, and still says the same of the text before the edit
and after it.  A text may be cut between two of its tokens (`runs_of_append`).  Where the cut is
before the end of what stands before an edit, the character after it is still there, so the tokens
before the cut are tokens of the edited text (`exists_runs_before`); and so are the tokens after a
cut that is after the start of what stands after the edit (`exists_runs_after`).  A token that only
touches the edit may grow, shrink or vanish.  A line start needs the line feed before it and nothing
else (`exists_lineCut_before`, `exists_lineCut_after`).
-/

namespace Marginalia

namespace Text

/-! ### Cuts between tokens -/

/-- A text may be cut between two of its tokens: those before the cut are the tokens of the text
before it, those after it the tokens of the text after it, and no characters join across it. -/
theorem runs_of_append {chars : List Char} {a b : List (List Char)} (h : runs chars = a ++ b) :
    runs a.flatten = a ∧ runs b.flatten = b ∧
      ∀ c ∈ a.flatten.getLast?, ∀ d ∈ b.flatten.head?, joins c d = false := by
  have hne : ∀ part ∈ a ++ b, part ≠ [] := fun part hpart => ne_nil_of_mem_runs (h ▸ hpart)
  have hchain : ∀ part ∈ a ++ b, part.IsChain fun c d => joins c d :=
    fun part hpart => isChain_of_mem_runs (h ▸ hpart)
  have hapart := isChain_runs chars
  rw [h, List.isChain_append] at hapart
  obtain ⟨hapart, hbpart, hmeet⟩ := hapart
  obtain ⟨hane, hbne⟩ := List.forall_mem_append.mp hne
  obtain ⟨hachain, hbchain⟩ := List.forall_mem_append.mp hchain
  refine ⟨?_, ?_, ?_⟩
  · rw [runs_eq_splitBy]
    exact List.splitBy_flatten (fun hnil => hane [] hnil rfl) hachain hapart
  · rw [runs_eq_splitBy]
    exact List.splitBy_flatten (fun hnil => hbne [] hnil rfl) hbchain hbpart
  · intro c hc d hd
    -- what meets at the cut is the last character of one token and the first of the next
    rcases List.eq_nil_or_concat a with rfl | ⟨a, last, rfl⟩
    · cases hc
    · rcases b with - | ⟨first, b⟩
      · cases hd
      · obtain ⟨hlast, hfirst, hjoins⟩ := hmeet last (by simp) first rfl
        rw [List.concat_eq_append, List.flatten_append, List.flatten_singleton,
          List.getLast?_append_of_ne_nil _ hlast, List.getLast?_eq_some_getLast hlast] at hc
        rw [List.flatten_cons, List.head?_append_of_ne_nil _ hfirst,
          List.head?_eq_some_head hfirst] at hd
        rwa [Option.some.inj hc, Option.some.inj hd] at hjoins

/-- Tokens that end before the end of a part of the text do not depend on what follows the part. -/
theorem exists_runs_before {before rest : List Char} {a b : List (List Char)}
    (h : runs (before ++ rest) = a ++ b) (hlt : byteLength a.flatten < byteLength before)
    (rest' : List Char) : ∃ b', runs (before ++ rest') = a ++ b' := by
  obtain ⟨ha, -, hmeet⟩ := runs_of_append h
  have hflatten : before ++ rest = a.flatten ++ b.flatten := by
    rw [← List.flatten_append, ← h, flatten_runs]
  obtain ⟨more, hne, hmore, hb⟩ := exists_append_of_lt hflatten.symm hlt
  -- the character after the tokens is in the part as well, so it keeps apart what follows it
  refine ⟨runs (more ++ rest'), ?_⟩
  rw [hmore, List.append_assoc, runs_append, ha]
  intro c hc d hd
  rw [List.head?_append_of_ne_nil _ hne] at hd
  apply hmeet c hc d
  rw [hb, List.head?_append_of_ne_nil _ hne]
  exact hd

/-- Tokens that start after the start of a part of the text do not depend on what precedes the
part. -/
theorem exists_runs_after {rest after : List Char} {a b : List (List Char)}
    (h : runs (rest ++ after) = a ++ b) (hlt : byteLength rest < byteLength a.flatten)
    (rest' : List Char) :
    ∃ a', runs (rest' ++ after) = a' ++ b ∧
      byteLength a'.flatten + byteLength rest = byteLength a.flatten + byteLength rest' := by
  obtain ⟨-, hb, hmeet⟩ := runs_of_append h
  have hflatten : rest ++ after = a.flatten ++ b.flatten := by
    rw [← List.flatten_append, ← h, flatten_runs]
  obtain ⟨more, hne, hmore, hafter⟩ := exists_append_of_lt hflatten hlt
  -- the character before the tokens is in the part as well
  refine ⟨runs (rest' ++ more), ?_, ?_⟩
  · rw [hafter, ← List.append_assoc, runs_append, hb]
    intro c hc d hd
    rw [List.getLast?_append_of_ne_nil _ hne] at hc
    refine hmeet c ?_ d hd
    rw [hmore, List.getLast?_append_of_ne_nil _ hne]
    exact hc
  · rw [flatten_runs, hmore, byteLength_append, byteLength_append]
    omega

/-! ### Cuts where lines start -/

/-- A line that starts no later than a part of the text ends does not depend on what follows the
part. -/
theorem exists_lineCut_before {before rest start tail : List Char} {line : Nat}
    (h : LineCut (before ++ rest) line start tail) (hle : byteLength start ≤ byteLength before)
    (rest' : List Char) : ∃ tail', LineCut (before ++ rest') line start tail' := by
  obtain ⟨more, rfl, -⟩ := exists_append_of_le h.split.symm hle
  exact ⟨more ++ rest', by rw [List.append_assoc], h.count, h.fresh⟩

/-- A line that starts after the start of a part of the text needs of what precedes the part only
the number of its line feeds. -/
theorem exists_lineCut_after {rest after start tail : List Char} {line : Nat}
    (h : LineCut (rest ++ after) line start tail) (hlt : byteLength rest < byteLength start)
    (rest' : List Char) :
    ∃ line' start', LineCut (rest' ++ after) line' start' tail ∧
      line' + rest.count '\n' = line + rest'.count '\n' ∧
      byteLength start' + byteLength rest = byteLength start + byteLength rest' := by
  obtain ⟨more, hne, hmore, hafter⟩ := exists_append_of_lt h.split hlt
  -- the line is not the first one, so a line feed is before it, which is in the part as well
  refine ⟨_, rest' ++ more, ⟨by rw [hafter, List.append_assoc], rfl, Or.inr ?_⟩, ?_, ?_⟩
  · rcases h.fresh with hnil | hlast
    · rw [hmore] at hnil
      exact absurd (List.append_eq_nil_iff.mp hnil).2 hne
    · rw [hmore, List.getLast?_append_of_ne_nil _ hne] at hlast
      rw [List.getLast?_append_of_ne_nil _ hne, hlast]
  · rw [← h.count, hmore, List.count_append, List.count_append]
    omega
  · rw [hmore, byteLength_append, byteLength_append]
    omega

end Text

namespace SourceText

open Text

variable {text text' : String} {stamp stamp' : UInt64}

/-! ### Tokens -/

/-- A token that ends before the end of a part that two texts begin with is a token of both. -/
theorem token_before {before rest rest' : List Char} (htext : text.toList = before ++ rest)
    (htext' : text'.toList = before ++ rest') {token : Nat} {span : Span}
    (hget : (index text stamp).tokens[token]? = some span) (hlt : span.stop < byteLength before) :
    (index text' stamp').tokens[token]? = some span ∧
      (index text' stamp').tokenText token = (index text stamp).tokenText token := by
  obtain ⟨a, run, b, hruns, rfl, rfl⟩ := exists_runs_of_getElem? hget
  have hcut : runs (before ++ rest) = (a ++ [run]) ++ b := by
    rw [← htext, hruns, List.append_assoc, List.singleton_append]
  have hflatten : byteLength (a ++ [run]).flatten < byteLength before := by
    rw [List.flatten_append, List.flatten_singleton, byteLength_append]
    exact hlt
  obtain ⟨b', hruns'⟩ := exists_runs_before hcut hflatten rest'
  rw [← htext', List.append_assoc, List.singleton_append] at hruns'
  exact ⟨getElem?_tokens_of_runs hruns',
    (tokenText_of_runs hruns').trans (tokenText_of_runs hruns).symm⟩

/-- A token that starts after the start of a part that two texts end with is a token of both, as
far from the last token and from the end of the text in one as in the other. -/
theorem token_after {rest rest' after : List Char} (htext : text.toList = rest ++ after)
    (htext' : text'.toList = rest' ++ after) {token : Nat} {span : Span}
    (hget : (index text stamp).tokens[token]? = some span) (hlt : byteLength rest < span.start) :
    ∃ token' span', (index text' stamp').tokens[token']? = some span' ∧
      token' + (index text stamp).tokens.size = token + (index text' stamp').tokens.size ∧
      span'.start + byteLength rest = span.start + byteLength rest' ∧
      span'.stop + byteLength rest = span.stop + byteLength rest' ∧
      (index text' stamp').tokenText token' = (index text stamp).tokenText token := by
  obtain ⟨a, run, b, hruns, rfl, rfl⟩ := exists_runs_of_getElem? hget
  rw [htext] at hruns
  obtain ⟨a', hruns', hlength⟩ := exists_runs_after hruns hlt rest'
  rw [← htext] at hruns
  rw [← htext'] at hruns'
  refine ⟨a'.length, _, getElem?_tokens_of_runs hruns', ?_, hlength, ?_,
    (tokenText_of_runs hruns').trans (tokenText_of_runs hruns).symm⟩
  · rw [size_tokens, size_tokens, hruns, hruns', List.length_append, List.length_append]
    omega
  · dsimp only
    omega

/-! ### Lines -/

theorem lineStart_before {before rest rest' : List Char} (htext : text.toList = before ++ rest)
    (htext' : text'.toList = before ++ rest') {line start : Nat}
    (hget : (index text stamp).lineStarts[line]? = some start) (hle : start ≤ byteLength before) :
    (index text' stamp').lineStarts[line]? = some start := by
  obtain ⟨head, tail, hcut, rfl⟩ := exists_lineCut_of_lineStart hget
  rw [htext] at hcut
  obtain ⟨tail', hcut'⟩ := exists_lineCut_before hcut hle rest'
  rw [← htext'] at hcut'
  exact lineStart_of_lineCut hcut'

theorem lineStart_after {rest rest' after : List Char} (htext : text.toList = rest ++ after)
    (htext' : text'.toList = rest' ++ after) {line start : Nat}
    (hget : (index text stamp).lineStarts[line]? = some start) (hlt : byteLength rest < start) :
    ∃ line' start', (index text' stamp').lineStarts[line']? = some start' ∧
      line' + rest.count '\n' = line + rest'.count '\n' ∧
      start' + byteLength rest = start + byteLength rest' := by
  obtain ⟨head, tail, hcut, rfl⟩ := exists_lineCut_of_lineStart hget
  rw [htext] at hcut
  obtain ⟨line', head', hcut', hcount, hlength⟩ := exists_lineCut_after hcut hlt rest'
  rw [← htext'] at hcut'
  exact ⟨line', _, lineStart_of_lineCut hcut', hcount, hlength⟩

/-! ### An edit -/

/-- Replacing a span of a text, however it was edited before, leaves alone what does not touch the
span.  A token that ends before the span keeps its number, its place and its text.  A token that
starts after the span keeps its text, and moves by as many bytes as the text grows and by as many
numbers as there are more tokens.  A line that starts no later than the span keeps its number and
its place.  A line that starts after the span moves by as many bytes as the text grows and by as many
numbers as there are more line feeds. -/
theorem edits_are_local (text : String) (edits : List Edit) (span : Span) (replacement : String)
    (hmade : (((ofText text).editAll edits).2.edit (.replace span replacement)).1 = .ok ()) :
    let s := ((ofText text).editAll edits).2
    let edited := (s.edit (.replace span replacement)).2
    let growth : Int := replacement.utf8ByteSize - ((span.stop : Int) - span.start)
    ∃ before inside after, IsCut s.text span before inside after ∧
      edited.text = before ++ replacement ++ after ∧
      (∀ (token : Nat) (old : Span), s.tokens[token]? = some old → old.stop < span.start →
        edited.tokens[token]? = some old ∧ edited.tokenText token = s.tokenText token) ∧
      (∀ (token : Nat) (old : Span), s.tokens[token]? = some old → span.stop < old.start →
        ∃ (token' : Nat) (new : Span), edited.tokens[token']? = some new ∧
          (token' : Int) = token + ((edited.tokens.size : Int) - s.tokens.size) ∧
          (new.start : Int) = old.start + growth ∧ (new.stop : Int) = old.stop + growth ∧
          edited.tokenText token' = s.tokenText token) ∧
      (∀ line start : Nat, s.lineStarts[line]? = some start → start ≤ span.start →
        edited.lineStarts[line]? = some start) ∧
      ∀ line start : Nat, s.lineStarts[line]? = some start → span.stop < start →
        ∃ line' start' : Nat, edited.lineStarts[line']? = some start' ∧
          (line' : Int)
            = line + ((replacement.toList.count '\n' : Int) - inside.toList.count '\n') ∧
          (start' : Int) = start + growth := by
  intro s edited growth
  obtain ⟨before, inside, after, hcut, hedited⟩ := exists_isCut_of_ok hmade
  obtain ⟨old, hold⟩ := editAll_index text 0 edits
  have hs : s = index old _ := hold
  have hedited : edited = index (before ++ replacement ++ after) _ := hedited
  have htext : s.text = old := congrArg SourceText.text hs
  -- both texts begin with what is before the span and end with what is after it
  have hbegin : old.toList = before.toList ++ (inside.toList ++ after.toList) := by
    rw [← htext, hcut.text_eq]
    simp
  have hend : old.toList = (before.toList ++ inside.toList) ++ after.toList := by
    rw [hbegin, List.append_assoc]
  have hbegin' : (before ++ replacement ++ after).toList
      = before.toList ++ (replacement.toList ++ after.toList) := by
    simp
  have hend' : (before ++ replacement ++ after).toList
      = (before.toList ++ replacement.toList) ++ after.toList := by
    simp
  have hstart : byteLength before.toList = span.start := by
    rw [byteLength_toList, hcut.start_eq]
  have hstop : byteLength (before.toList ++ inside.toList) = span.stop := by
    rw [← String.toList_append, byteLength_toList, hcut.stop_eq]
  have hnew : byteLength (before.toList ++ replacement.toList)
      = span.start + replacement.utf8ByteSize := by
    rw [byteLength_append, hstart, byteLength_toList]
  rw [hs, hedited]
  refine ⟨before, inside, after, htext ▸ hcut, rfl, ?_, ?_, ?_, ?_⟩
  · intro token span' hget hlt
    exact token_before hbegin hbegin' hget (hstart ▸ hlt)
  · intro token span' hget hlt
    obtain ⟨token', new, hnewget, hcount, hnewstart, hnewstop, hword⟩ :=
      token_after hend hend' hget (hstop ▸ hlt)
    rw [hstop, hnew] at hnewstart hnewstop
    exact ⟨token', new, hnewget, by omega, by omega, by omega, hword⟩
  · intro line start hget hle
    exact lineStart_before hbegin hbegin' hget (hstart ▸ hle)
  · intro line start hget hlt
    obtain ⟨line', start', hnewget, hcount, hnewstart⟩ :=
      lineStart_after hend hend' hget (hstop ▸ hlt)
    rw [hstop, hnew] at hnewstart
    rw [List.count_append, List.count_append] at hcount
    exact ⟨line', start', hnewget, by omega, by omega⟩

/-- Of the words of a text whose second word is replaced by two words on two lines, the first keeps
its number, and the third gets a later number on a later line. -/
theorem edits_are_local_around_a_word :
    let s := ((ofText "").editAll [.setText "a b\nc d"]).2
    let edited := (s.edit (.replace ⟨2, 3⟩ "x\ny")).2
    (s.edit (.replace ⟨2, 3⟩ "x\ny")).1 = .ok () ∧
      (s.tokens[0]? = some ⟨0, 1⟩ ∧ edited.tokens[0]? = some ⟨0, 1⟩) ∧
      (s.tokens[4]? = some ⟨4, 5⟩ ∧ edited.tokens[6]? = some ⟨6, 7⟩ ∧
        edited.tokenText 6 = s.tokenText 4) ∧
      (s.lineStarts[0]? = some 0 ∧ edited.lineStarts[0]? = some 0) ∧
      s.lineStarts[1]? = some 4 ∧ edited.lineStarts[2]? = some 6 := by
  have hmade : (((ofText "").editAll [.setText "a b\nc d"]).2.edit (.replace ⟨2, 3⟩ "x\ny")).1
      = .ok () := by
    decide +kernel
  have hlocal := edits_are_local "" [.setText "a b\nc d"] ⟨2, 3⟩ "x\ny" hmade
  dsimp only at hlocal ⊢
  -- from here on the two texts are known by the facts computed of them
  generalize hs : ((ofText "").editAll [.setText "a b\nc d"]).2 = s at hlocal hmade ⊢
  generalize hedited : (s.edit (.replace ⟨2, 3⟩ "x\ny")).2 = edited at hlocal ⊢
  have hfirst : s.tokens[0]? = some ⟨0, 1⟩ := by
    rw [← hs]
    decide +kernel
  have hthird : s.tokens[4]? = some ⟨4, 5⟩ := by
    rw [← hs]
    decide +kernel
  have hlines : s.lineStarts[0]? = some 0 ∧ s.lineStarts[1]? = some 4 := by
    rw [← hs]
    decide +kernel
  have hsizes : s.tokens.size = 7 ∧ edited.tokens.size = 9 := by
    rw [← hedited, ← hs]
    decide +kernel
  obtain ⟨before, inside, after, hcut, -, hbefore, hafter, hkept, hmoved⟩ := hlocal
  have hinside : inside.toList = ['b'] := by
    have hslice := exists_isCut_iff_slice?.mp ⟨before, after, hcut⟩
    rw [← hs] at hslice
    exact Option.some.inj (hslice.symm.trans (by decide +kernel))
  have hfeeds : "x\ny".toList.count '\n' = 1 ∧ inside.toList.count '\n' = 0 := by
    rw [hinside]
    decide
  obtain ⟨token, ⟨newStart, newStop⟩, htoken, hcount, hstart, hstop, hword⟩ :=
    hafter 4 ⟨4, 5⟩ hthird (by decide)
  obtain ⟨line, start, hline, hnumber, hlineStart⟩ := hmoved 1 4 hlines.2 (by decide)
  dsimp only at hstart hstop hlineStart
  have hgrowth : ("x\ny".utf8ByteSize : Int) = 3 := rfl
  obtain rfl : token = 6 := by omega
  obtain rfl : newStart = 6 := by omega
  obtain rfl : newStop = 7 := by omega
  obtain rfl : line = 2 := by omega
  obtain rfl : start = 6 := by omega
  exact ⟨hmade, ⟨hfirst, (hbefore 0 ⟨0, 1⟩ hfirst (by decide)).1⟩, ⟨hthird, htoken, hword⟩,
    ⟨hlines.1, hkept 0 0 hlines.1 (by decide)⟩, hlines.2, hline⟩

end SourceText

end Marginalia
