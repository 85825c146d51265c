import Marginalia.Proofs.SourceText.Edits
import Marginalia.Proofs.SourceText.Index

/-!
The tokens of a text as a partition of it.

A list of spans partitions a text into longest runs if the spans lie side by side from the start of
the text to its end, begin and end at character boundaries, and hold characters of one kind each, as
many as there are (`IsPartition`).  There is one such list (`isPartition_iff`).  To cut the text into
the parts that such spans hold is to cut it where two characters do not join (`runs_eq_iff`), and the
spans can be told from the parts (`exists_parts_of_tiles`, `isPartition_spansFrom_iff`).

The tokens are a line of siblings.  From the first of them one comes to every token once
(`walk_from`), and their texts put together are the text (`tokens_partition`).
-/

namespace Marginalia

open Text

/-! ### Partitions -/

/-- Characters of one kind. -/
def OfKind (part : List Char) (k : Kind) : Prop := ∀ c ∈ part, kind c = k

/-- Spans without gaps between them from an offset to another, none of them empty. -/
def Tiles (stop : Nat) : Nat → List Span → Prop
  | start, [] => start = stop
  | start, span :: more => span.start = start ∧ span.start < span.stop ∧ Tiles stop span.stop more

/-- A span that begins and ends at character boundaries of a text and holds characters of one
kind. -/
def IsOfKind (text : String) (span : Span) (k : Kind) : Prop :=
  ∃ before inside after, IsCut text span before inside after ∧ OfKind inside.toList k

/-- The spans of longest runs of one kind, which are all of the text. -/
structure IsPartition (text : String) (spans : List Span) : Prop where
  /-- No span is empty, the first starts where the text does, each of the others where the one
  before it ends, and the last ends where the text does. -/
  tiles : Tiles text.utf8ByteSize 0 spans
  /-- A span holds characters of one kind. -/
  ofKind : ∀ span ∈ spans, ∃ k, IsOfKind text span k
  /-- A character that is neither white space nor part of a word stands alone. -/
  alone : ∀ span ∈ spans, IsOfKind text span .mark →
    ∃ before c after, IsCut text span before (String.singleton c) after
  /-- Spans side by side are of different kinds, unless both hold such a character. -/
  apart : spans.IsChain fun a b => ∀ k, IsOfKind text a k → IsOfKind text b k → k = .mark

namespace Text

/-! ### Runs of one kind -/

theorem joins_iff {c d : Char} : joins c d = true ↔ kind c = kind d ∧ kind c ≠ .mark := by
  rw [joins, Bool.and_eq_true, beq_iff_eq, bne_iff_ne]

/-- Characters join one after the other if they are of one kind, and marks stand alone. -/
theorem isChain_joins_iff {part : List Char} (hne : part ≠ []) :
    (part.IsChain fun c d => joins c d) ↔
      (∃ k, OfKind part k) ∧ (OfKind part .mark → ∃ c, part = [c]) := by
  obtain ⟨c, rest, rfl⟩ := List.exists_cons_of_ne_nil hne
  constructor
  · intro h
    refine ⟨⟨kind c, List.forall_mem_cons.mpr ⟨rfl, kind_of_isChain h⟩⟩, fun hmark => ?_⟩
    rcases rest with - | ⟨d, rest⟩
    · exact ⟨c, rfl⟩
    · have hjoins := joins_iff.mp (List.isChain_cons_cons.mp h).1
      exact absurd (hmark c List.mem_cons_self) hjoins.2
  · rintro ⟨⟨k, hk⟩, halone⟩
    by_cases hmark : k = .mark
    · obtain ⟨d, hd⟩ := halone (hmark ▸ hk)
      rw [hd]
      exact List.isChain_singleton d
    · apply List.Pairwise.isChain
      apply List.pairwise_of_forall_mem_list
      intro d hd e he
      refine joins_iff.mpr ⟨(hk d hd).trans (hk e he).symm, ?_⟩
      rw [hk d hd]
      exact hmark

/-- Where two parts meet their characters do not join if the parts are of different kinds, or both
are marks. -/
theorem joins_eq_false_iff {a b : List Char} (ha : a ≠ []) (hb : b ≠ [])
    (hak : ∃ k, OfKind a k) (hbk : ∃ k, OfKind b k) :
    joins (a.getLast ha) (b.head hb) = false ↔ ∀ k, OfKind a k → OfKind b k → k = .mark := by
  obtain ⟨ka, hka⟩ := hak
  obtain ⟨kb, hkb⟩ := hbk
  have hlast : ∀ {k}, OfKind a k → kind (a.getLast ha) = k := fun h => h _ (List.getLast_mem ha)
  have hhead : ∀ {k}, OfKind b k → kind (b.head hb) = k := fun h => h _ (List.head_mem hb)
  rw [← Bool.not_eq_true, joins_iff]
  constructor
  · intro h k hak hbk
    by_contra hmark
    exact h ⟨(hlast hak).trans (hhead hbk).symm, hlast hak ▸ hmark⟩
  · rintro h ⟨hkinds, hmark⟩
    have hab : ka = kb := (hlast hka).symm.trans (hkinds.trans (hhead hkb))
    rw [hlast hka] at hmark
    exact hmark (h ka hka (hab ▸ hkb))

/-- Parts of a text that are runs of one kind, each as long as it can be. -/
structure AreLongestRuns (parts : List (List Char)) : Prop where
  ne_nil : ∀ part ∈ parts, part ≠ []
  ofKind : ∀ part ∈ parts, ∃ k, OfKind part k
  alone : ∀ part ∈ parts, OfKind part .mark → ∃ c, part = [c]
  apart : parts.IsChain fun a b => ∀ k, OfKind a k → OfKind b k → k = .mark

/-- There is one way to cut a text into longest runs of one kind, and the tokens are those runs. -/
theorem runs_eq_iff {chars : List Char} {parts : List (List Char)} :
    runs chars = parts ↔ parts.flatten = chars ∧ AreLongestRuns parts := by
  rw [runs_eq_splitBy, List.splitBy_eq_iff]
  constructor
  · rintro ⟨hflatten, hnil, hchain, hnext⟩
    have hne : ∀ part ∈ parts, part ≠ [] := fun part hpart hpnil => hnil (hpnil ▸ hpart)
    have hkinds := fun part hpart => (isChain_joins_iff (hne part hpart)).mp (hchain part hpart)
    refine ⟨hflatten.symm, hne, fun part hpart => (hkinds part hpart).1,
      fun part hpart => (hkinds part hpart).2, ?_⟩
    refine hnext.imp_of_mem_imp fun a b ha hb hab => ?_
    obtain ⟨hane, hbne, hjoins⟩ := hab
    exact (joins_eq_false_iff hane hbne (hkinds a ha).1 (hkinds b hb).1).mp hjoins
  · rintro ⟨hflatten, hne, hkind, halone, hapart⟩
    refine ⟨hflatten.symm, fun hnil => hne [] hnil rfl, fun part hpart =>
      (isChain_joins_iff (hne part hpart)).mpr ⟨hkind part hpart, halone part hpart⟩, ?_⟩
    refine hapart.imp_of_mem_imp fun a b ha hb hab => ⟨hne a ha, hne b hb, ?_⟩
    exact (joins_eq_false_iff _ _ (hkind a ha) (hkind b hb)).mpr hab

/-! ### Parts and their spans -/

/-- The spans of the parts of a text hold those parts. -/
theorem map_slice?_spansFrom {chars : List Char} (before : List Char) {parts : List (List Char)}
    (h : chars = before ++ parts.flatten) :
    (spansFrom (byteLength before) parts).map (fun span => slice? chars span.start span.stop)
      = parts.map some := by
  induction parts generalizing before with
  | nil => rfl
  | cons part more ih =>
      rw [List.flatten_cons] at h
      have hmore := ih (before ++ part) (by rw [h, List.append_assoc])
      rw [byteLength_append] at hmore
      rw [spansFrom, List.map_cons, List.map_cons, hmore]
      congr 1
      exact slice?_eq_some_iff.mpr ⟨before, more.flatten, h, rfl, rfl⟩

theorem tiles_spansFrom (offset : Nat) {parts : List (List Char)}
    (hne : ∀ part ∈ parts, part ≠ []) :
    Tiles (offset + byteLength parts.flatten) offset (spansFrom offset parts) := by
  induction parts generalizing offset with
  | nil => rfl
  | cons part more ih =>
      obtain ⟨hpart, hmore⟩ := List.forall_mem_cons.mp hne
      have hpos : byteLength part ≠ 0 := fun hzero => hpart (byteLength_eq_zero.mp hzero)
      rw [List.flatten_cons, byteLength_append, ← Nat.add_assoc]
      exact ⟨rfl, by dsimp only; omega, ih _ hmore⟩

/-- Spans without gaps that end at character boundaries are the spans of parts of the text. -/
theorem exists_parts_of_tiles {chars before rest : List Char} {spans : List Span}
    (hchars : chars = before ++ rest)
    (htiles : Tiles (byteLength chars) (byteLength before) spans)
    (hslices : ∀ span ∈ spans, ∃ part, slice? chars span.start span.stop = some part) :
    ∃ parts, parts.flatten = rest ∧ spans = spansFrom (byteLength before) parts ∧
      ∀ part ∈ parts, part ≠ [] := by
  induction spans generalizing before rest with
  | nil =>
      have hlength : byteLength before = byteLength chars := htiles
      rw [hchars, byteLength_append] at hlength
      obtain rfl : rest = [] := byteLength_eq_zero.mp (by omega)
      exact ⟨[], rfl, rfl, fun _ h => absurd h List.not_mem_nil⟩
  | cons span more ih =>
      obtain ⟨hstart, hlt, hmore⟩ := htiles
      obtain ⟨⟨part, hpart⟩, hparts⟩ := List.forall_mem_cons.mp hslices
      obtain ⟨before', after, hcut, hbefore, hstop⟩ := slice?_eq_some_iff.mp hpart
      -- the text is cut at the same offset in both ways
      have hsame := splitAt?_eq_some_iff.mpr ⟨hcut, hbefore.trans hstart⟩
      rw [splitAt?_eq_some_iff.mpr ⟨hchars, rfl⟩] at hsame
      obtain ⟨rfl, rfl⟩ := Prod.mk.inj (Option.some.inj hsame)
      have hnext : byteLength (before ++ part) = span.stop := by
        rw [byteLength_append]
        omega
      rw [← hnext] at hmore
      obtain ⟨parts, rfl, hspans, hne⟩ := ih (by rw [hchars, List.append_assoc]) hmore hparts
      refine ⟨part :: parts, rfl, ?_, List.forall_mem_cons.mpr ⟨?_, hne⟩⟩
      · rw [spansFrom, ← byteLength_append, ← hspans, hnext, ← hstart]
      · rintro rfl
        rw [byteLength_nil] at hstop
        omega

end Text

/-! ### The one partition of a text -/

theorem isOfKind_iff {text : String} {span : Span} {k : Kind} :
    IsOfKind text span k ↔ ∃ part ∈ slice? text.toList span.start span.stop, OfKind part k := by
  constructor
  · rintro ⟨before, inside, after, hcut, hk⟩
    exact ⟨inside.toList, exists_isCut_iff_slice?.mp ⟨before, after, hcut⟩, hk⟩
  · rintro ⟨part, hpart, hk⟩
    have hinside : slice? text.toList span.start span.stop = some (String.ofList part).toList := by
      rw [String.toList_ofList]
      exact hpart
    obtain ⟨before, after, hcut⟩ := exists_isCut_iff_slice?.mpr hinside
    exact ⟨before, .ofList part, after, hcut, by rwa [String.toList_ofList]⟩

theorem exists_isCut_singleton_iff {text : String} {span : Span} :
    (∃ before c after, IsCut text span before (String.singleton c) after) ↔
      ∃ part ∈ slice? text.toList span.start span.stop, ∃ c, part = [c] := by
  constructor
  · rintro ⟨before, c, after, hcut⟩
    exact ⟨_, exists_isCut_iff_slice?.mp ⟨before, after, hcut⟩, c, by simp⟩
  · rintro ⟨_, hpart, c, rfl⟩
    have hinside : slice? text.toList span.start span.stop
        = some (String.singleton c).toList := by
      rw [hpart]
      simp
    obtain ⟨before, after, hcut⟩ := exists_isCut_iff_slice?.mpr hinside
    exact ⟨before, c, after, hcut⟩

/-- Parts of a text are longest runs of one kind just when their spans are. -/
theorem isPartition_spansFrom_iff {text : String} {parts : List (List Char)}
    (h : parts.flatten = text.toList) (hne : ∀ part ∈ parts, part ≠ []) :
    IsPartition text (spansFrom 0 parts) ↔ AreLongestRuns parts := by
  have hslices := map_slice?_spansFrom [] h.symm
  rw [byteLength_nil] at hslices
  -- what is said of what the spans hold is said of the parts
  have hall : ∀ P : Option (List Char) → Prop,
      (∀ span ∈ spansFrom 0 parts, P (slice? text.toList span.start span.stop)) ↔
        ∀ part ∈ parts, P (some part) := by
    intro P
    have hmap := List.forall_mem_map (P := P) (l := spansFrom 0 parts)
      (f := fun span => slice? text.toList span.start span.stop)
    rw [← hmap, hslices, List.forall_mem_map]
  have hkind := hall fun x => ∃ k, ∃ part ∈ x, OfKind part k
  have halone := hall fun x =>
    (∃ part ∈ x, OfKind part .mark) → ∃ part ∈ x, ∃ c, part = [c]
  have hapart : (spansFrom 0 parts).IsChain
      (fun a b => ∀ k, IsOfKind text a k → IsOfKind text b k → k = .mark) ↔
        parts.IsChain fun a b => ∀ k, OfKind a k → OfKind b k → k = .mark := by
    have hmap := List.isChain_map (R := fun x y => ∀ k, (∃ part ∈ x, OfKind part k) →
        (∃ part ∈ y, OfKind part k) → k = .mark)
      (fun span : Span => slice? text.toList span.start span.stop) (l := spansFrom 0 parts)
    rw [hslices, List.isChain_map] at hmap
    simpa [isOfKind_iff] using hmap.symm
  simp only [← isOfKind_iff, ← exists_isCut_singleton_iff, Option.mem_some_iff,
    exists_eq_left'] at hkind halone
  constructor
  · intro hpartition
    exact ⟨hne, hkind.mp hpartition.ofKind, halone.mp hpartition.alone,
      hapart.mp hpartition.apart⟩
  · intro hlongest
    refine ⟨?_, hkind.mpr hlongest.ofKind, halone.mpr hlongest.alone, hapart.mpr hlongest.apart⟩
    have htiles := tiles_spansFrom 0 hne
    rwa [Nat.zero_add, h, byteLength_toList] at htiles

/-- The tokens are the one partition of a text. -/
theorem isPartition_iff {text : String} {spans : List Span} :
    IsPartition text spans ↔ spans = tokenSpans text.toList := by
  constructor
  · intro h
    have hslices : ∀ span ∈ spans, ∃ part, slice? text.toList span.start span.stop = some part := by
      intro span hspan
      obtain ⟨k, hk⟩ := h.ofKind span hspan
      obtain ⟨part, hpart, -⟩ := isOfKind_iff.mp hk
      exact ⟨part, hpart⟩
    have htiles := h.tiles
    rw [← byteLength_toList, ← byteLength_nil] at htiles
    obtain ⟨parts, hflatten, rfl, hne⟩ :=
      exists_parts_of_tiles (List.nil_append text.toList).symm htiles hslices
    rw [tokenSpans, runs_eq_iff.mpr ⟨hflatten, (isPartition_spansFrom_iff hflatten hne).mp h⟩]
    rfl
  · rintro rfl
    obtain ⟨hflatten, hlongest⟩ := runs_eq_iff.mp (rfl : runs text.toList = _)
    exact (isPartition_spansFrom_iff hflatten hlongest.ne_nil).mpr hlongest

/-! ### Going from token to token -/

variable {Element Stamp : Type}

/-- The elements on the way from one of them to the next sibling, up to one that has none. -/
inductive Document.Walk (d : Document Element Stamp) : Option Element → List Element → Prop
  | finish : Walk d none []
  | visit {e : Element} {rest : List Element} (h : Walk d (d.nextSibling e) rest) :
      Walk d (some e) (e :: rest)

theorem Document.Walk.unique {d : Document Element Stamp} {from? : Option Element}
    {visited visited' : List Element} (h : d.Walk from? visited) (h' : d.Walk from? visited') :
    visited = visited' := by
  induction h generalizing visited' with
  | finish =>
      cases h'
      rfl
  | visit h ih =>
      cases h' with
      | visit h' => rw [ih h']

namespace SourceText

variable {text : String} {stamp : UInt64}

/-- From a token the way leads over all tokens after it. -/
theorem walk_from (s : SourceText) {token : Nat} (h : token < s.tokens.size) :
    s.document.Walk (some token) (List.range' token (s.tokens.size - token)) := by
  induction hn : s.tokens.size - token generalizing token with
  | zero => omega
  | succ n ih =>
      rw [List.range'_succ]
      apply Document.Walk.visit
      show s.document.Walk (s.nextToken token) _
      rw [nextToken]
      split
      next hlt => exact ih hlt (by omega)
      next hge =>
        obtain rfl : n = 0 := by omega
        exact Document.Walk.finish

theorem elementAt_zero :
    (index text stamp).document.elementAt 0
      = if 0 < (index text stamp).tokens.size then some 0 else none := by
  show (index text stamp).tokenAt 0 = _
  rw [size_tokens]
  rcases hruns : runs text.toList with - | ⟨run, more⟩
  · have hempty : text.toList = [] := by
      rw [← flatten_runs text.toList, hruns]
      rfl
    apply tokenAt_of_le
    rw [hempty]
    exact Nat.le_refl 0
  · have hrun : run ≠ [] := ne_nil_of_mem_runs (hruns ▸ List.mem_cons_self)
    have hpos : byteLength run ≠ 0 := fun hzero => hrun (byteLength_eq_zero.mp hzero)
    have hsize : 0 < (run :: more).length := Nat.zero_lt_succ _
    rw [if_pos hsize]
    refine tokenAt_of_runs (a := []) hruns (Nat.zero_le _) ?_
    rw [List.flatten_nil, byteLength_nil]
    omega

/-- The texts of the tokens, in their order. -/
theorem map_tokenText :
    (List.range (index text stamp).tokens.size).map (index text stamp).tokenText
      = ((runs text.toList).map String.ofList).map some := by
  rw [size_tokens]
  apply List.ext_getElem
  · simp
  · intro i hi _
    rw [List.length_map, List.length_range] at hi
    rw [List.getElem_map, List.getElem_range, List.getElem_map, List.getElem_map]
    have hruns : runs text.toList
        = (runs text.toList).take i ++ (runs text.toList)[i] :: (runs text.toList).drop (i + 1) := by
      simp
    have hlength : ((runs text.toList).take i).length = i :=
      List.length_take_of_le (Nat.le_of_lt hi)
    have hword : (index text stamp).tokenText ((runs text.toList).take i).length = some _ :=
      tokenText_of_runs hruns
    rwa [hlength] at hword

theorem join_words (chars : List Char) :
    String.join ((runs chars).map String.ofList) = String.ofList chars := by
  rw [← String.toList_inj, String.toList_ofList, String.toList_join, List.flatMap_map]
  simp [flatten_runs]

/-- The tokens of a text are the one list of spans that partitions it into longest runs of one kind.
Going from the token at the start to the next and so on, one comes to all of them, to each once and
in order, and to an end.  The text of each can be taken, and the texts taken in that order are the
whole text. -/
theorem tokens_partition (text : String) (stamp : UInt64) :
    let s := index text stamp
    (∀ spans, IsPartition text spans ↔ spans = s.tokens.toList) ∧
      (∀ visited, s.document.Walk (s.document.elementAt 0) visited ↔
        visited = List.range s.tokens.size) ∧
      ∃ words : List String, (List.range s.tokens.size).map s.tokenText = words.map some ∧
        String.join words = text := by
  intro s
  have hwalk : s.document.Walk (s.document.elementAt 0) (List.range s.tokens.size) := by
    rw [elementAt_zero]
    split
    next hpos =>
      rw [List.range_eq_range']
      exact walk_from s hpos
    next hzero =>
      rw [Nat.eq_zero_of_not_pos hzero]
      exact Document.Walk.finish
  refine ⟨fun spans => isPartition_iff, fun visited => ⟨fun h => h.unique hwalk, ?_⟩, ?_⟩
  · rintro rfl
    exact hwalk
  · exact ⟨_, map_tokenText, by rw [join_words, String.ofList_toList]⟩

end SourceText

end Marginalia
