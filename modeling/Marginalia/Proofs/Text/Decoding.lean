import Marginalia.Proofs.Text.Utf8
import Mathlib.Data.List.Infix

/-!
What the decoder is to do with bytes that are no text, and that it does it.

`Decoding` says how bytes are read, without the machine that reads them.  They are cut into pieces
(`IsPiece`): the encoding of a character, which is read as that character, and malformed pieces,
which are read as `none`.  A malformed piece is a byte with which no encoding begins, or goes as far
as an encoding could begin with it and is not the whole of one.  So there is one way to cut bytes,
and they have one reading (`Decoding.unique`).

The machine finds it (`decoding_iff`).  Its state stands for the bytes since the last piece ended:
`Stems` says that all the ways in which the machine would go on from them end in encodings, and the
byte that it refuses is one with which no encoding goes on.

An ASCII byte is never a part of a longer piece, so what is before it and what is after it are
decoded by themselves (`decode_append_ascii`).  Bytes decode without anything malformed just when
they encode a text (`eq_encode_iff`).
-/

namespace Marginalia.Text.Utf8

/-! ### Readings of bytes -/

/-- Whether some bytes are the beginning of the encoding of a character. -/
def Begins (bytes : List UInt8) : Prop := ∃ c, bytes <+: String.utf8EncodeChar c

/-- A piece in front of some bytes, and how it is read. -/
inductive IsPiece : List UInt8 → List UInt8 → Option Char → Prop where
  /-- The encoding of a character. -/
  | char (c : Char) (rest : List UInt8) : IsPiece (String.utf8EncodeChar c) rest (some c)
  /-- A byte with which no encoding begins. -/
  | stray {b : UInt8} (rest : List UInt8) : ¬Begins [b] → IsPiece [b] rest none
  /-- The beginning of an encoding, as far as it goes, that is not the whole of one. -/
  | broken {piece rest : List UInt8} : piece ≠ [] → Begins piece →
      (∀ c, piece ≠ String.utf8EncodeChar c) → (∀ b ∈ rest.head?, ¬Begins (piece ++ [b])) →
        IsPiece piece rest none

/-- How bytes are read: piece by piece, each malformed piece as one `none`. -/
inductive Decoding : List UInt8 → List (Option Char) → Prop where
  | nil : Decoding [] []
  | cons {piece rest : List UInt8} {mark : Option Char} {out : List (Option Char)} :
      IsPiece piece rest mark → Decoding rest out → Decoding (piece ++ rest) (mark :: out)

theorem Begins.of_isPrefix {a b : List UInt8} (h : a <+: b) (hb : Begins b) : Begins a := by
  obtain ⟨c, hc⟩ := hb
  exact ⟨c, h.trans hc⟩

/-! ### The output grows -/

/-- What the machine has put out stays in front of all that it puts out later. -/
theorem run_append (state : Option Begun) (a b : List UInt8) :
    run state (a ++ b)
      = ((run state a).1 ++ (run (run state a).2 b).1, (run (run state a).2 b).2) := by
  induction a generalizing state with
  | nil => rfl
  | cons x rest ih => simp [run, ih]

theorem run_isPrefix {a b : List UInt8} (h : a <+: b) (state : Option Begun) :
    (run state a).1 <+: (run state b).1 := by
  obtain ⟨rest, rfl⟩ := h
  rw [run_append]
  exact List.prefix_append _ _

/-- Bytes in which the machine finds something malformed at once begin no encoding. -/
theorem not_begins_of_run {bytes : List UInt8} {out : List (Option Char)}
    (h : (run none bytes).1 = none :: out) : ¬Begins bytes := by
  rintro ⟨c, hc⟩
  have hout := run_isPrefix hc none
  rw [h, run_utf8EncodeChar] at hout
  cases (List.cons_prefix_cons.mp hout).1

/-- An encoding begins with no other encoding. -/
theorem eq_of_utf8EncodeChar_isPrefix {c d : Char}
    (h : String.utf8EncodeChar c <+: String.utf8EncodeChar d) : c = d := by
  have hout := run_isPrefix h none
  rw [run_utf8EncodeChar, run_utf8EncodeChar] at hout
  exact Option.some.inj (List.cons_prefix_cons.mp hout).1

/-! ### Encodings by their payload -/

theorem utf8EncodeChar_two {q r : Nat} (hq : 2 ≤ q) (hq' : q < 32) (hr : r < 64) :
    String.utf8EncodeChar (Char.ofNat (64 * q + r))
      = [UInt8.ofNat (q + 0xC0), UInt8.ofNat (r + 0x80)] := by
  have hchar : (Char.ofNat (64 * q + r)).val.toNat = 64 * q + r :=
    toNat_charOfNat (Or.inl (by omega))
  rw [String.utf8EncodeChar, hchar]
  rw [if_neg (by omega), if_pos (by omega), show (64 * q + r) / 64 % 32 = q by omega,
    show (64 * q + r) % 64 = r by omega]

theorem utf8EncodeChar_three {q r t : Nat} (hq : q < 16) (hr : r < 64) (ht : t < 64)
    (hlo : q = 0 → 32 ≤ r) (hvalid : q = 13 → r < 32) :
    String.utf8EncodeChar (Char.ofNat (64 * (64 * q + r) + t))
      = [UInt8.ofNat (q + 0xE0), UInt8.ofNat (r + 0x80), UInt8.ofNat (t + 0x80)] := by
  have hscalar : (64 * (64 * q + r) + t).isValidChar := by
    show _ < 0xD800 ∨ 0xDFFF < _ ∧ _ < 0x110000
    omega
  have hchar : (Char.ofNat (64 * (64 * q + r) + t)).val.toNat = 64 * (64 * q + r) + t :=
    toNat_charOfNat hscalar
  rw [String.utf8EncodeChar, hchar]
  rw [if_neg (by omega), if_neg (by omega), if_pos (by omega),
    show (64 * (64 * q + r) + t) / 4096 % 16 = q by omega,
    show (64 * (64 * q + r) + t) / 64 % 64 = r by omega,
    show (64 * (64 * q + r) + t) % 64 = t by omega]

theorem utf8EncodeChar_four {q r t u : Nat} (hr : r < 64) (ht : t < 64) (hu : u < 64)
    (hlo : q = 0 → 16 ≤ r) (hhi : q < 4 ∨ q = 4 ∧ r < 16) :
    String.utf8EncodeChar (Char.ofNat (64 * (64 * (64 * q + r) + t) + u))
      = [UInt8.ofNat (q + 0xF0), UInt8.ofNat (r + 0x80), UInt8.ofNat (t + 0x80),
          UInt8.ofNat (u + 0x80)] := by
  have hscalar : (64 * (64 * (64 * q + r) + t) + u).isValidChar := by
    show _ < 0xD800 ∨ 0xDFFF < _ ∧ _ < 0x110000
    omega
  have hchar : (Char.ofNat (64 * (64 * (64 * q + r) + t) + u)).val.toNat
      = 64 * (64 * (64 * q + r) + t) + u := toNat_charOfNat hscalar
  rw [String.utf8EncodeChar, hchar]
  rw [if_neg (by omega), if_neg (by omega), if_neg (by omega),
    show (64 * (64 * (64 * q + r) + t) + u) / 262144 % 8 = q by omega,
    show (64 * (64 * (64 * q + r) + t) + u) / 4096 % 64 = r by omega,
    show (64 * (64 * (64 * q + r) + t) + u) / 64 % 64 = t by omega,
    show (64 * (64 * (64 * q + r) + t) + u) % 64 = u by omega]

/-! ### Where a sequence under way may go -/

/-- All the ways to go on from the bytes `read` end in encodings: any byte from `lo` to `hi` comes
next, and after it any continuation bytes, `more` of them.  The payload of `read` is `value`. -/
def Stems : Nat → List UInt8 → UInt8 → UInt8 → Nat → Prop
  | 0, read, lo, hi, value => lo ≤ hi ∧ ∀ b, lo ≤ b → b ≤ hi →
      read ++ [b] = String.utf8EncodeChar (Char.ofNat (64 * value + (b.toNat - 0x80)))
  | more + 1, read, lo, hi, value => lo ≤ hi ∧ ∀ b, lo ≤ b → b ≤ hi →
      Stems more (read ++ [b]) 0x80 0xBF (64 * value + (b.toNat - 0x80))

/-- Where all ways to go on end in encodings, an encoding has begun. -/
theorem Stems.begins {more : Nat} {read : List UInt8} {lo hi : UInt8} {value : Nat}
    (h : Stems more read lo hi value) : Begins read := by
  induction more generalizing read lo hi value with
  | zero =>
      obtain ⟨hrange, h⟩ := h
      exact ⟨_, h lo (UInt8.le_refl lo) hrange ▸ List.prefix_append read [lo]⟩
  | succ more ih =>
      obtain ⟨hrange, h⟩ := h
      have hnext : Begins (read ++ [lo]) := ih (h lo (UInt8.le_refl lo) hrange)
      exact hnext.of_isPrefix (List.prefix_append read [lo])

theorem stems_two {b : UInt8} (hlo : 0xC2 ≤ b.toNat) (hhi : b.toNat ≤ 0xDF) :
    Stems 0 [b] 0x80 0xBF (b.toNat - 0xC0) := by
  refine ⟨by decide, ?_⟩
  intro x hx hx'
  have hx : 0x80 ≤ x.toNat := UInt8.le_iff_toNat_le.mp hx
  have hx' : x.toNat ≤ 0xBF := UInt8.le_iff_toNat_le.mp hx'
  rw [utf8EncodeChar_two (by omega) (by omega) (by omega), Nat.sub_add_cancel (by omega),
    Nat.sub_add_cancel hx, UInt8.ofNat_toNat, UInt8.ofNat_toNat]
  rfl

theorem stems_three {b lo hi : UInt8} {q : Nat} (hb : b.toNat = q + 0xE0) (hq : q < 16)
    (hrange : lo ≤ hi) (hlo : 0x80 ≤ lo.toNat) (hlo' : q = 0 → 0xA0 ≤ lo.toNat)
    (hhi : hi.toNat ≤ 0xBF) (hhi' : q = 13 → hi.toNat ≤ 0x9F) : Stems 1 [b] lo hi q := by
  refine ⟨hrange, ?_⟩
  intro x hx hx'
  refine ⟨by decide, ?_⟩
  intro y hy hy'
  have hx : lo.toNat ≤ x.toNat := UInt8.le_iff_toNat_le.mp hx
  have hx' : x.toNat ≤ hi.toNat := UInt8.le_iff_toNat_le.mp hx'
  have hy : 0x80 ≤ y.toNat := UInt8.le_iff_toNat_le.mp hy
  have hy' : y.toNat ≤ 0xBF := UInt8.le_iff_toNat_le.mp hy'
  rw [utf8EncodeChar_three hq (by omega) (by omega) (by omega) (by omega), ← hb,
    Nat.sub_add_cancel (by omega), Nat.sub_add_cancel hy, UInt8.ofNat_toNat, UInt8.ofNat_toNat,
    UInt8.ofNat_toNat]
  rfl

theorem stems_four {b lo hi : UInt8} {q : Nat} (hb : b.toNat = q + 0xF0) (hq : q < 5)
    (hrange : lo ≤ hi) (hlo : 0x80 ≤ lo.toNat) (hlo' : q = 0 → 0x90 ≤ lo.toNat)
    (hhi : hi.toNat ≤ 0xBF) (hhi' : q = 4 → hi.toNat ≤ 0x8F) : Stems 2 [b] lo hi q := by
  refine ⟨hrange, ?_⟩
  intro x hx hx'
  refine ⟨by decide, ?_⟩
  intro y hy hy'
  refine ⟨by decide, ?_⟩
  intro z hz hz'
  have hx : lo.toNat ≤ x.toNat := UInt8.le_iff_toNat_le.mp hx
  have hx' : x.toNat ≤ hi.toNat := UInt8.le_iff_toNat_le.mp hx'
  have hy : 0x80 ≤ y.toNat := UInt8.le_iff_toNat_le.mp hy
  have hy' : y.toNat ≤ 0xBF := UInt8.le_iff_toNat_le.mp hy'
  have hz : 0x80 ≤ z.toNat := UInt8.le_iff_toNat_le.mp hz
  have hz' : z.toNat ≤ 0xBF := UInt8.le_iff_toNat_le.mp hz'
  rw [utf8EncodeChar_four (by omega) (by omega) (by omega) (by omega) (by omega), ← hb,
    Nat.sub_add_cancel (by omega), Nat.sub_add_cancel hy, Nat.sub_add_cancel hz,
    UInt8.ofNat_toNat, UInt8.ofNat_toNat, UInt8.ofNat_toNat, UInt8.ofNat_toNat]
  rfl

/-- What a lead byte begins is what the table of the machine has for it. -/
theorem stems_of_lead {b : UInt8} {s : Begun} (h : lead b = .begun s) :
    Stems s.more [b] s.lo s.hi s.value := by
  rw [lead] at h
  split at h
  · cases h
  · split at h
    next hrange =>
      have hlo : 0xC2 ≤ b.toNat := UInt8.le_iff_toNat_le.mp hrange.1
      have hhi : b.toNat ≤ 0xDF := UInt8.le_iff_toNat_le.mp hrange.2
      cases h
      exact stems_two hlo hhi
    · split at h
      next heq =>
        -- `E0`: the second byte is kept from overlong forms
        cases h
        subst heq
        apply stems_three rfl
        all_goals decide
      · split at h
        next heq =>
          -- `ED`: the second byte is kept from surrogates
          cases h
          subst heq
          apply stems_three rfl
          all_goals decide
        · split at h
          next hsurrogate hrange =>
            have hlo : 0xE1 ≤ b.toNat := UInt8.le_iff_toNat_le.mp hrange.1
            have hhi : b.toNat ≤ 0xEF := UInt8.le_iff_toNat_le.mp hrange.2
            have hne : b.toNat ≠ 0xED := fun heq => hsurrogate (UInt8.toNat_inj.mp heq)
            cases h
            show Stems 1 [b] 0x80 0xBF (b.toNat - 0xE0)
            exact stems_three (by omega) (by omega) (by decide) (by decide)
              (fun hq => absurd hq (by omega)) (by decide) (fun hq => absurd hq (by omega))
          · split at h
            next heq =>
              cases h
              subst heq
              apply stems_four rfl
              all_goals decide
            · split at h
              next hrange =>
                have hlo : 0xF1 ≤ b.toNat := UInt8.le_iff_toNat_le.mp hrange.1
                have hhi : b.toNat ≤ 0xF3 := UInt8.le_iff_toNat_le.mp hrange.2
                cases h
                show Stems 2 [b] 0x80 0xBF (b.toNat - 0xF0)
                exact stems_four (by omega) (by omega) (by decide) (by decide)
                  (fun hq => absurd hq (by omega)) (by decide) (fun hq => absurd hq (by omega))
              · split at h
                next heq =>
                  cases h
                  subst heq
                  apply stems_four rfl
                  all_goals decide
                · cases h

/-- A byte that is read as a character by itself is the encoding of that character. -/
theorem eq_utf8EncodeChar_of_lead {b : UInt8} {c : Char} (h : lead b = .char c) :
    [b] = String.utf8EncodeChar c := by
  have hnum : c.toNat = b.toNat := toNat_of_lead h
  have hlt : b.toNat < 0x80 := by
    rw [lead] at h
    split at h
    next hlt => exact UInt8.lt_iff_toNat_lt.mp hlt
    · repeat' split at h
      all_goals cases h
  rw [utf8EncodeChar_of_lt (by omega), hnum, UInt8.ofNat_toNat]

/-! ### One byte -/

/-- The bytes since the last piece ended, for a state of the machine: none between characters, and
else the beginning of a sequence that the machine goes on with as encodings go on. -/
def Pending (read : List UInt8) : Option Begun → Prop
  | none => read = []
  | some s => run none read = ([], some s) ∧ Stems s.more read s.lo s.hi s.value

/-- Between characters a byte is one by itself, or begins a sequence, or begins none. -/
theorem start_cases (b : UInt8) :
    (∃ c, start b = ([some c], none) ∧ [b] = String.utf8EncodeChar c) ∨
      (∃ s, start b = ([], some s) ∧ Pending [b] (some s)) ∨
      start b = ([none], none) ∧ ¬Begins [b] := by
  have hrun : run none [b] = start b := by
    rw [run, advance]
    simp [run]
  rcases hlead : lead b with c | s | -
  · left
    refine ⟨c, ?_, eq_utf8EncodeChar_of_lead hlead⟩
    rw [start, hlead]
  · right; left
    have hstart : start b = ([], some s) := by rw [start, hlead]
    exact ⟨s, hstart, hrun.trans hstart, stems_of_lead hlead⟩
  · right; right
    have hstart : start b = ([none], none) := by rw [start, hlead]
    have hout : (run none [b]).1 = [none] := by rw [hrun, hstart]
    exact ⟨hstart, not_begins_of_run hout⟩

/-- In a sequence a byte completes it, or goes on with it, or is one with which no encoding goes on
and is then read as if nothing had been before it. -/
theorem Pending.advance_cases {read : List UInt8} {s : Begun} (h : Pending read (some s))
    (b : UInt8) :
    (∃ c, advance (some s) b = ([some c], none) ∧ read ++ [b] = String.utf8EncodeChar c) ∨
      (∃ s', advance (some s) b = ([], some s') ∧ Pending (read ++ [b]) (some s')) ∨
      advance (some s) b = (none :: (start b).1, (start b).2) ∧ ¬Begins (read ++ [b]) := by
  obtain ⟨hrun, hstems⟩ := h
  have hconcat : run none (read ++ [b]) = advance (some s) b := by
    rw [run_append, hrun]
    simp [run]
  by_cases hin : s.lo ≤ b ∧ b ≤ s.hi
  · -- the sequence goes on as its stem does
    obtain ⟨more, lo, hi, value⟩ := s
    cases more with
    | zero => exact Or.inl ⟨_, if_pos hin, hstems.2 b hin.1 hin.2⟩
    | succ more =>
        have hnext : advance (some ⟨more + 1, lo, hi, value⟩) b
            = ([], some ⟨more, 0x80, 0xBF, 64 * value + (b.toNat - 0x80)⟩) := if_pos hin
        exact Or.inr (Or.inl ⟨_, hnext, hconcat.trans hnext, hstems.2 b hin.1 hin.2⟩)
  · right; right
    have hnext : advance (some s) b = (none :: (start b).1, (start b).2) := if_neg hin
    have hout : (run none (read ++ [b])).1 = none :: (start b).1 := by rw [hconcat, hnext]
    exact ⟨hnext, not_begins_of_run hout⟩

/-- The bytes of a sequence that is not continued are a malformed piece. -/
theorem Pending.isPiece {read rest : List UInt8} {s : Begun} (h : Pending read (some s))
    (hrest : ∀ b ∈ rest.head?, ¬Begins (read ++ [b])) : IsPiece read rest none := by
  obtain ⟨hrun, hstems⟩ := h
  refine .broken ?_ hstems.begins ?_ hrest
  · rintro rfl
    cases hrun
  · rintro c rfl
    rw [run_utf8EncodeChar] at hrun
    cases hrun

/-! ### All bytes -/

/-- The machine reads bytes as they are to be read. -/
theorem decoding_decodeFrom {read : List UInt8} {state : Option Begun} (h : Pending read state)
    (bytes : List UInt8) : Decoding (read ++ bytes) (decodeFrom state bytes) := by
  induction bytes generalizing read state with
  | nil =>
      cases state with
      | none =>
          rw [show read = [] from h]
          exact .nil
      | some s => exact .cons (h.isPiece nofun) .nil
  | cons b rest ih =>
      have hrest : Decoding ([] ++ rest) (decodeFrom none rest) := ih rfl
      -- a byte that ends a malformed piece is read again, so the start is settled first
      have hstart : Decoding ([b] ++ rest) ((start b).1 ++ decodeFrom (start b).2 rest) := by
        rcases start_cases b with ⟨c, hb, hc⟩ | ⟨s, hb, hs⟩ | ⟨hb, hnot⟩
        · rw [hb, hc]
          exact .cons (.char c rest) hrest
        · rw [hb]
          exact ih hs
        · rw [hb]
          exact .cons (.stray rest hnot) hrest
      cases state with
      | none =>
          rw [show read = [] from h]
          exact hstart
      | some s =>
          rw [decodeFrom]
          rcases h.advance_cases b with ⟨c, hb, hc⟩ | ⟨s', hb, hs⟩ | ⟨hb, hnot⟩
          · rw [hb, List.append_cons, hc]
            exact .cons (.char c rest) hrest
          · rw [hb, List.append_cons]
            exact ih hs
          · rw [hb]
            refine .cons (h.isPiece ?_) hstart
            intro x hx
            rwa [← Option.some.inj hx]

/-! ### One reading -/

namespace IsPiece

variable {piece rest : List UInt8} {mark : Option Char}

theorem ne_nil (h : IsPiece piece rest mark) : piece ≠ [] := by
  cases h with
  | char c => exact String.utf8EncodeChar_ne_nil
  | stray => exact List.cons_ne_nil _ _
  | broken hne => exact hne

/-- A piece begins an encoding or is a single byte. -/
theorem begins_or_singleton (h : IsPiece piece rest mark) : Begins piece ∨ ∃ b, piece = [b] := by
  cases h with
  | char c => exact Or.inl ⟨c, List.prefix_rfl⟩
  | @stray b => exact Or.inr ⟨b, rfl⟩
  | broken _ hbegins => exact Or.inl hbegins

/-- No piece goes on after another piece. -/
theorem eq_nil_of_longer {more : List UInt8} (h : IsPiece piece (more ++ rest) mark)
    (hmore : Begins (piece ++ more) ∨ ∃ b, piece ++ more = [b]) : more = [] := by
  rcases hmore with hbegins | ⟨b, hb⟩
  · rcases more with - | ⟨b, more⟩
    · rfl
    · exfalso
      have hnext : Begins (piece ++ [b]) := by
        rw [List.append_cons] at hbegins
        exact hbegins.of_isPrefix (List.prefix_append _ more)
      cases h with
      | char c =>
          obtain ⟨d, hd⟩ := hnext
          have hcd : c = d := eq_of_utf8EncodeChar_isPrefix ((List.prefix_append _ [b]).trans hd)
          rw [← hcd] at hd
          have hlength := hd.length_le
          rw [List.length_append, List.length_singleton] at hlength
          omega
      | stray _ hnot => exact hnot (hnext.of_isPrefix (List.prefix_append _ [b]))
      | broken _ _ _ hend => exact hend b rfl hnext
  · rcases List.append_eq_singleton_iff.mp hb with ⟨hnil, -⟩ | ⟨-, hnil⟩
    · exact absurd hnil h.ne_nil
    · exact hnil

theorem eq_utf8EncodeChar {c : Char} (h : IsPiece piece rest (some c)) :
    piece = String.utf8EncodeChar c := by
  cases h
  rfl

theorem ne_utf8EncodeChar (h : IsPiece piece rest none) (c : Char) :
    piece ≠ String.utf8EncodeChar c := by
  cases h with
  | stray _ hnot =>
      intro heq
      exact hnot ⟨c, heq ▸ List.prefix_rfl⟩
  | broken _ _ hne => exact hne c

/-- A piece is read in one way. -/
theorem mark_unique {rest' : List UInt8} {mark' : Option Char} (h : IsPiece piece rest mark)
    (h' : IsPiece piece rest' mark') : mark = mark' := by
  cases mark with
  | none =>
      cases mark' with
      | none => rfl
      | some c => exact absurd h'.eq_utf8EncodeChar (h.ne_utf8EncodeChar c)
  | some c =>
      have hc := h.eq_utf8EncodeChar
      cases mark' with
      | none => exact absurd hc (h'.ne_utf8EncodeChar c)
      | some d =>
          apply congrArg some
          apply eq_of_utf8EncodeChar_isPrefix
          rw [← hc, h'.eq_utf8EncodeChar]

/-- Bytes begin with one piece only. -/
theorem unique {piece' rest' : List UInt8} {mark' : Option Char} (h : IsPiece piece rest mark)
    (h' : IsPiece piece' rest' mark') (heq : piece ++ rest = piece' ++ rest') :
    piece = piece' := by
  rcases List.append_eq_append_iff.mp heq with ⟨more, rfl, rfl⟩ | ⟨more, rfl, rfl⟩
  · rw [h.eq_nil_of_longer h'.begins_or_singleton, List.append_nil]
  · rw [h'.eq_nil_of_longer h.begins_or_singleton, List.append_nil]

end IsPiece

/-- Bytes have one reading. -/
theorem Decoding.unique {bytes : List UInt8} {out out' : List (Option Char)}
    (h : Decoding bytes out) (h' : Decoding bytes out') : out = out' := by
  induction h generalizing out' with
  | nil =>
      generalize hbytes : ([] : List UInt8) = bytes at h'
      cases h' with
      | nil => rfl
      | cons hpiece => exact absurd (List.append_eq_nil_iff.mp hbytes.symm).1 hpiece.ne_nil
  | @cons piece rest mark out hpiece hrest ih =>
      generalize hbytes : piece ++ rest = bytes at h'
      cases h' with
      | nil => exact absurd (List.append_eq_nil_iff.mp hbytes).1 hpiece.ne_nil
      | cons hpiece' hrest' =>
          obtain rfl := hpiece.unique hpiece' hbytes
          obtain rfl := List.append_cancel_left hbytes
          rw [hpiece.mark_unique hpiece', ih hrest']

/-- The reading of bytes is the one that the machine finds. -/
theorem decoding_iff {bytes : List UInt8} {out : List (Option Char)} :
    Decoding bytes out ↔ out = decode bytes := by
  have hstart : Pending [] none := rfl
  have hdecode : Decoding bytes (decode bytes) := decoding_decodeFrom hstart bytes
  constructor
  · exact fun h => h.unique hdecode
  · rintro rfl
    exact hdecode

/-- A sequence that a line feed cuts off is one malformed piece, and a surrogate is three. -/
example : decode [0xE2, 0x82, 0x0A, 0xED, 0xA0, 0x80] = [none, some '\n', none, none, none] := by
  decide

/-- Bytes decode to characters alone just when they are the encoding of these. -/
theorem decode_eq_map_some_iff {bytes : List UInt8} {chars : List Char} :
    decode bytes = chars.map some ↔ bytes = encode chars := by
  constructor
  · intro h
    have hdecoding : Decoding bytes (chars.map some) := decoding_iff.mpr h.symm
    clear h
    induction chars generalizing bytes with
    | nil =>
        cases hdecoding
        rfl
    | cons c chars ih =>
        cases hdecoding with
        | cons hpiece hrest =>
            rw [hpiece.eq_utf8EncodeChar, ih hrest]
            rfl
  · rintro rfl
    exact decode_encode chars

theorem mapM_id_eq_some_iff {α : Type} {marks : List (Option α)} {xs : List α} :
    marks.mapM id = some xs ↔ marks = xs.map some := by
  induction marks generalizing xs with
  | nil => cases xs <;> simp
  | cons mark marks ih =>
      rw [List.mapM_cons]
      cases mark with
      | none => cases xs <;> simp
      | some x => cases xs <;> simp [ih, Option.bind_eq_some_iff, and_comm]

/-- Bytes are text just when they are the encoding of one. -/
theorem decode?_eq_some_iff {bytes : List UInt8} {chars : List Char} :
    decode? bytes = some chars ↔ bytes = encode chars := by
  rw [decode?, mapM_id_eq_some_iff, decode_eq_map_some_iff]

/-- Bytes encode a text just when they decode to it and nothing in them is malformed. -/
theorem eq_encode_iff {bytes : List UInt8} {chars : List Char} :
    bytes = encode chars ↔ none ∉ decode bytes ∧ decodeLossy bytes = chars := by
  constructor
  · rintro rfl
    refine ⟨?_, decodeLossy_encode chars⟩
    rw [decode_encode]
    simp
  · rintro ⟨hall, rfl⟩
    -- where nothing is malformed nothing is replaced
    have hmarks : ∀ mark ∈ decode bytes, some (mark.getD replacement) = mark := by
      intro mark hmark
      cases mark with
      | none => exact absurd hmark hall
      | some c => rfl
    rw [← decode_eq_map_some_iff, decodeLossy, List.map_map]
    exact ((List.map_congr_left hmarks).trans (List.map_id' _)).symm

/-! ### ASCII between other bytes -/

/-- An ASCII byte goes on with no sequence. -/
theorem not_begins_concat {a : Char} (ha : a.toNat < 0x80) {read : List UInt8} (hne : read ≠ []) :
    ¬Begins (read ++ [UInt8.ofNat a.toNat]) := by
  rintro ⟨c, hc⟩
  have hbyte : (UInt8.ofNat a.toNat).toNat = a.toNat := toNat_ofNat_of_lt (by omega)
  -- the character whose encoding has the byte is encoded as that byte alone
  have hmem : UInt8.ofNat a.toNat ∈ String.utf8EncodeChar c :=
    hc.subset (List.mem_append_right _ List.mem_cons_self)
  have hnum := eq_of_mem_utf8EncodeChar (by omega) hmem
  have hlength := hc.length_le
  rw [utf8EncodeChar_of_lt (by omega), List.length_append, List.length_singleton,
    List.length_singleton] at hlength
  exact hne (List.length_eq_zero_iff.mp (by omega))

/-- A piece is one also when an ASCII byte comes at some place after it. -/
theorem IsPiece.append_ascii {a : Char} (ha : a.toNat < 0x80) {piece rest : List UInt8}
    {mark : Option Char} (h : IsPiece piece rest mark) (more : List UInt8) :
    IsPiece piece (rest ++ UInt8.ofNat a.toNat :: more) mark := by
  cases h with
  | char c => exact .char c _
  | stray _ hnot => exact .stray _ hnot
  | broken hne hbegins hwhole hend =>
      refine .broken hne hbegins hwhole ?_
      cases rest with
      | nil =>
          intro b hb
          rw [← Option.some.inj hb]
          exact not_begins_concat ha hne
      | cons x rest => exact hend

theorem Decoding.append_ascii {a : Char} (ha : a.toNat < 0x80) {bytes more : List UInt8}
    {out out' : List (Option Char)} (h : Decoding bytes out) (h' : Decoding more out') :
    Decoding (bytes ++ UInt8.ofNat a.toNat :: more) (out ++ some a :: out') := by
  induction h with
  | nil =>
      have hdecoding := Decoding.cons (.char a more) h'
      rwa [utf8EncodeChar_of_lt ha] at hdecoding
  | cons hpiece _ ih =>
      rw [List.append_assoc, List.cons_append]
      exact .cons (hpiece.append_ascii ha more) ih

/-- What is before an ASCII byte and what is after it are decoded by themselves. -/
theorem decode_append_ascii {a : Char} (ha : a.toNat < 0x80) (bytes more : List UInt8) :
    decode (bytes ++ UInt8.ofNat a.toNat :: more) = decode bytes ++ some a :: decode more := by
  have h : Decoding bytes (decode bytes) := decoding_iff.mpr rfl
  exact (decoding_iff.mp (h.append_ascii ha (decoding_iff.mpr rfl))).symm

theorem decodeLossy_append_ascii {a : Char} (ha : a.toNat < 0x80) (bytes more : List UInt8) :
    decodeLossy (bytes ++ UInt8.ofNat a.toNat :: more)
      = decodeLossy bytes ++ a :: decodeLossy more := by
  rw [decodeLossy, decode_append_ascii ha, List.map_append]
  rfl

/-- Where there are bytes, something is read. -/
theorem decodeLossy_eq_nil_iff {bytes : List UInt8} : decodeLossy bytes = [] ↔ bytes = [] := by
  rw [decodeLossy, List.map_eq_nil_iff]
  constructor
  · intro h
    have hdecoding : Decoding bytes [] := decoding_iff.mpr h.symm
    cases hdecoding
    rfl
  · rintro rfl
    rfl

end Marginalia.Text.Utf8
