import Marginalia.Text.Utf8

/-!
Decoding undoes encoding, and ASCII characters stand for themselves.

A character is encoded as a lead byte and up to three continuation bytes; the machine passes through
one state per byte and ends between characters with the character that was encoded
(`run_utf8EncodeChar`).  So decoding a text's bytes gives the text back (`decodeLossy_encode`).

A byte below `80` occurs in the encoding of a text only as the character of that number
(`mem_encode_iff`), and a character below `80` occurs in the decoding of any bytes only where that
byte does (`mem_of_mem_decodeLossy`): a sequence of several bytes, well formed or not, neither hides
nor makes up a line end.
-/

namespace Marginalia.Text.Utf8

/-! ### One character -/

theorem toNat_ofNat_of_lt {n : Nat} (h : n < 256) : (UInt8.ofNat n).toNat = n := by
  rw [UInt8.toNat_ofNat']
  exact Nat.mod_eq_of_lt h

theorem start_one : ∀ v < 0x80, start (UInt8.ofNat v) = ([some (Char.ofNat v)], none) := by
  decide

theorem start_two : ∀ q < 32, 2 ≤ q →
    start (UInt8.ofNat (q + 0xC0)) = ([], some ⟨0, 0x80, 0xBF, q⟩) := by
  decide

theorem start_three : ∀ q < 16, start (UInt8.ofNat (q + 0xE0))
    = ([], some ⟨1, if q = 0 then 0xA0 else 0x80, if q = 0xD then 0x9F else 0xBF, q⟩) := by
  decide

theorem start_four : ∀ q < 5, start (UInt8.ofNat (q + 0xF0))
    = ([], some ⟨2, if q = 0 then 0x90 else 0x80, if q = 4 then 0x8F else 0xBF, q⟩) := by
  decide

/-- A continuation byte with the payload `r` adds six bits to a sequence. -/
theorem advance_some (s : Begun) {r : Nat} (hr : r < 64) (hlo : s.lo.toNat ≤ r + 0x80)
    (hhi : r + 0x80 ≤ s.hi.toNat) :
    advance (some s) (UInt8.ofNat (r + 0x80))
      = match s.more with
        | 0 => ([some (Char.ofNat (64 * s.value + r))], none)
        | more + 1 => ([], some ⟨more, 0x80, 0xBF, 64 * s.value + r⟩) := by
  have hb : (UInt8.ofNat (r + 0x80)).toNat = r + 0x80 := toNat_ofNat_of_lt (by omega)
  have hin : s.lo ≤ UInt8.ofNat (r + 0x80) ∧ UInt8.ofNat (r + 0x80) ≤ s.hi := by
    rw [UInt8.le_iff_toNat_le, UInt8.le_iff_toNat_le, hb]
    exact ⟨hlo, hhi⟩
  have hstep : advance (some s) (UInt8.ofNat (r + 0x80))
      = match s.more with
        | 0 => ([some (Char.ofNat (64 * s.value + ((UInt8.ofNat (r + 0x80)).toNat - 0x80)))], none)
        | more + 1 =>
            ([], some ⟨more, 0x80, 0xBF,
              64 * s.value + ((UInt8.ofNat (r + 0x80)).toNat - 0x80)⟩) := if_pos hin
  rw [hstep, hb, Nat.add_sub_cancel]

/-- The byte after the first continuation byte may be any continuation byte. -/
theorem advance_plain (more value : Nat) {r : Nat} (hr : r < 64) :
    advance (some ⟨more, 0x80, 0xBF, value⟩) (UInt8.ofNat (r + 0x80))
      = match more with
        | 0 => ([some (Char.ofNat (64 * value + r))], none)
        | more + 1 => ([], some ⟨more, 0x80, 0xBF, 64 * value + r⟩) :=
  advance_some ⟨more, 0x80, 0xBF, value⟩ hr (Nat.le_add_left 0x80 r)
    (by show r + 0x80 ≤ 0xBF; omega)

/-- Three bytes.  The second one is kept from overlong forms and from surrogates. -/
theorem run_three {v : Nat} (hlo : 0x800 ≤ v) (hhi : v < 0x10000)
    (hvalid : v < 0xD800 ∨ 0xDFFF < v) :
    run none [UInt8.ofNat (v / 4096 + 0xE0), UInt8.ofNat (v / 64 % 64 + 0x80),
        UInt8.ofNat (v % 64 + 0x80)]
      = ([some (Char.ofNat v)], none) := by
  have hmin : (if v / 4096 = 0 then 0xA0 else 0x80 : UInt8).toNat ≤ v / 64 % 64 + 0x80 := by
    split
    · show 0xA0 ≤ v / 64 % 64 + 0x80
      omega
    · exact Nat.le_add_left 0x80 (v / 64 % 64)
  have hmax : v / 64 % 64 + 0x80 ≤ (if v / 4096 = 0xD then 0x9F else 0xBF : UInt8).toNat := by
    split
    · show v / 64 % 64 + 0x80 ≤ 0x9F
      omega
    · show v / 64 % 64 + 0x80 ≤ 0xBF
      omega
  have hvalue : 64 * (64 * (v / 4096) + v / 64 % 64) + v % 64 = v := by
    omega
  rw [run, advance, start_three (v / 4096) (by omega)]
  rw [run, advance_some _ (by omega) hmin hmax]
  rw [run, advance_plain 0 _ (by omega), hvalue]
  rfl

/-- Four bytes.  The second one is kept from overlong forms and below the last code point. -/
theorem run_four {v : Nat} (hlo : 0x10000 ≤ v) (hhi : v < 0x110000) :
    run none [UInt8.ofNat (v / 262144 + 0xF0), UInt8.ofNat (v / 4096 % 64 + 0x80),
        UInt8.ofNat (v / 64 % 64 + 0x80), UInt8.ofNat (v % 64 + 0x80)]
      = ([some (Char.ofNat v)], none) := by
  have hmin : (if v / 262144 = 0 then 0x90 else 0x80 : UInt8).toNat ≤ v / 4096 % 64 + 0x80 := by
    split
    · show 0x90 ≤ v / 4096 % 64 + 0x80
      omega
    · exact Nat.le_add_left 0x80 (v / 4096 % 64)
  have hmax : v / 4096 % 64 + 0x80 ≤ (if v / 262144 = 4 then 0x8F else 0xBF : UInt8).toNat := by
    split
    · show v / 4096 % 64 + 0x80 ≤ 0x8F
      omega
    · show v / 4096 % 64 + 0x80 ≤ 0xBF
      omega
  have hvalue : 64 * (64 * (64 * (v / 262144) + v / 4096 % 64) + v / 64 % 64) + v % 64 = v := by
    omega
  rw [run, advance, start_four (v / 262144) (by omega)]
  rw [run, advance_some _ (by omega) hmin hmax]
  rw [run, advance_plain 1 _ (by omega)]
  rw [run, advance_plain 0 _ (by omega), hvalue]
  rfl

/-- The bytes of a character take the machine from between characters to between characters. -/
theorem run_utf8EncodeChar (c : Char) : run none (String.utf8EncodeChar c) = ([some c], none) := by
  have hvalid : c.val.toNat < 0xD800 ∨ 0xDFFF < c.val.toNat ∧ c.val.toNat < 0x110000 := c.valid
  have hc : Char.ofNat c.val.toNat = c := Char.ofNat_toNat c
  rw [String.utf8EncodeChar]
  generalize c.val.toNat = v at hvalid hc
  split
  · rw [run, advance, start_one v (by omega), hc]
    rfl
  · split
    · rw [Nat.mod_eq_of_lt (show v / 64 < 0x20 by omega)]
      rw [run, advance, start_two (v / 64) (by omega) (by omega)]
      rw [run, advance_plain 0 _ (by omega)]
      rw [Nat.div_add_mod, hc]
      rfl
    · split
      · rw [Nat.mod_eq_of_lt (show v / 4096 < 0x10 by omega), ← hc]
        exact run_three (by omega) (by omega) (by omega)
      · rw [Nat.mod_eq_of_lt (show v / 262144 < 8 by omega), ← hc]
        exact run_four (by omega) (by omega)

/-! ### Texts -/

/-- The bytes of a text decode to its characters. -/
theorem decode_encode (chars : List Char) : decode (encode chars) = chars.map some := by
  rw [decode]
  induction chars with
  | nil => rfl
  | cons c rest ih =>
      show decodeFrom none (String.utf8EncodeChar c ++ encode rest) = _
      rw [decodeFrom_append, run_utf8EncodeChar, ih]
      rfl

theorem decodeLossy_encode (chars : List Char) : decodeLossy (encode chars) = chars := by
  rw [decodeLossy, decode_encode, List.map_map]
  exact List.map_id chars

/-! ### ASCII in an encoding -/

/-- A byte below `80` is the whole encoding of its character. -/
theorem eq_of_mem_utf8EncodeChar {b : UInt8} {c : Char} (hb : b.toNat < 0x80)
    (h : b ∈ String.utf8EncodeChar c) : c.toNat = b.toNat := by
  rw [String.utf8EncodeChar] at h
  show c.val.toNat = b.toNat
  generalize c.val.toNat = v at h
  -- a lead or a continuation byte is at least `80`
  have high : ∀ {n : Nat}, 0x80 ≤ n → n < 256 → b ≠ UInt8.ofNat n := by
    intro n hn hlt hbn
    rw [hbn, toNat_ofNat_of_lt hlt] at hb
    omega
  split at h
  · rw [List.mem_singleton.mp h]
    exact (toNat_ofNat_of_lt (by omega)).symm
  · exfalso
    split at h
    · simp only [List.mem_cons, List.not_mem_nil, or_false] at h
      rcases h with h | h <;> exact high (by omega) (by omega) h
    · split at h
      · simp only [List.mem_cons, List.not_mem_nil, or_false] at h
        rcases h with h | h | h <;> exact high (by omega) (by omega) h
      · simp only [List.mem_cons, List.not_mem_nil, or_false] at h
        rcases h with h | h | h | h <;> exact high (by omega) (by omega) h

theorem utf8EncodeChar_of_lt {c : Char} (h : c.toNat < 0x80) :
    String.utf8EncodeChar c = [UInt8.ofNat c.toNat] := by
  rw [String.utf8EncodeChar]
  exact if_pos (Nat.le_of_lt_succ h)

/-- A byte below `80` occurs in the encoding of a text where its character occurs in the text. -/
theorem mem_encode_iff {a : Char} (ha : a.toNat < 0x80) {chars : List Char} :
    UInt8.ofNat a.toNat ∈ encode chars ↔ a ∈ chars := by
  have hbyte : (UInt8.ofNat a.toNat).toNat = a.toNat := toNat_ofNat_of_lt (by omega)
  rw [encode, List.mem_flatMap]
  constructor
  · rintro ⟨c, hc, hmem⟩
    have hca := eq_of_mem_utf8EncodeChar (by omega) hmem
    rw [hbyte] at hca
    rwa [← Char.toNat_inj.mp hca]
  · intro hmem
    refine ⟨a, hmem, ?_⟩
    rw [utf8EncodeChar_of_lt ha]
    exact List.mem_singleton.mpr rfl

/-- The encoding of a text ends in a byte below `80` only if the text ends in its character. -/
theorem getLast?_of_getLast?_encode {a : Char} (ha : a.toNat < 0x80) {chars : List Char}
    (h : (encode chars).getLast? = some (UInt8.ofNat a.toNat)) : chars.getLast? = some a := by
  rcases List.eq_nil_or_concat chars with rfl | ⟨before, c, rfl⟩
  · cases h
  · rw [List.concat_eq_append, encode_append, List.getLast?_append] at h
    rw [List.concat_eq_append, List.getLast?_append]
    rcases hlast : (encode [c]).getLast? with - | b
    · rw [encode, List.flatMap_singleton, List.getLast?_eq_none_iff] at hlast
      exact absurd hlast String.utf8EncodeChar_ne_nil
    · rw [hlast, Option.some_or] at h
      rw [h] at hlast
      have hmem : a ∈ [c] := (mem_encode_iff ha).mp (List.mem_of_getLast? hlast)
      rw [List.mem_singleton.mp hmem]
      rfl

/-! ### ASCII in a decoding -/

theorem toNat_charOfNat {n : Nat} (h : n.isValidChar) : (Char.ofNat n).toNat = n := by
  rw [Char.ofNat, dif_pos h]
  rfl

theorem eq_of_toNat_ofNat {n a : Nat} (ha : 0 < a) (h : (Char.ofNat n).toNat = a) : n = a := by
  by_cases hvalid : n.isValidChar
  · rwa [toNat_charOfNat hvalid] at h
  · rw [Char.ofNat, dif_neg hvalid] at h
    exact absurd h (Nat.ne_of_lt ha)

/-- A sequence under way is too large for ASCII, or its next byte will make it so. -/
def Begun.Wide (s : Begun) : Prop :=
  (s.more = 0 → 2 ≤ s.value) ∧ (s.value = 0 → 0x90 ≤ s.lo.toNat)

/-- A sequence that begins with a payload is wide if it owes another byte or the payload is
large. -/
theorem wide_of_pos {more : Nat} {lo hi : UInt8} {value : Nat} (hpos : 0 < value)
    (hlast : more = 0 → 2 ≤ value) : (⟨more, lo, hi, value⟩ : Begun).Wide :=
  ⟨hlast, fun hzero => absurd hzero (Nat.ne_of_gt hpos)⟩

/-- So is one whose next byte is bounded from below, if it owes another byte after that. -/
theorem wide_of_lo {more : Nat} {lo hi : UInt8} {value : Nat} (hmore : more ≠ 0)
    (hlo : 0x90 ≤ lo.toNat) : (⟨more, lo, hi, value⟩ : Begun).Wide :=
  ⟨fun hzero => absurd hzero hmore, fun _ => hlo⟩

/-- A lead byte begins a wide sequence. -/
theorem wide_of_lead {b : UInt8} {s : Begun} (h : lead b = .begun s) : s.Wide := by
  rw [lead] at h
  split at h
  · cases h
  · split at h
    next hrange =>
      -- two bytes: the payload is at least 2, since `C0` and `C1` are refused
      have hlo : 0xC2 ≤ b.toNat := UInt8.le_iff_toNat_le.mp hrange.1
      cases h
      exact wide_of_pos (by omega) fun _ => by omega
    · split at h
      · cases h
        exact wide_of_lo (by decide) (by decide)
      · split at h
        · cases h
          exact wide_of_pos (by omega) fun hmore => nomatch hmore
        · split at h
          next hrange =>
            have hlo : 0xE1 ≤ b.toNat := UInt8.le_iff_toNat_le.mp hrange.1
            cases h
            exact wide_of_pos (by omega) fun hmore => nomatch hmore
          · split at h
            · cases h
              exact wide_of_lo (by decide) (by decide)
            · split at h
              next hrange =>
                have hlo : 0xF1 ≤ b.toNat := UInt8.le_iff_toNat_le.mp hrange.1
                cases h
                exact wide_of_pos (by omega) fun hmore => nomatch hmore
              · split at h
                · cases h
                  exact wide_of_pos (by omega) fun hmore => nomatch hmore
                · cases h

/-- A byte that is read as a character by itself is the number of that character. -/
theorem toNat_of_lead {b : UInt8} {c : Char} (h : lead b = .char c) : c.toNat = b.toNat := by
  rw [lead] at h
  split at h
  next hlt =>
    have hb : b.toNat < 0x80 := UInt8.lt_iff_toNat_lt.mp hlt
    have hvalid : b.toNat.isValidChar := Or.inl (by omega)
    cases h
    exact toNat_charOfNat hvalid
  · repeat' split at h
    all_goals cases h

theorem wide_of_start {b : UInt8} {s : Begun} (h : s ∈ (start b).2) : s.Wide := by
  rw [start] at h
  rcases hlead : lead b with c | s' | -
  · rw [hlead] at h
    cases h
  · rw [hlead] at h
    cases h
    exact wide_of_lead hlead
  · rw [hlead] at h
    cases h

theorem toNat_of_mem_start {b : UInt8} {c : Char} (h : some c ∈ (start b).1) :
    c.toNat = b.toNat := by
  rw [start] at h
  rcases hlead : lead b with c' | s | -
  · rw [hlead] at h
    cases List.mem_singleton.mp h
    exact toNat_of_lead hlead
  · rw [hlead] at h
    cases h
  · rw [hlead] at h
    cases List.mem_singleton.mp h

/-- A byte after a wide sequence leaves a wide sequence, if any, and completes no ASCII character
but itself. -/
theorem advance_wide {state : Option Begun} (hstate : ∀ s ∈ state, s.Wide) (b : UInt8) :
    (∀ s ∈ (advance state b).2, s.Wide) ∧
      ∀ c, some c ∈ (advance state b).1 → 0 < c.toNat → c.toNat < 0x80 → c.toNat = b.toNat := by
  cases state with
  | none => exact ⟨fun s hs => wide_of_start hs, fun c hc _ _ => toNat_of_mem_start hc⟩
  | some s =>
      obtain ⟨hlast, hzero⟩ := hstate s rfl
      rw [advance]
      split
      next hin =>
        have hlo : s.lo.toNat ≤ b.toNat := UInt8.le_iff_toNat_le.mp hin.1
        rcases hmore : s.more with - | more
        · refine ⟨fun s' hs' => absurd hs' (Option.not_mem_none s'), ?_⟩
          intro c hc hpos hlt
          have hc : some c ∈ [some (Char.ofNat (64 * s.value + (b.toNat - 0x80)))] := hc
          have hchar := congrArg Char.toNat (Option.some.inj (List.mem_singleton.mp hc))
          have hvalue := eq_of_toNat_ofNat hpos hchar.symm
          have := hlast hmore
          omega
        · refine ⟨?_, fun c hc => absurd hc List.not_mem_nil⟩
          intro s' hs'
          cases hs'
          constructor
          · intro _
            show 2 ≤ 64 * s.value + (b.toNat - 0x80)
            by_cases hz : s.value = 0
            · have := hzero hz
              omega
            · omega
          · intro hz
            have hz : 64 * s.value + (b.toNat - 0x80) = 0 := hz
            have := hzero (by omega)
            omega
      · refine ⟨fun s' hs' => wide_of_start hs', ?_⟩
        intro c hc _ _
        rcases List.mem_cons.mp hc with hc | hc
        · cases hc
        · exact toNat_of_mem_start hc

theorem mem_of_mem_decodeFrom {a : Char} (hpos : 0 < a.toNat) (ha : a.toNat < 0x80)
    {state : Option Begun} (hstate : ∀ s ∈ state, s.Wide) {bytes : List UInt8}
    (h : some a ∈ decodeFrom state bytes) : UInt8.ofNat a.toNat ∈ bytes := by
  induction bytes generalizing state with
  | nil =>
      rw [decodeFrom] at h
      split at h
      · cases List.mem_singleton.mp h
      · cases h
  | cons b rest ih =>
      obtain ⟨hnext, hout⟩ := advance_wide hstate b
      rw [decodeFrom, List.mem_append] at h
      rcases h with h | h
      · have hab : a.toNat = b.toNat := hout a h hpos ha
        rw [hab, UInt8.ofNat_toNat]
        exact List.mem_cons_self
      · exact List.mem_cons_of_mem b (ih hnext h)

/-- An ASCII character occurs in the decoding of bytes only where its byte does. -/
theorem mem_of_mem_decodeLossy {a : Char} (hpos : 0 < a.toNat) (ha : a.toNat < 0x80)
    {bytes : List UInt8} (h : a ∈ decodeLossy bytes) : UInt8.ofNat a.toNat ∈ bytes := by
  rw [decodeLossy, List.mem_map] at h
  obtain ⟨o, ho, hoa⟩ := h
  cases o with
  | none =>
      rw [Option.getD_none] at hoa
      rw [← hoa] at ha
      exact absurd ha (by decide)
  | some c =>
      rw [Option.getD_some] at hoa
      rw [hoa] at ho
      exact mem_of_mem_decodeFrom hpos ha (fun s hs => absurd hs (Option.not_mem_none s)) ho

end Marginalia.Text.Utf8
