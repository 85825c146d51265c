/-!
Byte offsets into a text.

A position in a text is counted in bytes of its UTF-8 form.  `splitAt?` cuts a text at an offset and
fails where the offset is past the end or inside a character, so an offset is a character boundary
iff the cut exists.  `splitAt?_eq_some_iff` says that the cuts are exactly the ways to write the
text as two parts, the first of the given length, and `slice?_eq_some_iff` says the same of the part
between two offsets.
-/

namespace Marginalia.Text

/-- The number of bytes of a text in UTF-8. -/
def byteLength : List Char → Nat
  | [] => 0
  | c :: rest => c.utf8Size + byteLength rest

@[simp] theorem byteLength_nil : byteLength [] = 0 := rfl

@[simp] theorem byteLength_cons (c : Char) (chars : List Char) :
    byteLength (c :: chars) = c.utf8Size + byteLength chars := rfl

@[simp] theorem byteLength_append (a b : List Char) :
    byteLength (a ++ b) = byteLength a + byteLength b := by
  induction a with
  | nil => simp
  | cons c rest ih =>
      simp [ih]
      omega

/-- Only the empty text has no bytes. -/
theorem byteLength_eq_zero {chars : List Char} : byteLength chars = 0 ↔ chars = [] := by
  cases chars with
  | nil => simp
  | cons c rest =>
      have := Char.utf8Size_pos c
      simp
      omega

/-- Where a text is cut twice, the later cut has before it all that the earlier has. -/
theorem exists_append_of_le {a b c d : List Char} (h : a ++ b = c ++ d)
    (hle : byteLength a ≤ byteLength c) : ∃ between, c = a ++ between ∧ b = between ++ d := by
  rcases List.append_eq_append_iff.mp h with ⟨between, hc, hb⟩ | ⟨extra, rfl, rfl⟩
  · exact ⟨between, hc, hb⟩
  · rw [byteLength_append] at hle
    obtain rfl : extra = [] := byteLength_eq_zero.mp (by omega)
    exact ⟨[], by rw [List.append_nil, List.append_nil], rfl⟩

theorem exists_append_of_lt {a b c d : List Char} (h : a ++ b = c ++ d)
    (hlt : byteLength a < byteLength c) :
    ∃ between, between ≠ [] ∧ c = a ++ between ∧ b = between ++ d := by
  obtain ⟨between, rfl, hb⟩ := exists_append_of_le h (Nat.le_of_lt hlt)
  refine ⟨between, ?_, rfl, hb⟩
  rintro rfl
  rw [List.append_nil] at hlt
  exact absurd hlt (Nat.lt_irrefl _)

/-- Cut a text at a byte offset, if the offset is a character boundary of it. -/
def splitAt? : Nat → List Char → Option (List Char × List Char)
  | 0, chars => some ([], chars)
  | _ + 1, [] => none
  | n + 1, c :: rest =>
      if c.utf8Size ≤ n + 1 then
        (splitAt? (n + 1 - c.utf8Size) rest).map fun (before, after) => (c :: before, after)
      else none

/-- The cuts at `n` are the ways to write the text as two parts, the first `n` bytes long. -/
theorem splitAt?_eq_some_iff {n : Nat} {chars before after : List Char} :
    splitAt? n chars = some (before, after) ↔ chars = before ++ after ∧ byteLength before = n := by
  induction chars generalizing n before after with
  | nil =>
      cases n with
      | zero =>
          constructor
          · intro h
            cases h
            exact ⟨rfl, rfl⟩
          · rintro ⟨h, -⟩
            obtain ⟨rfl, rfl⟩ := List.nil_eq_append_iff.mp h
            rfl
      | succ n =>
          constructor
          · intro h
            simp [splitAt?] at h
          · rintro ⟨h, hn⟩
            obtain ⟨rfl, rfl⟩ := List.nil_eq_append_iff.mp h
            simp at hn
  | cons c rest ih =>
      have hc := Char.utf8Size_pos c
      cases n with
      | zero =>
          constructor
          · intro h
            cases h
            exact ⟨rfl, rfl⟩
          · rintro ⟨h, hn⟩
            obtain rfl := byteLength_eq_zero.mp hn
            simp [splitAt?, h]
      | succ n =>
          by_cases hle : c.utf8Size ≤ n + 1
          · simp only [splitAt?, hle, if_true, Option.map_eq_some_iff, Prod.exists, Prod.mk.injEq,
              ih]
            constructor
            · rintro ⟨b, a, ⟨h1, h2⟩, rfl, rfl⟩
              refine ⟨by rw [h1]; rfl, ?_⟩
              simp [h2]
              omega
            · rintro ⟨h, hn⟩
              cases before with
              | nil => simp at hn
              | cons d before =>
                  obtain ⟨rfl, rfl⟩ := List.cons.inj h
                  refine ⟨before, after, ⟨rfl, ?_⟩, rfl, rfl⟩
                  simp at hn
                  omega
          · simp only [splitAt?, hle, if_false]
            constructor
            · intro h
              cases h
            · rintro ⟨h, hn⟩
              cases before with
              | nil => simp at hn
              | cons d before =>
                  obtain ⟨rfl, -⟩ := List.cons.inj h
                  simp at hn
                  omega

/-- The part of a text between two byte offsets, if both are character boundaries in order. -/
def slice? (chars : List Char) (start stop : Nat) : Option (List Char) := do
  let (_, tail) ← splitAt? start chars
  let (part, _) ← if start ≤ stop then splitAt? (stop - start) tail else none
  return part

/-- The part of a text after a first part and before a last one. -/
theorem slice?_append (before part after : List Char) :
    slice? (before ++ (part ++ after)) (byteLength before) (byteLength before + byteLength part)
      = some part := by
  have hbefore : splitAt? (byteLength before) (before ++ (part ++ after))
      = some (before, part ++ after) := splitAt?_eq_some_iff.mpr ⟨rfl, rfl⟩
  have hpart : splitAt? (byteLength part) (part ++ after) = some (part, after) :=
    splitAt?_eq_some_iff.mpr ⟨rfl, rfl⟩
  simp [slice?, hbefore, hpart]

/-- What is between two offsets of a text. -/
theorem slice?_eq_some_iff {chars part : List Char} {start stop : Nat} :
    slice? chars start stop = some part ↔
      ∃ before after, chars = before ++ (part ++ after) ∧ byteLength before = start ∧
        start + byteLength part = stop := by
  constructor
  · intro h
    simp only [slice?, Option.bind_eq_bind, Option.bind_eq_some_iff, Prod.exists] at h
    obtain ⟨before, tail, hbefore, h⟩ := h
    obtain ⟨rfl, hstart⟩ := splitAt?_eq_some_iff.mp hbefore
    split at h
    next hle =>
      obtain ⟨⟨inside, after⟩, hinside, h⟩ := Option.bind_eq_some_iff.mp h
      obtain rfl : inside = part := Option.some.inj h
      obtain ⟨rfl, hlength⟩ := splitAt?_eq_some_iff.mp hinside
      exact ⟨before, after, rfl, hstart, by omega⟩
    · cases h
  · rintro ⟨before, after, rfl, rfl, rfl⟩
    exact slice?_append before part after

end Marginalia.Text
