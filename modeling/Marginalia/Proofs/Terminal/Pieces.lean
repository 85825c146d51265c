import Marginalia.Proofs.Terminal.Stripping
import Mathlib.Data.List.Infix
import Mathlib.Logic.ExistsUnique

/-!
The pieces of a text: its characters and its escape sequences.

A text is a list of pieces, each a character or a whole escape sequence, and may end in a sequence
that it does not finish.  Here that is a `Reading`, and its parts carry what makes them such: the
parameters of a control sequence hold no final character, the payload of a command no terminator.

A reading takes up one character at a time (`Reading.push`).  What a character does to a reading is
said once (`push_grows`): it lengthens what the reading spells, moves the mode of the scan on and
adds to what is shown just what `strip` keeps.  So the reading of a text spells the text
(`chars_read`) and shows what stripping leaves (`shown_read`).  A reading is also the reading of what
it spells (`read_chars`): each text has exactly one, and sanitizing shows the safe characters of it.
-/

namespace Marginalia.Terminal

/-! ### Pieces -/

/-- What ends a command. -/
inductive Terminator where
  | bell
  | backslash
  deriving DecidableEq, Repr

def Terminator.chars : Terminator → List Char
  | .bell => [Terminal.bell]
  | .backslash => [escape, '\\']

/-- Whether a text may stand in a control sequence before its final character. -/
def IsParameters (chars : List Char) : Prop := ∀ c ∈ chars, ¬('@' ≤ c ∧ c ≤ '~')

/-- Whether a text may stand in a command before its terminator. -/
def IsPayload (chars : List Char) : Prop := bell ∉ chars ∧ ¬[escape, '\\'] <:+: chars

/-- A piece of a text: a character, a control sequence, an operating system command, or an escape
and any other character. -/
inductive Piece where
  | character (c : Char) (plain : c ≠ escape)
  | control (parameters : List Char) (final : Char) (inside : IsParameters parameters)
      (ends : '@' ≤ final ∧ final ≤ '~')
  | command (payload : List Char) (terminator : Terminator) (inside : IsPayload payload)
  | pair (c : Char) (other : c ≠ '[' ∧ c ≠ ']')

/-- The text of a piece. -/
def Piece.chars : Piece → List Char
  | .character c _ => [c]
  | .control parameters final _ _ => [escape, '['] ++ parameters ++ [final]
  | .command payload terminator _ => [escape, ']'] ++ payload ++ terminator.chars
  | .pair c _ => [escape, c]

/-- What is shown of a piece: a character, if it is no control character, or a line feed or a tab. -/
def Piece.shown? : Piece → Option Char
  | .character c _ => if isControl c = false ∨ c = '\n' ∨ c = '\t' then some c else none
  | _ => none

theorem Piece.shown?_character {c : Char} (plain : c ≠ escape) :
    (Piece.character c plain).shown? = if isUnsafe c = false then some c else none := by
  simp only [Piece.shown?, isUnsafe_eq_false_iff]

/-- An escape sequence that the text does not finish: an escape alone, a control sequence without
its final character, or a command without its terminator. -/
inductive Unfinished where
  | alone
  | control (parameters : List Char) (inside : IsParameters parameters)
  | command (payload : List Char) (inside : IsPayload payload)

/-- The text of an unfinished sequence. -/
def Unfinished.chars : Unfinished → List Char
  | .alone => [escape]
  | .control parameters _ => [escape, '['] ++ parameters
  | .command payload _ => [escape, ']'] ++ payload

/-- A text taken apart: its pieces, and the sequence that it leaves unfinished, if any. -/
structure Reading where
  pieces : List Piece
  unfinished : Option Unfinished

namespace Reading

/-- The text that a reading spells. -/
def chars (r : Reading) : List Char :=
  r.pieces.flatMap Piece.chars ++ r.unfinished.elim [] Unfinished.chars

def text (r : Reading) : String := String.ofList r.chars

/-- What is shown of a reading: the safe characters among its pieces. -/
def shown (r : Reading) : List Char := r.pieces.filterMap Piece.shown?

end Reading

/-! ### Parameters and payloads -/

theorem isFinal_iff {c : Char} : isFinal c = true ↔ '@' ≤ c ∧ c ≤ '~' := by
  rw [isFinal, Bool.and_eq_true, decide_eq_true_iff, decide_eq_true_iff]
  exact Iff.rfl

theorem isParameters_nil : IsParameters [] := by simp [IsParameters]

theorem IsParameters.concat {parameters : List Char} {c : Char} (inside : IsParameters parameters)
    (h : ¬('@' ≤ c ∧ c ≤ '~')) : IsParameters (parameters ++ [c]) := by
  intro d hd
  rcases List.mem_append.mp hd with hd | hd
  · exact inside d hd
  · rwa [List.mem_singleton.mp hd]

theorem isPayload_nil : IsPayload [] := by simp [IsPayload]

/-- A payload goes on with any character that does not end the command. -/
theorem isPayload_concat_iff {payload : List Char} {c : Char} :
    IsPayload (payload ++ [c]) ↔
      IsPayload payload ∧ c ≠ bell ∧ ¬(c = '\\' ∧ payload.getLast? = some escape) := by
  have hpair : [escape, '\\'] <:+ payload ++ [c] ↔ c = '\\' ∧ payload.getLast? = some escape := by
    rw [← List.singleton_suffix_iff_getLast?_eq_some, List.suffix_concat_iff]
    constructor
    · rintro (h | ⟨front, h, hsuffix⟩)
      · cases h
      · have hends : [escape] ++ ['\\'] = front ++ [c] := h
        obtain ⟨rfl, hc⟩ := List.append_inj' hends rfl
        cases hc
        exact ⟨rfl, hsuffix⟩
    · rintro ⟨rfl, hsuffix⟩
      exact Or.inr ⟨[escape], rfl, hsuffix⟩
  rw [IsPayload, IsPayload, List.infix_concat_iff, hpair, List.mem_append, List.mem_singleton]
  grind

theorem IsPayload.dropLast {payload : List Char} (h : IsPayload payload) :
    IsPayload payload.dropLast := by
  rcases List.eq_nil_or_concat payload with rfl | ⟨front, c, rfl⟩
  · exact isPayload_nil
  · rw [List.concat_eq_append] at h ⊢
    rw [List.dropLast_concat]
    exact (isPayload_concat_iff.mp h).1

theorem IsPayload.of_append {payload more : List Char} (h : IsPayload (payload ++ more)) :
    IsPayload payload :=
  ⟨fun hmem => h.1 (List.mem_append_left more hmem),
    fun hpair => h.2 (hpair.trans (List.prefix_append payload more).isInfix)⟩

/-- Where a scan stands after a payload that has not ended. -/
def commandMode (payload : List Char) : Mode :=
  if payload.getLast? = some escape then .commandEscaped else .command

theorem commandMode_ne_plain (payload : List Char) : commandMode payload ≠ .plain := by
  rw [commandMode]
  split <;> simp

theorem after_commandMode (payload : List Char) (c : Char) :
    (commandMode payload).after c =
      if c = bell ∨ (c = '\\' ∧ payload.getLast? = some escape) then .plain
      else commandMode (payload ++ [c]) := by
  simp only [commandMode, List.getLast?_concat, Option.some.injEq]
  by_cases hlast : payload.getLast? = some escape
  · rw [if_pos hlast]
    grind [Mode.after]
  · rw [if_neg hlast]
    grind [Mode.after]

/-! ### Reading a text -/

namespace Reading

/-- The reading that one more character makes of a reading. -/
def push : Reading → Char → Reading
  | ⟨pieces, none⟩, c =>
      if plain : c ≠ escape then ⟨pieces ++ [.character c plain], none⟩
      else ⟨pieces, some .alone⟩
  | ⟨pieces, some .alone⟩, c =>
      if hopen : c = '[' then ⟨pieces, some (.control [] isParameters_nil)⟩
      else if hclose : c = ']' then ⟨pieces, some (.command [] isPayload_nil)⟩
      else ⟨pieces ++ [.pair c ⟨hopen, hclose⟩], none⟩
  | ⟨pieces, some (.control parameters inside)⟩, c =>
      if ends : '@' ≤ c ∧ c ≤ '~' then ⟨pieces ++ [.control parameters c inside ends], none⟩
      else ⟨pieces, some (.control (parameters ++ [c]) (inside.concat ends))⟩
  | ⟨pieces, some (.command payload inside)⟩, c =>
      if hbell : c = bell then ⟨pieces ++ [.command payload .bell inside], none⟩
      else if hpair : c = '\\' ∧ payload.getLast? = some escape then
        -- the escape before the backslash is part of the terminator
        ⟨pieces ++ [.command payload.dropLast .backslash inside.dropLast], none⟩
      else
        ⟨pieces, some (.command (payload ++ [c])
          (isPayload_concat_iff.mpr ⟨inside, hbell, hpair⟩))⟩

/-- The reading of a text, character by character. -/
def read (chars : List Char) : Reading := chars.foldl push ⟨[], none⟩

/-- Where a scan stands at the end of a reading. -/
def mode : Reading → Mode
  | ⟨_, none⟩ => .plain
  | ⟨_, some .alone⟩ => .escaped
  | ⟨_, some (.control _ _)⟩ => .control
  | ⟨_, some (.command payload _)⟩ => commandMode payload

/-- What a character does to a reading: it is spelled after the rest, the scan goes on by it, and it
is shown if the scan keeps it. -/
structure Grows (r : Reading) (c : Char) (r' : Reading) : Prop where
  chars : r'.chars = r.chars ++ [c]
  mode : r'.mode = r.mode.after c
  shown : r'.shown = r.shown ++ if r.mode = .plain ∧ isUnsafe c = false then [c] else []

/-- A character that completes an escape sequence. -/
theorem Grows.of_piece {r : Reading} {c : Char} {p : Piece}
    (hchars : p.chars = r.unfinished.elim [] Unfinished.chars ++ [c]) (hshown : p.shown? = none)
    (hmode : r.mode.after c = .plain) (hne : r.mode ≠ .plain) :
    Grows r c { pieces := r.pieces ++ [p], unfinished := none } where
  chars := by simp [Reading.chars, hchars]
  mode := hmode.symm
  shown := by simp [Reading.shown, hne, hshown]

/-- A character that begins an escape sequence or goes on with one. -/
theorem Grows.of_unfinished {r : Reading} {c : Char} {u : Unfinished}
    (hchars : u.chars = r.unfinished.elim [] Unfinished.chars ++ [c])
    (hmode : Reading.mode ⟨r.pieces, some u⟩ = r.mode.after c) (hne : r.mode ≠ .plain ∨ c = escape) :
    Grows r c { pieces := r.pieces, unfinished := some u } where
  chars := by simp [Reading.chars, hchars]
  mode := hmode
  shown := by
    rcases hne with hne | rfl
    · simp [Reading.shown, hne]
    · simp [Reading.shown, isUnsafe_escape]

theorem grows_plain (pieces : List Piece) (c : Char) :
    Grows ⟨pieces, none⟩ c (push ⟨pieces, none⟩ c) := by
  by_cases h : c ≠ escape
  · rw [push, dif_pos h]
    refine ⟨?_, ?_, ?_⟩
    · simp [Reading.chars, Piece.chars]
    · simp [mode, Mode.after, h]
    · by_cases hsafe : isUnsafe c = false
      · simp [Reading.shown, Piece.shown?_character, mode, hsafe]
      · simp [Reading.shown, Piece.shown?_character, mode, hsafe]
  · rw [push, dif_neg h]
    obtain rfl := not_not.mp h
    exact .of_unfinished rfl (by simp [mode, Mode.after]) (Or.inr rfl)

theorem grows_alone (pieces : List Piece) (c : Char) :
    Grows ⟨pieces, some .alone⟩ c (push ⟨pieces, some .alone⟩ c) := by
  have hne : mode ⟨pieces, some .alone⟩ ≠ .plain := by simp [mode]
  by_cases hopen : c = '['
  · rw [push, dif_pos hopen]
    exact .of_unfinished (by simp [Unfinished.chars, hopen]) (by simp [mode, Mode.after, hopen])
      (Or.inl hne)
  by_cases hclose : c = ']'
  · rw [push, dif_neg hopen, dif_pos hclose]
    exact .of_unfinished (by simp [Unfinished.chars, hclose])
      (by simp [mode, commandMode, Mode.after, hclose]) (Or.inl hne)
  · rw [push, dif_neg hopen, dif_neg hclose]
    exact .of_piece (by simp [Piece.chars, Unfinished.chars]) rfl
      (by simp [mode, Mode.after, hopen, hclose]) hne

theorem grows_control (pieces : List Piece) {parameters : List Char}
    (inside : IsParameters parameters) (c : Char) :
    Grows ⟨pieces, some (.control parameters inside)⟩ c
      (push ⟨pieces, some (.control parameters inside)⟩ c) := by
  have hne : mode ⟨pieces, some (.control parameters inside)⟩ ≠ .plain := by simp [mode]
  by_cases h : '@' ≤ c ∧ c ≤ '~'
  · rw [push, dif_pos h]
    exact .of_piece (by simp [Piece.chars, Unfinished.chars]) rfl
      (by simp [mode, Mode.after, isFinal_iff.mpr h]) hne
  · rw [push, dif_neg h]
    exact .of_unfinished (by simp [Unfinished.chars]) (by simp [mode, Mode.after, isFinal_iff, h])
      (Or.inl hne)

theorem grows_command (pieces : List Piece) {payload : List Char} (inside : IsPayload payload)
    (c : Char) :
    Grows ⟨pieces, some (.command payload inside)⟩ c
      (push ⟨pieces, some (.command payload inside)⟩ c) := by
  have hne : mode ⟨pieces, some (.command payload inside)⟩ ≠ .plain :=
    commandMode_ne_plain payload
  by_cases hbell : c = bell
  · rw [push, dif_pos hbell]
    exact .of_piece (by simp [Piece.chars, Unfinished.chars, Terminator.chars, hbell]) rfl
      (by rw [mode, after_commandMode, if_pos (Or.inl hbell)]) hne
  by_cases hpair : c = '\\' ∧ payload.getLast? = some escape
  · rw [push, dif_neg hbell, dif_pos hpair]
    refine .of_piece ?_ rfl (by rw [mode, after_commandMode, if_pos (Or.inr hpair)]) hne
    have hpayload : payload.dropLast ++ [escape] = payload :=
      List.dropLast_append_getLast? escape hpair.2
    calc [escape, ']'] ++ payload.dropLast ++ [escape, '\\']
        = [escape, ']'] ++ (payload.dropLast ++ [escape]) ++ ['\\'] := by simp
      _ = [escape, ']'] ++ payload ++ [c] := by rw [hpayload, hpair.1]
  · rw [push, dif_neg hbell, dif_neg hpair]
    refine .of_unfinished (by simp [Unfinished.chars]) ?_ (Or.inl hne)
    rw [mode, mode, after_commandMode, if_neg (not_or.mpr ⟨hbell, hpair⟩)]

theorem push_grows (r : Reading) (c : Char) : Grows r c (r.push c) := by
  obtain ⟨pieces, unfinished⟩ := r
  rcases unfinished with - | (- | ⟨parameters, inside⟩ | ⟨payload, inside⟩)
  · exact grows_plain pieces c
  · exact grows_alone pieces c
  · exact grows_control pieces inside c
  · exact grows_command pieces inside c

/-- What a text does to a reading. -/
theorem foldl_push (r : Reading) (chars : List Char) :
    (chars.foldl push r).chars = r.chars ++ chars ∧
      (chars.foldl push r).shown = r.shown ++ strip r.mode chars := by
  induction chars generalizing r with
  | nil => simp [strip]
  | cons c chars ih =>
      have hgrows := push_grows r c
      obtain ⟨hchars, hshown⟩ := ih (r.push c)
      rw [hgrows.chars] at hchars
      rw [hgrows.shown, hgrows.mode] at hshown
      rw [List.foldl_cons, hchars, hshown, strip]
      constructor
      · simp
      · split
        · simp
        · simp

/-- The reading of a text spells it. -/
theorem chars_read (chars : List Char) : (read chars).chars = chars :=
  (foldl_push ⟨[], none⟩ chars).1

/-- Stripping leaves of a text what its reading shows. -/
theorem shown_read (chars : List Char) : (read chars).shown = strip .plain chars :=
  (foldl_push ⟨[], none⟩ chars).2

/-! ### Only one reading -/

theorem push_escape (pieces : List Piece) :
    push ⟨pieces, none⟩ escape = ⟨pieces, some .alone⟩ := by
  rw [push, dif_neg (not_not.mpr rfl)]

theorem foldl_push_parameters (pieces : List Piece) {parameters more : List Char}
    (inside : IsParameters parameters) (h : IsParameters (parameters ++ more)) :
    more.foldl push ⟨pieces, some (.control parameters inside)⟩
      = ⟨pieces, some (.control (parameters ++ more) h)⟩ := by
  induction more generalizing parameters with
  | nil => simp
  | cons c more ih =>
      have hc : ¬('@' ≤ c ∧ c ≤ '~') := h c (by simp)
      have hmore : IsParameters (parameters ++ [c] ++ more) := by simpa using h
      rw [List.foldl_cons, push, dif_neg hc, ih _ hmore]
      simp

theorem foldl_push_payload (pieces : List Piece) {payload more : List Char}
    (inside : IsPayload payload) (h : IsPayload (payload ++ more)) :
    more.foldl push ⟨pieces, some (.command payload inside)⟩
      = ⟨pieces, some (.command (payload ++ more) h)⟩ := by
  induction more generalizing payload with
  | nil => simp
  | cons c more ih =>
      have hmore : IsPayload (payload ++ [c] ++ more) := by simpa using h
      obtain ⟨-, hbell, hpair⟩ := isPayload_concat_iff.mp hmore.of_append
      rw [List.foldl_cons, push, dif_neg hbell, dif_neg hpair, ih _ hmore]
      simp

/-- The text of a sequence is read as that sequence. -/
theorem foldl_push_unfinished (pieces : List Piece) (u : Unfinished) :
    u.chars.foldl push ⟨pieces, none⟩ = ⟨pieces, some u⟩ := by
  cases u with
  | alone => exact push_escape pieces
  | control parameters inside =>
      rw [Unfinished.chars, List.foldl_append, List.foldl_cons, push_escape]
      exact foldl_push_parameters pieces isParameters_nil inside
  | command payload inside =>
      rw [Unfinished.chars, List.foldl_append, List.foldl_cons, push_escape]
      exact foldl_push_payload pieces isPayload_nil inside

/-- The text of a piece is read as that piece. -/
theorem foldl_push_piece (pieces : List Piece) (p : Piece) :
    p.chars.foldl push ⟨pieces, none⟩ = ⟨pieces ++ [p], none⟩ := by
  cases p with
  | character c plain =>
      rw [Piece.chars, List.foldl_cons, List.foldl_nil, push, dif_pos plain]
  | pair c other =>
      rw [Piece.chars, List.foldl_cons, push_escape, List.foldl_cons, List.foldl_nil, push,
        dif_neg other.1, dif_neg other.2]
  | control parameters final inside ends =>
      have hbegun := foldl_push_unfinished pieces (.control parameters inside)
      rw [Unfinished.chars] at hbegun
      rw [Piece.chars, List.foldl_append, hbegun, List.foldl_cons, List.foldl_nil, push,
        dif_pos ends]
  | command payload terminator inside =>
      have hbegun := foldl_push_unfinished pieces (.command payload inside)
      rw [Unfinished.chars] at hbegun
      rw [Piece.chars, List.foldl_append, hbegun]
      cases terminator with
      | bell => rw [Terminator.chars, List.foldl_cons, List.foldl_nil, push, dif_pos rfl]
      | backslash =>
          have hescape : IsPayload (payload ++ [escape]) :=
            isPayload_concat_iff.mpr ⟨inside, by decide, fun h => absurd h.1 (by decide)⟩
          have hlast : (payload ++ [escape]).getLast? = some escape := List.getLast?_concat
          -- the escape is taken for payload until the backslash comes
          have hread := foldl_push_payload pieces inside hescape
          rw [List.foldl_cons, List.foldl_nil] at hread
          rw [Terminator.chars, List.foldl_cons, hread, List.foldl_cons, List.foldl_nil, push,
            dif_neg (by decide), dif_pos ⟨rfl, hlast⟩]
          simp

theorem foldl_push_pieces (before pieces : List Piece) :
    (pieces.flatMap Piece.chars).foldl push ⟨before, none⟩ = ⟨before ++ pieces, none⟩ := by
  induction pieces generalizing before with
  | nil => simp
  | cons p pieces ih =>
      rw [List.flatMap_cons, List.foldl_append, foldl_push_piece, ih]
      simp

/-- A reading is the reading of what it spells. -/
theorem read_chars (r : Reading) : read r.chars = r := by
  obtain ⟨pieces, unfinished⟩ := r
  rw [read, chars, List.foldl_append, foldl_push_pieces [] pieces]
  cases unfinished with
  | none => rfl
  | some u => exact foldl_push_unfinished pieces u

end Reading

/-! ### What sanitizing shows -/

/-- Sanitizing a text shows the characters of it that stand in no escape sequence and are no control
characters, or line feeds or tabs, in order.  Each text has one reading, so there is no doubt about
where its escape sequences are. -/
theorem sanitize_shows_characters :
    (∀ r : Reading, sanitize r.text = String.ofList r.shown) ∧
      ∀ text : String, ∃! r : Reading, r.text = text := by
  constructor
  · intro r
    rw [← String.toList_inj, toList_sanitize, Reading.text, String.toList_ofList,
      String.toList_ofList, ← Reading.shown_read, Reading.read_chars]
  · intro text
    refine ⟨Reading.read text.toList, ?_, ?_⟩
    · show String.ofList (Reading.read text.toList).chars = text
      rw [Reading.chars_read, String.ofList_toList]
    · rintro r rfl
      rw [Reading.text, String.toList_ofList, Reading.read_chars]

/-- A payload may end in an escape, right before the terminator. -/
example : (Reading.read "a\x1b]t\x1b\x1b\\b\x1b[".toList).shown = ['a', 'b'] := by decide +kernel

end Marginalia.Terminal
