import Marginalia.Proofs.Text.Decoding
import Marginalia.Settings.Environment
import Mathlib.Data.List.Infix
import Mathlib.Logic.ExistsUnique

/-!
References to variables as a grammar.

A text is a `Template`: references to variables, each with the text before it, then the text after
the last of them, and at the end maybe a reference that is never closed.  The parts carry what makes
them such: text between references does not hold what opens one, and a name does not hold the brace
that closes it.

The two cuts of `expandChars` are each characterized by what they cut (`cutOpen?_eq_some_iff`,
`cutClose?_eq_some_iff`), and by these `Template.read` finds the template of a text.  A text is that
of its template (`chars_read`), and a template is that of its text (`read_chars`), so each text has
exactly one.  Expanding a text fills its template (`expandChars_eq_fill`): the values stand where
the references stood, and all else is as it was.
-/

namespace Marginalia.Settings

open Text

/-! ### The two cuts -/

/-- A text opens a reference at its first character or after it. -/
theorem opens_cons_iff {c : Char} {rest : List Char} :
    ['$', '{'] <:+: c :: rest ↔
      (c = '$' ∧ ∃ after, rest = '{' :: after) ∨ ['$', '{'] <:+: rest := by
  rw [List.infix_cons_iff, List.cons_prefix_cons]
  constructor
  · rintro (⟨rfl, after, rfl⟩ | h)
    · exact Or.inl ⟨rfl, after, rfl⟩
    · exact Or.inr h
  · rintro (⟨rfl, after, rfl⟩ | h)
    · exact Or.inl ⟨rfl, after, rfl⟩
    · exact Or.inr h

theorem cutOpen?_append {before : List Char} (plain : ¬['$', '{'] <:+: before) (after : List Char) :
    cutOpen? (before ++ ['$', '{'] ++ after) = some (before, after) := by
  induction before with
  | nil => rfl
  | cons c before ih =>
      obtain ⟨hc, hbefore⟩ := not_or.mp (mt opens_cons_iff.mpr plain)
      rw [List.cons_append, List.cons_append, cutOpen?, ih hbefore]
      · rfl
      · -- the first two characters do not open a reference
        rintro rest rfl heq
        cases before with
        | nil => cases heq
        | cons d before =>
            cases heq
            exact hc ⟨rfl, before, rfl⟩

theorem cutOpen?_eq_some_iff {chars before after : List Char} :
    cutOpen? chars = some (before, after) ↔
      chars = before ++ ['$', '{'] ++ after ∧ ¬['$', '{'] <:+: before := by
  constructor
  · intro h
    fun_induction cutOpen? chars generalizing before with
    | case1 => cases h
    | case2 rest =>
        cases h
        simp
    | case3 c rest hne ih =>
        obtain ⟨⟨b, a⟩, hcut, heq⟩ := Option.map_eq_some_iff.mp h
        cases heq
        obtain ⟨rfl, hplain⟩ := ih hcut
        refine ⟨rfl, ?_⟩
        rw [opens_cons_iff]
        rintro (⟨rfl, more, rfl⟩ | hopens)
        · exact hne _ rfl rfl
        · exact hplain hopens
  · rintro ⟨rfl, plain⟩
    exact cutOpen?_append plain after

theorem cutOpen?_eq_none_iff {chars : List Char} :
    cutOpen? chars = none ↔ ¬['$', '{'] <:+: chars := by
  constructor
  · intro h
    fun_induction cutOpen? chars with
    | case1 => simp
    | case2 rest => cases h
    | case3 c rest hne ih =>
        rw [opens_cons_iff]
        rintro (⟨rfl, more, rfl⟩ | hopens)
        · exact hne _ rfl rfl
        · exact ih (Option.map_eq_none_iff.mp h) hopens
  · intro plain
    rcases hcut : cutOpen? chars with - | ⟨before, after⟩
    · rfl
    · obtain ⟨rfl, -⟩ := cutOpen?_eq_some_iff.mp hcut
      exact absurd ⟨before, after, rfl⟩ plain

theorem cutClose?_eq_none_iff {chars : List Char} : cutClose? chars = none ↔ '}' ∉ chars := by
  fun_induction cutClose? chars with
  | case1 => simp
  | case2 rest => simp
  | case3 c rest hne ih =>
      rw [Option.map_eq_none_iff, ih, List.mem_cons, not_or]
      exact ⟨fun h => ⟨fun heq => hne heq.symm, h⟩, fun h => h.2⟩

theorem cutClose?_append {name : List Char} (unclosed : '}' ∉ name) (rest : List Char) :
    cutClose? (name ++ ['}'] ++ rest) = some (name, rest) := by
  induction name with
  | nil => rfl
  | cons c name ih =>
      obtain ⟨hc, hname⟩ := not_or.mp (mt List.mem_cons.mpr unclosed)
      rw [List.cons_append, List.cons_append, cutClose?, ih hname]
      · rfl
      · exact fun heq => hc heq.symm

theorem cutClose?_eq_some_iff {chars name rest : List Char} :
    cutClose? chars = some (name, rest) ↔ chars = name ++ ['}'] ++ rest ∧ '}' ∉ name := by
  constructor
  · intro h
    fun_induction cutClose? chars generalizing name with
    | case1 => cases h
    | case2 rest =>
        cases h
        simp
    | case3 c rest hne ih =>
        obtain ⟨⟨n, r⟩, hcut, heq⟩ := Option.map_eq_some_iff.mp h
        cases heq
        obtain ⟨rfl, hname⟩ := ih hcut
        exact ⟨rfl, fun hmem => (List.mem_cons.mp hmem).elim (fun heq => hne heq.symm) hname⟩
  · rintro ⟨rfl, unclosed⟩
    exact cutClose?_append unclosed rest

/-- One turn of expanding, as what the two cuts come to. -/
theorem expandChars_eq (value? : String → Option String) (chars : List Char) :
    expandChars value? chars =
      match cutOpen? chars with
      | none => chars
      | some (before, after) =>
          match cutClose? after with
          | none => chars
          | some (name, rest) => before ++ reference value? name ++ expandChars value? rest := by
  rw [expandChars]
  split
  next hopen => rw [hopen]
  next before after hopen =>
    rw [hopen]
    dsimp only
    split
    next hclose => rw [hclose]
    next hclose => rw [hclose]

/-! ### Templates -/

/-- Text that opens no reference. -/
structure Literal where
  chars : List Char
  plain : ¬['$', '{'] <:+: chars

/-- What may stand between the braces of a reference. -/
structure Name where
  chars : List Char
  unclosed : '}' ∉ chars

/-- A reference as it is written. -/
def written (name : List Char) : List Char := ['$', '{'] ++ name ++ ['}']

/-- A text taken apart: its references, each with the text before it, the text after the last of
them, and what follows the opening of a reference that is never closed, if there is one. -/
structure Template where
  references : List (Literal × Name)
  last : Literal
  unclosed : Option Name

namespace Template

/-- A template with values in the place of its references. -/
def fill (t : Template) (value : List Char → List Char) : List Char :=
  (t.references.flatMap fun (before, name) => before.chars ++ value name.chars)
    ++ t.last.chars ++ t.unclosed.elim [] fun name => ['$', '{'] ++ name.chars

/-- The text of a template. -/
def chars (t : Template) : List Char := t.fill written

def text (t : Template) : String := String.ofList t.chars

/-- A template with one more reference before all others. -/
def cons (before : Literal) (name : Name) (t : Template) : Template :=
  { t with references := (before, name) :: t.references }

theorem fill_cons (before : Literal) (name : Name) (t : Template) (value : List Char → List Char) :
    (cons before name t).fill value = before.chars ++ value name.chars ++ t.fill value := by
  simp [fill, cons]

theorem chars_cons (before : Literal) (name : Name) (t : Template) :
    (cons before name t).chars
      = before.chars ++ ['$', '{'] ++ (name.chars ++ ['}'] ++ t.chars) := by
  rw [chars, fill_cons]
  simp [chars, written]

/-- The template of a text. -/
def read (chars : List Char) : Template :=
  match hopen : cutOpen? chars with
  | none => ⟨[], ⟨chars, cutOpen?_eq_none_iff.mp hopen⟩, none⟩
  | some (before, after) =>
      let literal : Literal := ⟨before, (cutOpen?_eq_some_iff.mp hopen).2⟩
      match hclose : cutClose? after with
      | none => ⟨[], literal, some ⟨after, cutClose?_eq_none_iff.mp hclose⟩⟩
      | some (name, rest) => cons literal ⟨name, (cutClose?_eq_some_iff.mp hclose).2⟩ (read rest)
  termination_by chars.length
  decreasing_by
    have h1 := length_of_cutOpen? hopen
    have h2 := length_of_cutClose? hclose
    omega

/-- Expanding a text fills its template. -/
theorem expandChars_eq_fill (value? : String → Option String) (chars : List Char) :
    expandChars value? chars = (read chars).fill (reference value?) := by
  fun_induction read chars with
  | case1 chars hopen =>
      rw [expandChars_eq, hopen]
      simp [fill]
  | case2 chars before after hopen literal hclose =>
      have hchars : chars = before ++ ['$', '{'] ++ after := (cutOpen?_eq_some_iff.mp hopen).1
      rw [expandChars_eq, hopen]
      simp [hclose, fill, literal, hchars]
  | case3 chars before after hopen literal name rest hclose ih =>
      rw [expandChars_eq, hopen, fill_cons, ← ih]
      simp [hclose, literal]

/-- A text is that of its template. -/
theorem chars_read (chars : List Char) : (read chars).chars = chars := by
  fun_induction read chars with
  | case1 chars hopen => simp [Template.chars, fill]
  | case2 chars before after hopen literal hclose =>
      rw [(cutOpen?_eq_some_iff.mp hopen).1]
      simp [Template.chars, fill, literal]
  | case3 chars before after hopen literal name rest hclose ih =>
      have hchars : chars = before ++ ['$', '{'] ++ after := (cutOpen?_eq_some_iff.mp hopen).1
      have hafter : after = name ++ ['}'] ++ rest := (cutClose?_eq_some_iff.mp hclose).1
      rw [chars_cons, ih]
      exact hafter ▸ hchars.symm

theorem read_of_plain (last : Literal) : read last.chars = ⟨[], last, none⟩ := by
  have hopen := cutOpen?_eq_none_iff.mpr last.plain
  rw [read]
  split
  · rfl
  next heq => cases hopen.symm.trans heq

theorem read_of_unclosed (last : Literal) (name : Name) :
    read (last.chars ++ ['$', '{'] ++ name.chars) = ⟨[], last, some name⟩ := by
  have hopen := cutOpen?_append last.plain name.chars
  have hclose := cutClose?_eq_none_iff.mpr name.unclosed
  rw [read]
  split
  next heq => cases hopen.symm.trans heq
  next heq =>
    cases hopen.symm.trans heq
    dsimp only
    split
    · rfl
    next heq => cases hclose.symm.trans heq

theorem read_of_reference (before : Literal) (name : Name) (rest : List Char) :
    read (before.chars ++ ['$', '{'] ++ (name.chars ++ ['}'] ++ rest))
      = cons before name (read rest) := by
  have hopen := cutOpen?_append before.plain (name.chars ++ ['}'] ++ rest)
  have hclose := cutClose?_append name.unclosed rest
  rw [read]
  split
  next heq => cases hopen.symm.trans heq
  next heq =>
    cases hopen.symm.trans heq
    dsimp only
    split
    next heq => cases hclose.symm.trans heq
    next heq =>
      cases hclose.symm.trans heq
      rfl

/-- A template is that of its text. -/
theorem read_chars (t : Template) : read t.chars = t := by
  obtain ⟨references, last, unclosed⟩ := t
  induction references with
  | nil =>
      cases unclosed with
      | none =>
          rw [show Template.chars ⟨[], last, none⟩ = last.chars by simp [Template.chars, fill]]
          exact read_of_plain last
      | some name =>
          rw [show Template.chars ⟨[], last, some name⟩ = last.chars ++ ['$', '{'] ++ name.chars by
            simp [Template.chars, fill]]
          exact read_of_unclosed last name
  | cons reference references ih =>
      obtain ⟨before, name⟩ := reference
      show read (cons before name ⟨references, last, unclosed⟩).chars
        = cons before name ⟨references, last, unclosed⟩
      rw [chars_cons, read_of_reference, ih]

end Template

/-! ### What a name stands for -/

/-- What a name stands for in an environment: the value of the variable of that name.  The empty
name, a variable that is not set and one whose value is not text stand for nothing. -/
inductive StandsFor (env : Environment) : List Char → List Char → Prop where
  | empty : StandsFor env [] []
  | unset {name : List Char} :
      env.bytes? (String.ofList name) = none → StandsFor env name []
  | notText {name : List Char} {value : List UInt8} :
      env.bytes? (String.ofList name) = some value → (∀ chars, value ≠ Utf8.encode chars) →
        StandsFor env name []
  | value {name chars : List Char} :
      name ≠ [] → env.bytes? (String.ofList name) = some (Utf8.encode chars) →
        StandsFor env name chars

theorem exists_standsFor (env : Environment) (name : List Char) :
    ∃ chars, StandsFor env name chars := by
  by_cases hname : name = []
  · subst hname
    exact ⟨[], .empty⟩
  rcases hbytes : env.bytes? (String.ofList name) with - | value
  · exact ⟨[], .unset hbytes⟩
  by_cases htext : ∃ chars, value = Utf8.encode chars
  · obtain ⟨chars, rfl⟩ := htext
    exact ⟨chars, .value hname hbytes⟩
  · exact ⟨[], .notText hbytes (not_exists.mp htext)⟩

theorem StandsFor.reference_eq {env : Environment} {name chars : List Char}
    (h : StandsFor env name chars) : reference env.value? name = chars := by
  rw [reference]
  split
  next hname =>
    cases h with
    | empty => rfl
    | unset hbytes => rfl
    | notText hbytes hnone => rfl
    | value hne hbytes => exact absurd hname hne
  next hname =>
    rw [Environment.value?]
    cases h with
    | empty => exact absurd rfl hname
    | unset hbytes => simp [hbytes]
    | @notText name value hbytes hnone =>
        have hdecode : Utf8.decode? value = none :=
          Option.eq_none_iff_forall_ne_some.mpr fun chars hchars =>
            hnone chars (Utf8.decode?_eq_some_iff.mp hchars)
        simp [hbytes, hdecode]
    | value hne hbytes => simp [hbytes, Utf8.decode?_eq_some_iff.mpr rfl]

theorem standsFor_iff {env : Environment} {name chars : List Char} :
    StandsFor env name chars ↔ reference env.value? name = chars := by
  constructor
  · exact StandsFor.reference_eq
  · rintro rfl
    obtain ⟨chars, h⟩ := exists_standsFor env name
    rwa [h.reference_eq]

/-! ### Expanding a text -/

/-- Each text is that of one template.  Expanding it puts in the place of each reference what its
name stands for and leaves all else as it is, so that values are not looked at again, whatever they
hold and whatever they meet.  What remains to be read after a reference is shorter than what was
read before it, and so expanding ends. -/
theorem expand_fills_template (env : Environment) :
    (∀ text : String, ∃! t : Template, t.text = text) ∧
      (∀ name chars, StandsFor env name chars ↔ reference env.value? name = chars) ∧
      ∀ t : Template, env.expand t.text = String.ofList (t.fill (reference env.value?)) := by
  refine ⟨?_, fun name chars => standsFor_iff, ?_⟩
  · intro text
    refine ⟨Template.read text.toList, ?_, ?_⟩
    · show String.ofList (Template.read text.toList).chars = text
      rw [Template.chars_read, String.ofList_toList]
    · rintro t rfl
      rw [Template.text, String.toList_ofList, Template.read_chars]
  · intro t
    rw [Environment.expand, Template.text, String.toList_ofList, Template.expandChars_eq_fill,
      Template.read_chars]

/-- Two values that meet in the form of a reference are not read as one. -/
example :
    let env : Environment := ⟨[("A", Utf8.encode ['$']), ("B", Utf8.encode ['{', 'A', '}'])]⟩
    env.expand "$\x7bA\x7d$\x7bB\x7d" = "$\x7bA\x7d" := by
  decide +kernel

end Marginalia.Settings
