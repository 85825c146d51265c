import Marginalia.OpenDocument
import Marginalia.Proofs.Record

/-!
What a client does with an open document, and what its record says.

A client works with an open document by any actions in any order (`Action`), and keeps a record of
what happened (`Happening`).  The record alone says which findings ought to be shown: those of the
last run of the analyzer, until the client is told that they are gone (`Standing`).  At most one run
stands (`Standing.unique`), and one more happening starts a run, ends the one that stands or is
added to what happened since (`Standing.append`, `Standing.extend`, `Standing.not_invalidated`).
-/

namespace Marginalia

/-! ### Runs of a client -/

/-- What a client does with an open document. -/
inductive Action where
  | annotate (findings : List Finding)
  | markers
  | dismiss (finding : Finding)
  | replace (span : Span) (replacement : String)
  | setText (text : String)

/-- What happened to an open document. -/
inductive Happening where
  | annotated (findings : List Finding)
  | shown (outcome : Outcome Nat)
  | dismissed (finding : Finding)
  | edited
  | refused (error : EditError)
  deriving DecidableEq

namespace Happening

/-- Whether a happening settles which findings there are: a run of the analyzer brings them, and
being told that they are gone takes them away. -/
def isTurn : Happening → Bool
  | annotated _ => true
  | shown .invalidated => true
  | _ => false

/-- Whether a happening leaves the text and the findings as they are. -/
def isQuiet : Happening → Bool
  | shown (.markers _) => true
  | refused _ => true
  | _ => false

theorem isTurn_of_isQuiet {happening : Happening} (h : happening.isQuiet) :
    happening.isTurn = false := by
  cases happening with
  | shown outcome =>
      cases outcome with
      | markers ms => rfl
      | invalidated => cases h
  | refused error => rfl
  | annotated findings => cases h
  | dismissed f => cases h
  | edited => cases h

end Happening

namespace OpenDocument

/-- Do one thing with a document. -/
def perform (o : OpenDocument) : Action → Happening × OpenDocument
  | .annotate findings => (.annotated findings, (o.annotate findings).2)
  | .markers => (.shown o.markers.1, o.markers.2)
  | .dismiss finding => (.dismissed finding, (o.dismiss finding).2)
  | .replace span replacement =>
      match o.replace span replacement with
      | .ok edited => (.edited, edited)
      | .error error => (.refused error, o)
  | .setText text => (.edited, o.setText text)

/-- Do one thing after another.  The record is in the order of the actions. -/
def run (o : OpenDocument) : List Action → List Happening × OpenDocument
  | [] => ([], o)
  | action :: actions =>
      let step := o.perform action
      let rest := step.2.run actions
      (step.1 :: rest.1, rest.2)

end OpenDocument

/-! ### What the record says -/

/-- The findings of the last run of the analyzer stand: the client has not been told since that they
are gone.  `since` is what happened after that run. -/
def Standing (history : List Happening) (findings : List Finding) (since : List Happening) : Prop :=
  (∃ before, history = before ++ .annotated findings :: since) ∧
    (∀ later, .annotated later ∉ since) ∧ .shown .invalidated ∉ since

namespace Standing

variable {history since : List Happening} {findings : List Finding}

theorem not_nil : ¬Standing [] findings since :=
  fun h => After.not_nil h.1

/-- A fresh run stands. -/
theorem annotated (history : List Happening) (findings : List Finding) :
    Standing (history ++ [.annotated findings]) findings [] :=
  ⟨After.concat history _, fun _ => List.not_mem_nil, List.not_mem_nil⟩

/-- A happening after a run is either that run or one more thing after it. -/
theorem append {happening : Happening} (h : Standing (history ++ [happening]) findings since) :
    since = [] ∧ happening = .annotated findings ∨
      ∃ earlier, since = earlier ++ [happening] ∧ Standing history findings earlier := by
  obtain ⟨hafter, hlast, htold⟩ := h
  rcases After.concat_iff.mp hafter with ⟨rfl, rfl⟩ | ⟨earlier, rfl, hearlier⟩
  · exact Or.inl ⟨rfl, rfl⟩
  · refine Or.inr ⟨earlier, rfl, hearlier, ?_, ?_⟩
    · exact fun later hmem => hlast later (List.mem_append_left _ hmem)
    · exact fun hmem => htold (List.mem_append_left _ hmem)

/-- A run goes on standing until the next one, or until the client is told. -/
theorem extend (h : Standing history findings since) {happening : Happening}
    (hturn : happening.isTurn = false) :
    Standing (history ++ [happening]) findings (since ++ [happening]) := by
  obtain ⟨hafter, hlast, htold⟩ := h
  refine ⟨After.append hafter [happening], ?_, ?_⟩
  · intro later hmem
    rcases List.mem_append.mp hmem with hmem | hmem
    · exact hlast later hmem
    · rw [← List.mem_singleton.mp hmem] at hturn
      cases hturn
  · intro hmem
    rcases List.mem_append.mp hmem with hmem | hmem
    · exact htold hmem
    · rw [← List.mem_singleton.mp hmem] at hturn
      cases hturn

/-- Where nothing stands, nothing does until the next run. -/
theorem not_append (h : ∀ findings since, ¬Standing history findings since)
    {happening : Happening} (hturn : happening.isTurn = false) :
    ¬Standing (history ++ [happening]) findings since := by
  intro hstanding
  rcases hstanding.append with ⟨-, rfl⟩ | ⟨earlier, -, hearlier⟩
  · cases hturn
  · exact h findings earlier hearlier

/-- Once the client is told, nothing stands. -/
theorem not_invalidated : ¬Standing (history ++ [.shown .invalidated]) findings since := by
  intro h
  rcases h.append with ⟨-, h'⟩ | ⟨earlier, rfl, -⟩
  · cases h'
  · exact h.2.2 (List.mem_append_right _ (List.mem_singleton.mpr rfl))

/-- At most one run stands. -/
theorem unique {findings' : List Finding} {since' : List Happening}
    (h : Standing history findings since) (h' : Standing history findings' since') :
    findings = findings' ∧ since = since' := by
  obtain ⟨hafter, hlast, -⟩ := h
  obtain ⟨hafter', hlast', -⟩ := h'
  -- whichever of the two runs came first, the other one happened after it
  rcases After.eq_or_mem hafter hafter' with ⟨hrun, hsince⟩ | hmem | hmem
  · cases hrun
    exact ⟨rfl, hsince⟩
  · exact absurd hmem (hlast' findings)
  · exact absurd hmem (hlast findings')

/-- What happened since a run is part of what happened. -/
theorem count_le (h : Standing history findings since) :
    since.count .edited ≤ history.count .edited := by
  obtain ⟨⟨before, rfl⟩, -⟩ := h
  rw [List.count_append, List.count_cons]
  omega

end Standing

end Marginalia
