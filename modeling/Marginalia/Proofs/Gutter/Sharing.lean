import Marginalia.Gutter.Shared
import Marginalia.Proofs.Gutter.History

/-!
One gutter and many clients.

Each client has a program, a list of calls, and a handle of its own on the gutter.  The calls come
to the gutter in some order that keeps to every program (`Interleaving`), each in a turn of its own
(`Turn`).  Copies of a handle name one gutter, so no call is refused and the answers are those the
gutter gives to the calls one after another (`SharedGutters.performInOrder_of_serial`).

A call attaches findings, dismisses one, or leaves the gutter as it is or empty
(`Gutter.after_perform`).  So being told that the findings are gone, and dismissing one that was
attached, cannot happen twice before findings are attached (`Gutter.Serial.countP_le_one`), and what
is shown can be read off the turns (`SharedGutters.atomic_for_all_clients`).
-/

namespace Marginalia

variable {Element Stamp : Type}

/-! ### Programs and turns -/

/-- The calls of clients in an order in which they can come to a gutter: each is the next in the
program of some client, which is known by the place of its program in the list.  The order may stop
before the programs do. -/
inductive Interleaving :
    List (List (Call Element Stamp)) → List (Nat × Call Element Stamp) → Prop where
  | stop (programs : List (List (Call Element Stamp))) : Interleaving programs []
  | turn {programs : List (List (Call Element Stamp))} {client : Nat} {call : Call Element Stamp}
      {rest : List (Call Element Stamp)} {order : List (Nat × Call Element Stamp)}
      (hprogram : programs[client]? = some (call :: rest))
      (horder : Interleaving (programs.set client rest) order) :
      Interleaving programs ((client, call) :: order)

theorem Interleaving.lt_length {programs : List (List (Call Element Stamp))}
    {order : List (Nat × Call Element Stamp)} (h : Interleaving programs order) :
    ∀ entry ∈ order, entry.1 < programs.length := by
  induction h with
  | stop programs => exact fun _ hentry => absurd hentry List.not_mem_nil
  | turn hprogram horder ih =>
      intro entry hentry
      rcases List.mem_cons.mp hentry with rfl | hentry
      · exact (List.getElem?_eq_some_iff.mp hprogram).1
      · rw [← List.length_set]
        exact ih entry hentry

/-- A call that a client made, and the answer it got. -/
structure Turn (Element Stamp : Type) where
  client : Nat
  call : Call Element Stamp
  answer : Answer Element

/-- Whether a call attaches findings. -/
def Call.isAttach : Call Element Stamp → Bool
  | attach _ _ => true
  | _ => false

namespace Turn

/-- Whether the client was told that the findings are gone. -/
def isInvalidation (t : Turn Element Stamp) : Bool :=
  match t.answer with
  | .shown .invalidated => true
  | _ => false

/-- Whether the client dismissed a finding that was attached. -/
def isDismissalOf (f : Finding) (t : Turn Element Stamp) : Bool :=
  match t.call, t.answer with
  | .dismiss g, .dismissed true => decide (g = f)
  | _, _ => false

/-- A turn, as it is put on the record of a gutter. -/
def incident (t : Turn Element Stamp) : Gutter.Incident Element Stamp :=
  match t.call, t.answer with
  | .attach findings d, _ => .attached findings d
  | .dismiss f, _ => .dismissed f
  | .query _, .shown outcome => .queried outcome
  | _, _ => .cleared

theorem call_of_incident_eq_attached {t : Turn Element Stamp} {findings : List Finding}
    {d : Document Element Stamp} (h : t.incident = .attached findings d) :
    t.call = .attach findings d := by
  obtain ⟨client, call, answer⟩ := t
  cases call with
  | attach findings' d' =>
      cases h
      rfl
  | query d' => cases answer <;> cases h
  | dismiss f => cases h
  | clear => cases h

theorem isAttaching_incident (t : Turn Element Stamp) :
    t.incident.isAttaching = t.call.isAttach := by
  obtain ⟨client, call, answer⟩ := t
  cases call with
  | query d => cases answer <;> rfl
  | _ => rfl

end Turn

/-- What was attached last, when the turns so far are these: the findings, the document they were
attached to, and the turns taken since. -/
def AttachedLast (turns : List (Turn Element Stamp)) (findings : List Finding)
    (d : Document Element Stamp) (since : List (Turn Element Stamp)) : Prop :=
  (∃ t, After turns t since ∧ t.call = .attach findings d) ∧
    ∀ t ∈ since, t.call.isAttach = false

variable [BEq Element] [BEq Stamp]

/-! ### One turn -/

namespace Gutter

/-- What one call leaves behind. -/
theorem after_perform (g : Gutter Element Stamp) (call : Call Element Stamp) :
    (∃ findings d, call = .attach findings d ∧ (g.perform call).2 = (g.attach findings d).2) ∨
      (∃ f, call = .dismiss f ∧ (g.perform call).2 = (g.dismiss f).2) ∨
      call.isAttach = false ∧ ((g.perform call).2 = g ∨ (g.perform call).2 = g.clear) := by
  cases call with
  | attach findings d => exact Or.inl ⟨findings, d, rfl, rfl⟩
  | dismiss f => exact Or.inr (Or.inl ⟨f, rfl, rfl⟩)
  | clear => exact Or.inr (Or.inr ⟨rfl, Or.inr rfl⟩)
  | query d =>
      refine Or.inr (Or.inr ⟨rfl, ?_⟩)
      show (g.query d).2 = g ∨ (g.query d).2 = g.clear
      rw [gutter_of_query]
      by_cases hgone : (g.collect d []).1 = .invalidated
      · obtain ⟨bindings, hheld, hstamp⟩ := collect_eq_invalidated_iff.mp hgone
        rw [collect_of_stale hheld hstamp]
        exact Or.inr rfl
      · exact Or.inl (gutter_of_collect hgone)

/-- No call changes the style. -/
theorem style_perform (g : Gutter Element Stamp) (call : Call Element Stamp) :
    (g.perform call).2.style = g.style := by
  rcases after_perform g call with ⟨findings, d, -, h⟩ | ⟨f, -, h⟩ | ⟨-, h | h⟩
  · rw [h]
    rfl
  · rw [h, dismiss]
    split <;> rfl
  · rw [h]
  · rw [h]
    rfl

/-- An empty gutter stays empty until findings are attached. -/
theorem held_perform {g : Gutter Element Stamp} (hheld : g.held = none)
    {call : Call Element Stamp} (hcall : call.isAttach = false) :
    (g.perform call).2.held = none := by
  rcases after_perform g call with ⟨findings, d, rfl, -⟩ | ⟨f, -, h⟩ | ⟨-, h | h⟩
  · cases hcall
  · rw [h, dismiss, hheld]
    exact hheld
  · rw [h]
    exact hheld
  · rw [h]
    rfl

/-- A finding that is not held stays so until findings are attached. -/
theorem anchor?_perform {g : Gutter Element Stamp} {f : Finding} (hf : g.anchor? f = none)
    {call : Call Element Stamp} (hcall : call.isAttach = false) :
    (g.perform call).2.anchor? f = none := by
  rcases after_perform g call with ⟨findings, d, rfl, -⟩ | ⟨f', -, h⟩ | ⟨-, h | h⟩
  · cases hcall
  · rw [h, anchor?_dismiss, hf, ite_self]
  · rw [h]
    exact hf
  · rw [h]
    rfl

/-- An event that cannot happen where a gutter is spent, and leaves it spent until findings are
attached. -/
structure HappensOnce (spent : Gutter Element Stamp → Prop) (event : Turn Element Stamp → Bool) :
    Prop where
  spends : ∀ {g t}, t.answer = (g.perform t.call).1 → event t = true →
    ¬spent g ∧ spent (g.perform t.call).2
  lasts : ∀ {g call}, spent g → call.isAttach = false → spent (g.perform call).2

/-- Telling a client that the findings are gone leaves none. -/
theorem happensOnce_isInvalidation :
    HappensOnce (fun g : Gutter Element Stamp => g.held = none) Turn.isInvalidation where
  lasts := fun hheld hcall => held_perform hheld hcall
  spends := by
    rintro g ⟨client, call, answer⟩ ht h
    obtain rfl : answer = (g.perform call).1 := ht
    cases call with
    | query d =>
        rcases hquery : (g.query d).1 with ms | -
        · have hanswer : (g.perform (.query d)).1 = .shown (.markers ms) := congrArg _ hquery
          rw [Turn.isInvalidation, hanswer] at h
          cases h
        · obtain ⟨bindings, hheld, hstamp⟩ :=
            collect_eq_invalidated_iff.mp (query_eq_invalidated_iff.mp hquery)
          refine ⟨fun hnone => ?_, ?_⟩
          · rw [hheld] at hnone
            cases hnone
          · show (g.query d).2.held = none
            rw [query_of_stale hheld hstamp]
    | attach findings d => cases h
    | dismiss f => cases h
    | clear => cases h

/-- Dismissing a finding that was attached leaves it not attached. -/
theorem happensOnce_isDismissalOf (f : Finding) :
    HappensOnce (fun g : Gutter Element Stamp => g.anchor? f = none) (Turn.isDismissalOf f) where
  lasts := fun hf hcall => anchor?_perform hf hcall
  spends := by
    rintro g ⟨client, call, answer⟩ ht h
    obtain rfl : answer = (g.perform call).1 := ht
    cases call with
    | dismiss g' =>
        have hanswer : (g.perform (.dismiss g')).1 = .dismissed (g.dismiss g').1 := rfl
        rcases hheld : (g.dismiss g').1 with - | -
        · rw [Turn.isDismissalOf, hanswer, hheld] at h
          cases h
        · rw [Turn.isDismissalOf, hanswer, hheld] at h
          obtain rfl := of_decide_eq_true h
          obtain ⟨element, helement⟩ := dismiss_eq_true_iff.mp hheld
          refine ⟨fun hnone => ?_, ?_⟩
          · rw [helement] at hnone
            cases hnone
          · show (g.dismiss g').2.anchor? g' = none
            rw [anchor?_dismiss, if_pos rfl]
    | attach findings d => cases h
    | query d => cases h
    | clear => cases h

/-- Markers are the answer to a query. -/
theorem exists_query_of_shown {g : Gutter Element Stamp} {call : Call Element Stamp}
    {outcome : Outcome Element} (h : (g.perform call).1 = .shown outcome) :
    ∃ d, (g.query d).1 = outcome := by
  cases call with
  | query d =>
      cases h
      exact ⟨d, rfl⟩
  | attach findings d => cases h
  | dismiss f => cases h
  | clear => cases h

/-- What is shown is held, each finding at the element shown. -/
theorem anchor?_of_mem_query {g : Gutter Element Stamp} {d : Document Element Stamp}
    {ms : List (Marker Element)} (h : (g.query d).1 = .markers ms) {m : Marker Element}
    (hm : m ∈ ms) : g.anchor? m.finding = some m.anchor := by
  rcases hheld : g.held with - | bindings
  · rw [query_of_none hheld] at h
    cases h
    exact absurd hm List.not_mem_nil
  · rcases hstamp : bindings.stamp == d.stamp
    · rw [query_of_stale hheld hstamp] at h
      cases h
    · rw [query_of_current hheld hstamp] at h
      cases h
      obtain ⟨f, element, range, hf, -, rfl⟩ :=
        mem_markersOf.mp ((Marker.fresh_sublist ..).subset hm)
      rw [anchor?, hheld]
      exact hf

/-- The gutter follows its record through every turn. -/
theorem follows_perform {history : List (Incident Element Stamp)} {g : Gutter Element Stamp}
    (h : Follows history g) {t : Turn Element Stamp} (ht : t.answer = (g.perform t.call).1) :
    Follows (history ++ [t.incident]) (g.perform t.call).2 := by
  obtain ⟨client, call, answer⟩ := t
  obtain rfl : answer = (g.perform call).1 := ht
  cases call with
  | attach findings d => exact follows_step h (.attach findings d)
  | query d => exact follows_step h (.query d)
  | dismiss f => exact follows_step h (.dismiss f)
  | clear => exact follows_step h .clear

/-! ### Turns one after another -/

/-- The gutter gave these answers to these calls, one after another, and became `after`. -/
def Serial (g : Gutter Element Stamp) (turns : List (Turn Element Stamp))
    (after : Gutter Element Stamp) : Prop :=
  g.performAll (turns.map Turn.call) = (turns.map Turn.answer, after)

namespace Serial

variable {g middle after : Gutter Element Stamp} {t : Turn Element Stamp}
  {turns earlier later : List (Turn Element Stamp)}

theorem nil_iff : Serial g [] after ↔ g = after := by
  rw [Serial, List.map_nil, List.map_nil, performAll, Prod.mk.injEq]
  exact and_iff_right rfl

theorem cons_iff : Serial g (t :: turns) after ↔
    t.answer = (g.perform t.call).1 ∧ Serial (g.perform t.call).2 turns after := by
  simp only [Serial, List.map_cons, performAll, Prod.ext_iff, List.cons.injEq, and_assoc,
    eq_comm (a := t.answer)]

theorem append_iff : Serial g (earlier ++ later) after ↔
    ∃ middle, Serial g earlier middle ∧ Serial middle later after := by
  induction earlier generalizing g with
  | nil => simp [nil_iff]
  | cons t earlier ih => simp only [List.cons_append, cons_iff, ih, and_assoc, exists_and_left]

/-- A gutter answers any calls in any order. -/
theorem exists_of_order (g : Gutter Element Stamp) (order : List (Nat × Call Element Stamp)) :
    ∃ turns after, turns.map (fun t => (t.client, t.call)) = order ∧ Serial g turns after := by
  induction order generalizing g with
  | nil => exact ⟨[], g, rfl, nil_iff.mpr rfl⟩
  | cons entry order ih =>
      obtain ⟨turns, after, rfl, hserial⟩ := ih (g.perform entry.2).2
      exact ⟨⟨entry.1, entry.2, (g.perform entry.2).1⟩ :: turns, after, rfl,
        cons_iff.mpr ⟨rfl, hserial⟩⟩

/-- The answer to a call that others came before and after. -/
theorem exists_of_cut (h : Serial g (earlier ++ t :: later) after) :
    ∃ middle, Serial g earlier middle ∧ t.answer = (middle.perform t.call).1 := by
  obtain ⟨middle, hearlier, hlater⟩ := append_iff.mp h
  exact ⟨middle, hearlier, (cons_iff.mp hlater).1⟩

theorem style_eq (h : Serial g turns after) : after.style = g.style := by
  induction turns generalizing g with
  | nil => rw [nil_iff.mp h]
  | cons t turns ih => rw [ih (cons_iff.mp h).2, style_perform]

theorem follows (h : Serial g turns after) {history : List (Incident Element Stamp)}
    (hg : Follows history g) : Follows (history ++ turns.map Turn.incident) after := by
  induction turns generalizing g history with
  | nil =>
      rw [List.map_nil, List.append_nil, ← nil_iff.mp h]
      exact hg
  | cons t turns ih =>
      obtain ⟨ht, hturns⟩ := cons_iff.mp h
      rw [List.map_cons, List.append_cons]
      exact ih hturns (follows_perform hg ht)

/-- What happens once does not happen again before findings are attached. -/
theorem countP_eq_zero {spent : Gutter Element Stamp → Prop} {event : Turn Element Stamp → Bool}
    (hevent : HappensOnce spent event) (h : Serial g turns after)
    (hcalls : ∀ t ∈ turns, t.call.isAttach = false) (hg : spent g) : turns.countP event = 0 := by
  induction turns generalizing g with
  | nil => rfl
  | cons t turns ih =>
      obtain ⟨ht, hrest⟩ := cons_iff.mp h
      obtain ⟨hcall, hcalls⟩ := List.forall_mem_cons.mp hcalls
      rw [List.countP_cons_of_neg fun hhappens => (hevent.spends ht hhappens).1 hg]
      exact ih hrest hcalls (hevent.lasts hg hcall)

theorem countP_le_one {spent : Gutter Element Stamp → Prop} {event : Turn Element Stamp → Bool}
    (hevent : HappensOnce spent event) (h : Serial g turns after)
    (hcalls : ∀ t ∈ turns, t.call.isAttach = false) : turns.countP event ≤ 1 := by
  induction turns generalizing g with
  | nil => exact Nat.zero_le 1
  | cons t turns ih =>
      obtain ⟨ht, hrest⟩ := cons_iff.mp h
      obtain ⟨-, hcalls⟩ := List.forall_mem_cons.mp hcalls
      by_cases hhappens : event t = true
      · have hnone : turns.countP event = 0 :=
          countP_eq_zero hevent hrest hcalls (hevent.spends ht hhappens).2
        exact Nat.le_of_eq (by rw [List.countP_cons_of_pos hhappens, hnone])
      · rw [List.countP_cons_of_neg hhappens]
        exact ih hrest hcalls

/-- All that is held was attached last, each finding at the anchor it had then, and was not
dismissed since. -/
theorem attachedLast {style : Style} (h : Serial (ofStyle style) turns after)
    {bindings : Bindings Element Stamp} (hheld : after.held = some bindings) :
    ∃ findings d since, AttachedLast turns findings d since ∧
      ∀ f element, bindings.anchors.get? f = some element →
        f ∈ findings ∧ d.anchor f.line = .ok element ∧ ∀ t ∈ since, t.call ≠ .dismiss f := by
  have hfollows := h.follows (follows_ofStyle style)
  rw [follows_iff_of_some hheld, List.nil_append] at hfollows
  obtain ⟨findings, d, since, ⟨before, hbefore⟩, hsince⟩ := hfollows
  obtain ⟨earlier, rest, rfl, -, hrest⟩ := List.map_eq_append_iff.mp hbefore
  obtain ⟨t, later, rfl, ht, rfl⟩ := List.map_eq_cons_iff.mp hrest
  refine ⟨findings, d, later, ⟨⟨t, ⟨earlier, rfl⟩, Turn.call_of_incident_eq_attached ht⟩, ?_⟩, ?_⟩
  · intro t ht
    rw [← Turn.isAttaching_incident]
    exact hsince.latest _ (List.mem_map_of_mem ht)
  · intro f element hf
    obtain ⟨⟨hmem, hdismissed⟩, hanchor⟩ := (hsince.anchors f element).mp hf
    refine ⟨hmem, hanchor, fun t ht hcall => hdismissed (List.mem_map.mpr ⟨t, ht, ?_⟩)⟩
    rw [Turn.incident, hcall]

/-- A query shows what was attached last, and what was not dismissed since. -/
theorem shown {style : Style} (h : Serial (ofStyle style) (earlier ++ t :: later) after)
    {ms : List (Marker Element)} (ht : t.answer = .shown (.markers ms)) :
    ms = [] ∨ ∃ findings d since, AttachedLast earlier findings d since ∧
      ∀ m ∈ ms, m.finding ∈ findings ∧ d.anchor m.finding.line = .ok m.anchor ∧
        ∀ t ∈ since, t.call ≠ .dismiss m.finding := by
  obtain ⟨middle, hearlier, hmiddle⟩ := h.exists_of_cut
  obtain ⟨d, hquery⟩ := exists_query_of_shown (hmiddle.symm.trans ht)
  rcases hheld : middle.held with - | bindings
  · rw [query_of_none hheld] at hquery
    cases hquery
    exact Or.inl rfl
  · obtain ⟨findings, d', since, hlast, hanchors⟩ := hearlier.attachedLast hheld
    refine Or.inr ⟨findings, d', since, hlast, fun m hm => hanchors _ _ ?_⟩
    have hm := anchor?_of_mem_query hquery hm
    rwa [anchor?, hheld] at hm

/-- After findings were attached the gutter is as if it had been empty before. -/
theorem eq_attach {style : Style} {last : Turn Element Stamp}
    (h : Serial (ofStyle style) (earlier ++ [last]) after) {findings : List Finding}
    {d : Document Element Stamp} (hlast : last.call = .attach findings d) :
    after = ((ofStyle style).attach findings d).2 := by
  obtain ⟨middle, hearlier, hafter⟩ := append_iff.mp h
  rw [← nil_iff.mp (cons_iff.mp hafter).2, hlast]
  show (middle.attach findings d).2 = _
  rw [attach, attach, hearlier.style_eq]

end Serial

end Gutter

/-! ### Handles -/

namespace SharedGutters

/-- A gutter that some handles name, and no other. -/
def ofGutter (g : Gutter Element Stamp) (handles : Nat) : SharedGutters Element Stamp :=
  ⟨#[g], Array.replicate handles 0⟩

/-- An empty gutter, the handle it was made with, and some copies of that handle. -/
def copies (style : Style) : Nat → SharedGutters Element Stamp
  | 0 => ofStyles [style]
  | n + 1 =>
      match (copies style n).copyHandle 0 with
      | some (_, s) => s
      | none => copies style n

/-- Clients make calls in this order, each by the handle of its number. -/
def performInOrder (s : SharedGutters Element Stamp) :
    List (Nat × Call Element Stamp) →
      Option (List (Turn Element Stamp) × SharedGutters Element Stamp)
  | [] => some ([], s)
  | (client, call) :: order => do
      let (answer, s) ← s.perform client call
      let (turns, s) ← s.performInOrder order
      return (⟨client, call, answer⟩ :: turns, s)

omit [BEq Element] [BEq Stamp] in
/-- Every copy of a handle names the gutter the handle names. -/
theorem copies_eq (style : Style) (n : Nat) :
    (copies style n : SharedGutters Element Stamp) = ofGutter (.ofStyle style) (n + 1) := by
  induction n with
  | zero => rfl
  | succ n ih =>
      have hfirst : (Array.replicate (n + 1) 0)[0]? = some 0 := by simp
      rw [copies, ih, copyHandle, ofGutter, hfirst]
      simp [ofGutter, Array.replicate_succ]

/-- A call by any of the handles is a call on the gutter. -/
theorem perform_ofGutter {g : Gutter Element Stamp} {client handles : Nat}
    (hclient : client < handles) (call : Call Element Stamp) :
    (ofGutter g handles).perform client call
      = some ((g.perform call).1, ofGutter (g.perform call).2 handles) := by
  simp [perform, ofGutter, hclient]

/-- No call is refused, and the answers are those the gutter gives to one call after another. -/
theorem performInOrder_of_serial {g after : Gutter Element Stamp} {handles : Nat}
    {turns : List (Turn Element Stamp)} (hclients : ∀ t ∈ turns, t.client < handles)
    (h : g.Serial turns after) :
    (ofGutter g handles).performInOrder (turns.map fun t => (t.client, t.call))
      = some (turns, ofGutter after handles) := by
  induction turns generalizing g with
  | nil => rw [Gutter.Serial.nil_iff.mp h, List.map_nil, performInOrder]
  | cons t turns ih =>
      obtain ⟨hclient, hclients⟩ := List.forall_mem_cons.mp hclients
      obtain ⟨ht, hturns⟩ := Gutter.Serial.cons_iff.mp h
      rw [List.map_cons, performInOrder, perform_ofGutter hclient]
      simp [ih hclients hturns, ← ht]

/-! ### All clients -/

/-- Any number of clients make calls on one gutter, by handles that are copies of one another, in
any order that keeps to the program of each.  No call is refused, and the answers are those the
gutter gives to the calls in that order.  Then, whichever client makes a call:

* a query shows findings of the latest attaching before it and of no other, each at the anchor it
  had in that document, and none that was dismissed since;
* in a stretch of turns in which nothing is attached, each finding is dismissed at most once, and at
  most one query tells that the findings are gone;
* where the last turn attaches findings, the gutter is as if they were attached to an empty one. -/
theorem atomic_for_all_clients (style : Style) {programs : List (List (Call Element Stamp))}
    {order : List (Nat × Call Element Stamp)} (h : Interleaving programs order) :
    ∃ turns g, (copies style programs.length).performInOrder order
          = some (turns, ofGutter g (programs.length + 1)) ∧
      turns.map (fun t => (t.client, t.call)) = order ∧
      (Gutter.ofStyle style).Serial turns g ∧
      (∀ before t after ms, turns = before ++ t :: after → t.answer = .shown (.markers ms) →
        ms = [] ∨ ∃ findings d since, AttachedLast before findings d since ∧
          ∀ m ∈ ms, m.finding ∈ findings ∧ d.anchor m.finding.line = .ok m.anchor ∧
            ∀ t ∈ since, t.call ≠ .dismiss m.finding) ∧
      (∀ before stretch after, turns = before ++ stretch ++ after →
        (∀ t ∈ stretch, t.call.isAttach = false) →
          (∀ f, stretch.countP (Turn.isDismissalOf f) ≤ 1) ∧
            stretch.countP Turn.isInvalidation ≤ 1) ∧
      ∀ before last findings d, turns = before ++ [last] → last.call = .attach findings d →
        g = ((Gutter.ofStyle style).attach findings d).2 := by
  obtain ⟨turns, g, rfl, hserial⟩ :=
    Gutter.Serial.exists_of_order (Gutter.ofStyle style : Gutter Element Stamp) order
  refine ⟨turns, g, ?_, rfl, hserial, ?_, ?_, ?_⟩
  · rw [copies_eq]
    apply performInOrder_of_serial ?_ hserial
    exact fun t ht => Nat.lt_succ_of_lt (h.lt_length _ (List.mem_map_of_mem ht))
  · rintro before t after ms rfl ht
    exact hserial.shown ht
  · rintro before stretch after rfl hstretch
    obtain ⟨middle, hbefore, -⟩ := Gutter.Serial.append_iff.mp hserial
    obtain ⟨start, -, hmiddle⟩ := Gutter.Serial.append_iff.mp hbefore
    exact ⟨fun f => hmiddle.countP_le_one (Gutter.happensOnce_isDismissalOf f) hstretch,
      hmiddle.countP_le_one Gutter.happensOnce_isInvalidation hstretch⟩
  · rintro before last findings d rfl hlast
    exact hserial.eq_attach hlast

/-- Of three clients one attaches two findings, the others both dismiss the first of them and both
ask again when the document has changed; then one of them attaches another finding. -/
theorem atomic_for_three_clients :
    let doc (stamp : Nat) : Document Nat Nat :=
      { lineCount := 2, lineStart := fun line => if line < 2 then some (10 * line) else none
        lineOf := fun offset => some (offset / 10), stamp := stamp
        elementAt := fun offset => some offset, nextSibling := fun _ => none
        range := fun e => some ⟨e - 2, e + 1⟩, start := some }
    let both : Call Nat Nat := .attach [⟨0, "x"⟩, ⟨1, "y"⟩] (doc 1)
    let other : Call Nat Nat := .attach [⟨1, "z"⟩] (doc 2)
    let x : Finding := ⟨0, "x"⟩
    let shown : Marker Nat := ⟨10, ⟨8, 11⟩, Style.icon {}, Style.refresh {}, ⟨1, "y"⟩⟩
    let programs : List (List (Call Nat Nat)) :=
      [[both, .query (doc 1)], [.dismiss x, .query (doc 2)],
        [.dismiss x, .query (doc 2), other]]
    let stretch : List (Turn Nat Nat) :=
      [⟨2, .dismiss x, .dismissed true⟩, ⟨1, .dismiss x, .dismissed false⟩,
        ⟨0, .query (doc 1), .shown (.markers [shown])⟩, ⟨1, .query (doc 2), .shown .invalidated⟩,
        ⟨2, .query (doc 2), .shown (.markers [])⟩]
    let turns := ⟨0, both, .attached ⟨2, 0⟩⟩ :: stretch ++ [⟨2, other, .attached ⟨1, 0⟩⟩]
    let order := turns.map fun t => (t.client, t.call)
    Interleaving programs order ∧
      ∃ g, (copies {} 3).performInOrder order = some (turns, ofGutter g 4) ∧
        (∃ findings d since, AttachedLast (turns.take 3) findings d since ∧
          shown.finding ∈ findings ∧ d.anchor shown.finding.line = .ok shown.anchor ∧
            ∀ t ∈ since, t.call ≠ .dismiss shown.finding) ∧
        stretch.countP (Turn.isDismissalOf x) ≤ 1 ∧ stretch.countP Turn.isInvalidation ≤ 1 ∧
        g = ((Gutter.ofStyle {}).attach [⟨1, "z"⟩] (doc 2)).2 := by
  intro doc both other x shown programs stretch turns order
  have hinterleaving : Interleaving programs order := by
    refine .turn rfl (.turn rfl (.turn rfl (.turn rfl ?_)))
    exact .turn rfl (.turn rfl (.turn rfl (.stop _)))
  obtain ⟨turns', g, hturns, -, -, hshown, hstretch, hlast⟩ :=
    atomic_for_all_clients {} hinterleaving
  have heval : (copies {} 3).performInOrder order
      = some (turns, ofGutter ((Gutter.ofStyle {}).attach [⟨1, "z"⟩] (doc 2)).2 4) := by
    rw [copies_eq]
    exact performInOrder_of_serial (by decide) rfl
  obtain rfl : turns = turns' := congrArg Prod.fst (Option.some.inj (heval.symm.trans hturns))
  refine ⟨hinterleaving, g, hturns, ?_, ?_⟩
  · rcases hshown (turns.take 3) _ _ [shown] rfl rfl with h | ⟨findings, d, since, hlast, h⟩
    · cases h
    · exact ⟨findings, d, since, hlast, h shown List.mem_cons_self⟩
  · obtain ⟨hdismissed, hinvalidated⟩ := hstretch [_] stretch [_] rfl (by decide)
    exact ⟨hdismissed x, hinvalidated, hlast (_ :: stretch) _ _ _ rfl rfl⟩

end SharedGutters

end Marginalia
