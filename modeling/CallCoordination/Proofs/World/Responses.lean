import CallCoordination.Proofs.World.Moves

/-!
# What legs send

Legs send when they move by themselves and when the surroundings respond to an event. A response
depends on the event and on what the surroundings remember, and it goes through the registrations
that legs hold by then. Letters that are under way already play no part in it, so the trace tells
what was sent in response.
-/

namespace CallCoordination

variable {r : Roster} {b : Behaviour r}

/-- An event that a coordinator notes for itself, and that calls for no response. -/
def Event.isHeard : Event r → Bool
  | heardState _ _ | heardEvent _ _ => true
  | _ => false

namespace World

/-! ## Letters of an effect -/

/-- The letters that an effect puts on the wire. -/
def writtenBy (w : World b) : Effect r → List Letter
  | .changeState slot state =>
    (w.leg slot).registrations.map (letter slot none (.stateChanged state))
  | .notify slot under notification =>
    (w.leg slot).registrations.map (letter slot under notification)
  | .send slot index under notification =>
    (w.leg slot).registrations[index]?.toList.map (letter slot under notification)
  | .setState _ _ | .queueAnswer _ _ => []

theorem wire_apply_eq (w : World b) (effect : Effect r) :
    (w.apply effect).wire = w.wire ++ w.writtenBy effect := by
  cases effect with
  | changeState slot state =>
    rw [apply, notify, writtenBy, setState, leg_modifyLeg_self]
    rfl
  | notify _ _ _ | send _ _ _ _ => rfl
  | setState _ _ | queueAnswer _ _ => exact (List.append_nil _).symm

theorem writtenBy_congr {w w' : World b}
    (h : ∀ slot, (w'.leg slot).registrations = (w.leg slot).registrations) :
    w'.writtenBy = w.writtenBy := by
  funext effect
  cases effect <;> simp only [writtenBy, h]

/-- No effect changes a registration, so all letters are those of the registrations at first. -/
theorem wire_applyAll_eq (w : World b) (effects : List (Effect r)) :
    (w.applyAll effects).wire = w.wire ++ effects.flatMap w.writtenBy := by
  induction effects generalizing w with
  | nil => exact (List.append_nil _).symm
  | cons effect effects ih =>
    have hsame : (w.apply effect).writtenBy = w.writtenBy :=
      writtenBy_congr (registrations_apply w effect)
    rw [applyAll_cons, ih, hsame, wire_apply_eq, List.append_assoc, List.flatMap_cons]

theorem wire_stir (w : World b) (memory : b.Memory) (effects : List (Effect r)) :
    (w.stir memory effects).wire = w.wire ++ effects.flatMap w.writtenBy :=
  wire_applyAll_eq { w with memory := memory } effects

/-! ## Letters in response to events -/

/-- What a request does to the leg itself. -/
def touch (w : World b) : Event r → World b
  | .asked slot (.register registration) => w.modifyLeg slot (·.register registration)
  | .asked slot (.unregister observer) => w.modifyLeg slot (·.unregister observer)
  | .dialled slot _ _ _ => w.modifyLeg slot fun leg => { leg with answers := leg.answers.tail }
  | _ => w

/-- The world after an event and the response to it. -/
def after (w : World b) (event : Event r) : World b :=
  if event.isHeard then w.note event else (w.touch event).emit event

/-- What legs send in response to an event. -/
def response (w : World b) (event : Event r) : List Letter :=
  if event.isHeard then []
  else (b.react w.memory event).2.flatMap (w.touch event).writtenBy

/-- What legs send in response to one event after the other. -/
def responses (w : World b) : List (Event r) → List Letter
  | [] => []
  | event :: later => w.response event ++ (w.after event).responses later

theorem responses_append (w : World b) (events later : List (Event r)) :
    w.responses (events ++ later) =
      w.responses events ++ (events.foldl after w).responses later := by
  induction events generalizing w with
  | nil => rfl
  | cons event events ih =>
    rw [List.cons_append, responses, responses, ih, List.append_assoc, List.foldl_cons]

theorem responses_eq_nil (w : World b) {events : List (Event r)}
    (h : ∀ event ∈ events, event.isHeard = true) : w.responses events = [] := by
  induction events generalizing w with
  | nil => rfl
  | cons event events ih =>
    rw [responses, ih _ fun later hlater => h later (List.mem_cons_of_mem event hlater), response,
      if_pos (h event List.mem_cons_self), List.append_nil]

theorem memory_touch (w : World b) (event : Event r) : (w.touch event).memory = w.memory := by
  unfold touch
  split <;> rfl

theorem wire_touch (w : World b) (event : Event r) : (w.touch event).wire = w.wire := by
  unfold touch
  split <;> rfl

theorem wire_after (w : World b) (event : Event r) :
    (w.after event).wire = w.wire ++ w.response event := by
  unfold after response
  split
  · exact (List.append_nil _).symm
  · have hemit := wire_stir ((w.touch event).note event) (b.react (w.touch event).memory event).1
      (b.react (w.touch event).memory event).2
    rw [memory_touch] at hemit
    rw [← wire_touch w event, emit, memory_touch]
    exact hemit

theorem trace_after (w : World b) (event : Event r) :
    (w.after event).trace = w.trace ++ [event] := by
  have htouch : (w.touch event).trace = w.trace := by
    unfold touch
    split <;> rfl
  unfold after
  split
  · rfl
  · rw [trace_emit, htouch]

theorem ask_eq_after (w : World b) (slot : Slot r) (request : LegRequest) :
    w.ask slot request = w.after (.asked slot request) := by
  cases request <;> rfl

/-! ## Letters under way play no part -/

/-- The legs are the same, and the surroundings remember the same. -/
structure Alike (w w' : World b) : Prop where
  legs : w'.legs = w.legs
  memory : w'.memory = w.memory

namespace Alike

variable {w w' : World b}

theorem modifyLeg (h : Alike w w') (slot : Slot r) (f : Leg → Leg) :
    Alike (w.modifyLeg slot f) (w'.modifyLeg slot f) where
  legs := by simp only [World.modifyLeg, leg, h.legs]
  memory := h.memory

theorem apply (h : Alike w w') (effect : Effect r) : Alike (w.apply effect) (w'.apply effect) := by
  cases effect with
  | changeState slot state =>
    exact ⟨(h.modifyLeg slot ({ · with state := state })).legs, h.memory⟩
  | setState slot state => exact h.modifyLeg slot ({ · with state := state })
  | queueAnswer slot answer =>
    exact h.modifyLeg slot fun leg => { leg with answers := leg.answers ++ [answer] }
  | notify _ _ _ | send _ _ _ _ => exact ⟨h.legs, h.memory⟩

theorem stir (h : Alike w w') (memory : b.Memory) (effects : List (Effect r)) :
    Alike (w.stir memory effects) (w'.stir memory effects) := by
  have hall {v v' : World b} (hv : Alike v v') :
      Alike (v.applyAll effects) (v'.applyAll effects) := by
    induction effects generalizing v v' with
    | nil => exact hv
    | cons effect effects ih => exact ih (hv.apply effect)
  exact hall ⟨h.legs, rfl⟩

theorem touch (h : Alike w w') (event : Event r) : Alike (w.touch event) (w'.touch event) := by
  unfold World.touch
  split
  · exact h.modifyLeg _ _
  · exact h.modifyLeg _ _
  · exact h.modifyLeg _ _
  · exact h

theorem after (h : Alike w w') (event : Event r) : Alike (w.after event) (w'.after event) := by
  unfold World.after
  split
  · exact ⟨h.legs, h.memory⟩
  · have htouch := h.touch event
    have hnoted : Alike ((w.touch event).note event) ((w'.touch event).note event) :=
      ⟨htouch.legs, htouch.memory⟩
    rw [emit, emit, htouch.memory]
    exact hnoted.stir _ _

theorem response_eq (h : Alike w w') (event : Event r) : w'.response event = w.response event := by
  have hwritten : (w'.touch event).writtenBy = (w.touch event).writtenBy :=
    writtenBy_congr fun slot => by rw [leg, leg, (h.touch event).legs]
  rw [response, response, h.memory, hwritten]

end Alike

/-! ## Steps of a world -/

/-- From `w` to `w'` the events happened, and what came for the observer is what legs sent in
response to them. -/
structure Elapses (observer : Observer) (w : World b) (events : List (Event r)) (w' : World b) :
    Prop where
  trace : w'.trace = w.trace ++ events
  alike : Alike (events.foldl after w) w'
  mailbox : w'.mailbox observer =
    w.mailbox observer ++ ((w.responses events).filter (·.recipient = observer)).map (·.signal)

namespace Elapses

variable {observer : Observer} {w w' w'' : World b} {events : List (Event r)}

theorem refl (observer : Observer) (w : World b) : Elapses observer w [] w :=
  ⟨(List.append_nil _).symm, ⟨rfl, rfl⟩, (List.append_nil _).symm⟩

theorem after (h : Elapses observer w events w') (event : Event r) :
    Elapses observer w (events ++ [event]) (w'.after event) where
  trace := by rw [trace_after, h.trace, List.append_assoc]
  alike := by
    rw [List.foldl_append]
    exact h.alike.after event
  mailbox := by
    rw [mailbox_of_wire (wire_after w' event), h.mailbox, responses_append, responses, responses,
      List.append_nil, h.alike.response_eq, List.filter_append, List.map_append, List.append_assoc]

theorem collect (h : Elapses observer w events w') {mover : Observer} (hne : observer ≠ mover)
    {signal : Signal} (hcollect : w'.collect mover = some (signal, w'')) :
    Elapses observer w events w'' where
  trace := by rw [collect_eq_some hcollect, ← h.trace]
  alike := by
    rw [collect_eq_some hcollect]
    exact ⟨h.alike.legs, h.alike.memory⟩
  mailbox := by rw [mailbox_collect_of_ne hcollect hne, h.mailbox]

end Elapses

/-- What is done on behalf of others. -/
theorem Moves.exists_elapses {mover observer : Observer} (hne : observer ≠ mover) {w w' : World b}
    (h : Moves mover w w') : ∃ events, Elapses observer w events w' := by
  induction h with
  | refl => exact ⟨[], .refl observer w⟩
  | tail _ hmove ih =>
    obtain ⟨events, hevents⟩ := ih
    cases hmove with
    | ask slot _ =>
      rw [ask_eq_after]
      exact ⟨_, hevents.after _⟩
    | dial slot callee terms => exact ⟨_, hevents.after (.dialled slot callee terms _)⟩
    | tell success listener => exact ⟨_, hevents.after (.told listener success _)⟩
    | report handler leg fault => exact ⟨_, hevents.after (.faultReported handler leg fault)⟩
    | noteState leg state => exact ⟨_, hevents.after (.heardState leg state)⟩
    | noteEvent leg event => exact ⟨_, hevents.after (.heardEvent leg event)⟩
    | collect hcollect => exact ⟨events, hevents.collect hne hcollect⟩

end World

end CallCoordination
