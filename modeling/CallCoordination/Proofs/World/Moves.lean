import CallCoordination.Proofs.World.Trace
import Mathlib.Logic.Relation

/-!
# Moves in a world

What is done to a world on behalf of a coordinator is a chain of moves: requests and orders, calls
of listeners and handlers, notes, and letters taken off the wire. Registrations are made, dropped
and emptied of their letters for the coordinator's own observer only. The trace shows which epochs
an observer has handed out, and every letter on the wire is of one of them.
-/

namespace CallCoordination

variable {r : Roster} {b : Behaviour r}

/-- A request that concerns no registration but those of one observer. -/
def LegRequest.OnBehalf (observer : Observer) : LegRequest → Prop
  | register registration => registration.observer = observer
  | unregister other => other = observer
  | hold | resume | answer _ | disconnect _ => True

/-- The epoch of the registration that an observer hands to a leg in this event. -/
def Event.epoch? (observer : Observer) : Event r → Option Nat
  | asked _ (.register registration) =>
    if registration.observer = observer then some registration.epoch else none
  | _ => none

namespace World

/-! ## Letters in the mailbox -/

theorem mailbox_of_wire {w w' : World b} {letters : List Letter}
    (h : w'.wire = w.wire ++ letters) (observer : Observer) :
    w'.mailbox observer =
      w.mailbox observer ++ (letters.filter (·.recipient = observer)).map (·.signal) := by
  simp [mailbox, h]

theorem collect_eq_some {w w' : World b} {observer : Observer} {signal : Signal}
    (h : w.collect observer = some (signal, w')) :
    w' = { w with wire := w.wire.eraseP (·.recipient = observer) } := by
  unfold collect at h
  split at h
  · simp at h
  · obtain ⟨-, rfl⟩ := by simpa using h
    rfl

theorem mailbox_collect_of_ne {w w' : World b} {mine other : Observer} {signal : Signal}
    (h : w.collect other = some (signal, w')) (hne : mine ≠ other) :
    w'.mailbox mine = w.mailbox mine := by
  have erased (wire : List Letter) :
      (wire.eraseP (·.recipient = other)).filter (·.recipient = mine) =
        wire.filter (·.recipient = mine) := by
    induction wire with
    | nil => rfl
    | cons letter wire ih =>
      by_cases hl : letter.recipient = other
      · simp [hl, Ne.symm hne]
      · simp [hl, List.filter_cons, ih]
  rw [collect_eq_some h, mailbox, mailbox, erased]

/-- A letter that can be sent through a registration which some leg holds. -/
def Sends (w : World b) (letter : Letter) : Prop :=
  ∃ slot, ∃ registration ∈ (w.leg slot).registrations,
    letter.recipient = registration.observer ∧ letter.signal.epoch = registration.epoch

theorem sent_apply (w : World b) (effect : Effect r) :
    ∃ letters, (w.apply effect).wire = w.wire ++ letters ∧ ∀ letter ∈ letters, w.Sends letter := by
  have sent (slot : Slot r) {registrations : List Registration}
      (h : ∀ registration ∈ registrations, registration ∈ (w.leg slot).registrations)
      (under : Option Leg.Id) (notification : Notification) :
      ∀ sent ∈ registrations.map (letter slot under notification), w.Sends sent := by
    intro sent hmem
    obtain ⟨registration, hregistration, rfl⟩ := List.mem_map.mp hmem
    exact ⟨slot, registration, h registration hregistration, rfl, rfl⟩
  cases effect with
  | changeState slot state =>
    refine ⟨_, rfl, sent slot ?_ _ _⟩
    intro registration hmem
    rwa [setState, leg_modifyLeg_self] at hmem
  | setState slot state => exact ⟨[], (List.append_nil _).symm, nofun⟩
  | notify slot under notification => exact ⟨_, rfl, sent slot (fun _ => id) _ _⟩
  | send slot index under notification =>
    refine ⟨_, rfl, sent slot ?_ _ _⟩
    intro registration hmem
    exact List.mem_of_getElem? (Option.mem_toList.mp hmem)
  | queueAnswer slot answer => exact ⟨[], (List.append_nil _).symm, nofun⟩

theorem Sends.of_registrations {w w' : World b} {letter : Letter} (h : w'.Sends letter)
    (hsame : ∀ slot, (w'.leg slot).registrations = (w.leg slot).registrations) :
    w.Sends letter := by
  obtain ⟨slot, registration, hmem, hletter⟩ := h
  exact ⟨slot, registration, hsame slot ▸ hmem, hletter⟩

theorem sent_applyAll (w : World b) (effects : List (Effect r)) :
    ∃ letters, (w.applyAll effects).wire = w.wire ++ letters ∧
      ∀ letter ∈ letters, w.Sends letter := by
  induction effects generalizing w with
  | nil => exact ⟨[], (List.append_nil _).symm, nofun⟩
  | cons effect effects ih =>
    obtain ⟨first, hfirst, hsent⟩ := sent_apply w effect
    obtain ⟨rest, hrest, hsent'⟩ := ih (w.apply effect)
    refine ⟨first ++ rest, by rw [applyAll_cons, hrest, hfirst, List.append_assoc], ?_⟩
    intro letter hmem
    rcases List.mem_append.mp hmem with hmem | hmem
    · exact hsent letter hmem
    · exact (hsent' letter hmem).of_registrations fun slot => registrations_apply w effect slot

/-! ## Moves -/

inductive Move (observer : Observer) : World b → World b → Prop
  | ask (w : World b) (slot : Slot r) {request : LegRequest} (h : request.OnBehalf observer) :
      Move observer w (w.ask slot request)
  | dial (w : World b) (slot : Slot r) (callee : Callee) (terms : DialTerms) :
      Move observer w (w.dial slot callee terms).2
  | tell (w : World b) (success : Bool) (listener : Listener) :
      Move observer w (w.tell success listener)
  | report (w : World b) (handler : FaultHandler) (leg : Leg.Id) (fault : DialFault) :
      Move observer w (w.emit (.faultReported handler leg fault))
  | noteState (w : World b) (leg : Leg.Id) (state : Leg.State) :
      Move observer w (w.note (.heardState leg state))
  | noteEvent (w : World b) (leg : Leg.Id) (event : ConnectionEvent) :
      Move observer w (w.note (.heardEvent leg event))
  | collect {w w' : World b} {signal : Signal} (h : w.collect observer = some (signal, w')) :
      Move observer w w'

abbrev Moves (observer : Observer) : World b → World b → Prop :=
  Relation.ReflTransGen (Move observer)

/-- The epochs that an observer has handed out, oldest first. -/
def epochs (w : World b) (observer : Observer) : List Nat :=
  w.trace.filterMap (·.epoch? observer)

theorem epochs_of_trace {w w' : World b} {events : List (Event r)}
    (h : w'.trace = w.trace ++ events) (observer : Observer) :
    w'.epochs observer = w.epochs observer ++ events.filterMap (·.epoch? observer) := by
  rw [epochs, h, List.filterMap_append, epochs]

theorem epochs_note (w : World b) (event : Event r) (observer : Observer) :
    (w.note event).epochs observer =
      w.epochs observer ++ [event].filterMap (·.epoch? observer) :=
  epochs_of_trace rfl observer

@[simp] theorem epochs_stir (w : World b) (memory : b.Memory) (effects : List (Effect r))
    (observer : Observer) : (w.stir memory effects).epochs observer = w.epochs observer := by
  rw [epochs, trace_stir, epochs]

theorem Move.grows {observer : Observer} {w w' : World b} (h : Move observer w w') :
    Grows (fun event => ∀ other, other ≠ observer → event.epoch? other = none) w w' := by
  cases h with
  | @ask slot request hrequest =>
    refine (grows_ask w slot request).mono ?_
    rintro event rfl other hne
    cases request with
    | register registration => exact if_neg fun h => hne (h.symm.trans hrequest)
    | unregister _ | hold | resume | answer _ | disconnect _ => rfl
  | dial slot callee terms => exact .single (trace_dial w slot callee terms) fun _ _ => rfl
  | tell success listener => exact .single (trace_emit w _) fun _ _ => rfl
  | report handler leg fault => exact .single (trace_emit w _) fun _ _ => rfl
  | noteState leg state => exact .single rfl fun _ _ => rfl
  | noteEvent leg event => exact .single rfl fun _ _ => rfl
  | collect hcollect => exact .of_eq _ (by rw [collect_eq_some hcollect])

theorem Moves.grows {observer : Observer} {w w' : World b} (h : Moves observer w w') :
    Grows (fun event => ∀ other, other ≠ observer → event.epoch? other = none) w w' := by
  induction h with
  | refl => exact .refl _ w
  | tail _ hmove ih => exact ih.trans hmove.grows

theorem Moves.epochs_of_ne {observer mine : Observer} {w w' : World b} (h : Moves observer w w')
    (hne : mine ≠ observer) : w'.epochs mine = w.epochs mine :=
  h.grows.filterMap_eq fun _ hevent => hevent mine hne

/-! ## Every letter is of an epoch that was handed out -/

/-- Whatever legs hold of an observer, and whatever they sent it, is of an epoch that the trace
shows. -/
structure Accounted (observer : Observer) (w : World b) : Prop where
  registered : ∀ slot, ∀ registration ∈ (w.leg slot).registrations,
    registration.observer = observer → registration.epoch ∈ w.epochs observer
  mailed : ∀ signal ∈ w.mailbox observer, signal.epoch ∈ w.epochs observer

namespace Accounted

variable {observer : Observer} {w w' : World b}

/-- Legs may lose registrations and the wire letters, as long as the trace only grows. -/
theorem of_subset (h : Accounted observer w)
    (hregistrations : ∀ slot, ∀ registration ∈ (w'.leg slot).registrations,
      registration ∈ (w.leg slot).registrations)
    (hmailbox : ∀ signal ∈ w'.mailbox observer, signal ∈ w.mailbox observer)
    (hepochs : ∀ epoch ∈ w.epochs observer, epoch ∈ w'.epochs observer) :
    Accounted observer w' where
  registered slot registration hmem hmine :=
    hepochs _ (h.registered slot registration (hregistrations slot registration hmem) hmine)
  mailed signal hmem := hepochs _ (h.mailed signal (hmailbox signal hmem))

theorem stir (h : Accounted observer w) (memory : b.Memory) (effects : List (Effect r)) :
    Accounted observer (w.stir memory effects) := by
  obtain ⟨letters, hwire, hsent⟩ := sent_applyAll { w with memory := memory } effects
  refine ⟨fun slot registration hmem hmine => ?_, fun signal hmem => ?_⟩
  · rw [epochs_stir]
    rw [World.stir, registrations_applyAll] at hmem
    exact h.registered slot registration hmem hmine
  · rw [epochs_stir]
    have hmailbox : (w.stir memory effects).mailbox observer =
        w.mailbox observer ++ (letters.filter (·.recipient = observer)).map (·.signal) :=
      mailbox_of_wire (w := w) hwire observer
    rw [hmailbox] at hmem
    rcases List.mem_append.mp hmem with hmem | hmem
    · exact h.mailed signal hmem
    · obtain ⟨letter, hletter, rfl⟩ := List.mem_map.mp hmem
      obtain ⟨hin, hto⟩ := List.mem_filter.mp hletter
      obtain ⟨slot, registration, hregistration, hrecipient, hepoch⟩ := hsent letter hin
      rw [hepoch]
      exact h.registered slot registration hregistration
        (hrecipient.symm.trans (of_decide_eq_true hto))

theorem note (h : Accounted observer w) (event : Event r) : Accounted observer (w.note event) := by
  refine h.of_subset (fun _ _ => id) (fun _ => id) fun epoch hmem => ?_
  rw [epochs_note]
  exact List.mem_append_left _ hmem

theorem emit (h : Accounted observer w) (event : Event r) : Accounted observer (w.emit event) :=
  (h.note event).stir _ _

theorem modifyLeg (h : Accounted observer w) (slot : Slot r) {f : Leg → Leg}
    (hf : ∀ registration ∈ (f (w.leg slot)).registrations,
      registration ∈ (w.leg slot).registrations) :
    Accounted observer (w.modifyLeg slot f) := by
  refine h.of_subset (fun other registration hmem => ?_) (fun _ => id) fun _ => id
  by_cases he : other = slot
  · subst he
    rw [leg_modifyLeg_self] at hmem
    exact hf registration hmem
  · rwa [leg_modifyLeg_ne w he] at hmem

theorem register (h : Accounted observer w) (slot : Slot r) (registration : Registration) :
    Accounted observer (w.ask slot (.register registration)) := by
  have hepochs (epoch : Nat) (hmem : epoch ∈ w.epochs observer) : epoch ∈
      ((w.modifyLeg slot (·.register registration)).note
        (.asked slot (.register registration))).epochs observer := by
    rw [epochs_note]
    exact List.mem_append_left _ hmem
  -- the epoch is in the trace before anything can be sent through the registration
  refine stir ⟨fun other held hmem hmine => ?_, fun signal hmem => ?_⟩ _ _
  · by_cases he : other = slot
    · subst he
      change held ∈ ((w.modifyLeg other (·.register registration)).leg other).registrations at hmem
      rw [leg_modifyLeg_self, Leg.register, List.mem_append, List.mem_singleton] at hmem
      rcases hmem with hmem | rfl
      · exact hepochs _ (h.registered other held hmem hmine)
      · rw [epochs_note]
        simp [Event.epoch?, hmine]
    · change held ∈ ((w.modifyLeg slot (·.register registration)).leg other).registrations at hmem
      rw [leg_modifyLeg_ne w he] at hmem
      exact hepochs _ (h.registered other held hmem hmine)
  · exact hepochs _ (h.mailed signal hmem)

theorem move (h : Accounted observer w) {mover : Observer} (hmove : Move mover w w') :
    Accounted observer w' := by
  cases hmove with
  | @ask slot request hrequest =>
    cases request with
    | register registration => exact h.register slot registration
    | unregister other =>
      refine (h.modifyLeg slot fun registration hmem => ?_).emit _
      unfold Leg.unregister at hmem
      split at hmem
      · exact hmem
      · exact List.mem_filter.mp hmem |>.1
    | hold | resume | answer _ | disconnect _ => exact h.emit _
  | dial slot callee terms =>
    exact (h.modifyLeg slot (f := fun leg => { leg with answers := leg.answers.tail })
      fun _ => id).emit _
  | tell success listener => exact h.emit _
  | report handler leg fault => exact h.emit _
  | noteState leg state => exact h.note _
  | noteEvent leg event => exact h.note _
  | collect hcollect =>
    refine h.of_subset (fun _ _ hmem => ?_) (fun signal hmem => ?_) fun _ hmem => ?_
    · rwa [collect_eq_some hcollect] at hmem
    · rw [collect_eq_some hcollect] at hmem
      have hsub := (List.eraseP_sublist (l := w.wire) (p := (·.recipient = mover)))
      exact ((hsub.filter _).map _).subset hmem
    · rwa [collect_eq_some hcollect]

end Accounted

/-! ## Worlds that follow one another -/

/-- Something is done in a world, on behalf of any coordinator, or happens by itself. -/
inductive Happens : World b → World b → Prop
  | move {observer : Observer} {w w' : World b} (h : Move observer w w') : Happens w w'
  | stir (w : World b) (memory : b.Memory) (effects : List (Effect r)) :
      Happens w (w.stir memory effects)

abbrev Leads : World b → World b → Prop := Relation.ReflTransGen Happens

theorem Moves.leads {observer : Observer} {w w' : World b} (h : Moves observer w w') :
    Leads w w' :=
  h.lift id fun _ _ => .move

theorem Leads.accounted {observer : Observer} {w w' : World b} (h : Leads w w')
    (hw : Accounted observer w) : Accounted observer w' := by
  induction h with
  | refl => exact hw
  | tail _ hhappens ih =>
    cases hhappens with
    | move hmove => exact ih.move hmove
    | stir _ memory effects => exact ih.stir memory effects

/-- An observer that nobody has heard of yet. -/
structure Unknown (w : World b) (observer : Observer) : Prop where
  unregistered : ∀ slot, w.registrationsOf observer slot = []
  unmailed : w.mailbox observer = []
  unmentioned : w.epochs observer = []

theorem Unknown.observer_ne {w : World b} {observer : Observer} (h : w.Unknown observer)
    {slot : Slot r} {registration : Registration}
    (hmem : registration ∈ (w.leg slot).registrations) : registration.observer ≠ observer := by
  intro hmine
  have hheld : registration ∈ w.registrationsOf observer slot :=
    List.mem_filter.mpr ⟨hmem, decide_eq_true hmine⟩
  rw [h.unregistered slot] at hheld
  exact absurd hheld List.not_mem_nil

theorem Unknown.accounted {w : World b} {observer : Observer} (h : w.Unknown observer) :
    Accounted observer w := by
  refine ⟨fun slot registration hmem hmine => absurd hmine (h.observer_ne hmem),
    fun signal hmem => ?_⟩
  rw [h.unmailed] at hmem
  exact absurd hmem List.not_mem_nil

end World

end CallCoordination
