import CallCoordination.Proofs.World.Registrations

/-!
# How a trace grows

The trace of a world only ever grows. `Grows P` says that it grew by events that satisfy `P`, which
is all that most statements about requests and calls need to know of the steps in between.
-/

namespace CallCoordination

namespace Event

variable {r : Roster}

def isRegistration : Event r → Bool
  | asked _ request => request.isRegistration
  | _ => false

/-- A leg is asked for anything else, or dialled. -/
def isDemand : Event r → Bool
  | asked _ request => !request.isRegistration
  | dialled .. => true
  | _ => false

def call? : Event r → Option (Listener × Bool)
  | told listener success _ => some (listener, success)
  | _ => none

theorem isDemand_of_isRegistration {event : Event r} (h : event.isRegistration = true) :
    event.isDemand = false := by
  cases event <;> simp_all [isRegistration, isDemand]

theorem call?_of_isRegistration {event : Event r} (h : event.isRegistration = true) :
    event.call? = none := by
  cases event <;> simp_all [isRegistration, call?]

theorem isDemand_of_call? {event : Event r} (h : event.call? ≠ none) :
    event.isDemand = false := by
  cases event <;> simp_all [call?, isDemand]

end Event

namespace World

variable {r : Roster} {b : Behaviour r}

/-- What legs were asked for, registrations apart, oldest first. -/
def demands (w : World b) : List (Event r) := w.trace.filter (·.isDemand)

def calls (w : World b) : List (Listener × Bool) := w.trace.filterMap (·.call?)

def Grows (P : Event r → Prop) (w w' : World b) : Prop :=
  ∃ events, w'.trace = w.trace ++ events ∧ ∀ event ∈ events, P event

namespace Grows

variable {P Q : Event r → Prop} {w w' w'' : World b}

theorem refl (P : Event r → Prop) (w : World b) : Grows P w w :=
  ⟨[], (List.append_nil _).symm, by simp⟩

theorem of_eq (P : Event r → Prop) (h : w'.trace = w.trace) : Grows P w w' :=
  ⟨[], by rw [h, List.append_nil], by simp⟩

theorem single {event : Event r} (h : w'.trace = w.trace ++ [event]) (hp : P event) :
    Grows P w w' :=
  ⟨[event], h, by simpa using hp⟩

theorem trans (h : Grows P w w') (h' : Grows P w' w'') : Grows P w w'' := by
  obtain ⟨events, hw, hp⟩ := h
  obtain ⟨events', hw', hp'⟩ := h'
  refine ⟨events ++ events', by rw [hw', hw, List.append_assoc], ?_⟩
  intro event hmem
  rcases List.mem_append.mp hmem with hmem | hmem
  · exact hp event hmem
  · exact hp' event hmem

theorem mono (h : Grows P w w') (hpq : ∀ event, P event → Q event) : Grows Q w w' := by
  obtain ⟨events, hw, hp⟩ := h
  exact ⟨events, hw, fun event hmem => hpq event (hp event hmem)⟩

/-- A view of the trace does not see events that it leaves out. -/
theorem filterMap_eq {α : Type} (h : Grows P w w') {f : Event r → Option α}
    (hf : ∀ event, P event → f event = none) :
    w'.trace.filterMap f = w.trace.filterMap f := by
  obtain ⟨events, hw, hp⟩ := h
  have hnone : events.filterMap f = [] :=
    List.filterMap_eq_nil_iff.mpr fun event hmem => hf event (hp event hmem)
  rw [hw, List.filterMap_append, hnone, List.append_nil]

theorem filter_eq (h : Grows P w w') {p : Event r → Bool}
    (hp : ∀ event, P event → p event = false) :
    w'.trace.filter p = w.trace.filter p := by
  obtain ⟨events, hw, hP⟩ := h
  have hnil : events.filter p = [] :=
    List.filter_eq_nil_iff.mpr fun event hmem => by simp [hp event (hP event hmem)]
  rw [hw, List.filter_append, hnil, List.append_nil]

theorem demands_eq (h : Grows P w w') (hp : ∀ event, P event → event.isDemand = false) :
    w'.demands = w.demands :=
  h.filter_eq hp

theorem calls_eq (h : Grows P w w') (hp : ∀ event, P event → event.call? = none) :
    w'.calls = w.calls :=
  h.filterMap_eq hp

end Grows

/-! ## Single steps -/

@[simp] theorem trace_stir (w : World b) (memory : b.Memory) (effects : List (Effect r)) :
    (w.stir memory effects).trace = w.trace := by
  rw [stir, trace_applyAll]

theorem grows_ask (w : World b) (slot : Slot r) (request : LegRequest) :
    Grows (· = .asked slot request) w (w.ask slot request) :=
  .single (trace_ask w slot request) rfl

theorem grows_tell (w : World b) (success : Bool) (listener : Listener) :
    Grows (·.call? ≠ none) w (w.tell success listener) :=
  .single (trace_emit w _) (by simp [Event.call?])

theorem calls_tell (w : World b) (success : Bool) (listener : Listener) :
    (w.tell success listener).calls = w.calls ++ [(listener, success)] := by
  simp [calls, tell, Event.call?]

theorem calls_foldl_tell (w : World b) (success : Bool) (listeners : List Listener) :
    (listeners.foldl (tell · success ·) w).calls =
      w.calls ++ listeners.map fun listener => (listener, success) := by
  induction listeners generalizing w with
  | nil => simp
  | cons listener listeners ih =>
    rw [List.foldl_cons, ih, calls_tell, List.append_assoc]
    rfl

theorem grows_foldl_tell (w : World b) (success : Bool) (listeners : List Listener) :
    Grows (·.call? ≠ none) w (listeners.foldl (tell · success ·) w) := by
  induction listeners generalizing w with
  | nil => exact .refl _ w
  | cons listener listeners ih => exact (grows_tell w success listener).trans (ih _)

theorem demands_ask {request : LegRequest} (h : request.isRegistration = false) (w : World b)
    (slot : Slot r) :
    (w.ask slot request).demands = w.demands ++ [.asked slot request] := by
  simp [demands, Event.isDemand, h]

end World

end CallCoordination
