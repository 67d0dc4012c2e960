import CallCoordination.Session.Delivery

/-!
# Operations on a coordinator

Everything that can be done to a coordinator as one value, so that a run is a list of operations.
The last five serve to drive the bookkeeping by hand; a call manager uses the others.
-/

namespace CallCoordination

inductive Operation (r : Roster) where
  | start
  | process
  | serve
  | dispatch (signal : Signal)
  | hearState (leg : Leg.Id) (state : Leg.State)
  | hearEvent (leg : Leg.Id) (event : ConnectionEvent)
  | addListener (listener : Listener)
  | removeListener (listener : Listener)
  | setHandler (handler : FaultHandler)
  | watchExactly (legs : List (Slot r))
  | rewatch (legs : List (Slot r))
  | complete (success : Bool)
  | recordFailure (failure : Failure)
  | pop
  deriving DecidableEq

/-- Whether an operation is one of a call manager. -/
def Operation.isPublic {r : Roster} : Operation r → Bool
  | watchExactly _ | rewatch _ | complete _ | recordFailure _ | pop => false
  | _ => true

inductive Reply where
  | done
  | started (result : Except Failure (Option ConnectionId))
  | processed (count : Nat)
  | served (outcome : Option Bool)
  | removed (found : Bool)
  | popped (next : Option Signal)

namespace Session

variable {r : Roster} {b : Behaviour r}

def modify (s : Session b) (f : Coordinator r → Coordinator r) : Session b :=
  { s with coordinator := f s.coordinator }

def perform (s : Session b) : Operation r → Reply × Session b
  | .start =>
    let (result, t) := s.start
    (.started result, t)
  | .process =>
    let (count, t) := s.processPending
    (.processed count, t)
  | .serve =>
    let (outcome, t) := s.serve
    (.served outcome, t)
  | .dispatch signal => (.done, s.dispatch signal)
  | .hearState leg state => (.done, s.hearState leg state)
  | .hearEvent leg event => (.done, s.hearEvent leg event)
  | .addListener listener => (.done, s.modify (·.addListener listener))
  | .removeListener listener =>
    (.removed (listener ∈ s.coordinator.listeners), s.modify (·.removeListener listener))
  | .setHandler handler => (.done, s.modify ({ · with handler := some handler }))
  | .watchExactly legs => (.done, s.watchExactly legs)
  | .rewatch legs => (.done, s.rewatch legs)
  | .complete success => (.done, s.complete success)
  | .recordFailure failure => (.done, s.recordFailure failure)
  | .pop =>
    match s.pop with
    | none => (.popped none, s)
    | some (signal, t) => (.popped (some signal), t)

end Session

end CallCoordination
