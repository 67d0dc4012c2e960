import CallCoordination.Failure
import CallCoordination.Signal

/-!
# What happens around a coordinator

Everything a coordinator does to its surroundings is an `Event`, and everything the surroundings do
is an `Effect`. A `Behaviour` joins the two: it says with which effects legs, listeners and
handlers respond to an event, in the order in which they take place, before the call that caused
the event returns.

To read the id or the state of a leg is no event. A leg is taken to answer at once, with an id that
never changes and the state it is in, and nothing else happens in the course of it.
-/

namespace CallCoordination

/-- The legs of a world, each by the id it reports under. -/
abbrev Roster := List Leg.Id

/-- A leg of the roster. Legs of one id are told apart by their slots. -/
abbrev Slot (r : Roster) := Fin r.length

theorem Slot.lt {r : Roster} (slot : Slot r) : slot.val < r.length := slot.isLt

def Slot.id {r : Roster} (slot : Slot r) : Leg.Id := r.get slot

/-- Told once how a coordination ended. -/
structure Listener where
  name : String
  deriving DecidableEq, Repr

/-- Told why the call that was allocated could not be placed. -/
structure FaultHandler where
  name : String
  deriving DecidableEq, Repr

/-- What a leg can be asked for, dialling apart. -/
inductive LegRequest where
  | hold
  | resume
  | answer (video : Video)
  | disconnect (cause : ReleaseCause)
  | register (registration : Registration)
  | unregister (observer : Observer)
  deriving DecidableEq, Repr

inductive Event (r : Roster) where
  | asked (leg : Slot r) (request : LegRequest)
  | dialled (leg : Slot r) (callee : Callee) (terms : DialTerms) (answer : DialAnswer)
  /-- `registrations` counts those on all legs at that time. -/
  | told (listener : Listener) (success : Bool) (registrations : Nat)
  | faultReported (handler : FaultHandler) (leg : Leg.Id) (fault : DialFault)
  | heardState (leg : Leg.Id) (state : Leg.State)
  | heardEvent (leg : Leg.Id) (event : ConnectionEvent)
  deriving DecidableEq

inductive Effect (r : Roster) where
  /-- The leg changes its state and notifies its observers. -/
  | changeState (leg : Slot r) (state : Leg.State)
  /-- The leg changes its state and tells nobody. -/
  | setState (leg : Slot r) (state : Leg.State)
  /-- The leg notifies every observer, under its own id or under another one. -/
  | notify (leg : Slot r) (under : Option Leg.Id) (notification : Notification)
  /-- The leg sends through a single one of the registrations it keeps. -/
  | send (leg : Slot r) (index : Nat) (under : Option Leg.Id) (notification : Notification)
  /-- The leg will give this answer after those it has queued already. -/
  | queueAnswer (leg : Slot r) (answer : DialAnswer)
  deriving DecidableEq

/-- How the surroundings respond. They may remember whatever they like from one event to the
next. -/
structure Behaviour (r : Roster) where
  Memory : Type
  react : Memory → Event r → Memory × List (Effect r)

end CallCoordination
