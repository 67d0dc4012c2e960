import CallCoordination.Leg
import CallCoordination.Text.Hex

/-!
# Observers, registrations and signals

A coordinator observes a leg through a registration. Each registration has an epoch of its own, so
a signal tells through which registration it was sent, also when the same leg was registered
before.
-/

namespace CallCoordination

structure Observer where
  number : Nat
  deriving DecidableEq, Repr

/-- The number in 32 hexadecimal digits, grouped 8-4-4-4-12. -/
def Observer.text (observer : Observer) : String :=
  let digits := Text.Hex.fixed 32 observer.number
  let group (start size : Nat) := String.ofList ((digits.drop start).take size)
  "-".intercalate [group 0 8, group 8 4, group 12 4, group 16 4, group 20 12]

/-- What a leg keeps of an observer. -/
structure Registration where
  observer : Observer
  epoch : Nat
  deriving DecidableEq, Repr

inductive ConnectionEvent where
  | holdFailed
  | resumeFailed
  | other (name : String) (extras : Extras)
  deriving DecidableEq, Repr

/-- What a leg can report to its observers. -/
inductive Notification where
  | stateChanged (state : Leg.State)
  | connectionEvent (event : ConnectionEvent)
  | videoChanged (video : Video)
  | extrasChanged (extras : Extras)
  | released (cause : ReleaseCause)
  | destroyed
  deriving DecidableEq, Repr

/-- A notification with the id it was reported under and the epoch it was sent through. -/
structure Signal where
  leg : Leg.Id
  epoch : Nat
  notification : Notification
  deriving DecidableEq, Repr

structure Letter where
  recipient : Observer
  signal : Signal
  deriving DecidableEq, Repr

end CallCoordination
