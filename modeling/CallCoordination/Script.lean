import CallCoordination.World.Behaviour

/-!
# Scripted surroundings

A script fixes for each leg and each listener which effects a call on it has. Left to itself, a leg
does nothing but disconnect when it is told to.
-/

namespace CallCoordination

inductive Cue where
  | hold
  | resume
  | answer
  | dial
  | disconnect
  | register
  | unregister
  deriving DecidableEq, Repr

def LegRequest.cue : LegRequest → Cue
  | hold => .hold
  | resume => .resume
  | answer _ => .answer
  | disconnect _ => .disconnect
  | register _ => .register
  | unregister _ => .unregister

structure Script (r : Roster) where
  legs : Slot r → List (Cue × List (Effect r)) := fun _ => []
  listeners : List (Listener × List (Effect r)) := []

namespace Script

variable {r : Roster}

def unscripted (leg : Slot r) : Cue → List (Effect r)
  | .disconnect => [.changeState leg .disconnected]
  | _ => []

def onCue (script : Script r) (leg : Slot r) (cue : Cue) : List (Effect r) :=
  ((script.legs leg).lookup cue).getD (unscripted leg cue)

def response (script : Script r) : Event r → List (Effect r)
  | .asked leg request => script.onCue leg request.cue
  | .dialled leg .. => script.onCue leg .dial
  | .told listener .. => (script.listeners.lookup listener).getD []
  | _ => []

/-- A script is a behaviour that needs no memory. -/
def behaviour (script : Script r) : Behaviour r where
  Memory := Unit
  react _ event := ((), script.response event)

end Script

end CallCoordination
