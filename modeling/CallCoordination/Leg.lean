/-!
# Call legs as the coordination sees them

A leg is one connection of a call: it has an id, a state and a video mode, and it can be released
with a cause. The types here are plain data; what a leg does is in `CallCoordination.World`.
-/

namespace CallCoordination

namespace Leg

/-- The name under which a leg reports. Several legs may report under one id. -/
structure Id where
  text : String
  deriving DecidableEq, Repr

inductive State where
  | idle
  | dialing
  | ringing
  | active
  | holding
  | pulling
  | disconnected
  deriving DecidableEq, Repr

namespace State

/-- Whether a leg in this state needs no hold request: it is on hold, or it is gone. -/
def settled : State → Bool
  | holding | disconnected => true
  | _ => false

theorem settled_iff {s : State} : s.settled = true ↔ s = holding ∨ s = disconnected := by
  cases s <;> simp [settled]

def name : State → String
  | idle => "idle"
  | dialing => "dialing"
  | ringing => "ringing"
  | active => "active"
  | holding => "holding"
  | pulling => "pulling"
  | disconnected => "disconnected"

def all : List State := [idle, dialing, ringing, active, holding, pulling, disconnected]

def ofName? (s : String) : Option State := all.find? (·.name = s)

theorem ofName?_name (s : State) : ofName? s.name = some s := by
  cases s <;> decide

end State

end Leg

structure ConnectionId where
  text : String
  deriving DecidableEq, Repr

inductive Video where
  | audioOnly
  | txOnly
  | rxOnly
  | bidirectional
  deriving DecidableEq, Repr

namespace Video

instance : Inhabited Video := ⟨audioOnly⟩

def name : Video → String
  | audioOnly => "audio_only"
  | txOnly => "tx_only"
  | rxOnly => "rx_only"
  | bidirectional => "bidirectional"

def all : List Video := [audioOnly, txOnly, rxOnly, bidirectional]

def ofName? (s : String) : Option Video := all.find? (·.name = s)

theorem ofName?_name (v : Video) : ofName? v.name = some v := by
  cases v <;> decide

end Video

inductive ReleaseCause where
  | errorUnspecified
  | internalFailure (reason : String)
  deriving DecidableEq, Repr

/-- Free-form data that travels with a call or an event. -/
abbrev Extras := List (String × String)

end CallCoordination
