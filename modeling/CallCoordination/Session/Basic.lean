import CallCoordination.Coordinator.Basic

/-!
# A coordinator at work in its world

A `Session` is a coordinator together with the world it acts on. This module holds what all kinds
of coordination share: observing exactly the legs that a phase needs, keeping the first failure,
and completing once.
-/

namespace CallCoordination

structure Session {r : Roster} (b : Behaviour r) where
  coordinator : Coordinator r
  world : World b

namespace Session

variable {r : Roster} {b : Behaviour r}

def phase (s : Session b) : Phase r := s.coordinator.phase

def mailbox (s : Session b) : List Signal := s.world.mailbox s.coordinator.observer

def ask (s : Session b) (slot : Slot r) (request : LegRequest) : Session b :=
  { s with world := s.world.ask slot request }

def recordFailure (s : Session b) (failure : Failure) : Session b :=
  { s with coordinator := s.coordinator.recordFailure failure }

/-! ## Observing legs -/

/-- Stop watching every leg whose id is not among `wanted`, in the order of the watches. -/
def release (s : Session b) (wanted : List Leg.Id) : Session b where
  coordinator :=
    { s.coordinator with
      watches := s.coordinator.watches.filter (·.leg.id ∈ wanted) }
  world :=
    (s.coordinator.watches.filter (·.leg.id ∉ wanted)).foldl
      (fun w watch => w.ask watch.leg (.unregister s.coordinator.observer)) s.world

/-- Watch a leg through a registration of a new epoch, unless a leg of its id is watched. -/
def watch (s : Session b) (slot : Slot r) : Session b :=
  if s.coordinator.isWatching slot.id then s
  else
    let epoch := s.coordinator.issued + 1
    { coordinator :=
        { s.coordinator with
          issued := epoch
          watches := s.coordinator.watches ++ [⟨slot, epoch⟩] }
      world := s.world.ask slot (.register ⟨s.coordinator.observer, epoch⟩) }

/-- Make the watched legs exactly those of `wanted`. Watches that remain keep their epochs. -/
def watchExactly (s : Session b) (wanted : List (Slot r)) : Session b :=
  wanted.foldl watch (s.release (wanted.map Slot.id))

/-- Watch exactly the legs of `wanted`, each through a new registration. Signals sent through
earlier ones are no longer current. -/
def rewatch (s : Session b) (wanted : List (Slot r)) : Session b :=
  (s.watchExactly []).watchExactly wanted

/-! ## Changes of phase -/

/-- Only what is sent after the rollback has begun counts for it, so it starts from a new
registration. -/
def enter (s : Session b) (phase : Phase r) : Session b :=
  let s :=
    match phase with
    | .rollingBack _ => s.rewatch phase.watched
    | _ => s.watchExactly phase.watched
  { s with coordinator := { s.coordinator with phase := phase } }

def settle (s : Session b) (success : Bool) : Session b :=
  { s with
    coordinator :=
      { s.coordinator with
        outcome := some success
        completedAt := some s.world.now } }

def tellListeners (s : Session b) (success : Bool) : Session b :=
  { s with world := s.coordinator.listeners.foldl (World.tell · success ·) s.world }

/-- Deliver the outcome, unless one was delivered before. No leg is watched any more when the
listeners hear of it. -/
def complete (s : Session b) (success : Bool) : Session b :=
  match s.coordinator.outcome with
  | some _ => s
  | none => ((s.watchExactly []).settle success).tellListeners success

def finish (s : Session b) (success : Bool) : Session b :=
  (s.enter .done).complete success

end Session

end CallCoordination
