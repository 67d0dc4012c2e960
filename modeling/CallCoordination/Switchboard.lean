import CallCoordination.Session.Operation

/-!
# Coordinators that share legs

A switchboard has one world and any number of coordinators in it, each under a name of its own. An
operation on one of them goes through a session of that coordinator, so the others can only be
reached through the legs.
-/

namespace CallCoordination

inductive Opening (r : Roster) where
  | action (action : Action r) (policy : Policy) (handler : Option FaultHandler)
  | bare (recording : Bool) (kind : Kind) (policy : Policy)
  deriving DecidableEq

/-- Only a dial has use for a handler. -/
def Opening.coordinator {r : Roster} (o : Opening r) (observer : Observer) (now : Instant) :
    Coordinator r :=
  match o with
  | .action a policy handler =>
    let c := .ofAction a policy observer now
    match a with
    | .dial .. => { c with handler := handler }
    | _ => c
  | .bare recording kind policy => .bare recording kind policy observer now

/-- A coordinator and the signals that were popped from its mailbox, oldest first. -/
structure Seat (r : Roster) where
  coordinator : Coordinator r
  popped : List Signal := []
  deriving DecidableEq

structure Switchboard {r : Roster} (b : Behaviour r) where
  world : World b
  seats : List (String × Seat r) := []
  /-- The number of the next observer. No observer is used twice. -/
  nextObserver : Nat := 0

namespace Switchboard

variable {r : Roster} {b : Behaviour r}

def seat? (board : Switchboard b) (name : String) : Option (Seat r) :=
  board.seats.lookup name

def unseat (board : Switchboard b) (name : String) : Switchboard b :=
  { board with seats := board.seats.filter (·.1 ≠ name) }

def setSeat (board : Switchboard b) (name : String) (seat : Seat r) : Switchboard b :=
  { board with
    seats := board.seats.map fun entry => if entry.1 = name then (name, seat) else entry }

/-- Seat a new coordinator. One that has the name already is dropped first. -/
def openSeat (board : Switchboard b) (name : String) (o : Opening r) : Switchboard b :=
  let coordinator := o.coordinator ⟨board.nextObserver⟩ board.world.now
  { board with
    seats := (board.unseat name).seats ++ [(name, { coordinator := coordinator })]
    nextObserver := board.nextObserver + 1 }

/-- Drop a coordinator. It leaves its registrations behind; what is sent through them reaches
nobody. -/
def drop (board : Switchboard b) (name : String) : Bool × Switchboard b :=
  ((board.seat? name).isSome, board.unseat name)

def perform (board : Switchboard b) (name : String) (operation : Operation r) :
    Option (Reply × Switchboard b) :=
  (board.seat? name).map fun seat =>
    let (reply, t) := Session.perform ⟨seat.coordinator, board.world⟩ operation
    let popped :=
      match reply with
      | .popped (some signal) => seat.popped ++ [signal]
      | _ => seat.popped
    (reply, { board with world := t.world }.setSeat name ⟨t.coordinator, popped⟩)

def redispatch (board : Switchboard b) (name : String) (index : Nat) :
    Option (Reply × Switchboard b) := do
  let seat ← board.seat? name
  let signal ← seat.popped[index]?
  board.perform name (.dispatch signal)

def stir (board : Switchboard b) (memory : b.Memory) (effects : List (Effect r)) :
    Switchboard b :=
  { board with world := board.world.stir memory effects }

end Switchboard

end CallCoordination
