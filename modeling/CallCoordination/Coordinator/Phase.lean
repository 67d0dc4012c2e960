import CallCoordination.World.Behaviour
import CallCoordination.Dialing

/-!
# Phases of a coordination

A user action starts `idle`, waits for one leg to be put on hold and then goes on with the other.
A swap may have to wait twice more: for its leg to resume, and for the held leg to come back. No
phase is entered twice, which `rank` makes a number: it falls with every change of phase.
-/

namespace CallCoordination

inductive Kind where
  | answer
  | dial
  | swap
  deriving DecidableEq, Repr

namespace Kind

def name : Kind → String
  | answer => "answer"
  | dial => "dial"
  | swap => "swap"

def all : List Kind := [answer, dial, swap]

def ofName? (s : String) : Option Kind := all.find? (·.name = s)

end Kind

/-- What the user wants: put one leg on hold, then go on with the other. -/
inductive Action (r : Roster) where
  | answer (hold leg : Slot r) (video : Video)
  | dial (hold leg : Slot r) (call : OutgoingCall)
  | swap (hold leg : Slot r)
  deriving DecidableEq

def Action.kind {r : Roster} : Action r → Kind
  | answer .. => .answer
  | dial .. => .dial
  | swap .. => .swap

inductive Continuation (r : Roster) where
  | answer (leg : Slot r) (video : Video)
  /-- `pending` is the connection that the deferred order allocated. -/
  | place (leg : Slot r) (call : OutgoingCall) (pending : ConnectionId)
  | resume (leg : Slot r)
  deriving DecidableEq

inductive Phase (r : Roster) where
  | idle (action : Action r)
  | awaitingHold (hold : Slot r) (next : Continuation r)
  /-- `held` may have to be resumed again, but it is not observed. -/
  | awaitingResume (held resume : Slot r)
  /-- The leg that this swap put on hold is being resumed. -/
  | rollingBack (resume : Slot r)
  | done
  /-- There is no action, and whatever is heard is ignored. -/
  | plain
  /-- There is no action, and whatever is heard is noted. -/
  | recorder
  deriving DecidableEq

namespace Phase

variable {r : Roster}

def name : Phase r → String
  | idle _ => "idle"
  | awaitingHold .. => "awaiting_hold"
  | awaitingResume .. => "awaiting_resume"
  | rollingBack _ => "rolling_back"
  | done => "done"
  | plain => "plain"
  | recorder => "recorder"

def watched : Phase r → List (Slot r)
  | awaitingHold hold _ => [hold]
  | awaitingResume _ resume => [resume]
  | rollingBack resume => [resume]
  | _ => []

/-- How many changes of phase can follow at most. -/
def rank : Phase r → Nat
  | idle _ => 4
  | awaitingHold .. => 3
  | awaitingResume .. => 2
  | rollingBack _ => 1
  | _ => 0

end Phase

end CallCoordination
