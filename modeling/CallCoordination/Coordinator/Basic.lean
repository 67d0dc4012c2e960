import CallCoordination.Coordinator.Phase
import CallCoordination.Policy
import CallCoordination.World.Basic

/-!
# Coordinators

A coordinator carries one user action through its phases. It remembers which legs it watches, and
through which registration, and keeps the first failure and the single outcome.
-/

namespace CallCoordination

structure Watch (r : Roster) where
  leg : Slot r
  epoch : Nat
  deriving DecidableEq

structure Coordinator (r : Roster) where
  kind : Kind
  policy : Policy
  observer : Observer
  phase : Phase r
  handler : Option FaultHandler := none
  listeners : List Listener := []
  watches : List (Watch r) := []
  /-- How many registrations were made; the last one has this epoch. -/
  issued : Nat := 0
  startedAt : Instant
  completedAt : Option Instant := none
  outcome : Option Bool := none
  failure : Option Failure := none
  deriving DecidableEq

namespace Coordinator

variable {r : Roster}

/-- A coordinator of a user action that has not been started. -/
def ofAction (action : Action r) (policy : Policy) (observer : Observer) (now : Instant) :
    Coordinator r where
  kind := action.kind
  policy := policy
  observer := observer
  phase := .idle action
  startedAt := now

/-- A coordinator without an action, which hears signals and at most notes them. -/
def bare (recording : Bool) (kind : Kind) (policy : Policy) (observer : Observer)
    (now : Instant) : Coordinator r where
  kind := kind
  policy := policy
  observer := observer
  phase := if recording then .recorder else .plain
  startedAt := now

def isCompleted (c : Coordinator r) : Bool := c.outcome.isSome

def isWatching (c : Coordinator r) (leg : Leg.Id) : Bool :=
  c.watches.any (·.leg.id = leg)

/-- Whether a signal was sent through the registration that is live for its leg. -/
def isCurrent (c : Coordinator r) (signal : Signal) : Bool :=
  c.watches.any fun watch => watch.epoch = signal.epoch ∧ watch.leg.id = signal.leg

def addListener (c : Coordinator r) (listener : Listener) : Coordinator r :=
  { c with listeners := c.listeners ++ [listener] }

/-- Remove a listener as often as it was added. -/
def removeListener (c : Coordinator r) (listener : Listener) : Coordinator r :=
  { c with listeners := c.listeners.filter (· ≠ listener) }

/-- Keep the first failure: later ones are its consequences. -/
def recordFailure (c : Coordinator r) (failure : Failure) : Coordinator r :=
  { c with failure := c.failure <|> some failure }

structure Snapshot where
  id : String
  kind : Kind
  phase : String
  startedAt : Instant
  completedAt : Option Instant
  outcome : Option Bool
  failure : Option String
  watching : List Leg.Id
  deriving DecidableEq, Repr

def id (c : Coordinator r) : String := c.kind.name ++ "-" ++ c.observer.text

def snapshot (c : Coordinator r) : Snapshot where
  id := c.id
  kind := c.kind
  phase := c.phase.name
  startedAt := c.startedAt
  completedAt := c.completedAt
  outcome := c.outcome
  failure := c.failure.map (·.message)
  watching := c.watches.map (·.leg.id)

end Coordinator

end CallCoordination
