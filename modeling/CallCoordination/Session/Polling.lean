import CallCoordination.Session.Delivery

/-!
# Polling

`serve` is driven by polls. A poll hears whatever has arrived and then waits for more; it would give
up if nothing could arrive any more, because every end through which signals can be sent is gone. A
coordinator keeps one such end itself, and hands out copies of it to the legs that it watches.
-/

namespace CallCoordination

/-- An end through which signals can be sent to a coordinator. -/
inductive Sender where
  | own
  /-- The copy that a leg holds with a registration. -/
  | held (registration : Registration)
  deriving DecidableEq

inductive Poll where
  | ready (success : Bool)
  | pending
  deriving DecidableEq

/-- The outcome, if the poll has one. -/
def Poll.outcome? : Poll → Option Bool
  | ready success => some success
  | pending => none

namespace Session

variable {r : Roster} {b : Behaviour r}

def senders (s : Session b) : List Sender :=
  let registrations := s.world.legs.toList.flatMap (·.registrations)
  .own :: (registrations.filter (·.observer = s.coordinator.observer)).map .held

/-- What waiting for a signal comes to. -/
inductive Receipt (b : Behaviour r) where
  | signal (signal : Signal) (rest : Session b)
  | waiting
  | closed

def receive (s : Session b) : Receipt b :=
  match s.pop with
  | some (signal, rest) => .signal signal rest
  | none => if s.senders.isEmpty then .closed else .waiting

theorem pop_of_receive {s t : Session b} {signal : Signal} (h : s.receive = .signal signal t) :
    s.pop = some (signal, t) := by
  unfold receive at h
  split at h
  next signal' rest hpop =>
    obtain ⟨rfl, rfl⟩ := Receipt.signal.inj h
    exact hpop
  · split at h <;> cases h

/-- Hear signals until the outcome is known or none has arrived. -/
def poll (s : Session b) : Poll × Session b :=
  match s.coordinator.outcome with
  | some outcome => (.ready outcome, s)
  | none =>
    match _ : s.receive with
    | .signal signal t => (t.dispatch signal).poll
    | .waiting => (.pending, s)
    | .closed => (.ready (s.coordinator.outcome.getD false), s)
termination_by s.workload
decreasing_by exact workload_dispatch_lt (pop_of_receive ‹_›)

end Session

end CallCoordination
