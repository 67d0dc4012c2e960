import CallCoordination.Session.Basic

/-!
# The flow of a coordination

How each kind of user action starts, what it does when its hold settles, and how it responds to
the signals of the leg it watches.
-/

namespace CallCoordination.Session

variable {r : Roster} {b : Behaviour r}

/-- The swap cannot go on: put the leg that it held back into service, if it still is on hold and
the policy wants it. -/
def rollBack (s : Session b) (held : Slot r) (cause : Failure) : Session b :=
  let s := s.recordFailure cause
  if s.coordinator.policy.swapRollback ∧ s.world.state held = .holding then
    (s.enter (.rollingBack held)).ask held .resume
  else
    s.finish false

def reportFault (s : Session b) (leg : Slot r) (fault : DialFault) : Session b :=
  match s.coordinator.handler with
  | none => s
  | some handler => { s with world := s.world.emit (.faultReported handler leg.id fault) }

/-- Place the call whose connection was allocated as `pending`. A connection of another identity is
disconnected again. -/
def place (s : Session b) (leg : Slot r) (call : OutgoingCall) (pending : ConnectionId) :
    Session b :=
  if s.world.state leg = .disconnected then
    (s.recordFailure (.peerDisconnected leg.id)).finish false
  else
    let (answer, world) := s.world.dial leg call.callee (call.terms false)
    let s := { s with world := world }
    match answer with
    | .placed placed =>
      if placed = pending then
        s.finish true
      else
        let s := s.ask leg (.disconnect (.internalFailure s.coordinator.policy.mismatchReason))
        (s.recordFailure (.identityMismatch pending placed)).finish false
    | .raised fault =>
      ((s.reportFault leg fault).recordFailure (.dialRaised fault)).finish false

/-- The leg to hold is on hold, or gone: go on with the other one. The call to be answered may have
been given up meanwhile, which is no failure. -/
def holdSettled (s : Session b) (hold : Slot r) : Continuation r → Session b
  | .answer leg video =>
    let s := if s.world.state leg = .ringing then s.ask leg (.answer video) else s
    s.finish true
  | .place leg call pending => s.place leg call pending
  | .resume leg =>
    match s.world.state leg with
    | .holding => (s.enter (.awaitingResume hold leg)).ask leg .resume
    | .active => s.finish true
    | _ => s.rollBack hold (.peerDisconnected leg.id)

/-- The hold failed: without it a call that was allocated can never be placed, so it is dropped; a
call that rings keeps ringing. -/
def holdFailed (s : Session b) (hold : Slot r) (next : Continuation r) : Session b :=
  let s :=
    match next with
    | .place leg _ _ => s.ask leg (.disconnect .errorUnspecified)
    | _ => s
  (s.recordFailure (.holdFailed hold.id)).finish false

/-! ## Starting -/

/-- Whether the leg counts as put on hold without being asked. -/
def isSettledOnEntry (s : Session b) (hold : Slot r) : Bool :=
  s.coordinator.policy.holdSettledOnEntry && (s.world.state hold).settled

/-- Have a leg put on hold, then go on as `next` says. -/
def awaitHold (s : Session b) (hold : Slot r) (next : Continuation r) : Session b :=
  if s.isSettledOnEntry hold then
    (s.enter (.awaitingHold hold next)).holdSettled hold next
  else
    (s.enter (.awaitingHold hold next)).ask hold .hold

/-- Carry out the user action. A dial allocates its connection first and answers with it. -/
def start (s : Session b) : Except Failure (Option ConnectionId) × Session b :=
  match s.phase with
  | .idle (.answer hold leg video) => (.ok none, s.awaitHold hold (.answer leg video))
  | .idle (.swap hold leg) => (.ok none, s.awaitHold hold (.resume leg))
  | .idle (.dial hold leg call) =>
    let (answer, world) := s.world.dial leg call.callee (call.terms true)
    let s := { s with world := world }
    match answer with
    | .placed pending => (.ok (some pending), s.awaitHold hold (.place leg call pending))
    | .raised fault =>
      (.error (.dialRaised fault), (s.recordFailure (.dialRaised fault)).finish false)
  | _ => (.error .alreadyStarted, s)

/-! ## Hearing from legs -/

def hearState (s : Session b) (leg : Leg.Id) (state : Leg.State) : Session b :=
  match s.phase with
  | .awaitingHold hold next =>
    if hold.id = leg ∧ state.settled then s.holdSettled hold next else s
  | .awaitingResume held resume =>
    if resume.id = leg then
      match state with
      | .active => s.finish true
      | .disconnected => s.rollBack held (.peerDisconnected leg)
      | _ => s
    else s
  | .rollingBack resume =>
    if resume.id = leg ∧ (state = .active ∨ state = .disconnected) then s.finish false else s
  | .recorder => { s with world := s.world.note (.heardState leg state) }
  | _ => s

def hearEvent (s : Session b) (leg : Leg.Id) (event : ConnectionEvent) : Session b :=
  match s.phase with
  | .awaitingHold hold next =>
    if hold.id = leg ∧ event = .holdFailed then s.holdFailed hold next else s
  | .awaitingResume held resume =>
    if resume.id = leg ∧ event = .resumeFailed then s.rollBack held (.resumeFailed leg) else s
  | .rollingBack resume =>
    if resume.id = leg ∧ event = .resumeFailed then s.finish false else s
  | .recorder => { s with world := s.world.note (.heardEvent leg event) }
  | _ => s

/-- Hear a signal, unless the outcome is known or the signal was not sent through the live
registration of its leg. -/
def dispatch (s : Session b) (signal : Signal) : Session b :=
  if s.coordinator.isCompleted ∨ ¬ s.coordinator.isCurrent signal then s
  else
    match signal.notification with
    | .stateChanged state => s.hearState signal.leg state
    | .connectionEvent event => s.hearEvent signal.leg event
    | _ => s

end CallCoordination.Session
