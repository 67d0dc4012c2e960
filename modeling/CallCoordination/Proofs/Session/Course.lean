import CallCoordination.Proofs.Session.Closing
import CallCoordination.Proofs.Session.Unrolled

/-!
# The course of an attempt

A run in which every turn hears one signal at most is told by where the wait for the hold ends in
it. Until then nothing is done beyond what the start does, and what follows is what the ended wait
leaves to be done. Where the wait ends, and how, can be read off the turns and the worlds between
them.
-/

namespace CallCoordination

variable {r : Roster} {b : Behaviour r}

/-! ## Turns that matter -/

namespace Turn

def isStart : Turn b → Bool
  | perform .start => true
  | _ => false

/-- What the coordinator is told about a leg, if it is watched through a registration of that
epoch. What is said to its handlers directly is heard in any case. -/
def heard? (leg : Leg.Id) (epoch : Nat) : Turn b → Option Notification
  | perform (.dispatch signal) => signal.via leg epoch
  | perform (.hearState id state) => if id = leg then some (.stateChanged state) else none
  | perform (.hearEvent id event) => if id = leg then some (.connectionEvent event) else none
  | _ => none

/-- How this turn ends the wait for a hold, if it does. -/
def holdExit? (hold : Leg.Id) (turn : Turn b) : Option HoldExit :=
  (turn.heard? hold 1).bind (·.holdExit?)

def handler? : Turn b → Option FaultHandler
  | perform (.setHandler handler) => some handler
  | _ => none

end Turn

/-- The handler that was set last, or the one that there was before. -/
def lastHandler (initial : Option FaultHandler) (turns : List (Turn b)) : Option FaultHandler :=
  turns.foldl (fun current turn => turn.handler?.or current) initial

/-- How the wait for a hold ended, the turns before that, and the world in which it ended. -/
structure HoldEnd (b : Behaviour r) where
  exit : HoldExit
  before : List (Turn b)
  world : World b

/-- The same end, in a run that has one turn more at its beginning. -/
def HoldEnd.after (e : HoldEnd b) (turn : Turn b) : HoldEnd b :=
  { e with before := turn :: e.before }

/-- The hold has settled, and the leg is in that state at that moment. -/
def HoldEnd.Finds (e : HoldEnd b) (leg : Slot r) (state : Leg.State) : Prop :=
  e.exit = .settled ∧ e.world.state leg = state

/-! ## The start -/

/-- What an action leaves to be done once its hold has settled, unless its dial order is refused. -/
def Action.plan (action : Action r) (w : World b) : Except DialFault (Continuation r) :=
  match action with
  | answer _ leg video => .ok (.answer leg video)
  | swap _ leg => .ok (.resume leg)
  | dial _ leg call =>
    match w.nextAnswer leg with
    | .placed pending => .ok (.place leg call pending)
    | .raised fault => .error fault

namespace Continuation

def connection? : Continuation r → Option ConnectionId
  | place _ _ pending => some pending
  | _ => none

/-- How the connection was allocated. -/
def allocation : Continuation r → List (Event r)
  | place leg call pending => [.dialled leg call.callee (call.terms true) (.placed pending)]
  | _ => []

end Continuation

section Dial

variable {w : World b} {hold leg : Slot r} {call : OutgoingCall}

theorem Action.plan_of_placed {pending : ConnectionId} (h : w.nextAnswer leg = .placed pending) :
    (dial hold leg call).plan w = .ok (.place leg call pending) := by
  simp only [plan, h]

theorem Action.plan_of_raised {fault : DialFault} (h : w.nextAnswer leg = .raised fault) :
    (dial hold leg call).plan w = .error fault := by
  simp only [plan, h]

end Dial

theorem Action.leaves_of_plan {action : Action r} {w : World b} {next : Continuation r}
    (h : action.plan w = .ok next) : action.Leaves next := by
  cases action with
  | answer hold leg video => exact (Except.ok.inj h).symm
  | swap hold leg => exact (Except.ok.inj h).symm
  | dial hold leg call =>
    simp only [plan] at h
    split at h
    · exact ⟨_, (Except.ok.inj h).symm⟩
    · cases h

theorem Action.trace_entry {action : Action r} {w : World b} {next : Continuation r}
    (h : action.plan w = .ok next) : (action.entry w).trace = w.trace ++ next.allocation := by
  cases action with
  | answer hold leg video =>
    obtain rfl := Except.ok.inj h
    exact (List.append_nil _).symm
  | swap hold leg =>
    obtain rfl := Except.ok.inj h
    exact (List.append_nil _).symm
  | dial hold leg call =>
    simp only [plan] at h
    split at h
    next pending hplaced =>
      obtain rfl := Except.ok.inj h
      have htrace := World.trace_dial w leg call.callee (call.terms true)
      rw [hplaced] at htrace
      exact htrace
    · cases h

theorem Action.eq_dial_of_plan {action : Action r} {w : World b} {fault : DialFault}
    (h : action.plan w = .error fault) :
    ∃ hold leg call, action = .dial hold leg call ∧ w.nextAnswer leg = .raised fault := by
  cases action with
  | answer hold leg video => cases h
  | swap hold leg => cases h
  | dial hold leg call =>
    simp only [plan] at h
    split at h
    · cases h
    next fault' hraised =>
      obtain rfl := Except.error.inj h
      exact ⟨hold, leg, call, rfl, hraised⟩

namespace Session

/-- The session when it looks at the leg to hold: a dial has allocated its connection. -/
def allocated (s : Session b) (action : Action r) : Session b :=
  { s with world := action.entry s.world }

theorem Unstarted.allocated {s : Session b} {action : Action r} (h : s.Unstarted action) :
    (s.allocated action).Unstarted action :=
  { h with }

theorem start_of_plan {s : Session b} {action : Action r} (hphase : s.phase = .idle action)
    {next : Continuation r} (hplan : action.plan s.world = .ok next) :
    s.start = (.ok next.connection?, (s.allocated action).awaitHold action.hold next) := by
  cases action with
  | answer hold leg video =>
    obtain rfl := Except.ok.inj hplan
    rw [start, hphase]
    rfl
  | swap hold leg =>
    obtain rfl := Except.ok.inj hplan
    rw [start, hphase]
    rfl
  | dial hold leg call =>
    simp only [Action.plan] at hplan
    split at hplan
    next pending hplaced =>
      obtain rfl := Except.ok.inj hplan
      have hanswer : (s.world.dial leg call.callee (call.terms true)).1 = .placed pending := hplaced
      rw [start, hphase]
      simp only [hanswer]
      rfl
    · cases hplan

theorem start_of_refused {s : Session b} {action : Action r} (hphase : s.phase = .idle action)
    {fault : DialFault} (hplan : action.plan s.world = .error fault) :
    s.start = (.error (.dialRaised fault),
      ((s.allocated action).recordFailure (.dialRaised fault)).finish false) := by
  obtain ⟨hold, leg, call, rfl, hraised⟩ := Action.eq_dial_of_plan hplan
  have hanswer : (s.world.dial leg call.callee (call.terms true)).1 = .raised fault := hraised
  rw [start, hphase]
  simp only [hanswer]
  rfl

/-! ## Where the wait ends -/

/-- Where the wait for the hold ends, given that it has begun. -/
def awaitedEnd (s : Session b) (hold : Slot r) : List (Turn b) → Option (HoldEnd b)
  | [] => none
  | turn :: later =>
    match turn.holdExit? hold.id with
    | some exit => some ⟨exit, [], s.world⟩
    | none => ((s.turn turn).awaitedEnd hold later).map (·.after turn)

/-- Where the wait for the hold of an action ends in a run. A leg that needs no hold ends it when
the action starts, as soon as the leg is watched. -/
def holdEnd? (s : Session b) (action : Action r) : List (Turn b) → Option (HoldEnd b)
  | [] => none
  | turn :: later =>
    if turn.isStart then
      match action.plan s.world with
      | .error _ => none
      | .ok _ =>
        if (s.allocated action).isSettledOnEntry action.hold then
          some ⟨.settled, [], (action.entry s.world).ask action.hold
            (.register ⟨s.coordinator.observer, 1⟩)⟩
        else ((s.turn turn).awaitedEnd action.hold later).map (·.after turn)
    else ((s.turn turn).holdEnd? action later).map (·.after turn)

end Session

/-! ## Turns without consequences -/

/-- An operation by which a coordination may move. -/
def Operation.drives : Operation r → Bool
  | start | dispatch _ | hearState _ _ | hearEvent _ _ => true
  | _ => false

namespace Session

variable {s : Session b} {action : Action r} {hold : Slot r} {next : Continuation r}

theorem keeps_turn {turn : Turn b} (hsingle : turn.Single)
    (hdriven : ∀ operation, turn = .perform operation → operation.drives = true →
      (s.perform operation).2 = s) :
    s.coordinator.Keeps (s.turn turn).coordinator ∧ s.deedsIn turn = [] := by
  cases turn with
  | elsewhere other operation => exact ⟨rfl, rfl⟩
  | stir memory effects => exact ⟨rfl, rfl⟩
  | perform operation =>
    have hidle (htrace : (s.perform operation).2.world.trace = s.world.trace) :
        s.deedsIn (.perform operation) = [] :=
      deedsIn_of_trace (htrace.trans (List.append_nil _).symm)
    have hkept (hsame : (s.perform operation).2 = s) :
        s.coordinator.Keeps (s.perform operation).2.coordinator ∧
          s.deedsIn (.perform operation) = [] :=
      ⟨by rw [hsame]; rfl, hidle (by rw [hsame])⟩
    cases operation with
    | start | dispatch _ | hearState _ _ | hearEvent _ _ => exact hkept (hdriven _ rfl rfl)
    | addListener _ | removeListener _ | setHandler _ => exact ⟨rfl, hidle rfl⟩
    | pop =>
      simp only [turn, perform] at hidle ⊢
      split at hidle
      · exact ⟨rfl, hidle rfl⟩
      next signal t hpop => exact ⟨by rw [(pop_eq_some hpop).1]; rfl, hidle (trace_pop hpop)⟩
    | process | serve | watchExactly _ | rewatch _ | complete _ | recordFailure _ =>
      simp [Turn.Single, Operation.isPublic, Operation.takes] at hsingle

theorem Unstarted.of_keeps {c : Coordinator r} {w : World b} (h : s.Unstarted action)
    (hkeeps : s.coordinator.Keeps c) : Unstarted ⟨c, w⟩ action where
  phase := hkeeps.phase_eq.trans h.phase
  watches := (congrArg (·.watches) hkeeps).trans h.watches
  issued := (congrArg (·.issued) hkeeps).trans h.issued
  undecided := hkeeps.outcome_eq.trans h.undecided
  failure := hkeeps.failure_eq.trans h.failure

theorem Unstarted.turn {turn : Turn b} (h : s.Unstarted action) (hsingle : turn.Single)
    (hother : turn.isStart = false) :
    (s.turn turn).Unstarted action ∧ s.deedsIn turn = [] := by
  have hheeds (notification : Notification) : s.phase.heeds notification = false := by
    rw [h.phase]
    rfl
  obtain ⟨hkeeps, hdeeds⟩ := keeps_turn (s := s) hsingle fun operation heq hdrives => by
    subst heq
    cases operation with
    | start => cases hother
    | dispatch signal => exact dispatch_of_unheeded fun _ => hheeds _
    | hearState leg state => exact hearState_of_unheeded (hheeds _)
    | hearEvent leg event => exact hearEvent_of_unheeded (hheeds _)
    | _ => cases hdrives
  exact ⟨h.of_keeps hkeeps, hdeeds⟩

theorem Waits.of_keeps {c : Coordinator r} {w : World b} (h : s.Waits hold next)
    (hkeeps : s.coordinator.Keeps c) : Waits ⟨c, w⟩ hold next where
  phase := hkeeps.phase_eq.trans h.phase
  expects :=
    { watches := ⟨(congrArg (·.watches) hkeeps).trans h.expects.watches.1,
        (congrArg (·.issued) hkeeps).trans h.expects.watches.2⟩
      undecided := hkeeps.outcome_eq.trans h.expects.undecided }
  failure := hkeeps.failure_eq.trans h.failure

/-- While the hold is awaited, a coordination moves exactly if what it hears ends the wait. -/
theorem Waits.perform_eq (h : s.Waits hold next) {operation : Operation r}
    (hdrives : operation.drives = true) :
    (s.perform operation).2 =
      match Turn.holdExit? hold.id (.perform operation : Turn b) with
      | some exit => s.leaveHold hold next exit
      | none => s := by
  cases operation with
  | start => exact start_eq_self fun action hidle => by cases h.phase.symm.trans hidle
  | dispatch signal =>
    refine (dispatch_awaitingHold h.phase h.expects signal).trans ?_
    simp only [Turn.holdExit?, Turn.heard?]
    cases (signal.via hold.id 1).bind (·.holdExit?) with
    | none => rfl
    | some exit => cases exit <;> rfl
  | hearState leg state =>
    by_cases hleg : leg = hold.id
    · cases state <;> simp [perform, hearState, h.phase, hleg, Turn.holdExit?, Turn.heard?,
        Notification.holdExit?, Leg.State.settled, leaveHold]
    · simp [perform, hearState, h.phase, hleg, Ne.symm hleg, Turn.holdExit?, Turn.heard?]
  | hearEvent leg event =>
    by_cases hleg : leg = hold.id
    · cases event <;> simp [perform, hearEvent, h.phase, hleg, Turn.holdExit?, Turn.heard?,
        Notification.holdExit?, leaveHold]
    · simp [perform, hearEvent, h.phase, hleg, Ne.symm hleg, Turn.holdExit?, Turn.heard?]
  | _ => cases hdrives

theorem Waits.turn {turn : Turn b} (h : s.Waits hold next) (hsingle : turn.Single)
    (hnone : turn.holdExit? hold.id = none) :
    (s.turn turn).Waits hold next ∧ s.deedsIn turn = [] := by
  obtain ⟨hkeeps, hdeeds⟩ := keeps_turn (s := s) hsingle fun operation heq hdrives => by
    subst heq
    rw [h.perform_eq hdrives, hnone]
  exact ⟨h.of_keeps hkeeps, hdeeds⟩

theorem Waits.turn_of_some {turn : Turn b} (h : s.Waits hold next) {exit : HoldExit}
    (hexit : turn.holdExit? hold.id = some exit) :
    ∃ operation, turn = .perform operation ∧
      (s.perform operation).2 = s.leaveHold hold next exit := by
  cases turn with
  | elsewhere _ _ | stir _ _ => cases hexit
  | perform operation =>
    have hdrives : operation.drives = true := by
      cases operation with
      | dispatch _ | hearState _ _ | hearEvent _ _ => rfl
      | _ => cases hexit
    exact ⟨operation, rfl, by rw [h.perform_eq hdrives, hexit]⟩

/-! ## What lasts from turn to turn -/

theorem policy_turn (s : Session b) (turn : Turn b) :
    (s.turn turn).coordinator.policy = s.coordinator.policy := by
  have hwatches (t : Session b) (legs : List (Slot r)) :
      (t.watchExactly legs).coordinator.policy = t.coordinator.policy :=
    view_watchExactly (f := (·.policy)) (fun _ _ _ => rfl) t legs
  cases turn with
  | elsewhere _ _ | stir _ _ => rfl
  | perform operation =>
    simp only [Session.turn]
    cases performs s operation with
    | acts hacts _ _ => exact hacts.policy_eq
    | addListener _ | removeListener _ | setHandler _ => rfl
    | watchExactly legs => exact hwatches s legs
    | rewatch legs => exact (hwatches _ legs).trans (hwatches s [])
    | complete success => exact view_complete (f := (·.policy)) (fun _ _ _ _ _ => rfl) s success

theorem Acts.handler_eq {s t : Session b} (h : Acts s t) :
    t.coordinator.handler = s.coordinator.handler :=
  h.view_eq (f := (·.handler)) fun _ _ _ _ _ _ _ => rfl

theorem handler_turn (s : Session b) {turn : Turn b} (hsingle : turn.Single) :
    (s.turn turn).coordinator.handler = turn.handler?.or s.coordinator.handler := by
  cases turn with
  | elsewhere _ _ | stir _ _ => rfl
  | perform operation =>
    cases operation with
    | start => exact (acts_start s).handler_eq
    | dispatch signal => exact (acts_dispatch s signal).handler_eq
    | hearState leg state => exact (acts_hearState s leg state).handler_eq
    | hearEvent leg event => exact (acts_hearEvent s leg event).handler_eq
    | addListener _ | removeListener _ | setHandler _ => rfl
    | pop =>
      have hpop : Acts s (s.perform .pop).2 := by
        cases performs s .pop with
        | acts hacts _ _ => exact hacts
      exact hpop.handler_eq
    | process | serve | watchExactly _ | rewatch _ | complete _ | recordFailure _ =>
      simp [Turn.Single, Operation.isPublic, Operation.takes] at hsingle

/-! ## The course -/

/-- In the session `m` of this run the wait for the hold ends in the way of `e`. The coordinator
did `done` by then, and the turns of `later` are still to come. -/
structure EndsHold (s : Session b) (hold : Slot r) (next : Continuation r) (turns : List (Turn b))
    (e : HoldEnd b) (done : List (Event r)) (m : Session b) (later : List (Turn b)) : Prop where
  waits : m.Waits hold next
  world : m.world = e.world
  observer : m.coordinator.observer = s.coordinator.observer
  policy : m.coordinator.policy = s.coordinator.policy
  handler : m.coordinator.handler = lastHandler s.coordinator.handler e.before
  laterSingle : ∀ turn ∈ later, turn.Single
  reached : ∃ before, turns = before ++ later ∧ s.run before = m.leaveHold hold next e.exit
  deeds : ∀ {events}, (m.leaveHold hold next e.exit).world.trace = m.world.trace ++ events →
    s.deeds turns = done ++ events ++ (m.leaveHold hold next e.exit).deeds later

theorem EndsHold.cons {m : Session b} {turn : Turn b} {turns later : List (Turn b)}
    {e : HoldEnd b} {done : List (Event r)}
    (h : (s.turn turn).EndsHold hold next turns e done m later) (hsingle : turn.Single) :
    s.EndsHold hold next (turn :: turns) (e.after turn) (s.deedsIn turn ++ done) m later where
  waits := h.waits
  world := h.world
  observer := h.observer.trans (observer_turn s turn)
  policy := h.policy.trans (policy_turn s turn)
  handler := by rw [h.handler, handler_turn s hsingle]; rfl
  laterSingle := h.laterSingle
  reached := by
    obtain ⟨before, hturns, hrun⟩ := h.reached
    exact ⟨turn :: before, congrArg (turn :: ·) hturns, hrun⟩
  deeds {events} htrace := by
    have hrest : (s.turn turn).deeds turns =
        done ++ events ++ (m.leaveHold hold next e.exit).deeds later := h.deeds htrace
    rw [Session.deeds, hrest, List.append_assoc, List.append_assoc, List.append_assoc]
    rfl

theorem EndsHold.run {m : Session b} {turns later : List (Turn b)} {e : HoldEnd b}
    {done : List (Event r)} (h : s.EndsHold hold next turns e done m later) :
    s.run turns = (m.leaveHold hold next e.exit).run later := by
  obtain ⟨before, rfl, hrun⟩ := h.reached
  rw [run_append, hrun]

/-- While the hold is awaited nothing is done, and the first turn that ends the wait ends it for
good. -/
theorem Waits.course {turns : List (Turn b)} (h : s.Waits hold next)
    (single : ∀ turn ∈ turns, turn.Single) :
    match s.awaitedEnd hold turns with
    | none => (s.run turns).Waits hold next ∧ s.deeds turns = []
    | some e => ∃ m later, s.EndsHold hold next turns e [] m later := by
  -- `Waits` is what every turn keeps that does not end the wait
  induction turns generalizing s with
  | nil => exact ⟨h, rfl⟩
  | cons turn later ih =>
    obtain ⟨hsingle, hlater⟩ := List.forall_mem_cons.mp single
    cases hexit : turn.holdExit? hold.id with
    | none =>
      obtain ⟨hwaits, hdeeds⟩ := h.turn hsingle hexit
      have hrest := ih hwaits hlater
      simp only [awaitedEnd, hexit]
      cases hend : (s.turn turn).awaitedEnd hold later with
      | none =>
        simp only [hend] at hrest
        exact ⟨hrest.1, by rw [deeds, hdeeds, hrest.2]; rfl⟩
      | some e =>
        simp only [hend] at hrest
        obtain ⟨m, rest, hends⟩ := hrest
        have hcons := hends.cons hsingle
        rw [hdeeds] at hcons
        exact ⟨m, rest, hcons⟩
    | some exit =>
      simp only [awaitedEnd, hexit]
      obtain ⟨operation, rfl, hleaves⟩ := h.turn_of_some hexit
      refine ⟨s, later, h, rfl, rfl, rfl, rfl, hlater, ⟨[_], rfl, hleaves⟩, ?_⟩
      intro events htrace
      rw [← hleaves] at htrace
      rw [deeds, deedsIn_of_trace htrace]
      exact congrArg (fun t : Session b => events ++ t.deeds later) hleaves

/-- What a coordinator does first when a user action is started. -/
def onset (s : Session b) (hold : Slot r) (next : Continuation r) : List (Event r) :=
  next.allocation ++ [.asked hold (.register ⟨s.coordinator.observer, 1⟩)]

/-- How far a user action that was not started before gets in a run, given where the wait for its
hold ends. -/
inductive Course (s : Session b) (action : Action r) (turns : List (Turn b)) :
    Option (HoldEnd b) → Prop
  | unstarted (h : (s.run turns).Unstarted action) (hdeeds : s.deeds turns = []) :
      Course s action turns none
  | refused {hold leg : Slot r} {call : OutgoingCall} {fault : DialFault} {told : List (Event r)}
      (haction : action = .dial hold leg call)
      (houtcome : (s.run turns).coordinator.outcome = some false)
      (hfailure : (s.run turns).coordinator.failure = some (.dialRaised fault))
      (hdeeds : s.deeds turns =
        .dialled leg call.callee (call.terms true) (.raised fault) :: told)
      (htold : ∀ event ∈ told, event.call? ≠ none) : Course s action turns none
  | waiting {next : Continuation r} (hleaves : action.Leaves next)
      (h : (s.run turns).Waits action.hold next)
      (hdeeds : s.deeds turns = s.onset action.hold next ++ [.asked action.hold .hold]) :
      Course s action turns none
  | ended {next : Continuation r} {e : HoldEnd b} {requests : List (Event r)} {m : Session b}
      {later : List (Turn b)} (hleaves : action.Leaves next)
      (hrequests : requests.Sublist [.asked action.hold .hold])
      (h : s.EndsHold action.hold next turns e (s.onset action.hold next ++ requests) m later) :
      Course s action turns (some e)

theorem onset_turn (s : Session b) (turn : Turn b) (hold : Slot r) (next : Continuation r) :
    (s.turn turn).onset hold next = s.onset hold next := by
  rw [onset, onset, observer_turn]

theorem Course.cons {turn : Turn b} {later : List (Turn b)} {ended : Option (HoldEnd b)}
    (h : (s.turn turn).Course action later ended) (hsingle : turn.Single)
    (hdeeds : s.deedsIn turn = []) :
    s.Course action (turn :: later) (ended.map (·.after turn)) := by
  have hsame : s.deeds (turn :: later) = (s.turn turn).deeds later := by
    rw [deeds, hdeeds, List.nil_append]
  cases h with
  | unstarted hrun hnone => exact .unstarted hrun (hsame.trans hnone)
  | refused haction houtcome hfailure hrefused htold =>
    exact .refused haction houtcome hfailure (hsame.trans hrefused) htold
  | waiting hleaves hrun hwaiting =>
    rw [onset_turn] at hwaiting
    exact .waiting hleaves hrun (hsame.trans hwaiting)
  | ended hleaves hrequests hends =>
    have hcons := hends.cons hsingle
    rw [hdeeds, List.nil_append, onset_turn] at hcons
    exact .ended hleaves hrequests hcons

theorem world_enter_awaitingHold (h : s.Unstarted action) (hold : Slot r)
    (next : Continuation r) :
    (s.enter (.awaitingHold hold next)).world =
      s.world.ask hold (.register ⟨s.coordinator.observer, 1⟩) := by
  have hunwatched : hold.id ∉ s.coordinator.watchedIds := by
    simp [Coordinator.watchedIds, h.watches]
  have hreleased : (s.release [hold.id]).world = s.world := by simp [release, h.watches]
  have hworld := world_watchExactly hunwatched
  rw [hreleased, h.issued] at hworld
  exact hworld

theorem Unstarted.removals (h : s.Unstarted action) : s.coordinator.removals = [] := by
  rw [Coordinator.removals, h.watches, List.map_nil]

theorem Unstarted.closes_refused {hold leg : Slot r} {call : OutgoingCall} {fault : DialFault}
    (h : s.Unstarted (.dial hold leg call)) (hraised : s.world.nextAnswer leg = .raised fault) :
    Closes s s.start.2 [.dialled leg call.callee (call.terms true) (.raised fault)]
      (some (.dialRaised fault)) := by
  have hfail := closes_fail h.allocated.undecided h.allocated.failure (.dialRaised fault)
  have hdialled := World.trace_dial s.world leg call.callee (call.terms true)
  rw [hraised] at hdialled
  rw [start_of_refused h.phase (Action.plan_of_raised hraised)]
  exact hfail.after hdialled rfl

section Start

variable (h : s.Unstarted action) (hplan : action.plan s.world = .ok next)

include h hplan

theorem Unstarted.trace_enter :
    ((s.allocated action).enter (.awaitingHold action.hold next)).world.trace =
      s.world.trace ++ s.onset action.hold next := by
  rw [world_enter_awaitingHold h.allocated, World.trace_ask, onset, ← List.append_assoc]
  exact congrArg (· ++ _) (Action.trace_entry hplan)

/-- A leg that needs no hold: what remains is done at once. -/
theorem Unstarted.endsHold {later : List (Turn b)}
    (hsettled : (s.allocated action).isSettledOnEntry action.hold = true)
    (single : ∀ turn ∈ later, turn.Single) :
    s.EndsHold action.hold next (.perform .start :: later)
      ⟨.settled, [], (action.entry s.world).ask action.hold
        (.register ⟨s.coordinator.observer, 1⟩)⟩
      (s.onset action.hold next) ((s.allocated action).enter (.awaitingHold action.hold next))
      later := by
  let ready : Session b := (s.allocated action).enter (.awaitingHold action.hold next)
  have hstart : (s.perform .start).2 = ready.leaveHold action.hold next .settled := by
    have hawait : (s.perform .start).2 = (s.allocated action).awaitHold action.hold next :=
      congrArg Prod.snd (start_of_plan h.phase hplan)
    rw [hawait, awaitHold, if_pos hsettled]
    rfl
  refine ⟨h.allocated.waits next action.hold,
    world_enter_awaitingHold h.allocated action.hold next, ?_, ?_, ?_, single,
    ⟨[.perform .start], rfl, hstart⟩, ?_⟩
  · exact view_enter (f := (·.observer)) (fun _ _ _ _ => rfl) (s.allocated action) _
  · exact policy_enter (s.allocated action) _
  · exact view_enter (f := (·.handler)) (fun _ _ _ _ => rfl) (s.allocated action) _
  · intro events htrace
    have hperform : (s.perform .start).2.world.trace =
        s.world.trace ++ (s.onset action.hold next ++ events) := by
      rw [hstart, ← List.append_assoc, ← h.trace_enter hplan]
      exact htrace
    rw [deeds, deedsIn_of_trace hperform]
    exact congrArg (fun t : Session b => _ ++ t.deeds later) hstart

/-- A leg that has to be held: it is asked for that, and the wait begins. -/
theorem Unstarted.begins
    (hunsettled : (s.allocated action).isSettledOnEntry action.hold ≠ true) :
    (s.turn (.perform .start)).Waits action.hold next ∧
      s.deedsIn (.perform .start) = s.onset action.hold next ++ [.asked action.hold .hold] := by
  let ready : Session b := (s.allocated action).enter (.awaitingHold action.hold next)
  have hstart : (s.perform .start).2 = ready.ask action.hold .hold := by
    have hawait : (s.perform .start).2 = (s.allocated action).awaitHold action.hold next :=
      congrArg Prod.snd (start_of_plan h.phase hplan)
    rw [hawait, awaitHold, if_neg hunsettled]
  have hwaits : ready.Waits action.hold next := h.allocated.waits next action.hold
  constructor
  · rw [Session.turn, hstart]
    exact hwaits.of_coordinator_eq rfl
  · apply deedsIn_of_trace
    rw [hstart, ← List.append_assoc, ← h.trace_enter hplan]
    exact World.trace_ask ready.world action.hold .hold

end Start

/-- The start is refused, or it does all that there is to do before the hold is awaited. -/
theorem Unstarted.course_start {later : List (Turn b)} (h : s.Unstarted action)
    (single : ∀ turn ∈ later, turn.Single) :
    s.Course action (.perform .start :: later) (s.holdEnd? action (.perform .start :: later)) := by
  have hstarts : (Turn.perform .start : Turn b).isStart = true := rfl
  have hpublic : ∀ turn ∈ later, turn.Public := fun turn ht => (single turn ht).isPublic
  rw [holdEnd?, if_pos hstarts]
  cases hplan : action.plan s.world with
  | error fault =>
    obtain ⟨hold, leg, call, rfl, hraised⟩ := Action.eq_dial_of_plan hplan
    obtain ⟨hdone, houtcome, hfailure, told, htrace, hcalls⟩ := h.closes_refused hraised
    obtain ⟨hkeeps, hlater⟩ := run_of_done hdone houtcome hpublic
    rw [h.removals, List.append_nil] at htrace
    have hdeeds : s.deeds (.perform .start :: later) =
        .dialled leg call.callee (call.terms true) (.raised fault) :: told := by
      have hperform : (s.perform .start).2.world.trace = s.world.trace ++
          ([.dialled leg call.callee (call.terms true) (.raised fault)] ++ told) := htrace
      rw [deeds, deedsIn_of_trace hperform]
      exact (congrArg (_ ++ ·) hlater).trans (List.append_nil _)
    exact .refused rfl (hkeeps.outcome_eq.trans houtcome) (hkeeps.failure_eq.trans hfailure)
      hdeeds (Event.call?_of_told hcalls)
  | ok next =>
    have hleaves := Action.leaves_of_plan hplan
    dsimp only
    split
    next hsettled =>
      have hends := h.endsHold hplan hsettled single
      rw [← List.append_nil (s.onset action.hold next)] at hends
      exact .ended hleaves (List.nil_sublist _) hends
    next hunsettled =>
      obtain ⟨hwaits, hdeeds⟩ := h.begins hplan hunsettled
      have hcourse := hwaits.course single
      cases hend : (s.turn (.perform .start)).awaitedEnd action.hold later with
      | none =>
        simp only [hend] at hcourse
        exact .waiting hleaves hcourse.1 (by rw [deeds, hdeeds, hcourse.2, List.append_nil])
      | some e =>
        simp only [hend] at hcourse
        obtain ⟨m, rest, hends⟩ := hcourse
        have hcons := hends.cons (.inr ⟨rfl, rfl⟩)
        rw [hdeeds, List.append_nil] at hcons
        exact .ended hleaves (.refl _) hcons

theorem Unstarted.course {turns : List (Turn b)} (h : s.Unstarted action)
    (single : ∀ turn ∈ turns, turn.Single) : s.Course action turns (s.holdEnd? action turns) := by
  -- up to the first start, which is the first turn that does anything
  induction turns generalizing s with
  | nil => exact .unstarted h rfl
  | cons turn later ih =>
    obtain ⟨hsingle, hlater⟩ := List.forall_mem_cons.mp single
    cases hstart : turn.isStart with
    | true =>
      obtain rfl : turn = .perform .start := by
        unfold Turn.isStart at hstart
        split at hstart
        · rfl
        · cases hstart
      exact h.course_start hlater
    | false =>
      obtain ⟨hunstarted, hdeeds⟩ := h.turn hsingle hstart
      rw [holdEnd?, if_neg (by simp [hstart])]
      exact (ih hunstarted hlater).cons hsingle hdeeds

theorem unstarted_opened (action : Action r) (policy : Policy) (handler : Option FaultHandler)
    (observer : Observer) (w : World b) :
    (opened (.action action policy handler) observer w).Unstarted action := by
  cases action <;> exact ⟨rfl, rfl, rfl, rfl, rfl⟩

/-- What remains to be done when the hold has ended, and nothing after that. -/
theorem EndsHold.concluded {m : Session b} {turns later : List (Turn b)} {e : HoldEnd b}
    {done acts : List (Event r)} {cause : Option Failure}
    (h : s.EndsHold hold next turns e done m later)
    (hcloses : Closes m (m.leaveHold hold next e.exit) acts cause) :
    (s.run turns).coordinator.outcome = some cause.isNone ∧
    (s.run turns).coordinator.failure = cause ∧
    ∃ told, s.deeds turns =
        done ++ acts ++ .asked hold (.unregister s.coordinator.observer) :: told ∧
      ∀ event ∈ told, event.call? ≠ none := by
  obtain ⟨hdone, houtcome, hfailure, told, htrace, hcalls⟩ := hcloses
  obtain ⟨hkeeps, hlater⟩ := run_of_done hdone houtcome
    fun turn ht => (h.laterSingle turn ht).isPublic
  have hremovals : m.coordinator.removals = [.asked hold (.unregister s.coordinator.observer)] := by
    rw [Coordinator.removals, h.waits.expects.watches.1, h.observer]
    rfl
  rw [hremovals] at htrace
  rw [h.run, h.deeds htrace, hlater]
  refine ⟨hkeeps.outcome_eq.trans houtcome, hkeeps.failure_eq.trans hfailure, told, ?_,
    Event.call?_of_told hcalls⟩
  simp only [List.append_assoc, List.append_nil, List.cons_append, List.nil_append]

end Session

end CallCoordination
