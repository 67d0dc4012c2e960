import CallCoordination.Proofs.Finality
import CallCoordination.Proofs.HoldLaw

/-!
# How a coordination closes

To close, a coordination does what its last phase has left to do, drops its registrations and tells
its listeners, in this order. What is left to do when the hold of an answer or of a dial ends can be
read off the world in which it ends.
-/

namespace CallCoordination

variable {r : Roster} {b : Behaviour r}

theorem World.trace_foldl_tell (w : World b) (success : Bool) (listeners : List Listener) :
    ∃ told : List (Event r), (listeners.foldl (tell · success ·) w).trace = w.trace ++ told ∧
      told.map (·.call?) = listeners.map fun listener => some (listener, success) := by
  induction listeners generalizing w with
  | nil => exact ⟨[], (List.append_nil _).symm, rfl⟩
  | cons listener later ih =>
    obtain ⟨told, htrace, hcalls⟩ := ih (w.tell success listener)
    refine ⟨.told listener success w.registrationCount :: told, ?_, ?_⟩
    · rw [List.foldl_cons, htrace, tell, trace_emit, List.append_assoc]
      rfl
    · rw [List.map_cons, hcalls]
      rfl

theorem Event.call?_of_told {told : List (Event r)} {listeners : List Listener} {success : Bool}
    (h : told.map (·.call?) = listeners.map fun listener => some (listener, success)) :
    ∀ event ∈ told, event.call? ≠ none := by
  intro event hmem hnone
  have hcall := List.mem_map_of_mem (f := (·.call?)) hmem
  rw [h, hnone] at hcall
  simp at hcall

/-- What a coordinator asks for to watch nothing any more. -/
def Coordinator.removals (c : Coordinator r) : List (Event r) :=
  c.watches.map fun watch => .asked watch.leg (.unregister c.observer)

namespace Session

theorem trace_watchExactly_nil (s : Session b) :
    (s.watchExactly []).world.trace = s.world.trace ++ s.coordinator.removals := by
  simp [watchExactly, trace_release, Coordinator.removals]

theorem trace_finish {s : Session b} (hopen : s.coordinator.outcome = none) (success : Bool) :
    ∃ told : List (Event r),
      (s.finish success).world.trace = s.world.trace ++ s.coordinator.removals ++ told ∧
      told.map (·.call?) =
        s.coordinator.listeners.map fun listener => some (listener, success) := by
  let quiet : Session b := (s.enter .done).watchExactly []
  have hlisteners : quiet.coordinator.listeners = s.coordinator.listeners :=
    (listeners_watchExactly _ []).trans (listeners_enter s .done)
  have hentered : (s.enter .done).coordinator.removals = [] := by
    have hwatches : (s.enter .done).coordinator.watches = [] := watches_watchExactly_nil s
    rw [Coordinator.removals, hwatches, List.map_nil]
  have hquiet : quiet.world.trace = s.world.trace ++ s.coordinator.removals := by
    rw [trace_watchExactly_nil, hentered, List.append_nil]
    exact trace_watchExactly_nil s
  have hfinish : s.finish success = (quiet.settle success).tellListeners success := by
    have hundecided : (s.enter .done).coordinator.outcome = none :=
      (outcome_enter s .done).trans hopen
    rw [finish, complete, hundecided]
  obtain ⟨told, htrace, hcalls⟩ := quiet.world.trace_foldl_tell success quiet.coordinator.listeners
  refine ⟨told, ?_, ?_⟩
  · rw [hfinish, ← hquiet]
    exact htrace
  · rw [hcalls, hlisteners]

/-- From `s` to `t` the coordination closes after it did `acts`; it succeeds unless there is a
cause of failure. -/
structure Closes (s t : Session b) (acts : List (Event r)) (cause : Option Failure) : Prop where
  phase : t.phase = .done
  outcome : t.coordinator.outcome = some cause.isNone
  failure : t.coordinator.failure = cause
  trace : ∃ told, t.world.trace = s.world.trace ++ (acts ++ s.coordinator.removals ++ told) ∧
    told.map (·.call?) =
      s.coordinator.listeners.map fun listener => some (listener, cause.isNone)

namespace Closes

variable {s t u : Session b} {acts : List (Event r)} {cause : Option Failure}

/-- What the coordinator does without a change of its own can be done first. -/
theorem after (h : Closes t u acts cause) {events : List (Event r)}
    (htrace : t.world.trace = s.world.trace ++ events) (hc : t.coordinator = s.coordinator) :
    Closes s u (events ++ acts) cause where
  phase := h.phase
  outcome := h.outcome
  failure := h.failure
  trace := by
    obtain ⟨told, htold, hcalls⟩ := h.trace
    rw [hc] at htold hcalls
    exact ⟨told, by rw [htold, htrace]; simp only [List.append_assoc], hcalls⟩

theorem ask (slot : Slot r) (request : LegRequest) (h : Closes (s.ask slot request) u acts cause) :
    Closes s u (.asked slot request :: acts) cause :=
  h.after (World.trace_ask s.world slot request) rfl

end Closes

theorem closes_finish {s : Session b} (hopen : s.coordinator.outcome = none)
    (hnone : s.coordinator.failure = none) : Closes s (s.finish true) [] none where
  phase := phase_finish s true
  outcome := outcome_finish hopen true
  failure := (failure_finish s true).trans hnone
  trace := by
    obtain ⟨told, htrace, hcalls⟩ := trace_finish hopen true
    exact ⟨told, by rw [htrace]; simp only [List.nil_append, List.append_assoc], hcalls⟩

theorem closes_fail {s : Session b} (hopen : s.coordinator.outcome = none)
    (hnone : s.coordinator.failure = none) (cause : Failure) :
    Closes s ((s.recordFailure cause).finish false) [] (some cause) where
  phase := phase_finish _ false
  outcome := outcome_finish (s := s.recordFailure cause) hopen false
  failure := (failure_finish _ false).trans (failure_recordFailure_of_none hnone cause)
  trace := by
    obtain ⟨told, htrace, hcalls⟩ := trace_finish (s := s.recordFailure cause) hopen false
    refine ⟨told, ?_, hcalls⟩
    rw [htrace]
    simp only [List.nil_append, List.append_assoc]
    rfl

/-! ## When a hold ends -/

/-- Leave the wait for a hold in the way in which it ended. -/
def leaveHold (s : Session b) (hold : Slot r) (next : Continuation r) : HoldExit → Session b
  | .settled => s.holdSettled hold next
  | .failed => s.holdFailed hold next

end Session

/-- What is done about an incoming call once the hold has settled. -/
def World.answering (w : World b) (leg : Slot r) (video : Video) : List (Event r) :=
  if w.state leg = .ringing then [.asked leg (.answer video)] else []

/-- What is done about a call whose connection was allocated once the hold has settled, and what
goes wrong with it. -/
def World.placing (w : World b) (leg : Slot r) (call : OutgoingCall) (pending : ConnectionId)
    (policy : Policy) (handler : Option FaultHandler) : List (Event r) × Option Failure :=
  let order : Event r := .dialled leg call.callee (call.terms false) (w.nextAnswer leg)
  if w.state leg = .disconnected then ([], some (.peerDisconnected leg.id))
  else
    match w.nextAnswer leg with
    | .placed placed =>
      if placed = pending then ([order], none)
      else
        ([order, .asked leg (.disconnect (.internalFailure policy.mismatchReason))],
          some (.identityMismatch pending placed))
    | .raised fault =>
      (order :: handler.toList.map (.faultReported · leg.id fault), some (.dialRaised fault))

namespace World

variable {w : World b} {leg : Slot r} {call : OutgoingCall} {pending : ConnectionId}
  {policy : Policy} {handler : Option FaultHandler}

theorem placing_of_gone (h : w.state leg = .disconnected) :
    w.placing leg call pending policy handler = ([], some (.peerDisconnected leg.id)) :=
  if_pos h

theorem placing_of_placed (hthere : w.state leg ≠ .disconnected) {placed : ConnectionId}
    (h : w.nextAnswer leg = .placed placed) :
    w.placing leg call pending policy handler =
      if placed = pending then
        ([.dialled leg call.callee (call.terms false) (.placed placed)], none)
      else
        ([.dialled leg call.callee (call.terms false) (.placed placed),
          .asked leg (.disconnect (.internalFailure policy.mismatchReason))],
          some (.identityMismatch pending placed)) := by
  simp only [placing, if_neg hthere, h]

theorem placing_of_raised (hthere : w.state leg ≠ .disconnected) {fault : DialFault}
    (h : w.nextAnswer leg = .raised fault) :
    w.placing leg call pending policy handler =
      (.dialled leg call.callee (call.terms false) (.raised fault) ::
        handler.toList.map (.faultReported · leg.id fault), some (.dialRaised fault)) := by
  simp only [placing, if_neg hthere, h]

end World

/-- What is given up when the hold has failed. -/
def Continuation.dropping : Continuation r → List (Event r)
  | place leg _ _ => [.asked leg (.disconnect .errorUnspecified)]
  | _ => []

namespace Session

theorem closes_holdFailed {s : Session b} (hopen : s.coordinator.outcome = none)
    (hnone : s.coordinator.failure = none) (hold : Slot r) (next : Continuation r) :
    Closes s (s.holdFailed hold next) next.dropping (some (.holdFailed hold.id)) := by
  cases next with
  | answer _ _ | resume _ => exact closes_fail hopen hnone _
  | place leg call pending =>
    have hfail := closes_fail (s := s.ask leg (.disconnect .errorUnspecified)) hopen hnone
      (.holdFailed hold.id)
    exact hfail.ask

theorem closes_answer {s : Session b} (hopen : s.coordinator.outcome = none)
    (hnone : s.coordinator.failure = none) (hold leg : Slot r) (video : Video) :
    Closes s (s.holdSettled hold (.answer leg video)) (s.world.answering leg video) none := by
  simp only [holdSettled, World.answering]
  split
  · have hfinish := closes_finish (s := s.ask leg (.answer video)) hopen hnone
    exact hfinish.ask
  · exact closes_finish hopen hnone

theorem closes_place {s : Session b} (hopen : s.coordinator.outcome = none)
    (hnone : s.coordinator.failure = none) (leg : Slot r) (call : OutgoingCall)
    (pending : ConnectionId) :
    let placing := s.world.placing leg call pending s.coordinator.policy s.coordinator.handler
    Closes s (s.place leg call pending) placing.1 placing.2 := by
  intro placing
  by_cases hgone : s.world.state leg = .disconnected
  · have hplacing : placing = ([], some (.peerDisconnected leg.id)) := if_pos hgone
    rw [hplacing, place, if_pos hgone]
    exact closes_fail hopen hnone _
  · let dialled : Session b :=
      { s with world := (s.world.dial leg call.callee (call.terms false)).2 }
    have htrace : dialled.world.trace = s.world.trace ++
        [.dialled leg call.callee (call.terms false) (s.world.nextAnswer leg)] :=
      World.trace_dial s.world leg _ _
    have hanswer : (s.world.dial leg call.callee (call.terms false)).1 = s.world.nextAnswer leg :=
      rfl
    simp only [placing, World.placing, place, if_neg hgone, hanswer]
    cases hnext : s.world.nextAnswer leg with
    | placed placed =>
      rw [hnext] at htrace
      dsimp only
      split
      · exact (closes_finish (s := dialled) hopen hnone).after htrace rfl
      · have hfail := closes_fail (s := dialled.ask leg (.disconnect
          (.internalFailure s.coordinator.policy.mismatchReason))) hopen hnone
          (.identityMismatch pending placed)
        exact hfail.ask.after htrace rfl
    | raised fault =>
      rw [hnext] at htrace
      have hcoordinator := coordinator_reportFault dialled leg fault
      have hfail := closes_fail (s := dialled.reportFault leg fault)
        (by rw [hcoordinator]; exact hopen) (by rw [hcoordinator]; exact hnone)
        (.dialRaised fault)
      have hreported := hfail.after (trace_reportFault dialled leg fault) hcoordinator
      rw [List.append_nil] at hreported
      exact hreported.after htrace rfl

end Session

end CallCoordination
