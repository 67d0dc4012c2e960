import CallCoordination.Proofs.Session.Heeding
import CallCoordination.Session.Polling

/-!
# Two ways to drive a coordination

A coordination may be driven by calls of `processPending` or by polls of `serve`. The one asks for
the outcome before it looks for a signal and stops when there is none; the other is ready, waits or
gives up. Both hear the same signals in the same order and leave the same session behind.
-/

namespace CallCoordination

variable {r : Roster} {b : Behaviour r}

namespace Session

/-! ## Waiting for a signal -/

theorem own_mem_senders (s : Session b) : .own ∈ s.senders := List.mem_cons_self

/-- A coordinator can always send to itself, so there is always something to wait for. -/
theorem receive_ne_closed (s : Session b) : s.receive ≠ .closed := by
  have hsender : ¬ s.senders.isEmpty = true := by
    rw [List.isEmpty_iff]
    exact List.ne_nil_of_mem s.own_mem_senders
  unfold receive
  split
  · exact nofun
  · rw [if_neg hsender]
    exact nofun

theorem pop_of_waiting {s : Session b} (h : s.receive = .waiting) : s.pop = none := by
  unfold receive at h
  split at h
  · cases h
  next hnone => exact hnone

/-! ## Hearing by polls -/

/-- The signals that a poll hears. -/
def polled (s : Session b) : List Signal :=
  if s.coordinator.isCompleted then []
  else
    match _ : s.receive with
    | .signal signal t => signal :: (t.dispatch signal).polled
    | .waiting | .closed => []
termination_by s.workload
decreasing_by exact workload_dispatch_lt (pop_of_receive ‹_›)

theorem polled_eq (s : Session b) : s.polled = s.pending.map Prod.fst := by
  fun_induction polled s with
  | case1 s hdone => rw [pending_of_completed hdone, List.map_nil]
  | case2 s hdone signal t hreceive ih =>
    rw [pending_of_pop_eq_some hdone (pop_of_receive hreceive), List.map_cons, ← ih]
  | case3 s hdone hwaiting => rw [pending_of_pop_eq_none (pop_of_waiting hwaiting), List.map_nil]
  | case4 s hdone hclosed => exact absurd hclosed (receive_ne_closed s)

theorem poll_eq (s : Session b) :
    s.poll.2 = s.processPending.2 ∧ s.poll.1.outcome? = s.processPending.2.coordinator.outcome := by
  -- after each signal both are asked for the outcome: a poll before it looks for the next signal,
  -- and `processPending` likewise, so the two recursions stop at the same sessions
  fun_induction poll s with
  | case1 s success hdone =>
    rw [processPending_of_completed (by simp [Coordinator.isCompleted, hdone])]
    exact ⟨rfl, hdone.symm⟩
  | case2 s hdone signal t hreceive ih =>
    rw [processPending_of_pop (by simp [Coordinator.isCompleted, hdone]) (pop_of_receive hreceive)]
    exact ih
  | case3 s hdone hwaiting =>
    rw [processPending_of_pop_eq_none (pop_of_waiting hwaiting)]
    exact ⟨rfl, hdone.symm⟩
  | case4 s hdone hclosed => exact absurd hclosed (receive_ne_closed s)

/-- As long as nothing is decided, `processPending` stops at an empty mailbox only. -/
theorem mailbox_processPending {s : Session b}
    (hopen : s.processPending.2.coordinator.outcome = none) :
    s.processPending.2.mailbox = [] := by
  fun_induction processPending s with
  | case1 s hdone =>
    have hnone : s.coordinator.outcome = none := hopen
    simp [Coordinator.isCompleted, hnone] at hdone
  | case2 s hdone hnone => exact mailbox_of_pop_eq_none hnone
  | case3 s hdone signal t hsome count last hrec ih =>
    rw [hrec] at ih
    exact ih hopen

end Session

/-- From any session, whatever is in the mailbox and however legs, listeners and handlers respond:
a poll of `serve` hears the signals that `processPending` hears and leaves the same coordinator, the
same legs, the same mailbox and the same trace of requests and calls. It is ready with the outcome
if there is one then, and otherwise it waits at an empty mailbox. No poll ever gives up, because the
coordinator's own end stays. -/
theorem polling_agrees_with_processing (s : Session b) :
    let t := (s.perform .process).2
    s.poll.2 = t ∧ s.polled = s.pending.map Prod.fst ∧
    (∀ success, s.poll.1 = .ready success ↔ t.coordinator.outcome = some success) ∧
    (s.poll.1 = .pending ↔ t.coordinator.outcome = none ∧ t.mailbox = []) ∧
    (∀ u : Session b, .own ∈ u.senders ∧ u.receive ≠ .closed) ∧
    s.perform .serve = (.served s.poll.1.outcome?, s.poll.2) := by
  intro t
  have hserve := Session.serve_eq s
  obtain ⟨hsession, houtcome⟩ := Session.poll_eq s
  have hanswer : s.poll.1.outcome? = t.coordinator.outcome := houtcome
  refine ⟨hsession, Session.polled_eq s, fun success => ?_, ?_, fun u => ?_, ?_⟩
  · rw [← hanswer]
    cases s.poll.1 <;> simp [Poll.outcome?]
  · constructor
    · intro hpending
      have hopen : t.coordinator.outcome = none := by
        rw [← hanswer, hpending]
        rfl
      exact ⟨hopen, Session.mailbox_processPending hopen⟩
    · rintro ⟨hopen, -⟩
      rw [← hanswer] at hopen
      cases hpoll : s.poll.1 with
      | ready success => simp [hpoll, Poll.outcome?] at hopen
      | pending => rfl
  · exact ⟨u.own_mem_senders, u.receive_ne_closed⟩
  · rw [houtcome, hsession, Session.perform, hserve]

end CallCoordination
