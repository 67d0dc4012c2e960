import CallCoordination.Proofs.Announcement
import CallCoordination.Proofs.Session.Course

/-!
# What a dial answers with

A dial allocates its connection before anything else, and it answers with what it was given. That
says nothing about how the dial goes on: it may have failed by the time it answers. Only a dial that
is given no connection answers with the failure that it ends with, and nobody but its listeners
hears of it.
-/

namespace CallCoordination

variable {r : Roster} {b : Behaviour r}

namespace Session

/-! ## Before the start -/

theorem isStart_unrolledIn (s : Session b) (turn : Turn b) (hother : turn.isStart = false) :
    ∀ t ∈ s.unrolledIn turn, t.isStart = false := by
  intro t ht
  rcases s.drains_or_unrolledIn_eq turn with ⟨-, hunrolled⟩ | hunrolled
  · rw [hunrolled] at ht
    rcases eq_of_mem_hearing ht with rfl | ⟨signal, rfl⟩
    · rfl
    · rfl
  · rw [hunrolled, List.mem_singleton] at ht
    rw [ht]
    exact hother

theorem isStart_unrolled (s : Session b) {turns : List (Turn b)}
    (hother : ∀ turn ∈ turns, turn.isStart = false) :
    ∀ turn ∈ s.unrolled turns, turn.isStart = false :=
  forall_mem_unrolled isStart_unrolledIn s hother

/-- Whatever else is done to a coordinator, it does nothing itself before it is started. -/
theorem Unstarted.run {s : Session b} {action : Action r} (h : s.Unstarted action)
    {turns : List (Turn b)} (single : ∀ turn ∈ turns, turn.Single)
    (hother : ∀ turn ∈ turns, turn.isStart = false) :
    (s.run turns).Unstarted action ∧ s.deeds turns = [] := by
  induction turns generalizing s with
  | nil => exact ⟨h, rfl⟩
  | cons turn later ih =>
    obtain ⟨hsingle, hlater⟩ := List.forall_mem_cons.mp single
    obtain ⟨hturn, hotherLater⟩ := List.forall_mem_cons.mp hother
    obtain ⟨hunstarted, hnone⟩ := h.turn hsingle hturn
    obtain ⟨hrun, hdeeds⟩ := ih hunstarted hlater hotherLater
    exact ⟨hrun, by rw [deeds, hnone, hdeeds]; rfl⟩

/-! ## After the end -/

/-- A start is refused, and whatever is heard has no effect. -/
structure Inert (s : Session b) (success : Bool) : Prop where
  start : s.start = (.error .alreadyStarted, s)
  processPending : s.processPending = (0, s)
  serve : s.serve = (some success, s)
  dispatch : ∀ signal, s.dispatch signal = s
  hearState : ∀ leg state, s.hearState leg state = s
  hearEvent : ∀ leg event, s.hearEvent leg event = s

theorem inert_of_done {s : Session b} (hphase : s.phase = .done) {success : Bool}
    (hsome : s.coordinator.outcome = some success) : s.Inert success where
  start := by rw [Session.start, hphase]
  processPending := processPending_of_completed (by simp [Coordinator.isCompleted, hsome])
  serve := serve_of_completed hsome
  dispatch signal := dispatch_of_decided (by simp [hsome]) signal
  hearState leg state := by rw [Session.hearState, hphase]
  hearEvent leg event := by rw [Session.hearEvent, hphase]

/-! ## The start of a dial -/

variable {s : Session b} {hold leg : Slot r} {call : OutgoingCall}

theorem result_start_dial (hphase : s.phase = .idle (.dial hold leg call)) :
    s.start.1 =
      match s.world.nextAnswer leg with
      | .placed pending => .ok (some pending)
      | .raised fault => .error (.dialRaised fault) := by
  cases hanswer : s.world.nextAnswer leg with
  | placed pending =>
    rw [start_of_plan hphase (Action.plan_of_placed hanswer)]
    rfl
  | raised fault => rw [start_of_refused hphase (Action.plan_of_raised hanswer)]

/-- Whatever a dial goes on to do, it has ordered its connection first. -/
theorem Unstarted.trace_start_dial (h : s.Unstarted (.dial hold leg call)) :
    ∃ rest, s.start.2.world.trace = s.world.trace ++
      .dialled leg call.callee (call.terms true) (s.world.nextAnswer leg) :: rest := by
  cases hanswer : s.world.nextAnswer leg with
  | placed pending =>
    have hplan : (Action.dial hold leg call).plan s.world = .ok (.place leg call pending) :=
      Action.plan_of_placed hanswer
    have hacts := acts_awaitHold h.allocated.phase (Action.leaves_of_plan hplan)
    obtain ⟨rest, htrace, -⟩ := hacts.moves.grows
    refine ⟨rest, ?_⟩
    rw [start_of_plan h.phase hplan, htrace]
    have hentry : (s.allocated (.dial hold leg call)).world.trace = _ := Action.trace_entry hplan
    rw [hentry, List.append_assoc]
    rfl
  | raised fault =>
    obtain ⟨-, -, -, told, htrace, -⟩ := h.closes_refused hanswer
    exact ⟨_, htrace⟩

end Session

/-- However a dial was prepared, its first start orders a connection before the coordinator has
asked for anything else, and answers with that connection, whatever it goes on to do. If the order
is refused, the start answers with that failure and has done nothing but to tell its listeners; it
has failed for the same reason, and no later start and no signal has any effect. -/
theorem dial_answers_with_allocation (hold leg : Slot r) (call : OutgoingCall) (policy : Policy)
    (handler : Option FaultHandler) (observer : Observer) (w : World b) (before : List (Turn b))
    (allPublic : ∀ turn ∈ before, turn.Public)
    (first : ∀ turn ∈ before, turn.isStart = false) :
    let prepared := Session.opened (.action (.dial hold leg call) policy handler) observer w
    let s := prepared.run before
    let t := s.start.2
    let order (answer : DialAnswer) : Event r :=
      .dialled leg call.callee (call.terms true) answer
    let answer := s.world.nextAnswer leg
    prepared.deeds before = [] ∧
    (∃ rest, t.world.trace = s.world.trace ++ order answer :: rest) ∧
    (∀ result, s.start.1 = .ok result ↔
      ∃ pending, answer = .placed pending ∧ result = some pending) ∧
    (∀ failure, s.start.1 = .error failure ↔
      ∃ fault, answer = .raised fault ∧ failure = .dialRaised fault) ∧
    ∀ fault, answer = .raised fault →
      (∃ told, t.world.trace = s.world.trace ++ order (.raised fault) :: told ∧
        told.map (·.call?) = (standing before).map fun listener => some (listener, false)) ∧
      t.phase = .done ∧ t.coordinator.outcome = some false ∧
      t.coordinator.failure = some (.dialRaised fault) ∧
      ∀ later, (∀ turn ∈ later, turn.Public) → (t.run later).Inert false := by
  intro prepared s t order answer
  have hopened := Session.unstarted_opened (.dial hold leg call) policy handler observer w
  obtain ⟨hunstarted, hdeeds⟩ := hopened.run (prepared.single_unrolled allPublic)
    (prepared.isStart_unrolled first)
  rw [prepared.run_unrolled] at hunstarted
  rw [prepared.deeds_unrolled] at hdeeds
  have hresult := Session.result_start_dial hunstarted.phase
  refine ⟨hdeeds, hunstarted.trace_start_dial, ?_, ?_, ?_⟩
  · intro result
    rw [hresult]
    cases hanswer : s.world.nextAnswer leg with
    | placed pending => simp [answer, hanswer, eq_comm]
    | raised fault => simp [answer, hanswer]
  · intro failure
    rw [hresult]
    cases hanswer : s.world.nextAnswer leg with
    | placed pending => simp [answer, hanswer]
    | raised fault => simp [answer, hanswer, eq_comm]
  · intro fault hraised
    obtain ⟨hdone, houtcome, hfailure, told, htrace, hcalls⟩ := hunstarted.closes_refused hraised
    have hlisteners : s.coordinator.listeners = standing before :=
      Session.listeners_run _ observer w before
    rw [hunstarted.removals, List.append_nil] at htrace
    rw [hlisteners] at hcalls
    refine ⟨⟨told, htrace, hcalls⟩, hdone, houtcome, hfailure, fun later hlater => ?_⟩
    obtain ⟨hkeeps, -⟩ := Session.run_of_done hdone houtcome hlater
    exact Session.inert_of_done (hkeeps.phase_eq.trans hdone) (hkeeps.outcome_eq.trans houtcome)

/-- The other leg is on hold already, and the call that is placed at once is not the one that was
allocated: the start answers with a connection although the dial has failed. -/
theorem dial_answers_with_allocation_of_mismatch :
    let call : OutgoingCall := ⟨.address "5550100", .audioOnly, none⟩
    let w : World (Script.behaviour (r := [⟨"a"⟩, ⟨"b"⟩]) {}) :=
      .fresh #v[{ state := .holding },
        { state := .idle, answers := [.placed ⟨"p"⟩, .placed ⟨"q"⟩] }] ()
    let before : List (Turn (Script.behaviour (r := [⟨"a"⟩, ⟨"b"⟩]) {})) :=
      [.perform (.addListener ⟨"l"⟩), .perform (.hearState ⟨"a"⟩ .holding)]
    let s := (Session.opened (.action (.dial 0 1 call) {} none) ⟨0⟩ w).run before
    (∀ turn ∈ before, turn.Public) ∧ (∀ turn ∈ before, turn.isStart = false) ∧
      s.start.1 = .ok (some ⟨"p"⟩) ∧ s.start.2.coordinator.outcome = some false ∧
      s.start.2.coordinator.failure = some (.identityMismatch ⟨"p"⟩ ⟨"q"⟩) := by
  intro call w before s
  have allPublic : ∀ turn ∈ before, turn.Public := by
    simp [before, Turn.Public, Operation.isPublic]
  have first : ∀ turn ∈ before, turn.isStart = false := by simp [before, Turn.isStart]
  obtain ⟨-, -, hresult, -, -⟩ :=
    dial_answers_with_allocation 0 1 call {} none ⟨0⟩ w before allPublic first
  have hanswer : s.world.nextAnswer 1 = .placed ⟨"p"⟩ := by decide
  refine ⟨allPublic, first, ?_, by decide, by decide⟩
  exact (hresult (some ⟨"p"⟩)).mpr ⟨⟨"p"⟩, hanswer, rfl⟩

end CallCoordination
