import CallCoordination.Proofs.Session.Attempt

/-!
# One law for every hold

Answering, dialling and swapping put a leg on hold in the same way. How the wait for it ends is a
function of the policy, of the leg's state at the start and of the signals, and of nothing else.
Until the hold has settled the other leg is left alone, and after a failed hold for ever.
-/

namespace CallCoordination

variable {r : Roster} {b : Behaviour r}

namespace Event

def isHold : Event r → Bool
  | asked _ .hold => true
  | _ => false

/-- The other leg is made to go on: a deferred order does not do that. -/
def proceeds : Event r → Bool
  | asked _ (.answer _) | asked _ .resume => true
  | dialled _ _ terms _ => !terms.deferred
  | _ => false

def Quiet (event : Event r) : Prop := event.isHold = false ∧ event.proceeds = false

theorem quiet_of_isRegistration {event : Event r} (h : event.isRegistration = true) :
    event.Quiet := by
  cases event with
  | asked leg request => cases request <;> simp_all [isRegistration, LegRequest.isRegistration,
      Quiet, isHold, proceeds]
  | _ => simp [isRegistration] at h

theorem quiet_of_call? {event : Event r} (h : event.call? ≠ none) : event.Quiet := by
  cases event with
  | told listener success registrations => exact ⟨rfl, rfl⟩
  | _ => simp [call?] at h

end Event

def Failure.isHoldFailed : Failure → Bool
  | holdFailed _ => true
  | _ => false

/-- How the wait for a hold ends, given the state in which the leg was found and the signals. -/
def holdLaw (policy : Policy) (hold : Leg.Id) (found : Leg.State) (signals : List Signal) :
    Option HoldExit :=
  if policy.holdSettledOnEntry ∧ found.settled then some .settled
  else signals.findSome? fun signal => (signal.via hold 1).bind (·.holdExit?)

namespace Session

/-- How the wait for the hold ended, as far as the coordinator shows it. -/
def holdExit? (s : Session b) : Option HoldExit :=
  match s.phase with
  | .idle _ | .awaitingHold _ _ => none
  | _ => some (if s.coordinator.failure.any (·.isHoldFailed) then .failed else .settled)

theorem holdExit?_of_rank {s : Session b} (h : s.phase.rank < 3) :
    s.holdExit? =
      some (if s.coordinator.failure.any (·.isHoldFailed) then .failed else .settled) := by
  unfold holdExit?
  split
  next hp => simp [hp, Phase.rank] at h
  next hp => simp [hp, Phase.rank] at h
  · rfl

theorem holdExit?_congr {s t : Session b} (h : t.coordinator = s.coordinator) :
    t.holdExit? = s.holdExit? := by
  simp only [holdExit?, phase, h]

/-! ## After a hold has settled -/

def Blameless (s : Session b) : Prop := s.coordinator.failure.any (·.isHoldFailed) = false

theorem Blameless.of_eq {s t : Session b} (h : s.Blameless)
    (hf : t.coordinator.failure = s.coordinator.failure) : t.Blameless := by
  rw [Blameless, hf]
  exact h

theorem Blameless.finish {s : Session b} (h : s.Blameless) (success : Bool) :
    (s.finish success).Blameless :=
  h.of_eq (failure_finish s success)

theorem Blameless.recordFailure {s : Session b} (h : s.Blameless) {cause : Failure}
    (hc : cause.isHoldFailed = false) : (s.recordFailure cause).Blameless := by
  unfold Blameless at h ⊢
  simp only [Session.recordFailure, Coordinator.recordFailure]
  cases hf : s.coordinator.failure with
  | none => exact hc
  | some failure =>
    rw [hf] at h
    exact h

theorem Blameless.rollBack {s : Session b} (h : s.Blameless) (held : Slot r) {cause : Failure}
    (hc : cause.isHoldFailed = false) : (s.rollBack held cause).Blameless := by
  have hrecorded := h.recordFailure hc
  unfold Session.rollBack
  dsimp only
  split
  · exact hrecorded.of_eq (failure_enter _ (.rollingBack held))
  · exact hrecorded.finish false

theorem Blameless.place {s : Session b} (h : s.Blameless) (leg : Slot r) (call : OutgoingCall)
    (pending : ConnectionId) : (s.place leg call pending).Blameless := by
  have hworld (w : World b) : Blameless ⟨s.coordinator, w⟩ := h
  unfold Session.place
  split
  · exact (h.recordFailure rfl).finish false
  · dsimp only
    split
    · split
      · exact (hworld _).finish true
      · exact ((hworld _).recordFailure rfl).finish false
    · have hreport (t : Session b) (fault : DialFault) (ht : t.Blameless) :
          (t.reportFault leg fault).Blameless :=
        ht.of_eq (congrArg (·.failure) (coordinator_reportFault t leg fault))
      exact ((hreport _ _ (hworld _)).recordFailure rfl).finish false

theorem Blameless.holdSettled {s : Session b} (h : s.Blameless) (hold : Slot r)
    (next : Continuation r) : (s.holdSettled hold next).Blameless := by
  cases next with
  | answer leg video =>
    simp only [Session.holdSettled]
    split
    · exact Blameless.finish (s := s.ask leg _) h true
    · exact h.finish true
  | place leg call pending => exact h.place leg call pending
  | resume leg =>
    simp only [Session.holdSettled]
    split
    · exact h.of_eq (failure_enter s (.awaitingResume hold leg))
    · exact h.finish true
    · exact h.rollBack hold rfl

theorem Blameless.hearState {s : Session b} (h : s.Blameless) (hrank : s.phase.rank < 3)
    (leg : Leg.Id) (state : Leg.State) : (s.hearState leg state).Blameless := by
  unfold Session.hearState
  split
  next hp => simp [hp, Phase.rank] at hrank
  next held resume hp =>
    split
    · split
      · exact h.finish true
      · exact h.rollBack held rfl
      · exact h
    · exact h
  next resume hp =>
    split
    · exact h.finish false
    · exact h
  · exact h
  · exact h

theorem Blameless.hearEvent {s : Session b} (h : s.Blameless) (hrank : s.phase.rank < 3)
    (leg : Leg.Id) (event : ConnectionEvent) : (s.hearEvent leg event).Blameless := by
  unfold Session.hearEvent
  split
  next hp => simp [hp, Phase.rank] at hrank
  next held resume hp =>
    split
    · exact h.rollBack held rfl
    · exact h
  next resume hp =>
    split
    · exact h.finish false
    · exact h
  · exact h
  · exact h

theorem Blameless.dispatch {s : Session b} (h : s.Blameless) (hrank : s.phase.rank < 3)
    (signal : Signal) : (s.dispatch signal).Blameless := by
  unfold Session.dispatch
  split
  · exact h
  · split
    · exact h.hearState hrank _ _
    · exact h.hearEvent hrank _ _
    · exact h

theorem rank_dispatch_le (s : Session b) (signal : Signal) :
    (s.dispatch signal).phase.rank ≤ s.phase.rank := by
  rcases advances_dispatch s signal with hlt | ⟨heq, _⟩
  · exact Nat.le_of_lt hlt
  · exact Nat.le_of_eq (congrArg Phase.rank heq)

/-! ## What is asked for -/

theorem quiet_enter (s : Session b) (phase : Phase r) :
    World.Grows Event.Quiet s.world (s.enter phase).world :=
  (grows_enter s phase).mono fun _ => Event.quiet_of_isRegistration

theorem quiet_finish (s : Session b) (success : Bool) :
    World.Grows Event.Quiet s.world (s.finish success).world := by
  refine (grows_finish s success).mono ?_
  rintro event (h | h)
  · exact Event.quiet_of_isRegistration h
  · exact Event.quiet_of_call? h

theorem quiet_holdFailed (s : Session b) (hold : Slot r) (next : Continuation r) :
    World.Grows Event.Quiet s.world (s.holdFailed hold next).world := by
  cases next with
  | place leg call pending =>
    have hask : World.Grows Event.Quiet s.world
        (s.ask leg (.disconnect .errorUnspecified)).world := by
      refine (World.grows_ask s.world leg _).mono ?_
      rintro event rfl
      exact ⟨rfl, rfl⟩
    exact hask.trans (quiet_finish _ false)
  | answer leg video => exact quiet_finish (s.recordFailure _) false
  | resume leg => exact quiet_finish (s.recordFailure _) false

theorem Step.holdless {s t : Session b} (h : Step s t) (hs : s.phase.rank ≤ 3) :
    World.Grows (·.isHold = false) s.world t.world ∧ t.phase.rank ≤ 3 := by
  cases h with
  | begin hp => simp [hp, Phase.rank] at hs
  | enter hf =>
    refine ⟨(quiet_enter s _).mono fun _ hq => hq.1, ?_⟩
    exact Nat.le_trans (Nat.le_of_lt (Phase.rank_lt_of_follows hf)) hs
  | ask slot hr =>
    refine ⟨(World.grows_ask s.world slot _).mono ?_, hs⟩
    rintro event rfl
    cases ‹LegRequest› <;> simp_all [LegRequest.isFollowUp, Event.isHold]
  | dial slot callee terms =>
    exact ⟨.single (World.trace_dial s.world slot callee terms) rfl, hs⟩
  | report slot fault =>
    refine ⟨(grows_reportFault s slot fault).mono ?_, ?_⟩
    · rintro event ⟨handler, rfl⟩
      rfl
    · rw [phase_reportFault]
      exact hs
  | fail failure => exact ⟨.refl _ _, hs⟩
  | noteState leg state => exact ⟨.single rfl rfl, hs⟩
  | noteEvent leg event => exact ⟨.single rfl rfl, hs⟩
  | pop hpop =>
    have hphase : t.phase = s.phase := congrArg (·.phase) (pop_eq_some hpop).1
    exact ⟨.of_eq _ (trace_pop hpop), hphase ▸ hs⟩

theorem Acts.holdless {s t : Session b} (h : Acts s t) (hs : s.phase.rank ≤ 3) :
    World.Grows (·.isHold = false) s.world t.world := by
  induction h with
  | nothing s => exact .refl _ _
  | finish s success => exact (quiet_finish s success).mono fun _ hq => hq.1
  | step hstep _ ih =>
    obtain ⟨hgrows, hrank⟩ := hstep.holdless hs
    exact hgrows.trans (ih hrank)

theorem live_of_settled {s : Session b} (hrank : s.phase.rank < 3) (h : s.Blameless)
    (occurrences : List (Occurrence b)) :
    (s.live occurrences).holdExit? = some .settled ∧
      World.Grows (·.isHold = false) s.world (s.live occurrences).world := by
  induction occurrences generalizing s with
  | nil =>
    refine ⟨?_, .refl _ _⟩
    rw [live_nil, holdExit?_of_rank hrank, h]
    rfl
  | cons occurrence later ih =>
    cases occurrence with
    | hear signal =>
      have hrank' := Nat.lt_of_le_of_lt (rank_dispatch_le s signal) hrank
      obtain ⟨hexit, hgrows⟩ := ih hrank' (h.dispatch hrank signal)
      exact ⟨hexit, ((acts_dispatch s signal).holdless (Nat.le_of_lt hrank)).trans hgrows⟩
    | stir memory effects =>
      obtain ⟨hexit, hgrows⟩ := ih (s := { s with world := s.world.stir memory effects }) hrank h
      exact ⟨hexit, (World.Grows.of_eq _ (World.trace_stir s.world memory effects)).trans hgrows⟩

/-! ## While a hold is awaited -/

theorem Waits.blameless {s : Session b} {hold : Slot r} {next : Continuation r}
    (h : s.Waits hold next) : s.Blameless := by
  simp [Blameless, h.failure]

theorem holdExit?_holdFailed {s : Session b} (h : s.coordinator.failure = none) (hold : Slot r)
    (next : Continuation r) : (s.holdFailed hold next).holdExit? = some .failed := by
  have hphase := phase_holdFailed s hold next
  have hfailure : (s.holdFailed hold next).coordinator.failure = some (.holdFailed hold.id) := by
    cases next <;>
      simp [holdFailed, Session.recordFailure, Coordinator.recordFailure, Session.ask, h]
  rw [holdExit?_of_rank (by simp [hphase, Phase.rank]), hfailure]
  rfl

theorem Waits.live {s : Session b} {hold : Slot r} {next : Continuation r}
    (h : s.Waits hold next) (occurrences : List (Occurrence b)) {exit : Option HoldExit}
    (hexit : exit = (occurrences.filterMap (·.signal?)).findSome? fun signal =>
      (signal.via hold.id 1).bind (·.holdExit?)) :
    (s.live occurrences).holdExit? = exit ∧
      (exit = none → (s.live occurrences).Waits hold next) ∧
      World.Grows
        (fun event => event.isHold = false ∧ (exit ≠ some .settled → event.proceeds = false))
        s.world (s.live occurrences).world := by
  -- `Waits` is the invariant; the first signal with a verdict leaves it for good
  induction occurrences generalizing s with
  | nil =>
    subst hexit
    exact ⟨by simp [holdExit?, h.phase], fun _ => h, .refl _ _⟩
  | cons occurrence later ih =>
    cases occurrence with
    | stir memory effects =>
      obtain ⟨hlive, hwaits, hgrows⟩ :=
        ih (s := { s with world := s.world.stir memory effects }) (h.of_coordinator_eq rfl) hexit
      have hstir := World.trace_stir s.world memory effects
      exact ⟨hlive, hwaits, (World.Grows.of_eq _ hstir).trans hgrows⟩
    | hear signal =>
      have hdispatch := dispatch_awaitingHold h.phase h.expects signal
      simp only [List.filterMap_cons, Occurrence.signal?, List.findSome?_cons] at hexit
      cases hverdict : (signal.via hold.id 1).bind (·.holdExit?) with
      | none =>
        simp only [hverdict] at hdispatch hexit
        rw [live_hear, hdispatch]
        exact ih h hexit
      | some verdict =>
        simp only [hverdict] at hdispatch hexit
        subst hexit
        rw [live_hear, hdispatch]
        cases verdict with
        | settled =>
          have hrank : (s.holdSettled hold next).phase.rank < 3 :=
            Nat.lt_of_le_of_lt (rank_holdSettled_le s hold next) (by decide)
          obtain ⟨hlive, hgrows⟩ :=
            live_of_settled hrank (h.blameless.holdSettled hold next) later
          have hacts := (acts_holdSettled h.phase).holdless (by simp [h.phase, Phase.rank])
          refine ⟨hlive, fun hnone => absurd hnone (by simp), (hacts.trans hgrows).mono ?_⟩
          exact fun event hhold => ⟨hhold, fun hne => absurd rfl hne⟩
        | failed =>
          have hdecided : (s.holdFailed hold next).coordinator.outcome ≠ none := by
            unfold holdFailed
            exact outcome_complete_ne_none _ false
          obtain ⟨hcoordinator, htrace⟩ := live_of_decided hdecided later
          have hquiet := (quiet_holdFailed s hold next).trans (.of_eq _ htrace)
          refine ⟨?_, fun hnone => absurd hnone (by simp), hquiet.mono ?_⟩
          · exact (holdExit?_congr hcoordinator).trans (holdExit?_holdFailed h.failure hold next)
          · exact fun event hq => ⟨hq.1, fun _ => hq.2⟩

/-! ## The start -/

theorem trace_enter_awaitingHold {s : Session b} (h : s.coordinator.watches = [])
    (hold : Slot r) (next : Continuation r) :
    (s.enter (.awaitingHold hold next)).world.trace = s.world.trace ++
      [.asked hold (.register ⟨s.coordinator.observer, s.coordinator.issued + 1⟩)] := by
  simp [enter, Phase.watched, watchExactly, release, watch, Coordinator.isWatching, h]

end Session

theorem Action.quiet_entry (action : Action r) (w : World b) :
    World.Grows Event.Quiet w (action.entry w) := by
  cases action with
  | answer hold leg video => exact .refl _ w
  | swap hold leg => exact .refl _ w
  | dial hold leg call => exact .single (World.trace_dial w leg _ _) ⟨rfl, rfl⟩

namespace Attempt

def entry (a : Attempt b) : World b := a.action.entry a.world

def SettledOnEntry (a : Attempt b) : Prop :=
  a.policy.holdSettledOnEntry = true ∧ (a.entry.state a.action.hold).settled = true

def law (a : Attempt b) : Option HoldExit :=
  holdLaw a.policy a.action.hold.id (a.entry.state a.action.hold) a.signals

theorem law_of_settledOnEntry {a : Attempt b} (h : a.SettledOnEntry) :
    a.law = some .settled :=
  if_pos h

theorem law_of_not_settledOnEntry {a : Attempt b} (h : ¬ a.SettledOnEntry) :
    a.law = a.signals.findSome? fun signal =>
      (signal.via a.action.hold.id 1).bind (·.holdExit?) :=
  if_neg h

/-- The coordinator when it looks at the leg to hold. -/
def ready (a : Attempt b) : Session b := ⟨a.initial.coordinator, a.entry⟩

theorem unstarted_ready (a : Attempt b) : a.ready.Unstarted a.action :=
  { Session.unstarted_initial a with }

theorem isSettledOnEntry_iff (a : Attempt b) :
    a.ready.isSettledOnEntry a.action.hold = true ↔ a.SettledOnEntry := by
  simp [Session.isSettledOnEntry, ready, Session.policy_initial, SettledOnEntry]

theorem exists_start_eq {a : Attempt b} (started : a.Started) :
    ∃ next, a.initial.start.2 = a.ready.awaitHold a.action.hold next := by
  obtain ⟨answer, hok⟩ := started
  obtain ⟨next, -, hstart⟩ := Session.start_of_ok (Session.unstarted_initial a).phase hok
  exact ⟨next, hstart⟩

theorem final_of_settledOnEntry {a : Attempt b} (started : a.Started) (h : a.SettledOnEntry) :
    a.final.holdExit? = some .settled ∧
      World.Grows (·.isHold = false) a.entry a.final.world := by
  obtain ⟨next, hstart⟩ := exists_start_eq started
  have hwaits := a.unstarted_ready.waits next a.action.hold
  have hrank : (a.initial.start.2).phase.rank < 3 := by
    rw [hstart, Session.awaitHold, if_pos (a.isSettledOnEntry_iff.mpr h)]
    exact Nat.lt_of_le_of_lt (Session.rank_holdSettled_le _ _ _) (by decide)
  have hblameless : (a.initial.start.2).Blameless := by
    rw [hstart, Session.awaitHold, if_pos (a.isSettledOnEntry_iff.mpr h)]
    exact hwaits.blameless.holdSettled _ _
  have hstarts : World.Grows (·.isHold = false) a.entry a.initial.start.2.world := by
    rw [hstart, Session.awaitHold, if_pos (a.isSettledOnEntry_iff.mpr h)]
    have henter := (Session.quiet_enter a.ready (.awaitingHold a.action.hold next)).mono
      fun _ hq => hq.1
    exact henter.trans ((Session.acts_holdSettled hwaits.phase).holdless (Nat.le_refl 3))
  obtain ⟨hexit, hgrows⟩ := Session.live_of_settled hrank hblameless a.occurrences
  exact ⟨hexit, hstarts.trans hgrows⟩

theorem start_of_not_settledOnEntry {a : Attempt b} (started : a.Started)
    (h : ¬ a.SettledOnEntry) :
    ∃ next, a.initial.start.2.Waits a.action.hold next ∧
      a.initial.start.2.world.trace = a.entry.trace ++
        [.asked a.action.hold (.register ⟨a.observer, 1⟩), .asked a.action.hold .hold] := by
  obtain ⟨next, hstart⟩ := exists_start_eq started
  have hwaits := a.unstarted_ready.waits next a.action.hold
  have htrace := Session.trace_enter_awaitingHold a.unstarted_ready.watches a.action.hold next
  rw [a.unstarted_ready.issued] at htrace
  rw [hstart, Session.awaitHold, if_neg fun hc => h (a.isSettledOnEntry_iff.mp hc)]
  refine ⟨next, hwaits.of_coordinator_eq rfl, ?_⟩
  rw [Session.ask, World.trace_ask, htrace, ready, Session.observer_initial, List.append_assoc]
  rfl

theorem exists_events (a : Attempt b) (started : a.Started) :
    ∃ events, a.final.world.trace = a.world.trace ++ events ∧
      (a.law ≠ some .settled → ∀ event ∈ events, event.proceeds = false) ∧
      (a.SettledOnEntry → ∀ event ∈ events, event.isHold = false) ∧
      (¬ a.SettledOnEntry → ∃ before after,
        events = before ++ .asked a.action.hold (.register ⟨a.observer, 1⟩) ::
          .asked a.action.hold .hold :: after ∧
        ∀ event ∈ before ++ after, event.isHold = false) := by
  obtain ⟨before, hentry, hbefore⟩ := a.action.quiet_entry a.world
  by_cases h : a.SettledOnEntry
  · have hlaw := law_of_settledOnEntry h
    have hwhole := (a.action.quiet_entry a.world).mono fun _ hq => hq.1
    obtain ⟨events, hfinal, hevents⟩ := hwhole.trans (final_of_settledOnEntry started h).2
    exact ⟨events, hfinal, fun hne => absurd hlaw hne, fun _ => hevents, fun hn => absurd h hn⟩
  · obtain ⟨next, hwaits, hstart⟩ := start_of_not_settledOnEntry started h
    obtain ⟨-, -, after, hfinal, hafter⟩ :=
      hwaits.live a.occurrences (law_of_not_settledOnEntry h)
    refine ⟨before ++ .asked a.action.hold (.register ⟨a.observer, 1⟩) ::
      .asked a.action.hold .hold :: after, ?_, ?_, fun hs => absurd hs h, fun _ =>
      ⟨before, after, rfl, ?_⟩⟩
    · rw [final, hfinal, hstart, entry, hentry]
      simp
    · intro hne event hmem
      simp only [List.mem_append, List.mem_cons] at hmem
      rcases hmem with hmem | rfl | rfl | hmem
      · exact (hbefore event hmem).2
      · rfl
      · rfl
      · exact (hafter event hmem).2 hne
    · intro event hmem
      rcases List.mem_append.mp hmem with hmem | hmem
      · exact (hbefore event hmem).1
      · exact (hafter event hmem).1

end Attempt

/-- An attempt that was not refused leaves the wait for its hold at the signal and in the way that
`holdLaw` says. It asks for the hold once, behind the registration whose signals count, or not at
all if the leg needs none. The other leg goes on only after the hold has settled. Since the law
does not mention the action, attempts of all kinds agree. -/
theorem hold_obeys_law (a : Attempt b) (started : a.Started) :
    a.final.holdExit? = a.law ∧
    (a.law = none ↔ ∃ next, a.final.phase = .awaitingHold a.action.hold next) ∧
    (∃ events, a.final.world.trace = a.world.trace ++ events ∧
      (a.law ≠ some .settled → ∀ event ∈ events, event.proceeds = false) ∧
      (a.SettledOnEntry → ∀ event ∈ events, event.isHold = false) ∧
      (¬ a.SettledOnEntry → ∃ before after,
        events = before ++ .asked a.action.hold (.register ⟨a.observer, 1⟩) ::
          .asked a.action.hold .hold :: after ∧
        ∀ event ∈ before ++ after, event.isHold = false)) ∧
    ∀ {r' : Roster} {b' : Behaviour r'} (a' : Attempt b'), a'.Started → a'.policy = a.policy →
      a'.action.hold.id = a.action.hold.id →
      a'.entry.state a'.action.hold = a.entry.state a.action.hold → a'.signals = a.signals →
      a'.final.holdExit? = a.final.holdExit? := by
  have hobeys {r : Roster} {b : Behaviour r} (a : Attempt b) (started : a.Started) :
      a.final.holdExit? = a.law := by
    by_cases h : a.SettledOnEntry
    · rw [Attempt.law_of_settledOnEntry h]
      exact (Attempt.final_of_settledOnEntry started h).1
    · obtain ⟨next, hwaits, -⟩ := Attempt.start_of_not_settledOnEntry started h
      exact (hwaits.live a.occurrences (Attempt.law_of_not_settledOnEntry h)).1
  refine ⟨hobeys a started, ⟨?_, ?_⟩, a.exists_events started, ?_⟩
  · intro hnone
    by_cases h : a.SettledOnEntry
    · rw [Attempt.law_of_settledOnEntry h] at hnone
      cases hnone
    · obtain ⟨next, hwaits, -⟩ := Attempt.start_of_not_settledOnEntry started h
      have hlive := hwaits.live a.occurrences (Attempt.law_of_not_settledOnEntry h)
      exact ⟨next, (hlive.2.1 hnone).phase⟩
  · rintro ⟨next, hphase⟩
    rw [← hobeys a started, Session.holdExit?, hphase]
  · intro r' b' a' started' hpolicy hid hstate hsignals
    rw [hobeys a' started', hobeys a started, Attempt.law, Attempt.law, hpolicy, hid, hstate,
      hsignals]

/-- A dial whose hold fails, after a stale signal and one of the other leg; an answer agrees. -/
theorem hold_obeys_law_of_dial :
    let call : OutgoingCall := ⟨.address "5550100", .audioOnly, none⟩
    let occurrences := [.hear ⟨⟨"a"⟩, 0, .stateChanged .holding⟩,
      .hear ⟨⟨"b"⟩, 1, .connectionEvent .holdFailed⟩, .stir () [.setState 0 .holding],
      .hear ⟨⟨"a"⟩, 1, .connectionEvent .holdFailed⟩, .hear ⟨⟨"a"⟩, 1, .stateChanged .holding⟩]
    let dial : Attempt (Script.behaviour (r := [⟨"a"⟩, ⟨"b"⟩]) {}) :=
      ⟨.dial 0 1 call, {}, none, ⟨0⟩, [⟨"l"⟩], .pair .active .idle, occurrences⟩
    let answer : Attempt (Script.behaviour (r := [⟨"a"⟩, ⟨"b"⟩]) {}) :=
      ⟨.answer 0 1 .audioOnly, {}, none, ⟨7⟩, [], .pair .active .ringing, occurrences⟩
    dial.Started ∧ answer.Started ∧ dial.final.holdExit? = some .failed ∧
      answer.final.holdExit? = dial.final.holdExit? := by
  intro call occurrences dial answer
  have hdial : dial.Started := ⟨some ⟨"b-conn"⟩, by rfl⟩
  have hanswer : answer.Started := ⟨none, rfl⟩
  obtain ⟨hexit, -, -, hagree⟩ := hold_obeys_law dial hdial
  have hlaw : dial.law = some .failed := by decide
  exact ⟨hdial, hanswer, hexit.trans hlaw, hagree answer hanswer rfl rfl (by decide) rfl⟩

end CallCoordination
