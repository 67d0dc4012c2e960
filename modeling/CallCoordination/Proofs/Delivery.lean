import CallCoordination.Proofs.Session.Deeds
import CallCoordination.Proofs.Session.Heeding
import CallCoordination.Proofs.Session.Live
import CallCoordination.Proofs.World.Holders
import CallCoordination.Proofs.World.Responses

/-!
# What is delivered

A coordinator without an action that notes what it hears shows what is delivered to any handler.
Signals are taken in the order in which they were sent, each once, and those are noted that come
through a registration which is live when they are taken. Until then registrations may come and go.
-/

namespace CallCoordination

variable {r : Roster} {b : Behaviour r}

/-! ## Taking and noting -/

/-- What a handler is told when it is handed a signal, if it is told of it at all. -/
def Signal.heard (signal : Signal) : Option (Event r) :=
  match signal.notification with
  | .stateChanged state => some (.heardState signal.leg state)
  | .connectionEvent event => some (.heardEvent signal.leg event)
  | _ => none

/-- What is noted of a signal, given the registrations that are live. -/
def Signal.noted (signal : Signal) (live : List (Watch r)) : Option (Event r) :=
  if live.any fun watch => watch.epoch = signal.epoch ∧ watch.leg.id = signal.leg then signal.heard
  else none

theorem Signal.isHeard_of_heard {signal : Signal} {event : Event r}
    (h : signal.heard = some event) : event.isHeard = true := by
  unfold heard at h
  split at h
  · obtain rfl := Option.some.inj h
    rfl
  · obtain rfl := Option.some.inj h
    rfl
  · cases h

theorem Signal.isHeard_of_noted {signal : Signal} {live : List (Watch r)} {event : Event r}
    (h : signal.noted live = some event) : event.isHeard = true :=
  isHeard_of_heard (Option.ite_none_right_eq_some.mp h).2

theorem isHeard_of_mem_noted (signals : List Signal) (live : List (Watch r)) :
    ∀ event ∈ signals.filterMap (·.noted live), event.isHeard = true := by
  intro event hmem
  obtain ⟨signal, -, hnoted⟩ := List.mem_filterMap.mp hmem
  exact Signal.isHeard_of_noted hnoted

/-- An operation that works through the mailbox. -/
def Operation.drains : Operation r → Bool
  | .process | .serve => true
  | _ => false

/-- An operation that hears something else than the next signal of the mailbox, or takes it without
hearing it. -/
def Operation.bypasses : Operation r → Bool
  | .dispatch _ | .hearState _ _ | .hearEvent _ _ | .pop => true
  | _ => false

/-- A turn in which the coordinator hears through its mailbox only, and nobody else acts under its
name. -/
def Turn.Mediated (observer : Observer) : Turn b → Prop
  | perform operation => operation.bypasses = false
  | elsewhere other _ => other.observer ≠ observer
  | stir _ _ => True

theorem Turn.Mediated.apart {observer : Observer} {turn : Turn b} (h : turn.Mediated observer) :
    turn.Apart observer := by
  cases turn with
  | elsewhere other operation => exact h
  | perform _ | stir _ _ => trivial

namespace Session

/-- The signals that are taken in a turn, each with the registrations that are live by then. To
process or to serve is to take all there are, unless the outcome is known. -/
def takenIn (s : Session b) : Turn b → List (Signal × List (Watch r))
  | .perform operation =>
    if operation.drains ∧ s.coordinator.outcome = none then
      s.mailbox.map fun signal => (signal, s.world.liveRegistrations s.coordinator.observer)
    else []
  | .elsewhere _ _ | .stir _ _ => []

/-- What happens in a turn, other coordinators' doings included. -/
def eventsIn (s : Session b) (turn : Turn b) : List (Event r) :=
  (s.turn turn).world.trace.drop s.world.trace.length

/-- The signals that legs send in a turn, by themselves or in response to what happens in it. -/
def sentIn (s : Session b) (turn : Turn b) : List Signal :=
  let letters := match turn with
    | .stir _ effects => effects.flatMap s.world.writtenBy
    | .perform _ | .elsewhere _ _ => s.world.responses (s.eventsIn turn)
  (letters.filter (·.recipient = s.coordinator.observer)).map (·.signal)

def taken (s : Session b) : List (Turn b) → List (Signal × List (Watch r))
  | [] => []
  | turn :: later => s.takenIn turn ++ (s.turn turn).taken later

def sent (s : Session b) : List (Turn b) → List Signal
  | [] => []
  | turn :: later => s.sentIn turn ++ (s.turn turn).sent later

/-! ## A recorder at its mailbox -/

/-- A coordinator that notes what it hears, and watches what is live. -/
structure Records (s : Session b) (observer : Observer) : Prop where
  phase : s.phase = .recorder
  observer : s.coordinator.observer = observer
  upheld : s.Upheld

theorem dispatch_of_recorder {s : Session b} (hphase : s.phase = .recorder)
    (hopen : s.coordinator.isCompleted ≠ true) (signal : Signal) :
    (s.dispatch signal).coordinator = s.coordinator ∧
      (s.dispatch signal).mailbox = s.mailbox ∧ (s.dispatch signal).world.trace =
        s.world.trace ++ (signal.noted s.coordinator.watches).toList := by
  by_cases hcurrent : s.coordinator.isCurrent signal = true
  · have hlive := hcurrent
    unfold Coordinator.isCurrent at hlive
    rw [dispatch, if_neg (by simp [hopen, hcurrent]), Signal.noted, if_pos hlive, Signal.heard]
    cases signal.notification with
    | stateChanged state => simp [hearState, hphase, mailbox, World.mailbox, World.note]
    | connectionEvent event => simp [hearEvent, hphase, mailbox, World.mailbox, World.note]
    | _ => exact ⟨rfl, rfl, (List.append_nil _).symm⟩
  · have hstale := hcurrent
    unfold Coordinator.isCurrent at hstale
    rw [dispatch, if_pos (.inr hcurrent), Signal.noted, if_neg hstale]
    exact ⟨rfl, rfl, (List.append_nil _).symm⟩

theorem processPending_of_recorder {s : Session b} (hphase : s.phase = .recorder)
    (hopen : s.coordinator.isCompleted ≠ true) :
    s.processPending.2.coordinator = s.coordinator ∧ s.processPending.2.mailbox = [] ∧
      s.processPending.2.world.trace =
        s.world.trace ++ s.mailbox.filterMap (·.noted s.coordinator.watches) := by
  -- each signal leaves an event in the trace, or nothing at all, and no other trace
  fun_induction processPending s with
  | case1 s hdone => exact absurd hdone hopen
  | case2 s _ hnone => simp [mailbox_of_pop_eq_none hnone]
  | case3 s _ signal t hsome count last hrec ih =>
    obtain ⟨hc, hmailbox⟩ := pop_eq_some hsome
    have htrace := trace_pop hsome
    have hphase' : t.phase = .recorder := (congrArg (·.phase) hc).trans hphase
    obtain ⟨hsame, hrest, hnoted⟩ := dispatch_of_recorder hphase' (hc ▸ hopen) signal
    rw [hc] at hsame
    rw [hrec, hsame, hrest, hnoted, htrace, hc] at ih
    obtain ⟨hlast, hempty, hall⟩ := ih ((congrArg (·.phase) hsame).trans hphase) hopen
    refine ⟨hlast, hempty, ?_⟩
    rw [hall, hmailbox, List.append_assoc, List.filterMap_cons]
    cases signal.noted s.coordinator.watches <;> rfl

theorem perform_of_drains {operation : Operation r} (hdrains : operation.drains = true)
    (s : Session b) : (s.perform operation).2 = s.processPending.2 := by
  cases operation with
  | process => rfl
  | serve => exact congrArg Prod.snd (serve_eq s)
  | _ => simp [Operation.drains] at hdrains

/-- A recorder has no action to start. -/
theorem perform_start_of_recorder {s : Session b} (hphase : s.phase = .recorder) :
    (s.perform .start).2 = s :=
  start_eq_self fun action => by simp only [hphase, ne_eq, reduceCtorEq, not_false_eq_true]

/-! ## One turn -/

theorem Records.perform {s : Session b} {observer : Observer} (h : s.Records observer)
    {operation : Operation r} (hmediated : operation.bypasses = false) :
    (s.perform operation).2.phase = .recorder := by
  cases operation with
  | process | serve =>
    rw [perform_of_drains rfl]
    by_cases hdone : s.coordinator.isCompleted = true
    · rw [processPending_of_completed hdone]
      exact h.phase
    · have hc := (processPending_of_recorder h.phase hdone).1
      exact (congrArg (·.phase) hc).trans h.phase
  | start =>
    rw [perform_start_of_recorder h.phase]
    exact h.phase
  | watchExactly legs => exact (phase_watchExactly s legs).trans h.phase
  | rewatch legs =>
    have hfirst := (phase_watchExactly s []).trans h.phase
    exact (phase_watchExactly (s.watchExactly []) legs).trans hfirst
  | complete success => exact (phase_complete s success).trans h.phase
  | addListener _ | removeListener _ | setHandler _ | recordFailure _ => exact h.phase
  | dispatch _ | hearState _ _ | hearEvent _ _ | pop => simp [Operation.bypasses] at hmediated

theorem Records.turn {s : Session b} {observer : Observer} (h : s.Records observer)
    {turn : Turn b} (hmediated : turn.Mediated observer) : (s.turn turn).Records observer where
  phase := by
    cases turn with
    | perform operation => exact h.perform hmediated
    | elsewhere _ _ | stir _ _ => exact h.phase
  observer := (observer_turn s turn).trans h.observer
  upheld := by
    apply h.upheld.turn
    rw [h.observer]
    exact hmediated.apart

theorem eventsIn_eq (s : Session b) (turn : Turn b) {events : List (Event r)}
    (h : (s.turn turn).world.trace = s.world.trace ++ events) : s.eventsIn turn = events := by
  rw [eventsIn, h, List.drop_left]

/-- Nothing is noted on the way from `w` to `w'`, and what comes for the observer is sent in
response to what happens. -/
def Unnoted (observer : Observer) (w w' : World b) : Prop :=
  ∃ events, World.Elapses observer w events w' ∧ ∀ event ∈ events, event.isHeard = false

theorem Unnoted.refl (observer : Observer) (w : World b) : Unnoted observer w w :=
  ⟨[], .refl observer w, nofun⟩

theorem Unnoted.after {observer : Observer} {w w' : World b} (h : Unnoted observer w w')
    {event : Event r} (hevent : event.isHeard = false) : Unnoted observer w (w'.after event) := by
  obtain ⟨events, hevents, hnone⟩ := h
  refine ⟨_, hevents.after event, fun other hmem => ?_⟩
  rcases List.mem_append.mp hmem with hmem | hmem
  · exact hnone other hmem
  · exact List.mem_singleton.mp hmem ▸ hevent

theorem Unnoted.watchExactly {observer : Observer} {w : World b} {s : Session b}
    (h : Unnoted observer w s.world) (legs : List (Slot r)) :
    Unnoted observer w (s.watchExactly legs).world := by
  refine watchExactly_preserves (P := Unnoted observer w) (fun v slot request _ hv => ?_) h legs
  rw [World.ask_eq_after]
  exact hv.after rfl

theorem unnoted_perform {s : Session b} (hphase : s.phase = .recorder) {operation : Operation r}
    (hmediated : operation.bypasses = false)
    (hnone : ¬ (operation.drains = true ∧ s.coordinator.outcome = none)) (observer : Observer) :
    Unnoted observer s.world (s.perform operation).2.world := by
  have hnothing : Unnoted observer s.world s.world := .refl _ _
  cases operation with
  | process | serve =>
    have hdone : s.coordinator.isCompleted = true := by
      by_contra hopen
      exact hnone ⟨rfl, by simpa [Coordinator.isCompleted] using hopen⟩
    rw [perform_of_drains rfl, processPending_of_completed hdone]
    exact hnothing
  | start =>
    rw [perform_start_of_recorder hphase]
    exact hnothing
  | watchExactly legs => exact hnothing.watchExactly legs
  | rewatch legs => exact (hnothing.watchExactly []).watchExactly legs
  | complete success =>
    have htold (listeners : List Listener) {v : World b} (h : Unnoted observer s.world v) :
        Unnoted observer s.world (listeners.foldl (World.tell · success ·) v) := by
      induction listeners generalizing v with
      | nil => exact h
      | cons listener listeners ih =>
        have hunheard : Event.isHeard (r := r) (.told listener success v.registrationCount) = false :=
          rfl
        exact ih (h.after hunheard)
    simp only [perform, Session.complete]
    split
    · exact hnothing
    · exact htold _ (hnothing.watchExactly [])
  | addListener _ | removeListener _ | setHandler _ | recordFailure _ => exact hnothing
  | dispatch _ | hearState _ _ | hearEvent _ _ | pop => simp [Operation.bypasses] at hmediated

/-- Nothing is lost or overtaken: what is taken was at the head of the mailbox, and what is sent
comes behind the rest. -/
theorem taken_append_mailbox {s : Session b} {observer : Observer} (h : s.Records observer)
    {turn : Turn b} (hmediated : turn.Mediated observer) :
    (s.takenIn turn).map Prod.fst ++ (s.turn turn).mailbox = s.mailbox ++ s.sentIn turn := by
  cases turn with
  | stir memory effects =>
    exact World.mailbox_of_wire (World.wire_stir s.world memory effects) s.coordinator.observer
  | elsewhere other operation =>
    have hne : s.coordinator.observer ≠ other.observer := h.observer ▸ Ne.symm hmediated
    obtain ⟨events, hevents⟩ := (moves_perform ⟨other, s.world⟩ operation).exists_elapses hne
    rw [sentIn, eventsIn_eq s (.elsewhere other operation) hevents.trace]
    exact hevents.mailbox
  | perform operation =>
    by_cases htaken : operation.drains = true ∧ s.coordinator.outcome = none
    · obtain ⟨hdrains, hopen⟩ := htaken
      obtain ⟨-, hempty, htrace⟩ := processPending_of_recorder h.phase
        (by simp [Coordinator.isCompleted, hopen])
      rw [← perform_of_drains hdrains] at hempty htrace
      have hsilent := World.responses_eq_nil s.world
        (isHeard_of_mem_noted s.mailbox s.coordinator.watches)
      rw [sentIn, eventsIn_eq s (.perform operation) htrace, hsilent, takenIn,
        if_pos ⟨hdrains, hopen⟩, List.map_map]
      change s.mailbox.map id ++ (s.perform operation).2.mailbox = s.mailbox ++ []
      rw [hempty, List.map_id]
    · obtain ⟨events, hevents, -⟩ := unnoted_perform h.phase hmediated htaken s.coordinator.observer
      have hmailbox := hevents.mailbox
      have hsame : (s.perform operation).2.coordinator.observer = s.coordinator.observer :=
        observer_turn s (.perform operation)
      rw [sentIn, eventsIn_eq s (.perform operation) hevents.trace, takenIn, if_neg htaken]
      change (s.perform operation).2.mailbox = _
      rw [mailbox, hsame]
      exact hmailbox

/-- What is noted in a turn is what is to be noted of the signals that are taken. -/
theorem heard_deedsIn {s : Session b} {observer : Observer} (h : s.Records observer)
    {turn : Turn b} (hmediated : turn.Mediated observer) :
    (s.deedsIn turn).filter (·.isHeard) =
      (s.takenIn turn).filterMap fun next => next.1.noted next.2 := by
  cases turn with
  | elsewhere _ _ | stir _ _ => rfl
  | perform operation =>
    by_cases htaken : operation.drains = true ∧ s.coordinator.outcome = none
    · obtain ⟨hdrains, hopen⟩ := htaken
      obtain ⟨-, -, htrace⟩ := processPending_of_recorder h.phase
        (by simp [Coordinator.isCompleted, hopen])
      rw [deedsIn, perform_of_drains hdrains, htrace, List.drop_left,
        List.filter_eq_self.mpr (isHeard_of_mem_noted s.mailbox _), takenIn,
        if_pos ⟨hdrains, hopen⟩, List.filterMap_map]
      rw [h.upheld]
      rfl
    · obtain ⟨events, hevents, hunnoted⟩ :=
        unnoted_perform h.phase hmediated htaken s.coordinator.observer
      have hnone : events.filter (·.isHeard) = [] :=
        List.filter_eq_nil_iff.mpr fun event hmem => by simp [hunnoted event hmem]
      rw [deedsIn, hevents.trace, List.drop_left, hnone, takenIn, if_neg htaken,
        List.filterMap_nil]

/-! ## Runs -/

theorem taken_append_mailbox_run {s : Session b} {observer : Observer} (h : s.Records observer)
    {turns : List (Turn b)} (mediated : ∀ turn ∈ turns, turn.Mediated observer) :
    (s.taken turns).map Prod.fst ++ (s.run turns).mailbox = s.mailbox ++ s.sent turns := by
  induction turns generalizing s with
  | nil => simp [taken, sent]
  | cons turn later ih =>
    have hfirst := taken_append_mailbox h (mediated turn List.mem_cons_self)
    have hrest := ih (h.turn (mediated turn List.mem_cons_self))
      fun t ht => mediated t (List.mem_cons_of_mem turn ht)
    rw [taken, sent, run_cons, List.map_append, List.append_assoc, hrest, ← List.append_assoc,
      hfirst, List.append_assoc]

theorem heard_deeds {s : Session b} {observer : Observer} (h : s.Records observer)
    {turns : List (Turn b)} (mediated : ∀ turn ∈ turns, turn.Mediated observer) :
    (s.deeds turns).filter (·.isHeard) =
      (s.taken turns).filterMap fun next => next.1.noted next.2 := by
  induction turns generalizing s with
  | nil => rfl
  | cons turn later ih =>
    have hfirst := heard_deedsIn h (mediated turn List.mem_cons_self)
    have hrest := ih (h.turn (mediated turn List.mem_cons_self))
      fun t ht => mediated t (List.mem_cons_of_mem turn ht)
    rw [deeds, taken, List.filter_append, List.filterMap_append, hfirst, hrest]

/-! ## Who sent what is taken -/

theorem leads_turn (s : Session b) (turn : Turn b) : World.Leads s.world (s.turn turn).world := by
  cases turn with
  | perform operation => exact (moves_perform s operation).leads
  | elsewhere other operation => exact (moves_perform ⟨other, s.world⟩ operation).leads
  | stir memory effects => exact .single (.stir s.world memory effects)

theorem leads_run (s : Session b) (turns : List (Turn b)) :
    World.Leads s.world (s.run turns).world := by
  induction turns generalizing s with
  | nil => exact .refl
  | cons turn later ih => exact (leads_turn s turn).trans (ih _)

/-- What is taken in a run comes out of the mailbox of some world on the way, together with what is
live in that world. -/
theorem exists_of_mem_taken {s : Session b} {turns : List (Turn b)}
    {next : Signal × List (Watch r)} (h : next ∈ s.taken turns) :
    ∃ w, World.Leads s.world w ∧ World.Leads w (s.run turns).world ∧
      next.1 ∈ w.mailbox s.coordinator.observer ∧
      next.2 = w.liveRegistrations s.coordinator.observer := by
  induction turns generalizing s with
  | nil => exact absurd h List.not_mem_nil
  | cons turn later ih =>
    rcases List.mem_append.mp h with hfirst | hlater
    · cases turn with
      | elsewhere _ _ | stir _ _ => exact absurd hfirst List.not_mem_nil
      | perform operation =>
        rw [takenIn] at hfirst
        split at hfirst
        · obtain ⟨signal, hmem, rfl⟩ := List.mem_map.mp hfirst
          exact ⟨s.world, .refl, leads_run s _, hmem, rfl⟩
        · exact absurd hfirst List.not_mem_nil
    · obtain ⟨w, hbefore, hafter, hmem, hlive⟩ := ih hlater
      rw [observer_turn] at hmem hlive
      exact ⟨w, (leads_turn s turn).trans hbefore, hafter, hmem, hlive⟩

/-- Whether a signal is noted depends on the one leg whose registration is of its epoch. -/
theorem noted_eq {w last : World b} {observer : Observer} (hleads : World.Leads w last)
    {signal : Signal} {sender : Slot r} (hgiven : last.GivenTo ⟨observer, signal.epoch⟩ sender) :
    signal.noted (w.liveRegistrations observer) =
      if sender.id = signal.leg ∧ ⟨sender, signal.epoch⟩ ∈ w.liveRegistrations observer then
        signal.heard
      else none := by
  refine if_congr ?_ rfl rfl
  simp only [List.any_eq_true, decide_eq_true_eq]
  constructor
  · rintro ⟨⟨leg, epoch⟩, hlive, rfl, hid⟩
    have hasked := hleads.trace_subset (World.asked_of_live hlive)
    obtain rfl := (hgiven leg).mp hasked
    exact ⟨hid, hlive⟩
  · rintro ⟨hid, hlive⟩
    exact ⟨_, hlive, rfl, hid⟩

end Session

/-- Nothing is live of an observer that nobody has heard of. -/
theorem World.Unknown.liveRegistrations {w : World b} {observer : Observer}
    (h : w.Unknown observer) : w.liveRegistrations observer = [] := by
  rw [List.eq_nil_iff_forall_not_mem]
  intro watch hlive
  have hepoch : watch.epoch ∈ w.epochs observer :=
    World.mem_epochs_iff.mpr ⟨_, World.asked_of_live hlive⟩
  rw [h.unmentioned] at hepoch
  exact absurd hepoch List.not_mem_nil

/-- Of a coordinator that notes what it hears, in any run of operations that leave the hearing to
its mailbox, while legs send what they like, by themselves or in response to events, and other
coordinators do what they like. The signals that are taken are those that were sent, each once and
in the order of sending, and the mailbox holds the ones that are left; nothing is taken once the
coordination is complete. What is noted are the state changes and connection events among those
taken, in the same order: of each signal the epoch tells the one leg that was asked for the
registration, and it is noted if it bears the id of that leg and the registration is live when the
signal is taken. Only that leg ever holds the registration. A registration is live from the request
that makes it to the next one to drop it. -/
theorem recorder_hears_what_is_live (kind : Kind) (policy : Policy) (observer : Observer)
    (w : World b) (unknown : w.Unknown observer) (turns : List (Turn b))
    (mediated : ∀ turn ∈ turns, turn.Mediated observer) :
    let start := Session.opened (.bare true kind policy) observer w
    let last := start.run turns
    (start.taken turns).map Prod.fst ++ last.mailbox = start.sent turns ∧
    (start.deeds turns).filter (·.isHeard) =
      (start.taken turns).filterMap (fun next => next.1.noted next.2) ∧
    (∀ next ∈ start.taken turns, ∃ sender,
      last.world.GivenTo ⟨observer, next.1.epoch⟩ sender ∧
      next.1.noted next.2 =
        if sender.id = next.1.leg ∧ ⟨sender, next.1.epoch⟩ ∈ next.2 then next.1.heard else none) ∧
    (∀ slot, ∀ registration ∈ (last.world.leg slot).registrations,
      registration.observer = observer → last.world.GivenTo registration slot) ∧
    ∀ watch, watch ∈ last.world.liveRegistrations observer ↔ ∃ before after,
      last.world.trace = before ++ .asked watch.leg (.register ⟨observer, watch.epoch⟩) :: after ∧
        .asked watch.leg (.unregister observer) ∉ after := by
  intro start last
  have hrecords : start.Records observer := ⟨rfl, rfl, unknown.liveRegistrations.symm⟩
  have hleads : World.Leads w last.world := Session.leads_run start turns
  have hempty : start.mailbox = [] := unknown.unmailed
  have hdistinct : (last.world.epochs observer).Nodup := by
    obtain ⟨n, -, hepochs⟩ :=
      (Session.ages_run start fun turn hmem => (mediated turn hmem).apart).handed
    have hnone : start.world.epochs observer = [] := unknown.unmentioned
    change last.world.epochs observer = start.world.epochs observer ++ _ at hepochs
    rw [hepochs, hnone]
    exact List.nodup_range'
  refine ⟨?_, Session.heard_deeds hrecords mediated, fun next hnext => ?_, ?_, ?_⟩
  · have htaken := Session.taken_append_mailbox_run hrecords mediated
    rwa [hempty, List.nil_append] at htaken
  · obtain ⟨between, hbefore, hafter, hmem, hlive⟩ := Session.exists_of_mem_taken hnext
    have hhanded := (hbefore.accounted unknown.accounted).mailed next.1 hmem
    obtain ⟨sender, hasked⟩ := World.mem_epochs_iff.mp hhanded
    have hgiven := World.givenTo_of_mem hdistinct (hafter.trace_subset hasked)
    rw [hlive]
    exact ⟨sender, hgiven, Session.noted_eq hafter hgiven⟩
  · intro slot registration hmem hmine
    have hasked := hleads.granted unknown.granted slot registration hmem hmine
    subst hmine
    exact World.givenTo_of_mem hdistinct hasked
  · exact last.world.mem_liveRegistrations_iff observer

/-- Two legs share an id and one of them drops nothing. After all was sent that the first
registrations let through, they are renewed; then one leg sends through both of its registrations,
and another one under an id that is not its own. -/
theorem recorder_hears_what_is_live_of_renewal :
    let w : World (Script.behaviour (r := [⟨"a"⟩, ⟨"a"⟩, ⟨"b"⟩]) {}) :=
      .fresh #v[{ state := .active, sticky := true }, { state := .active }, { state := .idle }] ()
    let turns : List (Turn (Script.behaviour (r := [⟨"a"⟩, ⟨"a"⟩, ⟨"b"⟩]) {})) :=
      [.perform (.watchExactly [0, 1, 2]),
        .stir () [.changeState 0 .holding, .notify 2 none (.connectionEvent .holdFailed)],
        .perform (.rewatch [2, 0]),
        .stir () [.changeState 0 .disconnected, .notify 2 (some ⟨"a"⟩) (.stateChanged .active),
          .notify 2 none (.connectionEvent .resumeFailed)],
        .perform .serve]
    let start := Session.opened (.bare true .swap {}) ⟨0⟩ w
    w.Unknown ⟨0⟩ ∧ (∀ turn ∈ turns, turn.Mediated ⟨0⟩) ∧
      (start.taken turns).map (fun next => (next.1.leg, next.1.epoch)) =
        [(⟨"a"⟩, 1), (⟨"b"⟩, 2), (⟨"a"⟩, 1), (⟨"a"⟩, 4), (⟨"a"⟩, 3), (⟨"b"⟩, 3)] ∧
      (start.deeds turns).filter (·.isHeard) =
        [.heardState ⟨"a"⟩ .disconnected, .heardEvent ⟨"b"⟩ .resumeFailed] := by
  intro w turns start
  have unknown : w.Unknown ⟨0⟩ := ⟨by decide, rfl, rfl⟩
  have mediated : ∀ turn ∈ turns, turn.Mediated ⟨0⟩ := by
    simp [turns, Turn.Mediated, Operation.bypasses]
  obtain ⟨-, hnoted, -⟩ := recorder_hears_what_is_live .swap {} ⟨0⟩ w unknown turns mediated
  refine ⟨unknown, mediated, by decide, hnoted.trans ?_⟩
  decide

end CallCoordination
