import CallCoordination.Proofs.Session.Deeds

/-!
# Every request is made once

No phase is entered twice, and each phase leaves less to ask for than the one before. So what a
coordinator asks of legs in all its life is part of one short list, whatever it is told to do and
whatever it hears, and it makes only a few registrations.
-/

namespace CallCoordination

variable {r : Roster} {b : Behaviour r}

/-- The registration that a leg is asked to make in this event. -/
def Event.registration? : Event r → Option Registration
  | asked _ (.register registration) => some registration
  | _ => none

/-! ## What is left to ask for -/

/-- What may be asked of legs in the course of an action, each at most once and in this order. -/
def Action.Affords : Action r → List (Event r) → Prop
  | answer hold leg video, demands =>
    demands.Sublist [.asked hold .hold, .asked leg (.answer video)]
  | dial hold leg call, demands => ∃ allocation placement cause, demands.Sublist
      [.dialled leg call.callee (call.terms true) allocation, .asked hold .hold,
        .dialled leg call.callee (call.terms false) placement, .asked leg (.disconnect cause)]
  | swap hold leg, demands =>
    demands.Sublist [.asked hold .hold, .asked leg .resume, .asked hold .resume]

/-- How many registrations an action may need. -/
def Action.registrations : Action r → Nat
  | answer _ _ _ | dial _ _ _ => 1
  | swap _ _ => 3

def Continuation.Affords (hold : Slot r) : Continuation r → List (Event r) → Prop
  | answer leg video, demands => demands.Sublist [.asked leg (.answer video)]
  | place leg call _, demands => ∃ placement cause, demands.Sublist
      [.dialled leg call.callee (call.terms false) placement, .asked leg (.disconnect cause)]
  | resume leg, demands => demands.Sublist [.asked leg .resume, .asked hold .resume]

def Continuation.registrations : Continuation r → Nat
  | answer _ _ | place _ _ _ => 0
  | resume _ => 2

namespace Phase

def Affords : Phase r → List (Event r) → Prop
  | idle action, demands => action.Affords demands
  | awaitingHold hold next, demands => next.Affords hold demands
  | awaitingResume held _, demands => demands.Sublist [.asked held .resume]
  | rollingBack _, demands | done, demands | plain, demands | recorder, demands => demands = []

/-- How many registrations may still be made. -/
def registrations : Phase r → Nat
  | idle action => action.registrations
  | awaitingHold _ next => next.registrations
  | awaitingResume _ _ => 1
  | rollingBack _ | done | plain | recorder => 0

theorem affords_nil (phase : Phase r) : phase.Affords [] := by
  cases phase with
  | idle action =>
    cases action with
    | dial hold leg call =>
      exact ⟨.raised .outOfService, .raised .outOfService, .errorUnspecified, List.nil_sublist _⟩
    | answer _ _ _ | swap _ _ => exact List.nil_sublist _
  | awaitingHold hold next =>
    cases next with
    | place leg call pending => exact ⟨.raised .outOfService, .errorUnspecified, List.nil_sublist _⟩
    | answer _ _ | resume _ => exact List.nil_sublist _
  | awaitingResume _ _ => exact List.nil_sublist _
  | rollingBack _ | done | plain | recorder => rfl

theorem eq_nil_of_affords {phase : Phase r} (hrank : phase.rank ≤ 1) {demands : List (Event r)}
    (h : phase.Affords demands) : demands = [] := by
  cases phase with
  | rollingBack _ | done | plain | recorder => exact h
  | idle _ | awaitingHold _ _ | awaitingResume _ _ => simp [rank] at hrank

/-- A phase uses up the registration that it starts with. -/
theorem registrations_of_follows {phase next : Phase r} (h : phase.Follows next) :
    next.watched.length + next.registrations ≤ phase.registrations := by
  cases h with
  | hold action hnext =>
    cases action with
    | dial hold leg call =>
      obtain ⟨pending, rfl⟩ := hnext
      simp [watched, registrations, Action.registrations, Continuation.registrations]
    | answer _ _ _ | swap _ _ =>
      cases hnext
      simp [watched, registrations, Action.registrations, Continuation.registrations]
  | resume _ _ | giveUp _ _ | rollBack _ _ =>
    simp [watched, registrations, Continuation.registrations]

end Phase

namespace Session

/-! ## Asking -/

/-- From `s` to `t` only things were asked for that the phase of `s` affords together with whatever
the phase of `t` still affords. -/
def Asks (s t : Session b) : Prop :=
  ∃ demands, t.world.demands = s.world.demands ++ demands ∧
    ∀ later, t.phase.Affords later → s.phase.Affords (demands ++ later)

namespace Asks

variable {s t u : Session b}

theorem of_same (hphase : t.phase = s.phase) (hdemands : t.world.demands = s.world.demands) :
    Asks s t :=
  ⟨[], by rw [hdemands, List.append_nil], by rw [hphase]; exact fun _ => id⟩

theorem trans (h : Asks s t) (h' : Asks t u) : Asks s u := by
  obtain ⟨demands, hst, hafford⟩ := h
  obtain ⟨demands', htu, hafford'⟩ := h'
  refine ⟨demands ++ demands', by rw [htu, hst, List.append_assoc], fun later hlater => ?_⟩
  rw [List.append_assoc]
  exact hafford _ (hafford' later hlater)

/-- In the last phases nothing is left to ask for. -/
theorem of_rank_le_one {demands : List (Event r)} (hrank : t.phase.rank ≤ 1)
    (hdemands : t.world.demands = s.world.demands ++ demands) (h : s.phase.Affords demands) :
    Asks s t := by
  refine ⟨demands, hdemands, fun later hlater => ?_⟩
  rw [Phase.eq_nil_of_affords hrank hlater, List.append_nil]
  exact h

theorem of_done (hphase : t.phase = .done) {demands : List (Event r)}
    (hdemands : t.world.demands = s.world.demands ++ demands) (h : s.phase.Affords demands) :
    Asks s t :=
  of_rank_le_one (by simp [hphase, Phase.rank]) hdemands h

end Asks

@[simp] theorem demands_recordFailure (s : Session b) (failure : Failure) :
    (s.recordFailure failure).world.demands = s.world.demands := rfl

@[simp] theorem demands_reportFault (s : Session b) (leg : Slot r) (fault : DialFault) :
    (s.reportFault leg fault).world.demands = s.world.demands := by
  refine (grows_reportFault s leg fault).demands_eq ?_
  rintro event ⟨handler, rfl⟩
  rfl

theorem demands_dial (w : World b) (slot : Slot r) (callee : Callee) (terms : DialTerms) :
    (w.dial slot callee terms).2.demands =
      w.demands ++ [.dialled slot callee terms (w.nextAnswer slot)] := by
  rw [World.demands, World.trace_dial, List.filter_append]
  rfl

theorem demands_ask {request : LegRequest} (h : request.isRegistration = false) (s : Session b)
    (slot : Slot r) :
    (s.ask slot request).world.demands = s.world.demands ++ [.asked slot request] :=
  World.demands_ask h s.world slot

theorem asks_finish (s : Session b) (success : Bool) : Asks s (s.finish success) :=
  .of_done (phase_finish s success) (by simp) s.phase.affords_nil

theorem asks_rollBack {s : Session b} {held : Slot r}
    (h : s.phase.Affords [.asked held .resume]) (cause : Failure) :
    Asks s (s.rollBack held cause) := by
  have hrank := rank_rollBack_le s held cause
  have hdemands : (s.rollBack held cause).world.demands = s.world.demands ∨
      (s.rollBack held cause).world.demands = s.world.demands ++ [.asked held .resume] := by
    unfold rollBack
    dsimp only
    split
    · exact .inr (by rw [demands_ask rfl, demands_enter, demands_recordFailure])
    · exact .inl (by rw [demands_finish, demands_recordFailure])
  rcases hdemands with hdemands | hdemands
  · exact .of_rank_le_one hrank (by simp [hdemands]) s.phase.affords_nil
  · exact .of_rank_le_one hrank hdemands h

theorem asks_place {s : Session b} {hold leg : Slot r} {call : OutgoingCall}
    {pending : ConnectionId} (h : s.phase = .awaitingHold hold (.place leg call pending)) :
    Asks s (s.place leg call pending) := by
  unfold place
  split
  · exact (Asks.of_same rfl rfl).trans (asks_finish _ false)
  · have hdialled := demands_dial s.world leg call.callee (call.terms false)
    have hplaced : s.phase.Affords
        [.dialled leg call.callee (call.terms false) (s.world.nextAnswer leg)] := by
      rw [h]
      exact ⟨_, .errorUnspecified, List.Sublist.cons_cons _ (List.nil_sublist _)⟩
    have hdropped (cause : ReleaseCause) : s.phase.Affords
        [.dialled leg call.callee (call.terms false) (s.world.nextAnswer leg),
          .asked leg (.disconnect cause)] := by
      rw [h]
      exact ⟨_, cause, List.Sublist.refl _⟩
    dsimp only
    split
    · split
      · exact .of_done (phase_finish _ true) (by rw [demands_finish, hdialled]) hplaced
      · have hafford := hdropped (.internalFailure s.coordinator.policy.mismatchReason)
        refine .of_done (phase_finish _ false) ?_ hafford
        rw [demands_finish, demands_recordFailure, demands_ask rfl, hdialled, List.append_assoc]
        rfl
    · refine .of_done (phase_finish _ false) ?_ hplaced
      rw [demands_finish, demands_recordFailure, demands_reportFault, hdialled]

theorem asks_holdSettled {s : Session b} {hold : Slot r} {next : Continuation r}
    (h : s.phase = .awaitingHold hold next) : Asks s (s.holdSettled hold next) := by
  cases next with
  | answer leg video =>
    simp only [holdSettled]
    split
    · refine .of_done (phase_finish _ true) (by rw [demands_finish, demands_ask rfl]) ?_
      rw [h]
      exact List.Sublist.refl _
    · exact asks_finish s true
  | place leg call pending => exact asks_place h
  | resume leg =>
    simp only [holdSettled]
    split
    · refine ⟨[.asked leg .resume], by rw [demands_ask rfl, demands_enter], fun later hlater => ?_⟩
      rw [h]
      exact List.Sublist.cons_cons _ hlater
    · exact asks_finish s true
    · refine asks_rollBack ?_ _
      rw [h]
      exact List.sublist_cons_self _ _

theorem asks_holdFailed {s : Session b} {hold : Slot r} {next : Continuation r}
    (h : s.phase = .awaitingHold hold next) : Asks s (s.holdFailed hold next) := by
  cases next with
  | place leg call pending =>
    have hafford : s.phase.Affords [.asked leg (.disconnect .errorUnspecified)] := by
      rw [h]
      exact ⟨.raised .outOfService, .errorUnspecified, List.sublist_cons_self _ _⟩
    refine .of_done (phase_holdFailed s hold _) ?_ hafford
    simp only [holdFailed]
    rw [demands_finish, demands_recordFailure, demands_ask rfl]
  | answer _ _ | resume _ => exact (Asks.of_same rfl rfl).trans (asks_finish _ false)

/-- Waiting for a hold asks for the hold at most, before anything that the continuation affords. -/
theorem exists_demands_awaitHold (s : Session b) (hold : Slot r) (next : Continuation r) :
    ∃ demands, (s.awaitHold hold next).world.demands = s.world.demands ++ demands ∧
      ∀ later, (s.awaitHold hold next).phase.Affords later → ∃ rest,
        next.Affords hold rest ∧ (demands ++ later).Sublist (.asked hold .hold :: rest) := by
  unfold awaitHold
  split
  · obtain ⟨demands, hdemands, hafford⟩ :=
      asks_holdSettled (s := s.enter (.awaitingHold hold next)) (phase_enter s _)
    refine ⟨demands, by rw [hdemands, demands_enter], fun later hlater => ?_⟩
    exact ⟨demands ++ later, hafford later hlater, List.sublist_cons_self _ _⟩
  · refine ⟨[.asked hold .hold], by rw [demands_ask rfl, demands_enter], fun later hlater => ?_⟩
    exact ⟨later, hlater, List.Sublist.refl _⟩

theorem asks_awaitHold {s : Session b} {hold : Slot r} {next : Continuation r}
    (h : ∀ demands rest, next.Affords hold rest → demands.Sublist (.asked hold .hold :: rest) →
      s.phase.Affords demands) : Asks s (s.awaitHold hold next) := by
  obtain ⟨demands, hdemands, hafford⟩ := exists_demands_awaitHold s hold next
  refine ⟨demands, hdemands, fun later hlater => ?_⟩
  obtain ⟨rest, hrest, hall⟩ := hafford later hlater
  exact h _ rest hrest hall

theorem asks_start (s : Session b) : Asks s s.start.2 := by
  unfold start
  split
  next hold leg video h =>
    apply asks_awaitHold
    intro demands rest hrest hall
    rw [h]
    exact hall.trans (List.Sublist.cons_cons _ hrest)
  next hold leg h =>
    apply asks_awaitHold
    intro demands rest hrest hall
    rw [h]
    exact hall.trans (List.Sublist.cons_cons _ hrest)
  next hold leg call h =>
    have hdialled := demands_dial s.world leg call.callee (call.terms true)
    dsimp only
    split
    next pending _ =>
      obtain ⟨demands, hdemands, hafford⟩ := exists_demands_awaitHold
        { s with world := (s.world.dial leg call.callee (call.terms true)).2 } hold
        (.place leg call pending)
      rw [hdialled, List.append_assoc] at hdemands
      refine ⟨_, hdemands, fun later hlater => ?_⟩
      obtain ⟨rest, ⟨placement, cause, hrest⟩, hall⟩ := hafford later hlater
      rw [h]
      refine ⟨s.world.nextAnswer leg, placement, cause, List.Sublist.cons_cons _ ?_⟩
      exact hall.trans (List.Sublist.cons_cons _ hrest)
    · have hafford : s.phase.Affords
          [.dialled leg call.callee (call.terms true) (s.world.nextAnswer leg)] := by
        rw [h]
        exact ⟨_, .raised .outOfService, .errorUnspecified,
          List.Sublist.cons_cons _ (List.nil_sublist _)⟩
      refine .of_done (phase_finish _ false) ?_ hafford
      rw [demands_finish, demands_recordFailure, hdialled]
  · exact .of_same rfl rfl

theorem Hears.asks {s t : Session b} (h : Hears s t) : Asks s t := by
  cases h with
  | nothing => exact .of_same rfl rfl
  | @notes event _ hevent =>
    refine .of_same rfl ?_
    obtain ⟨leg, ⟨state, rfl⟩ | ⟨event, rfl⟩⟩ := hevent
    · simp [World.demands, World.note, Event.isDemand]
    · simp [World.demands, World.note, Event.isDemand]
  | holdSettled h => exact asks_holdSettled h
  | holdFailed h => exact asks_holdFailed h
  | resumed _ => exact asks_finish s true
  | resumeFailed h _ =>
    refine asks_rollBack ?_ _
    rw [h]
    exact List.Sublist.refl _
  | rolledBack _ => exact asks_finish s false

theorem asks_perform (s : Session b) {operation : Operation r}
    (hpublic : operation = .pop ∨ operation.isPublic = true) : Asks s (s.perform operation).2 := by
  have htake {t u : Session b} {signal : Signal} (hpop : t.pop = some (signal, u)) : Asks t u := by
    refine .of_same (congrArg (·.phase) (pop_eq_some hpop).1) ?_
    rw [World.demands, trace_pop hpop, World.demands]
  rcases hpublic with rfl | hpublic
  · simp only [perform]
    split
    · exact .of_same rfl rfl
    · next hpop => exact htake hpop
  · refine perform_preserves (P := Asks s) ?_ ?_ ?_ ?_ (.of_same rfl rfl) hpublic
    · exact fun t ht => ht.trans (asks_start t)
    · exact fun t u ht hhears => ht.trans hhears.asks
    · intro t u signal ht hpop
      exact (ht.trans (htake hpop)).trans (hears_dispatch u signal).asks
    · exact fun t _ _ ht => ht.trans (.of_same rfl rfl)

/-! ## Registering -/

theorem issued_watch_le (s : Session b) (slot : Slot r) :
    (s.watch slot).coordinator.issued ≤ s.coordinator.issued + 1 := by
  unfold watch
  split
  · exact Nat.le_succ _
  · exact Nat.le_refl _

theorem issued_watchExactly_le (s : Session b) (wanted : List (Slot r)) :
    (s.watchExactly wanted).coordinator.issued ≤ s.coordinator.issued + wanted.length := by
  have hfold (slots : List (Slot r)) (t : Session b) :
      (slots.foldl watch t).coordinator.issued ≤ t.coordinator.issued + slots.length := by
    induction slots generalizing t with
    | nil => exact Nat.le_refl _
    | cons slot slots ih =>
      have hfirst := issued_watch_le t slot
      have hrest := ih (t.watch slot)
      rw [List.foldl_cons, List.length_cons]
      omega
  exact hfold wanted (s.release (wanted.map Slot.id))

theorem issued_enter_le (s : Session b) (phase : Phase r) :
    (s.enter phase).coordinator.issued ≤ s.coordinator.issued + phase.watched.length := by
  unfold enter
  split
  next back =>
    have hdropped := issued_watchExactly_le s []
    have hmade := issued_watchExactly_le (s.watchExactly []) (Phase.watched (.rollingBack back))
    exact Nat.le_trans hmade (Nat.add_le_add_right hdropped _)
  · exact issued_watchExactly_le s _

theorem issued_complete_le (s : Session b) (success : Bool) :
    (s.complete success).coordinator.issued ≤ s.coordinator.issued := by
  unfold complete
  split
  · exact Nat.le_refl _
  · exact issued_watchExactly_le s []

/-- From `s` to `t` no more registrations were made than the phase of `s` needs beyond those that
the phase of `t` still needs. -/
def Registers (s t : Session b) : Prop :=
  t.coordinator.issued + t.phase.registrations ≤ s.coordinator.issued + s.phase.registrations

theorem Registers.of_same {s t : Session b} (hphase : t.phase = s.phase)
    (hissued : t.coordinator.issued = s.coordinator.issued) : Registers s t := by
  apply Nat.le_of_eq
  rw [hphase, hissued]

theorem registers_enter {s : Session b} {phase : Phase r} (h : s.phase.Follows phase) :
    Registers s (s.enter phase) := by
  have hissued := issued_enter_le s phase
  have hneeded := Phase.registrations_of_follows h
  rw [Registers, phase_enter]
  omega

theorem Step.registers {s t : Session b} (h : Step s t) : Registers s t := by
  cases h with
  | begin h hnext =>
    have hfollows : s.phase.Follows (.awaitingHold _ _) := h ▸ Phase.Follows.hold _ hnext
    exact registers_enter hfollows
  | enter h => exact registers_enter h
  | ask | dial | fail | noteState | noteEvent => exact .of_same rfl rfl
  | report slot fault =>
    have hc := coordinator_reportFault s slot fault
    exact .of_same (congrArg (·.phase) hc) (by rw [hc])
  | pop h =>
    have hc := (pop_eq_some h).1
    exact .of_same (congrArg (·.phase) hc) (by rw [hc])

theorem Acts.registers {s t : Session b} (h : Acts s t) : Registers s t := by
  induction h with
  | nothing s => exact .of_same rfl rfl
  | finish s success =>
    have hentered := issued_enter_le s .done
    have hissued := Nat.le_trans (issued_complete_le (s.enter .done) success) hentered
    rw [Registers, phase_finish]
    exact Nat.le_add_right_of_le hissued
  | step hstep _ ih => exact Nat.le_trans ih hstep.registers

theorem registers_perform (s : Session b) {operation : Operation r}
    (hpublic : operation = .pop ∨ operation.isPublic = true) :
    Registers s (s.perform operation).2 := by
  cases performs s operation with
  | acts h _ _ => exact h.registers
  | addListener _ | removeListener _ | setHandler _ => exact .of_same rfl rfl
  | watchExactly _ | rewatch _ | complete _ => simp [Operation.isPublic] at hpublic

/-! ## Runs -/

theorem affords_deedsIn (s : Session b) {turn : Turn b} (hpublic : turn.Public)
    {later : List (Event r)} (h : (s.turn turn).phase.Affords later) :
    s.phase.Affords ((s.deedsIn turn).filter (·.isDemand) ++ later) := by
  cases turn with
  | elsewhere _ _ | stir _ _ => exact h
  | perform operation =>
    obtain ⟨demands, hdemands, hafford⟩ := asks_perform s hpublic
    rw [World.demands, World.demands, trace_perform, List.filter_append] at hdemands
    rw [List.append_cancel_left hdemands]
    exact hafford later h

theorem affords_deeds (s : Session b) {turns : List (Turn b)}
    (allPublic : ∀ turn ∈ turns, turn.Public) :
    s.phase.Affords ((s.deeds turns).filter (·.isDemand)) := by
  induction turns generalizing s with
  | nil => exact s.phase.affords_nil
  | cons turn later ih =>
    rw [deeds, List.filter_append]
    apply affords_deedsIn s (allPublic turn List.mem_cons_self)
    exact ih _ fun t ht => allPublic t (List.mem_cons_of_mem _ ht)

theorem registers_run (s : Session b) {turns : List (Turn b)}
    (allPublic : ∀ turn ∈ turns, turn.Public) : Registers s (s.run turns) := by
  refine run_induction (P := Registers s) (.of_same rfl rfl) ?_ allPublic
  intro t turn ht hpublic
  cases turn with
  | elsewhere _ _ | stir _ _ => exact ht
  | perform operation => exact Nat.le_trans (registers_perform t hpublic) ht

theorem registration?_eq_map_epoch? {event : Event r} {observer : Observer}
    (hown : ∀ other, other ≠ observer → event.epoch? other = none) :
    event.registration? = (event.epoch? observer).map (Registration.mk observer) := by
  cases event with
  | asked slot request =>
    cases request with
    | register registration =>
      obtain rfl : registration.observer = observer := by
        by_contra hne
        simpa [Event.epoch?] using hown _ hne
      simp [Event.registration?, Event.epoch?]
    | unregister _ | hold | resume | answer _ | disconnect _ => rfl
  | dialled _ _ _ _ | told _ _ _ | faultReported _ _ _ | heardState _ _ | heardEvent _ _ => rfl

theorem exists_registrations_deedsIn (s : Session b) (turn : Turn b) :
    ∃ n, (s.turn turn).coordinator.issued = s.coordinator.issued + n ∧
      (s.deedsIn turn).filterMap (·.registration?) =
        (List.range' (s.coordinator.issued + 1) n).map (.mk s.coordinator.observer) := by
  cases turn with
  | elsewhere _ _ | stir _ _ => exact ⟨0, rfl, rfl⟩
  | perform operation =>
    obtain ⟨n, hissued, hepochs⟩ := (ages_perform s operation).handed
    obtain ⟨events, htrace, hown⟩ := (moves_perform s operation).grows
    have hdeeds : s.deedsIn (.perform operation) = events := by
      rw [deedsIn, htrace, List.drop_left]
    rw [World.epochs_of_trace htrace] at hepochs
    refine ⟨n, hissued, ?_⟩
    rw [hdeeds, ← List.append_cancel_left hepochs, List.map_filterMap]
    exact List.filterMap_congr fun event hmem => registration?_eq_map_epoch? (hown event hmem)

theorem exists_registrations_deeds (s : Session b) (turns : List (Turn b)) :
    ∃ n, (s.run turns).coordinator.issued = s.coordinator.issued + n ∧
      (s.deeds turns).filterMap (·.registration?) =
        (List.range' (s.coordinator.issued + 1) n).map (.mk s.coordinator.observer) := by
  induction turns generalizing s with
  | nil => exact ⟨0, rfl, rfl⟩
  | cons turn later ih =>
    obtain ⟨n, hissued, hfirst⟩ := exists_registrations_deedsIn s turn
    obtain ⟨m, hissued', hrest⟩ := ih (s.turn turn)
    rw [hissued, observer_turn, Nat.add_right_comm] at hrest
    refine ⟨n + m, by rw [run_cons, hissued', hissued, Nat.add_assoc], ?_⟩
    rw [deeds, List.filterMap_append, hfirst, hrest, ← List.map_append, List.range'_append_1]

end Session

/-- In any run of public operations, whatever is heard or forged and however often it is started,
the coordinator asks legs for a part of what its action affords, each thing at most once, and for
nothing else but registrations. These are its own and of the epochs 1, 2, 3 and so on, and there are
so few of them that a counter of 64 bits never overflows. -/
theorem requests_made_once (action : Action r) (policy : Policy) (handler : Option FaultHandler)
    (observer : Observer) (w : World b) (turns : List (Turn b))
    (allPublic : ∀ turn ∈ turns, turn.Public) :
    let start := Session.opened (.action action policy handler) observer w
    let deeds := start.deeds turns
    let issued := (start.run turns).coordinator.issued
    action.Affords (deeds.filter (·.isDemand)) ∧
    deeds.filterMap (·.registration?) = (List.range' 1 issued).map (.mk observer) ∧
    issued ≤ action.registrations ∧ issued < UInt64.size := by
  intro start deeds issued
  have hphase : start.phase = .idle action := by cases action <;> rfl
  have hnone : start.coordinator.issued = 0 := by cases action <;> rfl
  have hobserver : start.coordinator.observer = observer := by cases action <;> rfl
  have hbound : issued ≤ action.registrations := by
    have hregisters := Session.registers_run start allPublic
    rw [Session.Registers, hphase, hnone, Nat.zero_add] at hregisters
    exact Nat.le_of_add_right_le hregisters
  refine ⟨?_, ?_, hbound, ?_⟩
  · have hafford := Session.affords_deeds start allPublic
    rwa [hphase] at hafford
  · obtain ⟨n, hissued, hdeeds⟩ := Session.exists_registrations_deeds start turns
    rw [hnone, Nat.zero_add] at hissued
    rw [hnone, hobserver] at hdeeds
    rw [hdeeds, ← hissued]
  · have hfew : action.registrations ≤ 3 := by cases action <;> simp [Action.registrations]
    exact Nat.lt_of_le_of_lt (Nat.le_trans hbound hfew) (by decide)

/-- A swap that is started twice and told of a failure that no leg has reported uses up everything
that it may ask for. -/
theorem requests_made_once_of_swap :
    let turns : List (Turn (Script.behaviour (r := [⟨"a"⟩, ⟨"b"⟩]) {})) :=
      [.perform .start, .perform .start, .stir () [.setState 0 .holding],
        .perform (.dispatch ⟨⟨"a"⟩, 1, .stateChanged .holding⟩),
        .perform (.hearEvent ⟨"b"⟩ .resumeFailed), .perform (.hearEvent ⟨"b"⟩ .resumeFailed)]
    let start := Session.opened (.action (.swap 0 1) {} none) ⟨0⟩ (World.pair .active .holding)
    (∀ turn ∈ turns, turn.Public) ∧
      (start.deeds turns).filter (·.isDemand) =
        [.asked 0 .hold, .asked 1 .resume, .asked 0 .resume] ∧
      (start.deeds turns).filterMap (·.registration?) = [⟨⟨0⟩, 1⟩, ⟨⟨0⟩, 2⟩, ⟨⟨0⟩, 3⟩] := by
  intro turns start
  have allPublic : ∀ turn ∈ turns, turn.Public := by
    simp [turns, Turn.Public, Operation.isPublic]
  obtain ⟨-, hregistrations, -, -⟩ :=
    requests_made_once (.swap 0 1) {} none ⟨0⟩ (World.pair .active .holding) turns allPublic
  refine ⟨allPublic, by decide, hregistrations.trans ?_⟩
  decide

end CallCoordination
