import CallCoordination.Proofs.Session.Watching
import CallCoordination.Session.Operation

/-!
# What an operation consists of

Every operation that moves a coordination is a chain of steps: a request, a dial order, a report, a
failure, a change of phase or a signal taken from the mailbox. A coordination is finished at most
once in it, and then nothing follows. So whatever the steps preserve, and the finish establishes,
holds after every operation.
-/

namespace CallCoordination

variable {r : Roster} {b : Behaviour r}

namespace Action

def hold : Action r → Slot r
  | answer hold _ _ => hold
  | dial hold _ _ => hold
  | swap hold _ => hold

def other : Action r → Slot r
  | answer _ leg _ => leg
  | dial _ leg _ => leg
  | swap _ leg => leg

/-- What an action leaves to be done once its hold has settled. -/
def Leaves : Action r → Continuation r → Prop
  | answer _ leg video, next => next = .answer leg video
  | dial _ leg call, next => ∃ pending, next = .place leg call pending
  | swap _ leg, next => next = .resume leg

end Action

/-- The changes of phase that do not finish a coordination. -/
inductive Phase.Follows : Phase r → Phase r → Prop
  | hold (action : Action r) {next : Continuation r} (h : action.Leaves next) :
      Follows (idle action) (awaitingHold action.hold next)
  | resume (hold leg : Slot r) :
      Follows (awaitingHold hold (.resume leg)) (awaitingResume hold leg)
  | giveUp (hold leg : Slot r) :
      Follows (awaitingHold hold (.resume leg)) (rollingBack hold)
  | rollBack (held leg : Slot r) : Follows (awaitingResume held leg) (rollingBack held)

theorem Phase.rank_lt_of_follows {phase next : Phase r} (h : phase.Follows next) :
    next.rank < phase.rank := by
  cases h <;> simp [rank]

/-- A request that is made once a hold has settled or failed. -/
def LegRequest.isFollowUp : LegRequest → Bool
  | resume | answer _ | disconnect _ => true
  | _ => false

namespace Session

inductive Step : Session b → Session b → Prop
  | begin {s : Session b} {action : Action r} {next : Continuation r}
      (h : s.phase = .idle action) (hnext : action.Leaves next) :
      Step s ((s.enter (.awaitingHold action.hold next)).ask action.hold .hold)
  | enter {s : Session b} {phase : Phase r} (h : s.phase.Follows phase) : Step s (s.enter phase)
  | ask (s : Session b) (slot : Slot r) {request : LegRequest} (h : request.isFollowUp = true) :
      Step s (s.ask slot request)
  | dial (s : Session b) (slot : Slot r) (callee : Callee) (terms : DialTerms) :
      Step s { s with world := (s.world.dial slot callee terms).2 }
  | report (s : Session b) (slot : Slot r) (fault : DialFault) : Step s (s.reportFault slot fault)
  | fail (s : Session b) (failure : Failure) : Step s (s.recordFailure failure)
  | noteState (s : Session b) (leg : Leg.Id) (state : Leg.State) :
      Step s { s with world := s.world.note (.heardState leg state) }
  | noteEvent (s : Session b) (leg : Leg.Id) (event : ConnectionEvent) :
      Step s { s with world := s.world.note (.heardEvent leg event) }
  | pop {s t : Session b} {signal : Signal} (h : s.pop = some (signal, t)) : Step s t

inductive Acts : Session b → Session b → Prop
  | nothing (s : Session b) : Acts s s
  | finish (s : Session b) (success : Bool) : Acts s (s.finish success)
  | step {s t u : Session b} (h : Step s t) (hrest : Acts t u) : Acts s u

/-! ## Chains of steps -/

theorem Acts.one {s t : Session b} (h : Step s t) : Acts s t := .step h (.nothing t)

theorem trace_pop {s t : Session b} {signal : Signal} (h : s.pop = some (signal, t)) :
    t.world.trace = s.world.trace := by
  simp only [pop, World.collect] at h
  split at h
  · simp at h
  · obtain ⟨_, rfl⟩ := by simpa using h
    rfl

theorem trace_reportFault (s : Session b) (leg : Slot r) (fault : DialFault) :
    (s.reportFault leg fault).world.trace =
      s.world.trace ++ s.coordinator.handler.toList.map (.faultReported · leg.id fault) := by
  unfold reportFault
  cases s.coordinator.handler with
  | none => exact (List.append_nil _).symm
  | some handler => exact World.trace_emit s.world _

theorem grows_reportFault (s : Session b) (leg : Slot r) (fault : DialFault) :
    World.Grows (fun event => ∃ handler, event = .faultReported handler leg.id fault)
      s.world (s.reportFault leg fault).world := by
  refine ⟨_, trace_reportFault s leg fault, ?_⟩
  intro event hmem
  obtain ⟨handler, _, rfl⟩ := List.mem_map.mp hmem
  exact ⟨handler, rfl⟩

theorem outcome_complete_ne_none (s : Session b) (success : Bool) :
    (s.complete success).coordinator.outcome ≠ none := by
  unfold complete
  split
  · next h => simp [h]
  · simp [tellListeners, settle]

theorem outcome_finish {s : Session b} (h : s.coordinator.outcome = none) (success : Bool) :
    (s.finish success).coordinator.outcome = some success := by
  simp [finish, complete, h, tellListeners, settle]

/-- A chain that has not finished the coordination can be continued. -/
theorem Acts.trans {s t u : Session b} (h : Acts s t) (hopen : t.coordinator.outcome = none)
    (hrest : Acts t u) : Acts s u := by
  induction h with
  | nothing s => exact hrest
  | finish s success => exact absurd hopen (outcome_complete_ne_none _ success)
  | step h _ ih => exact .step h (ih hopen hrest)

/-! ## Phases -/

theorem Step.rank_le {s t : Session b} (h : Step s t) : t.phase.rank ≤ s.phase.rank := by
  cases h with
  | begin hidle _ =>
    rw [hidle]
    simp [Phase.rank]
  | enter hfollows =>
    rw [phase_enter]
    exact Nat.le_of_lt (Phase.rank_lt_of_follows hfollows)
  | report slot fault => exact Nat.le_of_eq (congrArg Phase.rank (phase_reportFault s slot fault))
  | pop hpop =>
    exact Nat.le_of_eq (congrArg (fun c : Coordinator r => c.phase.rank) (pop_eq_some hpop).1)
  | ask | dial | fail | noteState | noteEvent => exact Nat.le_refl _

theorem Acts.rank_le {s t : Session b} (h : Acts s t) : t.phase.rank ≤ s.phase.rank := by
  induction h with
  | nothing s => exact Nat.le_refl _
  | finish s success => simp [Phase.rank]
  | step hstep _ ih => exact Nat.le_trans ih hstep.rank_le

/-! ## What a chain leaves alone -/

section View

variable {α : Type} {f : Coordinator r → α}

theorem view_complete
    (hf : ∀ c watches issued completedAt outcome,
      f { c with watches := watches, issued := issued, completedAt := completedAt,
                 outcome := outcome } = f c)
    (s : Session b) (success : Bool) : f (s.complete success).coordinator = f s.coordinator := by
  unfold complete
  split
  · rfl
  · have hwatches : f (s.watchExactly []).coordinator = f s.coordinator :=
      view_watchExactly (fun c watches issued => hf c watches issued c.completedAt c.outcome) s []
    exact (hf _ _ _ _ _).trans hwatches

variable (hf : ∀ c phase watches issued completedAt outcome failure,
  f { c with phase := phase, watches := watches, issued := issued, completedAt := completedAt,
             outcome := outcome, failure := failure } = f c)

include hf

theorem Step.view_eq {s t : Session b} (h : Step s t) : f t.coordinator = f s.coordinator := by
  have henter (phase : Phase r) : f (s.enter phase).coordinator = f s.coordinator :=
    view_enter (fun c watches issued phase =>
      hf c phase watches issued c.completedAt c.outcome c.failure) s phase
  cases h with
  | @begin action next _ _ => exact henter (.awaitingHold action.hold next)
  | enter _ => exact henter _
  | ask | dial | noteState | noteEvent => rfl
  | report slot fault => rw [coordinator_reportFault]
  | fail failure =>
    have hfailure (c : Coordinator r) (failure : Option Failure) :
        f { c with failure := failure } = f c :=
      hf c c.phase c.watches c.issued c.completedAt c.outcome failure
    exact hfailure s.coordinator _
  | pop hpop => rw [(pop_eq_some hpop).1]

/-- Whatever does not depend on how far a coordination has got stays as it is. -/
theorem Acts.view_eq {s t : Session b} (h : Acts s t) : f t.coordinator = f s.coordinator := by
  induction h with
  | nothing s => rfl
  | finish s success =>
    have henter : f (s.enter .done).coordinator = f s.coordinator :=
      view_enter (fun c watches issued phase =>
        hf c phase watches issued c.completedAt c.outcome c.failure) s .done
    have hcomplete := view_complete (fun c watches issued completedAt outcome =>
      hf c c.phase watches issued completedAt outcome c.failure) (s.enter .done) success
    exact hcomplete.trans henter
  | step h _ ih => exact ih.trans (h.view_eq hf)

end View

/-! ## Operations as chains -/

theorem acts_rollBack {s : Session b} {held : Slot r} (h : s.phase.Follows (.rollingBack held))
    (cause : Failure) : Acts s (s.rollBack held cause) := by
  unfold rollBack
  refine .step (.fail s cause) ?_
  dsimp only
  split
  · exact .step (.enter h) (.one (.ask _ held rfl))
  · exact .finish _ false

theorem acts_place (s : Session b) (leg : Slot r) (call : OutgoingCall) (pending : ConnectionId) :
    Acts s (s.place leg call pending) := by
  unfold place
  split
  · exact .step (.fail s _) (.finish _ false)
  · refine .step (.dial s leg call.callee (call.terms false)) ?_
    dsimp only
    split
    · split
      · exact .finish _ true
      · exact .step (.ask _ leg rfl) (.step (.fail _ _) (.finish _ false))
    · exact .step (.report _ leg _) (.step (.fail _ _) (.finish _ false))

theorem acts_holdSettled {s : Session b} {hold : Slot r} {next : Continuation r}
    (h : s.phase = .awaitingHold hold next) : Acts s (s.holdSettled hold next) := by
  cases next with
  | answer leg video =>
    simp only [holdSettled]
    split
    · exact .step (.ask s leg rfl) (.finish _ true)
    · exact .finish s true
  | place leg call pending => exact acts_place s leg call pending
  | resume leg =>
    simp only [holdSettled]
    split
    · exact .step (.enter (h ▸ .resume hold leg)) (.one (.ask _ leg rfl))
    · exact .finish s true
    · exact acts_rollBack (h ▸ .giveUp hold leg) _

theorem acts_holdFailed (s : Session b) (hold : Slot r) (next : Continuation r) :
    Acts s (s.holdFailed hold next) := by
  cases next with
  | place leg call pending => exact .step (.ask s leg rfl) (.step (.fail _ _) (.finish _ false))
  | answer _ _ | resume _ => exact .step (.fail s _) (.finish _ false)

theorem acts_awaitHold {s : Session b} {action : Action r} {next : Continuation r}
    (h : s.phase = .idle action) (hnext : action.Leaves next) :
    Acts s (s.awaitHold action.hold next) := by
  unfold awaitHold
  split
  · exact .step (.enter (h ▸ .hold action hnext)) (acts_holdSettled rfl)
  · exact .one (.begin h hnext)

theorem acts_start (s : Session b) : Acts s s.start.2 := by
  unfold start
  split
  next hold leg video h => exact acts_awaitHold h rfl
  next hold leg h => exact acts_awaitHold h rfl
  next hold leg call h =>
    refine .step (.dial s leg call.callee (call.terms true)) ?_
    have hidle : ({ s with world := (s.world.dial leg call.callee (call.terms true)).2 } :
        Session b).phase = .idle (.dial hold leg call) := h
    dsimp only
    split
    · exact acts_awaitHold hidle ⟨_, rfl⟩
    · exact .step (.fail _ _) (.finish _ false)
  · exact .nothing s

theorem acts_hearState (s : Session b) (leg : Leg.Id) (state : Leg.State) :
    Acts s (s.hearState leg state) := by
  unfold hearState
  split
  next hold next h =>
    split
    · exact acts_holdSettled h
    · exact .nothing s
  next held resume h =>
    split
    · split
      · exact .finish s true
      · exact acts_rollBack (h ▸ .rollBack held resume) _
      · exact .nothing s
    · exact .nothing s
  next resume h =>
    split
    · exact .finish s false
    · exact .nothing s
  · exact .one (.noteState s leg state)
  · exact .nothing s

theorem acts_hearEvent (s : Session b) (leg : Leg.Id) (event : ConnectionEvent) :
    Acts s (s.hearEvent leg event) := by
  unfold hearEvent
  split
  next hold next h =>
    split
    · exact acts_holdFailed s hold next
    · exact .nothing s
  next held resume h =>
    split
    · exact acts_rollBack (h ▸ .rollBack held resume) _
    · exact .nothing s
  next resume h =>
    split
    · exact .finish s false
    · exact .nothing s
  · exact .one (.noteEvent s leg event)
  · exact .nothing s

theorem acts_dispatch (s : Session b) (signal : Signal) : Acts s (s.dispatch signal) := by
  unfold dispatch
  split
  · exact .nothing s
  · split
    · exact acts_hearState s _ _
    · exact acts_hearEvent s _ _
    · exact .nothing s

theorem processPending_of_completed {s : Session b} (h : s.coordinator.isCompleted = true) :
    s.processPending = (0, s) := by
  rw [processPending, if_pos h]

theorem serve_of_completed {s : Session b} {success : Bool}
    (h : s.coordinator.outcome = some success) : s.serve = (some success, s) := by
  rw [serve]
  split
  · next h' => rw [h] at h'; cases h'; rfl
  · next h' => rw [h] at h'; cases h'

theorem acts_processPending (s : Session b) : Acts s s.processPending.2 := by
  fun_induction processPending s with
  | case1 s h => exact .nothing s
  | case2 s h hpop => exact .nothing s
  | case3 s h signal t hpop count last hrec ih =>
    have hlast : (count + 1, last).2 = (t.dispatch signal).processPending.2 := by rw [hrec]
    rw [hlast]
    refine .step (.pop hpop) ?_
    cases hout : (t.dispatch signal).coordinator.outcome with
    | none => exact (acts_dispatch t signal).trans hout ih
    | some success =>
      rw [processPending_of_completed (by simp [Coordinator.isCompleted, hout])]
      exact acts_dispatch t signal

theorem acts_serve (s : Session b) : Acts s s.serve.2 := by
  fun_induction serve s with
  | case1 s success h => exact .nothing s
  | case2 s h hpop => exact .nothing s
  | case3 s h signal t hpop ih =>
    refine .step (.pop hpop) ?_
    cases hout : (t.dispatch signal).coordinator.outcome with
    | none => exact (acts_dispatch t signal).trans hout ih
    | some success =>
      rw [serve_of_completed hout]
      exact acts_dispatch t signal

inductive Performs (s : Session b) : Operation r → Session b → Prop
  | acts {operation : Operation r} {t : Session b} (h : Acts s t)
      (hadd : ∀ listener, operation ≠ .addListener listener)
      (hremove : ∀ listener, operation ≠ .removeListener listener) : Performs s operation t
  | addListener (listener : Listener) :
      Performs s (.addListener listener) (s.modify (·.addListener listener))
  | removeListener (listener : Listener) :
      Performs s (.removeListener listener) (s.modify (·.removeListener listener))
  | setHandler (handler : FaultHandler) :
      Performs s (.setHandler handler) (s.modify ({ · with handler := some handler }))
  | watchExactly (legs : List (Slot r)) : Performs s (.watchExactly legs) (s.watchExactly legs)
  | rewatch (legs : List (Slot r)) : Performs s (.rewatch legs) (s.rewatch legs)
  | complete (success : Bool) : Performs s (.complete success) (s.complete success)

theorem performs (s : Session b) (operation : Operation r) :
    Performs s operation (s.perform operation).2 := by
  cases operation with
  | start => exact .acts (acts_start s) nofun nofun
  | process => exact .acts (acts_processPending s) nofun nofun
  | serve => exact .acts (acts_serve s) nofun nofun
  | dispatch signal => exact .acts (acts_dispatch s signal) nofun nofun
  | hearState leg state => exact .acts (acts_hearState s leg state) nofun nofun
  | hearEvent leg event => exact .acts (acts_hearEvent s leg event) nofun nofun
  | addListener listener => exact .addListener listener
  | removeListener listener => exact .removeListener listener
  | setHandler handler => exact .setHandler handler
  | watchExactly legs => exact .watchExactly legs
  | rewatch legs => exact .rewatch legs
  | complete success => exact .complete success
  | recordFailure failure => exact .acts (.one (.fail s failure)) nofun nofun
  | pop =>
    simp only [perform]
    split
    · exact .acts (.nothing s) nofun nofun
    · next signal t h => exact .acts (.one (.pop h)) nofun nofun

theorem rank_perform_le (s : Session b) (operation : Operation r) :
    (s.perform operation).2.phase.rank ≤ s.phase.rank := by
  cases performs s operation with
  | acts h _ _ => exact h.rank_le
  | addListener _ | removeListener _ | setHandler _ => exact Nat.le_refl _
  | watchExactly legs => exact Nat.le_of_eq (congrArg Phase.rank (phase_watchExactly s legs))
  | rewatch legs =>
    have hphase := (phase_watchExactly (s.watchExactly []) legs).trans (phase_watchExactly s [])
    exact Nat.le_of_eq (congrArg Phase.rank hphase)
  | complete success => exact Nat.le_of_eq (congrArg Phase.rank (phase_complete s success))

end Session

end CallCoordination
