import CallCoordination.Proofs.Session.Run
import CallCoordination.Proofs.Session.Tidy
import CallCoordination.Proofs.World.Moves

/-!
# What hearing and performing come to

To hear from a leg is to do one of a few things, each of them in one phase only, and all but the
first two move the phase forward. A call manager's operation either starts the coordination, or
hears, or changes something that the course of the coordination does not depend on. Whatever an
operation is, its world is reached by moves on behalf of the coordinator.
-/

namespace CallCoordination

variable {r : Roster} {b : Behaviour r}

namespace Session

/-! ## Hearing -/

/-- What may follow when a session hears something. -/
inductive Hears (s : Session b) : Session b → Prop
  | nothing : Hears s s
  | notes {event : Event r} (h : s.phase = .recorder)
      (hevent : ∃ leg, (∃ state, event = .heardState leg state) ∨ ∃ e, event = .heardEvent leg e) :
      Hears s { s with world := s.world.note event }
  | holdSettled {hold : Slot r} {next : Continuation r} (h : s.phase = .awaitingHold hold next) :
      Hears s (s.holdSettled hold next)
  | holdFailed {hold : Slot r} {next : Continuation r} (h : s.phase = .awaitingHold hold next) :
      Hears s (s.holdFailed hold next)
  | resumed {held resume : Slot r} (h : s.phase = .awaitingResume held resume) :
      Hears s (s.finish true)
  | resumeFailed {held resume : Slot r} {cause : Failure}
      (h : s.phase = .awaitingResume held resume)
      (hcause : cause = .peerDisconnected resume.id ∨ cause = .resumeFailed resume.id) :
      Hears s (s.rollBack held cause)
  | rolledBack {back : Slot r} (h : s.phase = .rollingBack back) : Hears s (s.finish false)

theorem hears_hearState (s : Session b) (leg : Leg.Id) (state : Leg.State) :
    Hears s (s.hearState leg state) := by
  unfold hearState
  split
  next hold next h =>
    split
    · exact .holdSettled h
    · exact .nothing
  next held resume h =>
    split
    next hleg =>
      split
      · exact .resumed h
      · exact .resumeFailed h (.inl (by rw [hleg]))
      · exact .nothing
    · exact .nothing
  next back h =>
    split
    · exact .rolledBack h
    · exact .nothing
  next h => exact .notes h ⟨leg, .inl ⟨state, rfl⟩⟩
  · exact .nothing

theorem hears_hearEvent (s : Session b) (leg : Leg.Id) (event : ConnectionEvent) :
    Hears s (s.hearEvent leg event) := by
  unfold hearEvent
  split
  next hold next h =>
    split
    · exact .holdFailed h
    · exact .nothing
  next held resume h =>
    split
    next hleg => exact .resumeFailed h (.inr (by rw [hleg.1]))
    · exact .nothing
  next back h =>
    split
    · exact .rolledBack h
    · exact .nothing
  next h => exact .notes h ⟨leg, .inr ⟨event, rfl⟩⟩
  · exact .nothing

theorem hears_dispatch (s : Session b) (signal : Signal) : Hears s (s.dispatch signal) := by
  unfold dispatch
  split
  · exact .nothing
  · split
    · exact hears_hearState s _ _
    · exact hears_hearEvent s _ _
    · exact .nothing

theorem Hears.eq_or_rank_lt {s t : Session b} (h : Hears s t) (hphase : s.phase ≠ .recorder) :
    t = s ∨ t.phase.rank < s.phase.rank ∧ s.phase.rank ≤ 3 := by
  cases h with
  | nothing => exact .inl rfl
  | notes hrecorder _ => exact absurd hrecorder hphase
  | @holdSettled hold next h =>
    have hle := rank_holdSettled_le s hold next
    have hrank : s.phase.rank = 3 := congrArg Phase.rank h
    omega
  | holdFailed h => simp [phase_holdFailed, h, Phase.rank]
  | resumed h => simp [h, Phase.rank]
  | @resumeFailed held resume cause h _ =>
    have hle := rank_rollBack_le s held cause
    have hrank : s.phase.rank = 2 := congrArg Phase.rank h
    omega
  | rolledBack h => simp [h, Phase.rank]

theorem Hears.acts {s t : Session b} (h : Hears s t) : Acts s t := by
  cases h with
  | nothing => exact .nothing s
  | notes _ hevent =>
    obtain ⟨leg, ⟨state, rfl⟩ | ⟨event, rfl⟩⟩ := hevent
    · exact .one (.noteState s leg state)
    · exact .one (.noteEvent s leg event)
  | holdSettled h => exact acts_holdSettled h
  | holdFailed h => exact acts_holdFailed s _ _
  | resumed h => exact .finish s true
  | resumeFailed h _ => exact acts_rollBack (h ▸ .rollBack _ _) _
  | rolledBack h => exact .finish s false

theorem start_eq_self {s : Session b} (h : ∀ action, s.phase ≠ .idle action) :
    s.start.2 = s := by
  unfold start
  split
  next hp => exact absurd hp (h _)
  next hp => exact absurd hp (h _)
  next hp => exact absurd hp (h _)
  · rfl

/-! ## Operations -/

section Preserves

variable {P : Session b → Prop}

theorem processPending_preserves
    (hpop : ∀ s t signal, P s → s.pop = some (signal, t) → P (t.dispatch signal)) {s : Session b}
    (h : P s) : P s.processPending.2 := by
  fun_induction processPending s with
  | case1 s hdone => exact h
  | case2 s hdone hnone => exact h
  | case3 s hdone signal t hsome count last hrec ih =>
    have hlast := ih (hpop s t signal h hsome)
    rwa [hrec] at hlast

theorem serve_preserves
    (hpop : ∀ s t signal, P s → s.pop = some (signal, t) → P (t.dispatch signal)) {s : Session b}
    (h : P s) : P s.serve.2 := by
  fun_induction serve s with
  | case1 s success hdone => exact h
  | case2 s hdone hnone => exact h
  | case3 s hdone signal t hsome ih => exact ih (hpop s t signal h hsome)

/-- Hear at most so many signals. -/
def hearUpTo (s : Session b) : Nat → Session b
  | 0 => s
  | n + 1 =>
    if s.coordinator.isCompleted then s
    else
      match s.pop with
      | none => s
      | some (signal, t) => (t.dispatch signal).hearUpTo n

theorem pop_of_mailbox {s : Session b} (h : s.mailbox = []) : s.pop = none := by
  cases hpop : s.pop with
  | none => rfl
  | some signal => cases h.symm.trans (pop_eq_some hpop).2

theorem mailbox_of_pop_eq_none {s : Session b} (h : s.pop = none) : s.mailbox = [] := by
  unfold pop World.collect at h
  split at h
  next hmailbox => exact hmailbox
  · cases h

theorem processPending_of_pop_eq_none {s : Session b} (h : s.pop = none) :
    s.processPending = (0, s) := by
  rw [processPending]
  split
  · rfl
  · split
    · rfl
    · next hsome => cases h.symm.trans hsome

theorem processPending_of_mailbox {s : Session b} (h : s.mailbox = []) :
    s.processPending = (0, s) :=
  processPending_of_pop_eq_none (pop_of_mailbox h)

theorem processPending_of_pop_eq_some {s t : Session b} {signal : Signal}
    (hopen : s.coordinator.isCompleted ≠ true) (hpop : s.pop = some (signal, t)) :
    s.processPending =
      ((t.dispatch signal).processPending.1 + 1, (t.dispatch signal).processPending.2) := by
  rw [processPending, if_neg hopen]
  split
  · next hnone => cases hpop.symm.trans hnone
  · next hsome =>
    cases hpop.symm.trans hsome
    rfl

theorem processPending_of_pop {s t : Session b} {signal : Signal}
    (hopen : s.coordinator.isCompleted ≠ true) (hpop : s.pop = some (signal, t)) :
    s.processPending.2 = (t.dispatch signal).processPending.2 := by
  rw [processPending_of_pop_eq_some hopen hpop]

/-- What is heard first does not have to be processed any more. -/
theorem processPending_hearUpTo (s : Session b) (n : Nat) :
    (s.hearUpTo n).processPending.2 = s.processPending.2 := by
  fun_induction hearUpTo s n with
  | case1 s => rfl
  | case2 s n hdone => rfl
  | case3 s n hdone hnone => rfl
  | case4 s n hdone signal t hsome ih => rw [ih, processPending_of_pop hdone hsome]

/-- Signals that empty the mailbox are all that there is to process. -/
theorem processPending_eq_hearUpTo {s : Session b} {n : Nat} (h : (s.hearUpTo n).mailbox = []) :
    s.processPending.2 = s.hearUpTo n := by
  rw [← processPending_hearUpTo s n, processPending_of_mailbox h]

/-- Signals that complete the coordination are all that there is to process. -/
theorem processPending_eq_of_completed {s : Session b} {n : Nat}
    (h : (s.hearUpTo n).coordinator.isCompleted = true) : s.processPending.2 = s.hearUpTo n := by
  rw [← processPending_hearUpTo s n, processPending_of_completed h]

/-- What a call manager can do preserves whatever starting and hearing preserve. A signal is taken
from the mailbox and heard at once. -/
theorem perform_preserves (hstart : ∀ s, P s → P s.start.2) (hhear : ∀ s t, P s → Hears s t → P t)
    (hpop : ∀ s t signal, P s → s.pop = some (signal, t) → P (t.dispatch signal))
    (hkeep : ∀ s listeners handler, P s →
      P (s.modify ({ · with listeners := listeners, handler := handler })))
    {s : Session b} (h : P s) {operation : Operation r} (hpublic : operation.isPublic = true) :
    P (s.perform operation).2 := by
  cases operation with
  | start => exact hstart s h
  | process => exact processPending_preserves hpop h
  | serve => exact serve_preserves hpop h
  | dispatch signal => exact hhear s _ h (hears_dispatch s signal)
  | hearState leg state => exact hhear s _ h (hears_hearState s leg state)
  | hearEvent leg event => exact hhear s _ h (hears_hearEvent s leg event)
  | addListener listener => exact hkeep s _ s.coordinator.handler h
  | removeListener listener => exact hkeep s _ s.coordinator.handler h
  | setHandler handler => exact hkeep s s.coordinator.listeners (some handler) h
  | watchExactly _ | rewatch _ | complete _ | recordFailure _ | pop =>
    simp [Operation.isPublic] at hpublic

end Preserves

/-! ## What no operation changes -/

theorem Acts.policy_eq {s t : Session b} (h : Acts s t) :
    t.coordinator.policy = s.coordinator.policy :=
  h.view_eq (f := (·.policy)) fun _ _ _ _ _ _ _ => rfl

theorem failure_recordFailure {s : Session b} {cause : Failure}
    (h : s.coordinator.failure = some cause) (failure : Failure) :
    (s.recordFailure failure).coordinator.failure = some cause := by
  simp [recordFailure, Coordinator.recordFailure, h]

theorem failure_recordFailure_of_none {s : Session b} (h : s.coordinator.failure = none)
    (failure : Failure) : (s.recordFailure failure).coordinator.failure = some failure := by
  simp [recordFailure, Coordinator.recordFailure, h]

theorem Step.failure_eq {s t : Session b} (h : Step s t) {cause : Failure}
    (hcause : s.coordinator.failure = some cause) : t.coordinator.failure = some cause := by
  cases h with
  | @begin action next _ _ => exact (failure_enter s (.awaitingHold action.hold next)).trans hcause
  | enter _ => exact (failure_enter s _).trans hcause
  | ask | dial | noteState | noteEvent => exact hcause
  | report slot fault =>
    rw [coordinator_reportFault]
    exact hcause
  | fail failure => exact failure_recordFailure hcause failure
  | pop hpop =>
    rw [(pop_eq_some hpop).1]
    exact hcause

theorem Acts.failure_eq {s t : Session b} (h : Acts s t) {cause : Failure}
    (hcause : s.coordinator.failure = some cause) : t.coordinator.failure = some cause := by
  induction h with
  | nothing s => exact hcause
  | finish s success => exact (failure_finish s success).trans hcause
  | step hstep _ ih => exact ih (hstep.failure_eq hcause)

theorem failure_perform {s : Session b} {cause : Failure}
    (h : s.coordinator.failure = some cause) (operation : Operation r) :
    (s.perform operation).2.coordinator.failure = some cause := by
  cases performs s operation with
  | acts hacts _ _ => exact hacts.failure_eq h
  | addListener _ | removeListener _ | setHandler _ => exact h
  | watchExactly legs => exact (failure_watchExactly s legs).trans h
  | rewatch legs =>
    have hfirst := (failure_watchExactly s []).trans h
    exact (failure_watchExactly (s.watchExactly []) legs).trans hfirst
  | complete success => exact (failure_complete s success).trans h

/-- The failure that is recorded first stays, whatever is done afterwards. -/
theorem failure_run {s : Session b} {cause : Failure} (h : s.coordinator.failure = some cause)
    (turns : List (Turn b)) : (s.run turns).coordinator.failure = some cause := by
  refine run_induction (P := fun t => t.coordinator.failure = some cause) (Q := fun _ => True) h
    ?_ fun _ _ => trivial
  intro t turn ht _
  cases turn with
  | perform operation => exact failure_perform ht operation
  | elsewhere other operation => exact ht
  | stir memory effects => exact ht

/-! ## The world of an operation -/

theorem moves_release (s : Session b) (wanted : List Leg.Id) :
    World.Moves s.coordinator.observer s.world (s.release wanted).world := by
  have hfold (watches : List (Watch r)) (w : World b) :
      World.Moves s.coordinator.observer w
        (watches.foldl (fun w watch => w.ask watch.leg (.unregister s.coordinator.observer)) w) := by
    induction watches generalizing w with
    | nil => exact .refl
    | cons watch watches ih =>
      have hfirst : World.Move s.coordinator.observer w
          (w.ask watch.leg (.unregister s.coordinator.observer)) := .ask w watch.leg rfl
      exact .head hfirst (ih _)
  exact hfold _ s.world

theorem moves_watch (s : Session b) (slot : Slot r) :
    World.Moves s.coordinator.observer s.world (s.watch slot).world := by
  unfold watch
  split
  · exact .refl
  · have hregister : World.Move s.coordinator.observer s.world
        (s.world.ask slot (.register ⟨s.coordinator.observer, s.coordinator.issued + 1⟩)) :=
      .ask s.world slot rfl
    exact .single hregister

theorem moves_watchExactly (s : Session b) (wanted : List (Slot r)) :
    World.Moves s.coordinator.observer s.world (s.watchExactly wanted).world := by
  have hfold (slots : List (Slot r)) (t : Session b) :
      World.Moves t.coordinator.observer t.world (slots.foldl watch t).world := by
    induction slots generalizing t with
    | nil => exact .refl
    | cons slot slots ih =>
      have hrest := ih (t.watch slot)
      rw [(tidy_watch t slot).observer] at hrest
      exact (moves_watch t slot).trans hrest
  exact (moves_release s _).trans (hfold wanted (s.release (wanted.map Slot.id)))

theorem moves_rewatch (s : Session b) (wanted : List (Slot r)) :
    World.Moves s.coordinator.observer s.world (s.rewatch wanted).world := by
  have hrest := moves_watchExactly (s.watchExactly []) wanted
  rw [(tidy_watchExactly s []).observer] at hrest
  exact (moves_watchExactly s []).trans hrest

theorem moves_enter (s : Session b) (phase : Phase r) :
    World.Moves s.coordinator.observer s.world (s.enter phase).world := by
  unfold enter
  split
  · exact moves_rewatch s _
  · exact moves_watchExactly s _

theorem moves_complete (s : Session b) (success : Bool) :
    World.Moves s.coordinator.observer s.world (s.complete success).world := by
  have htell (listeners : List Listener) (w : World b) : World.Moves s.coordinator.observer w
      (listeners.foldl (World.tell · success ·) w) := by
    induction listeners generalizing w with
    | nil => exact .refl
    | cons listener listeners ih => exact .head (.tell w success listener) (ih _)
  unfold complete
  split
  · exact .refl
  · exact (moves_watchExactly s []).trans (htell _ _)

theorem moves_pop {s t : Session b} {signal : Signal} (h : s.pop = some (signal, t)) :
    World.Moves s.coordinator.observer s.world t.world := by
  simp only [pop, Option.map_eq_some_iff, Prod.exists, Prod.mk.injEq] at h
  obtain ⟨_, world, hcollect, rfl, rfl⟩ := h
  exact .single (.collect hcollect)

theorem Step.moves {s t : Session b} (h : Step s t) :
    World.Moves s.coordinator.observer s.world t.world := by
  cases h with
  | begin h hnext =>
    have hask (w : World b) (slot : Slot r) :
        World.Move s.coordinator.observer w (w.ask slot .hold) := .ask w slot trivial
    exact (moves_enter s _).tail (hask _ _)
  | enter h => exact moves_enter s _
  | @ask slot request h =>
    refine .single (.ask s.world slot ?_)
    cases request <;> simp_all [LegRequest.isFollowUp, LegRequest.OnBehalf]
  | dial slot callee terms => exact .single (.dial s.world slot callee terms)
  | report slot fault =>
    unfold reportFault
    split
    · exact .refl
    · exact .single (.report s.world _ _ fault)
  | fail failure => exact .refl
  | noteState leg state => exact .single (.noteState s.world leg state)
  | noteEvent leg event => exact .single (.noteEvent s.world leg event)
  | pop h => exact moves_pop h

theorem Acts.moves {s t : Session b} (h : Acts s t) :
    World.Moves s.coordinator.observer s.world t.world := by
  induction h with
  | nothing s => exact .refl
  | finish s success =>
    have hrest := moves_complete (s.enter .done) success
    rw [(tidy_enter s .done).observer] at hrest
    exact (moves_enter s .done).trans hrest
  | step h _ ih =>
    rw [h.tidy.observer] at ih
    exact h.moves.trans ih

theorem moves_perform (s : Session b) (operation : Operation r) :
    World.Moves s.coordinator.observer s.world (s.perform operation).2.world := by
  cases performs s operation with
  | acts h _ _ => exact h.moves
  | addListener _ | removeListener _ | setHandler _ => exact .refl
  | watchExactly legs => exact moves_watchExactly s legs
  | rewatch legs => exact moves_rewatch s legs
  | complete success => exact moves_complete s success

end Session

end CallCoordination
