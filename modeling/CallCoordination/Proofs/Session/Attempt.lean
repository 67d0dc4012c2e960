import CallCoordination.Proofs.Session.Run

/-!
# Attempts

An attempt is a user action that is started once and then hears signals, while anything may happen
around it. In every phase that waits for a leg, a signal is heard only if it was sent through the
latest registration on that leg, and only a few notifications end the wait.
-/

namespace CallCoordination

variable {r : Roster} {b : Behaviour r}

/-- What may happen after a start. -/
inductive Occurrence {r : Roster} (b : Behaviour r) where
  | hear (signal : Signal)
  | stir (memory : b.Memory) (effects : List (Effect r))

namespace Occurrence

def turn : Occurrence b → Turn b
  | hear signal => .perform (.dispatch signal)
  | stir memory effects => .stir memory effects

def signal? : Occurrence b → Option Signal
  | hear signal => some signal
  | stir _ _ => none

end Occurrence

namespace Session

def live (s : Session b) (occurrences : List (Occurrence b)) : Session b :=
  s.run (occurrences.map (·.turn))

@[simp] theorem live_nil (s : Session b) : s.live [] = s := rfl

@[simp] theorem live_hear (s : Session b) (signal : Signal) (later : List (Occurrence b)) :
    s.live (.hear signal :: later) = (s.dispatch signal).live later := rfl

@[simp] theorem live_stir (s : Session b) (memory : b.Memory) (effects : List (Effect r))
    (later : List (Occurrence b)) :
    s.live (.stir memory effects :: later) =
      ({ s with world := s.world.stir memory effects } : Session b).live later := rfl

end Session

structure Attempt {r : Roster} (b : Behaviour r) where
  action : Action r
  policy : Policy
  handler : Option FaultHandler
  observer : Observer
  listeners : List Listener
  world : World b
  occurrences : List (Occurrence b)

namespace Attempt

def initial (a : Attempt b) : Session b :=
  (Session.opened (.action a.action a.policy a.handler) a.observer a.world).modify
    ({ · with listeners := a.listeners })

/-- The start was not refused; of the three actions only a dial can be refused. -/
def Started (a : Attempt b) : Prop := ∃ answer, a.initial.start.1 = .ok answer

def final (a : Attempt b) : Session b := a.initial.start.2.live a.occurrences

def signals (a : Attempt b) : List Signal := a.occurrences.filterMap (·.signal?)

end Attempt

namespace Session

/-! ## Starting -/

structure Unstarted (s : Session b) (action : Action r) : Prop where
  phase : s.phase = .idle action
  watches : s.coordinator.watches = []
  issued : s.coordinator.issued = 0
  undecided : s.coordinator.outcome = none
  failure : s.coordinator.failure = none

theorem unstarted_initial (a : Attempt b) : a.initial.Unstarted a.action := by
  obtain ⟨action, policy, handler, observer, listeners, w, occurrences⟩ := a
  cases action <;> exact ⟨rfl, rfl, rfl, rfl, rfl⟩

theorem policy_initial (a : Attempt b) : a.initial.coordinator.policy = a.policy := by
  obtain ⟨action, policy, handler, observer, listeners, w, occurrences⟩ := a
  cases action <;> rfl

theorem observer_initial (a : Attempt b) : a.initial.coordinator.observer = a.observer := by
  obtain ⟨action, policy, handler, observer, listeners, w, occurrences⟩ := a
  cases action <;> rfl

end Session

/-- The world in which the leg to hold is looked at: a dial allocates its connection before. -/
def Action.entry (action : Action r) (w : World b) : World b :=
  match action with
  | .dial _ leg call => (w.dial leg call.callee (call.terms true)).2
  | _ => w

namespace Session

theorem start_of_ok {s : Session b} {action : Action r} (h : s.phase = .idle action)
    {answer : Option ConnectionId} (hok : s.start.1 = .ok answer) :
    ∃ next, action.Leaves next ∧
      s.start.2 = ({ s with world := action.entry s.world } : Session b).awaitHold action.hold next := by
  cases action with
  | answer hold leg video => exact ⟨_, rfl, by rw [start, h]; rfl⟩
  | swap hold leg => exact ⟨_, rfl, by rw [start, h]; rfl⟩
  | dial hold leg call =>
    simp only [start, h] at hok ⊢
    cases hdial : (s.world.dial leg call.callee (call.terms true)).1 with
    | placed pending => exact ⟨_, ⟨pending, rfl⟩, rfl⟩
    | raised fault => simp [hdial] at hok

theorem start_of_idle {s : Session b} {action : Action r} (h : s.phase = .idle action) :
    (∃ next, action.Leaves next ∧ s.start.2 =
      ({ s with world := action.entry s.world } : Session b).awaitHold action.hold next) ∨
    ∃ cause, s.start.2 =
      (({ s with world := action.entry s.world } : Session b).recordFailure cause).finish false := by
  cases hstarted : s.start.1 with
  | ok answer => exact .inl (start_of_ok h hstarted)
  | error cause =>
    cases action with
    | answer hold leg video => simp [start, h] at hstarted
    | swap hold leg => simp [start, h] at hstarted
    | dial hold leg call =>
      simp only [start, h] at hstarted ⊢
      cases hdial : (s.world.dial leg call.callee (call.terms true)).1 with
      | placed pending => simp [hdial] at hstarted
      | raised fault => exact .inr ⟨.dialRaised fault, rfl⟩

end Session

/-! ## Waiting for a leg -/

/-- The notification of a signal, if it was sent through the registration of that leg and epoch. -/
def Signal.via (signal : Signal) (leg : Leg.Id) (epoch : Nat) : Option Notification :=
  if signal.leg = leg ∧ signal.epoch = epoch then some signal.notification else none

namespace Session

/-- Nothing is decided yet, and the leg is the only one under watch. -/
structure Expects (s : Session b) (slot : Slot r) (epoch : Nat) : Prop where
  watches : s.WatchesOnly slot epoch
  undecided : s.coordinator.outcome = none

theorem Expects.of_coordinator_eq {s t : Session b} {slot : Slot r} {epoch : Nat}
    (h : s.Expects slot epoch) (hc : t.coordinator = s.coordinator) : t.Expects slot epoch := by
  obtain ⟨hwatches, hundecided⟩ := h
  exact ⟨by rwa [WatchesOnly, hc], by rwa [hc]⟩

theorem expects_enter {s : Session b} (phase : Phase r) {slot : Slot r}
    (hp : phase.watched = [slot]) (h : slot.id ∉ s.coordinator.watchedIds)
    (hundecided : s.coordinator.outcome = none) :
    (s.enter phase).Expects slot (s.coordinator.issued + 1) :=
  ⟨watchesOnly_enter hp h, (outcome_enter s phase).trans hundecided⟩

theorem expects_rollingBack {s : Session b} (slot : Slot r)
    (hundecided : s.coordinator.outcome = none) :
    (s.enter (.rollingBack slot)).Expects slot (s.coordinator.issued + 1) :=
  ⟨watchesOnly_rollingBack s slot, (outcome_enter s _).trans hundecided⟩

structure Waits (s : Session b) (hold : Slot r) (next : Continuation r) : Prop where
  phase : s.phase = .awaitingHold hold next
  expects : s.Expects hold 1
  failure : s.coordinator.failure = none

theorem Waits.of_coordinator_eq {s t : Session b} {hold : Slot r} {next : Continuation r}
    (h : s.Waits hold next) (hc : t.coordinator = s.coordinator) : t.Waits hold next where
  phase := (congrArg (·.phase) hc).trans h.phase
  expects := h.expects.of_coordinator_eq hc
  failure := (congrArg (·.failure) hc).trans h.failure

theorem Unstarted.waits {s : Session b} {action : Action r} (h : s.Unstarted action)
    (next : Continuation r) (hold : Slot r) :
    (s.enter (.awaitingHold hold next)).Waits hold next where
  phase := rfl
  expects := by
    have hexpects := expects_enter (s := s) (.awaitingHold hold next) rfl
      (by simp [Coordinator.watchedIds, h.watches]) h.undecided
    rwa [h.issued] at hexpects
  failure := (failure_enter s _).trans h.failure

theorem dispatch_of_expects {s : Session b} {slot : Slot r} {epoch : Nat}
    (h : s.Expects slot epoch) (signal : Signal) :
    s.dispatch signal =
      match signal.via slot.id epoch with
      | some (.stateChanged state) => s.hearState slot.id state
      | some (.connectionEvent event) => s.hearEvent slot.id event
      | _ => s := by
  have hopen : s.coordinator.isCompleted = false := by simp [Coordinator.isCompleted, h.undecided]
  have hcurrent : s.coordinator.isCurrent signal = true ↔
      signal.leg = slot.id ∧ signal.epoch = epoch := by
    simp only [Coordinator.isCurrent, h.watches.1, List.any_cons, List.any_nil, Bool.or_false,
      decide_eq_true_eq]
    exact ⟨fun hc => ⟨hc.2.symm, hc.1.symm⟩, fun hc => ⟨hc.2.symm, hc.1.symm⟩⟩
  unfold dispatch Signal.via
  by_cases hvia : signal.leg = slot.id ∧ signal.epoch = epoch
  · rw [if_neg (by simp [hopen, hcurrent.mpr hvia]), if_pos hvia, hvia.1]
    cases signal.notification <;> rfl
  · rw [if_pos (.inr fun hc => hvia (hcurrent.mp hc)), if_neg hvia]

end Session

inductive HoldExit where
  | settled
  | failed
  deriving DecidableEq

namespace Notification

def holdExit? : Notification → Option HoldExit
  | stateChanged .holding | stateChanged .disconnected => some .settled
  | connectionEvent .holdFailed => some .failed
  | _ => none

/-- How the wait for a leg to resume ends: well, or with a failure. -/
def resumeExit? (leg : Leg.Id) : Notification → Option (Except Failure Unit)
  | stateChanged .active => some (.ok ())
  | stateChanged .disconnected => some (.error (.peerDisconnected leg))
  | connectionEvent .resumeFailed => some (.error (.resumeFailed leg))
  | _ => none

def endsRollback : Notification → Bool
  | stateChanged .active | stateChanged .disconnected | connectionEvent .resumeFailed => true
  | _ => false

end Notification

namespace Session

theorem dispatch_awaitingHold {s : Session b} {hold : Slot r} {next : Continuation r}
    {epoch : Nat} (hp : s.phase = .awaitingHold hold next) (h : s.Expects hold epoch)
    (signal : Signal) :
    s.dispatch signal =
      match (signal.via hold.id epoch).bind (·.holdExit?) with
      | some .settled => s.holdSettled hold next
      | some .failed => s.holdFailed hold next
      | none => s := by
  rw [dispatch_of_expects h]
  cases signal.via hold.id epoch with
  | none => rfl
  | some notification =>
    cases notification with
    | stateChanged state =>
      cases state <;> simp [hearState, hp, Notification.holdExit?, Leg.State.settled]
    | connectionEvent event => cases event <;> simp [hearEvent, hp, Notification.holdExit?]
    | _ => rfl

theorem dispatch_awaitingResume {s : Session b} {held resume : Slot r} {epoch : Nat}
    (hp : s.phase = .awaitingResume held resume) (h : s.Expects resume epoch)
    (signal : Signal) :
    s.dispatch signal =
      match (signal.via resume.id epoch).bind (·.resumeExit? resume.id) with
      | some (.ok _) => s.finish true
      | some (.error cause) => s.rollBack held cause
      | none => s := by
  rw [dispatch_of_expects h]
  cases signal.via resume.id epoch with
  | none => rfl
  | some notification =>
    cases notification with
    | stateChanged state => cases state <;> simp [hearState, hp, Notification.resumeExit?]
    | connectionEvent event => cases event <;> simp [hearEvent, hp, Notification.resumeExit?]
    | _ => rfl

theorem dispatch_rollingBack {s : Session b} {resume : Slot r} {epoch : Nat}
    (hp : s.phase = .rollingBack resume) (h : s.Expects resume epoch) (signal : Signal) :
    s.dispatch signal =
      if (signal.via resume.id epoch).any (·.endsRollback) then s.finish false else s := by
  rw [dispatch_of_expects h]
  cases signal.via resume.id epoch with
  | none => rfl
  | some notification =>
    cases notification with
    | stateChanged state => cases state <;> simp [hearState, hp, Notification.endsRollback]
    | connectionEvent event => cases event <;> simp [hearEvent, hp, Notification.endsRollback]
    | _ => rfl

/-! ## After completion -/

theorem dispatch_of_decided {s : Session b} (h : s.coordinator.outcome ≠ none)
    (signal : Signal) : s.dispatch signal = s := by
  have hdone : s.coordinator.isCompleted = true := by
    simpa [Coordinator.isCompleted, Option.isSome_iff_ne_none] using h
  simp [dispatch, hdone]

/-- Whatever happens, a coordinator that is done does nothing any more. -/
theorem live_of_decided {s : Session b} (h : s.coordinator.outcome ≠ none)
    (occurrences : List (Occurrence b)) :
    (s.live occurrences).coordinator = s.coordinator ∧
      (s.live occurrences).world.trace = s.world.trace := by
  induction occurrences generalizing s with
  | nil => exact ⟨rfl, rfl⟩
  | cons occurrence later ih =>
    cases occurrence with
    | hear signal =>
      rw [live_hear, dispatch_of_decided h]
      exact ih h
    | stir memory effects =>
      obtain ⟨hcoordinator, htrace⟩ :=
        ih (s := { s with world := s.world.stir memory effects }) h
      exact ⟨hcoordinator, htrace.trans (World.trace_stir s.world memory effects)⟩

end Session

end CallCoordination
