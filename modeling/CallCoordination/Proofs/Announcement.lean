import CallCoordination.Proofs.Session.Run
import Mathlib.Data.List.Induction

/-!
# The outcome is announced once

Listeners are called in one operation only, the one that sets the outcome, and there as the last
thing that happens. Who is called can be read off the history: each listener as often as it was
added and not removed again later. After that operation the outcome stays and nobody is called.
-/

namespace CallCoordination

variable {r : Roster} {b : Behaviour r}

/-! ## Who is to be called -/

namespace Turn

def added : Turn b → List Listener
  | perform (.addListener listener) => [listener]
  | _ => []

def removes : Turn b → Listener → Bool
  | perform (.removeListener gone), listener => gone = listener
  | _, _ => false

end Turn

/-- The listeners that were added in a history and that no later turn removed, oldest first. -/
def standing : List (Turn b) → List Listener
  | [] => []
  | turn :: later =>
    (turn.added.filter fun listener => !later.any (·.removes listener)) ++ standing later

theorem standing_append_singleton (history : List (Turn b)) (turn : Turn b) :
    standing (history ++ [turn]) =
      (standing history).filter (fun listener => !turn.removes listener) ++ turn.added := by
  induction history with
  | nil => simp [standing]
  | cons first later ih =>
    simp only [List.cons_append, standing, ih, List.filter_append, List.filter_filter,
      List.append_assoc, List.append_cancel_right_eq]
    apply List.filter_congr
    intro listener _
    simp [Bool.and_comm]

namespace Session

/-! ## Steps call nobody -/

/-- From `s` to `t` the outcome and the listeners stayed and nobody was called. -/
structure Silent (s t : Session b) : Prop where
  outcome : t.coordinator.outcome = s.coordinator.outcome
  listeners : t.coordinator.listeners = s.coordinator.listeners
  calls : t.world.calls = s.world.calls

theorem Silent.trans {s t u : Session b} (h : Silent s t) (h' : Silent t u) : Silent s u :=
  ⟨h'.outcome.trans h.outcome, h'.listeners.trans h.listeners, h'.calls.trans h.calls⟩

theorem silent_enter (s : Session b) (phase : Phase r) : Silent s (s.enter phase) :=
  ⟨outcome_enter s phase, listeners_enter s phase, calls_enter s phase⟩

theorem silent_ask (s : Session b) (slot : Slot r) (request : LegRequest) :
    Silent s (s.ask slot request) :=
  ⟨rfl, rfl, (World.grows_ask s.world slot request).calls_eq fun _ he => he ▸ rfl⟩

theorem silent_reportFault (s : Session b) (slot : Slot r) (fault : DialFault) :
    Silent s (s.reportFault slot fault) := by
  have hc := coordinator_reportFault s slot fault
  refine ⟨congrArg (·.outcome) hc, congrArg (·.listeners) hc, ?_⟩
  refine (grows_reportFault s slot fault).calls_eq ?_
  rintro event ⟨handler, rfl⟩
  rfl

theorem silent_pop {s t : Session b} {signal : Signal} (h : s.pop = some (signal, t)) :
    Silent s t := by
  have hc := (pop_eq_some h).1
  exact ⟨by rw [hc], by rw [hc], congrArg (·.filterMap (·.call?)) (trace_pop h)⟩

theorem Step.silent {s t : Session b} (h : Step s t) : Silent s t := by
  cases h with
  | begin h hnext => exact (silent_enter s _).trans (silent_ask _ _ .hold)
  | enter h => exact silent_enter s _
  | ask slot h => exact silent_ask s slot _
  | dial slot callee terms =>
    refine ⟨rfl, rfl, World.Grows.calls_eq (.single (World.trace_dial s.world _ _ _) rfl) ?_⟩
    rintro event rfl
    rfl
  | report slot fault => exact silent_reportFault s slot fault
  | fail failure => exact ⟨rfl, rfl, rfl⟩
  | noteState leg state => exact ⟨rfl, rfl, by simp [World.calls, World.note, Event.call?]⟩
  | noteEvent leg event => exact ⟨rfl, rfl, by simp [World.calls, World.note, Event.call?]⟩
  | pop h => exact silent_pop h

/-! ## Completion calls everybody -/

/-- `m` is the moment between `s` and `t` at which the outcome is set and the first listener is
about to be called; nothing but those calls separates it from `t`. -/
structure Announces (s m t : Session b) (success : Bool) : Prop where
  before : s.coordinator.outcome = none
  outcome : m.coordinator.outcome = some success
  completed : m.coordinator.completedAt = some m.world.now
  listeners : m.coordinator.listeners = s.coordinator.listeners
  silent : m.world.calls = s.world.calls
  last : t = m.tellListeners success

theorem Silent.announces {s t u m : Session b} {success : Bool} (h : Silent s t)
    (h' : Announces t m u success) : Announces s m u success where
  before := h.outcome ▸ h'.before
  outcome := h'.outcome
  completed := h'.completed
  listeners := h'.listeners.trans h.listeners
  silent := h'.silent.trans h.calls
  last := h'.last

theorem Announces.outcome_eq {s m t : Session b} {success : Bool} (h : Announces s m t success) :
    t.coordinator.outcome = some success := by
  rw [h.last]
  exact h.outcome

theorem Announces.calls_eq {s m t : Session b} {success : Bool} (h : Announces s m t success) :
    t.world.calls =
      s.world.calls ++ s.coordinator.listeners.map fun listener => (listener, success) := by
  rw [h.last, tellListeners, World.calls_foldl_tell, h.listeners, h.silent]

theorem complete_of_some {s : Session b} {outcome : Bool}
    (h : s.coordinator.outcome = some outcome) (success : Bool) : s.complete success = s := by
  simp [complete, h]

theorem announces_complete {s : Session b} (h : s.coordinator.outcome = none) (success : Bool) :
    Announces s ((s.watchExactly []).settle success) (s.complete success) success where
  before := h
  outcome := rfl
  completed := rfl
  listeners := listeners_watchExactly s []
  silent := calls_watchExactly s []
  last := by simp [complete, h]

/-- What an operation may do to outcome and listeners: nothing, or announce. -/
inductive Delivers (s t : Session b) : Prop
  | silent (outcome : t.coordinator.outcome = s.coordinator.outcome)
      (calls : t.world.calls = s.world.calls)
  | announced {m : Session b} {success : Bool} (h : Announces s m t success)

theorem delivers_complete (s : Session b) (success : Bool) : Delivers s (s.complete success) := by
  cases h : s.coordinator.outcome with
  | none => exact .announced (announces_complete h success)
  | some outcome =>
    rw [complete_of_some h]
    exact .silent rfl rfl

theorem Silent.delivers {s t u : Session b} (h : Silent s t) (h' : Delivers t u) :
    Delivers s u := by
  cases h' with
  | silent outcome calls => exact .silent (outcome.trans h.outcome) (calls.trans h.calls)
  | announced h' => exact .announced (h.announces h')

theorem Acts.delivers {s t : Session b} (h : Acts s t) : Delivers s t := by
  induction h with
  | nothing s => exact .silent rfl rfl
  | finish s success => exact (silent_enter s .done).delivers (delivers_complete _ success)
  | step h _ ih => exact h.silent.delivers ih

theorem delivers_perform (s : Session b) (operation : Operation r) :
    Delivers s (s.perform operation).2 := by
  cases performs s operation with
  | acts h _ _ => exact h.delivers
  | addListener _ | removeListener _ | setHandler _ => exact .silent rfl rfl
  | watchExactly legs => exact .silent (outcome_watchExactly s legs) (calls_watchExactly s legs)
  | rewatch legs =>
    refine .silent ?_ ?_
    · exact (outcome_watchExactly _ legs).trans (outcome_watchExactly s [])
    · exact (calls_watchExactly _ legs).trans (calls_watchExactly s [])
  | complete success => exact delivers_complete s success

/-! ## Listeners over a run -/

theorem Acts.listeners_eq {s t : Session b} (h : Acts s t) :
    t.coordinator.listeners = s.coordinator.listeners :=
  h.view_eq (f := (·.listeners)) fun _ _ _ _ _ _ _ => rfl

theorem listeners_turn (s : Session b) (turn : Turn b) :
    (s.turn turn).coordinator.listeners =
      s.coordinator.listeners.filter (fun listener => !turn.removes listener) ++ turn.added := by
  have hkept {t : Session b} (h : t.coordinator.listeners = s.coordinator.listeners) :
      t.coordinator.listeners =
        s.coordinator.listeners.filter (fun _ => !false) ++ ([] : List Listener) := by
    rw [h, Bool.not_false, List.filter_true, List.append_nil]
  cases turn with
  | elsewhere other operation => exact hkept rfl
  | stir memory effects => exact hkept rfl
  | perform operation =>
    have hperforms := performs s operation
    simp only [turn]
    generalize (s.perform operation).2 = t at hperforms ⊢
    cases hperforms with
    | acts h hadd hremove =>
      have hnone : Turn.added (.perform operation : Turn b) = [] := by
        cases operation <;> first | rfl | exact absurd rfl (hadd _)
      have hkeeps (listener : Listener) :
          Turn.removes (.perform operation : Turn b) listener = false := by
        cases operation <;> first | rfl | exact absurd rfl (hremove _)
      simp only [hnone, hkeeps]
      exact hkept h.listeners_eq
    | addListener listener =>
      simp only [modify, Coordinator.addListener, Turn.removes, Turn.added, Bool.not_false,
        List.filter_true]
    | removeListener gone =>
      simp [modify, Coordinator.removeListener, Turn.removes, Turn.added, eq_comm]
    | setHandler _ => exact hkept rfl
    | watchExactly legs => exact hkept (listeners_watchExactly s legs)
    | rewatch legs =>
      exact hkept ((listeners_watchExactly _ legs).trans (listeners_watchExactly s []))
    | complete success =>
      exact hkept (view_complete (f := (·.listeners)) (fun _ _ _ _ _ => rfl) s success)

@[simp] theorem listeners_opened (o : Opening r) (observer : Observer) (w : World b) :
    (opened o observer w).coordinator.listeners = [] := by
  cases o with
  | action action policy handler => cases action <;> rfl
  | bare recording kind policy => rfl

theorem listeners_run (o : Opening r) (observer : Observer) (w : World b)
    (history : List (Turn b)) :
    ((opened o observer w).run history).coordinator.listeners = standing history := by
  induction history using List.reverseRecOn with
  | nil => exact listeners_opened o observer w
  | append_singleton history turn ih =>
    rw [run_append, run_cons, run_nil, listeners_turn, ih, standing_append_singleton]

theorem outcome_turn {s : Session b} {outcome : Bool}
    (h : s.coordinator.outcome = some outcome) (turn : Turn b) :
    (s.turn turn).coordinator.outcome = some outcome := by
  cases turn with
  | elsewhere other operation => exact h
  | stir memory effects => exact h
  | perform operation =>
    cases delivers_perform s operation with
    | silent houtcome _ => exact houtcome.trans h
    | announced h' => exact absurd (h.symm.trans h'.before) (by simp)

theorem outcome_run {s : Session b} {outcome : Bool}
    (h : s.coordinator.outcome = some outcome) (turns : List (Turn b)) :
    (s.run turns).coordinator.outcome = some outcome :=
  run_induction (P := fun t => t.coordinator.outcome = some outcome) (Q := fun _ => True) h
    (fun _ turn h _ => outcome_turn h turn) fun _ _ => trivial

end Session

/-- Whatever the coordinator, its surroundings and its history: an operation calls nobody unless it
sets the outcome, which is kept for ever after. The one operation that sets it calls the listeners
that stand at that time, in order, once the outcome is there to be read, together with the time at
which the calls begin. -/
theorem listeners_told_once (o : Opening r) (observer : Observer) (w : World b)
    (history : List (Turn b)) (operation : Operation r) :
    let s := (Session.opened o observer w).run history
    let t := (s.perform operation).2
    (∀ outcome, s.coordinator.outcome = some outcome →
      ∀ later, (s.run later).coordinator.outcome = some outcome) ∧
    (s.coordinator.outcome ≠ none ∨ t.coordinator.outcome = none →
      t.world.calls = s.world.calls) ∧
    (∀ success, s.coordinator.outcome = none → t.coordinator.outcome = some success →
      t.world.calls =
        s.world.calls ++ (standing history).map (fun listener => (listener, success)) ∧
      ∃ m : Session b, m.world.calls = s.world.calls ∧ m.coordinator.outcome = some success ∧
        m.coordinator.completedAt = some m.world.now ∧ t = m.tellListeners success) := by
  intro s t
  have hlisteners : s.coordinator.listeners = standing history :=
    Session.listeners_run o observer w history
  refine ⟨fun outcome h later => Session.outcome_run h later, ?_, ?_⟩
  · intro h
    cases Session.delivers_perform s operation with
    | silent _ hcalls => exact hcalls
    | announced h' =>
      rcases h with h | h
      · exact absurd h'.before h
      · exact absurd (h'.outcome_eq.symm.trans h) (by simp)
  · intro success hnone hsome
    cases Session.delivers_perform s operation with
    | silent houtcome _ =>
      have hnone' : t.coordinator.outcome = none := houtcome.trans hnone
      exact absurd (hsome.symm.trans hnone') (by simp)
    | @announced m success' h' =>
      obtain rfl : success = success' := by simpa using hsome.symm.trans h'.outcome_eq
      refine ⟨?_, m, h'.silent, h'.outcome, h'.completed, h'.last⟩
      rw [← hlisteners]
      exact h'.calls_eq

end CallCoordination
