import CallCoordination.Proofs.HoldLaw
import CallCoordination.Proofs.Session.Deeds
import CallCoordination.Proofs.Session.Wire

/-!
# Settled on entry

A leg that is on hold or gone already need not be asked to hold. A coordinator that counts it as
settled goes on at once; one that does not asks for the hold, and goes on when it hears what the
first one saw. The two are in the same position then, and nothing that follows tells them apart.
-/

namespace CallCoordination

variable {r : Roster} {b : Behaviour r}

namespace Session

/-! ## Runs amid a backdrop -/

theorem ne_idle_of_rank_le {s : Session b} (h : s.phase.rank ≤ 3) (action : Action r) :
    s.phase ≠ .idle action := by
  intro hidle
  rw [hidle] at h
  simp [Phase.rank] at h

theorem rank_turn_le (s : Session b) (turn : Turn b) :
    (s.turn turn).phase.rank ≤ s.phase.rank := by
  cases turn with
  | perform operation => exact rank_perform_le s operation
  | elsewhere _ _ | stir _ _ => exact Nat.le_refl _

/-- What others do does not depend on the past either. -/
theorem world_perform_amid (other : Coordinator r) (w : World b) {d : Backdrop r}
    (hletters : d.letters = []) (operation : Operation r) :
    (perform ⟨other, w.amid d⟩ operation).2.world =
      (perform ⟨other, w⟩ operation).2.world.amid d := by
  -- a time of completion may be earlier than all events of `d`, so it is put into the backdrop
  let undated : Session b := ⟨{ other with completedAt := none }, w⟩
  let here : Backdrop r := { completedAt := other.completedAt }
  let there : Backdrop r := { d with onEntry := none, completedAt := other.completedAt }
  have hhere : (undated.amid here).perform operation = _ :=
    perform_amid undated here (.inl rfl) (.inl rfl)
  have hthere : (undated.amid there).perform operation = _ :=
    perform_amid undated there (.inl rfl) (.inl hletters)
  have hworld := congrArg (·.2.world) hhere
  exact (congrArg (·.2.world) hthere).trans (congrArg (World.amid · d) hworld.symm)

theorem turn_amid (s : Session b) {d : Backdrop r} (hletters : d.letters = [])
    (hstarted : s.phase.rank ≤ 3) (turn : Turn b) :
    (s.amid d).turn turn = (s.turn turn).amid d := by
  cases turn with
  | perform operation =>
    exact congrArg Prod.snd
      (perform_amid s d (.inr (ne_idle_of_rank_le hstarted)) (.inl hletters))
  | elsewhere other operation =>
    exact congrArg (Session.mk _) (world_perform_amid other s.world hletters operation)
  | stir memory effects => exact congrArg (Session.mk _) (World.stir_amid s.world d memory effects)

theorem deedsIn_amid (s : Session b) {d : Backdrop r} (hletters : d.letters = [])
    (hstarted : s.phase.rank ≤ 3) (turn : Turn b) : (s.amid d).deedsIn turn = s.deedsIn turn := by
  cases turn with
  | elsewhere _ _ | stir _ _ => rfl
  | perform operation =>
    have hperform : (s.amid d).perform operation = _ :=
      perform_amid s d (.inr (ne_idle_of_rank_le hstarted)) (.inl hletters)
    rw [deedsIn, hperform, deedsIn]
    change (d.past ++ _).drop (d.past ++ _).length = _
    rw [List.length_append, List.drop_length_add_append]

/-! ## Twins -/

/-- Two sessions that differ in nothing but their pasts and their choices on entry, after which no
choice is made on entry any more. -/
inductive Twins : Session b → Session b → Prop
  | amid (u : Session b) (hstarted : u.phase.rank ≤ 3) (past past' : List (Event r))
      (onEntry onEntry' : Option Bool) :
      Twins (u.amid { past := past, onEntry := onEntry })
        (u.amid { past := past', onEntry := onEntry' })

/-- Everything is the same but the choice on entry, the trace, and with the trace the time at which
the coordination completed. -/
structure Resembles (s t : Session b) : Prop where
  coordinator : t.coordinator =
    { s.coordinator with
      policy :=
        { s.coordinator.policy with
          holdSettledOnEntry := t.coordinator.policy.holdSettledOnEntry }
      completedAt := t.coordinator.completedAt }
  completed : t.coordinator.completedAt.isSome = s.coordinator.completedAt.isSome
  legs : t.world.legs = s.world.legs
  wire : t.world.wire = s.world.wire
  memory : t.world.memory = s.world.memory

namespace Twins

variable {s t : Session b}

theorem resembles (h : Twins s t) : Resembles s t := by
  obtain ⟨u, -, past, past', onEntry, onEntry'⟩ := h
  refine ⟨rfl, ?_, rfl, rfl, rfl⟩
  simp only [Session.amid, Coordinator.amid]
  cases u.coordinator.completedAt <;> rfl

theorem reply_eq (h : Twins s t) (operation : Operation r) :
    (t.perform operation).1 = (s.perform operation).1 := by
  obtain ⟨u, hstarted, past, past', onEntry, onEntry'⟩ := h
  have hidle := ne_idle_of_rank_le hstarted
  rw [perform_amid u _ (.inr hidle) (.inl rfl), perform_amid u _ (.inr hidle) (.inl rfl)]

theorem turn (h : Twins s t) (turn : Turn b) : Twins (s.turn turn) (t.turn turn) := by
  obtain ⟨u, hstarted, past, past', onEntry, onEntry'⟩ := h
  rw [turn_amid u rfl hstarted, turn_amid u rfl hstarted]
  exact .amid _ (Nat.le_trans (rank_turn_le u turn) hstarted) past past' onEntry onEntry'

theorem deedsIn_eq (h : Twins s t) (turn : Turn b) : t.deedsIn turn = s.deedsIn turn := by
  obtain ⟨u, hstarted, past, past', onEntry, onEntry'⟩ := h
  rw [deedsIn_amid u rfl hstarted, deedsIn_amid u rfl hstarted]

theorem run (h : Twins s t) (turns : List (Turn b)) : Twins (s.run turns) (t.run turns) := by
  induction turns generalizing s t with
  | nil => exact h
  | cons turn later ih => exact ih (h.turn turn)

theorem deeds_eq (h : Twins s t) (turns : List (Turn b)) : t.deeds turns = s.deeds turns := by
  induction turns generalizing s t with
  | nil => rfl
  | cons turn later ih => rw [deeds, deeds, h.deedsIn_eq turn, ih (h.turn turn)]

end Twins

/-! ## Two starts -/

/-- A start looks at the choice on entry when it knows what it is going to wait for, and at nothing
of it before. -/
theorem start_onEntry {s : Session b} {action : Action r} (h : s.phase = .idle action) :
    let t : Session b := { s with world := action.entry s.world }
    (∃ answer next, ∀ choice, (s.amid { onEntry := choice }).start =
      (.ok answer, (t.amid { onEntry := choice }).awaitHold action.hold next)) ∨
    ∃ cause, ∀ choice, (s.amid { onEntry := choice }).start =
      (.error cause, ((t.recordFailure cause).finish false).amid { onEntry := choice }) := by
  intro t
  cases action with
  | answer hold leg video =>
    refine .inl ⟨none, .answer leg video, fun choice => ?_⟩
    rw [start, phase_amid, h]
    rfl
  | swap hold leg =>
    refine .inl ⟨none, .resume leg, fun choice => ?_⟩
    rw [start, phase_amid, h]
    rfl
  | dial hold leg call =>
    cases hdial : (s.world.dial leg call.callee (call.terms true)).1 with
    | placed pending =>
      refine .inl ⟨some pending, .place leg call pending, fun choice => ?_⟩
      rw [start, phase_amid, h]
      dsimp only
      rw [world_amid, World.dial_amid, hdial]
      rfl
    | raised fault =>
      refine .inr ⟨.dialRaised fault, fun choice => ?_⟩
      rw [start, phase_amid, h]
      dsimp only
      rw [world_amid, World.dial_amid, hdial, ← finish_amid, ← recordFailure_amid]
      rfl

theorem ask_of_inert {s : Session b} {slot : Slot r} {request : LegRequest}
    (hrequest : request.isRegistration = false)
    (inert : ∀ memory, b.react memory (.asked slot request) = (memory, [])) :
    s.ask slot request = { s with world := s.world.note (.asked slot request) } := by
  have hemit : s.world.emit (.asked slot request) = s.world.note (.asked slot request) := by
    rw [World.emit, inert]
    rfl
  cases request with
  | register _ | unregister _ => simp [LegRequest.isRegistration] at hrequest
  | hold | resume | answer _ | disconnect _ => exact congrArg (Session.mk _) hemit

/-- The past of a session that has not completed is a backdrop. -/
theorem eq_amid_of_undated {s : Session b} (hdate : s.coordinator.completedAt = none)
    (past : List (Event r)) (choice : Option Bool) :
    ({ s with world := { s.world with trace := past } } : Session b).amid { onEntry := choice } =
      ({ s with world := { s.world with trace := [] } } : Session b).amid
        { past := past, onEntry := choice } := by
  simp only [amid, Coordinator.amid, World.amid, hdate, List.append_nil, List.nil_append]
  rfl

/-- The leg to hold is settled already. Whoever goes on at once does what the other does when it
hears so, and is in the same position then. -/
theorem awaitHold_of_settled {s : Session b} {action : Action r} (h : s.Unstarted action)
    (hdate : s.coordinator.completedAt = none)
    (inert : ∀ memory, b.react memory (.asked action.hold .hold) = (memory, []))
    (hsettled : (s.world.state action.hold).settled = true) (next : Continuation r)
    {state : Leg.State} (hstate : state.settled = true) :
    let direct := (s.amid { onEntry := some true }).awaitHold action.hold next
    let asked := (s.amid { onEntry := some false }).awaitHold action.hold next
    let notified := asked.dispatch ⟨action.hold.id, 1, .stateChanged state⟩
    ∃ (u : Session b) (before : List (Event r)), u.phase.rank ≤ 3 ∧
      direct = u.amid { past := s.world.trace ++ before, onEntry := some true } ∧
      notified = u.amid
        { past := s.world.trace ++ before ++ [.asked action.hold .hold], onEntry := some false } ∧
      asked.coordinator.watches = [⟨action.hold, 1⟩] ∧
      asked.world.trace = s.world.trace ++ before ++ [.asked action.hold .hold] := by
  intro direct asked notified
  let hold : Event r := .asked action.hold .hold
  let waiting : Session b := s.enter (.awaitingHold action.hold next)
  let heard : Session b := { waiting with world := waiting.world.note hold }
  let u : Session b := { waiting with world := { waiting.world with trace := [] } }
  have hwaits : waiting.Waits action.hold next := h.waits next action.hold
  have hheard : heard.Waits action.hold next := hwaits.of_coordinator_eq rfl
  have hundated : waiting.coordinator.completedAt = none :=
    (completedAt_enter s (.awaitingHold action.hold next)).trans hdate
  obtain ⟨before, htrace, -⟩ := grows_enter s (.awaitingHold action.hold next)
  have hlater : heard.world.trace = s.world.trace ++ before ++ [hold] :=
    congrArg (· ++ [hold]) htrace
  -- without a question
  have hdirect : direct = (waiting.amid { onEntry := some true }).holdSettled action.hold next := by
    have hentry : (s.amid { onEntry := some true }).isSettledOnEntry action.hold = true := by
      simp [isSettledOnEntry, amid, Coordinator.amid, hsettled]
    rw [← enter_amid]
    exact if_pos hentry
  -- with a question, and the report that answers it
  have hasked : asked = heard.amid { onEntry := some false } := by
    have hentry : ¬ (s.amid { onEntry := some false }).isSettledOnEntry action.hold = true := by
      simp [isSettledOnEntry, amid, Coordinator.amid]
    have hask : waiting.ask action.hold .hold = heard := ask_of_inert rfl inert
    rw [← hask, ← ask_amid, ← enter_amid]
    exact if_neg hentry
  have hreport : heard.dispatch ⟨action.hold.id, 1, .stateChanged state⟩ =
      heard.holdSettled action.hold next := by
    have hexit : (Signal.via ⟨action.hold.id, 1, .stateChanged state⟩ action.hold.id 1).bind
        (·.holdExit?) = some .settled := by
      rw [Signal.via, if_pos ⟨rfl, rfl⟩]
      rcases Leg.State.settled_iff.mp hstate with rfl | rfl <;> rfl
    rw [dispatch_awaitingHold hheard.phase hheard.expects, hexit]
  have hwaiting := eq_amid_of_undated hundated (s.world.trace ++ before) (some true)
  have hnoted := eq_amid_of_undated hundated (s.world.trace ++ before ++ [hold]) (some false)
  rw [← htrace] at hwaiting
  rw [← hlater] at hnoted
  refine ⟨u.holdSettled action.hold next, before, ?_, ?_, ?_, ?_, ?_⟩
  · exact Nat.le_trans (rank_holdSettled_le u action.hold next) (by decide)
  · rw [hdirect, ← holdSettled_amid, ← htrace]
    exact congrArg (holdSettled · action.hold next) hwaiting
  · change asked.dispatch _ = _
    rw [hasked, dispatch_amid, hreport, ← holdSettled_amid, ← holdSettled_amid, ← hlater]
    exact congrArg (holdSettled · action.hold next) hnoted
  · rw [hasked]
    exact hheard.expects.watches.1
  · rw [hasked, ← hlater]
    rfl

end Session

namespace Attempt

/-- The same attempt with this choice how to treat a leg that is settled on entry. -/
def choosing (a : Attempt b) (onEntry : Bool) : Attempt b :=
  { a with policy := { a.policy with holdSettledOnEntry := onEntry } }

theorem initial_choosing (a : Attempt b) (onEntry : Bool) :
    (a.choosing onEntry).initial = a.initial.amid { onEntry := some onEntry } := by
  obtain ⟨action, policy, handler, observer, listeners, w, occurrences⟩ := a
  cases action <;> rfl

theorem initial_eq_amid (a : Attempt b) : a.initial = a.initial.amid { onEntry := none } := by
  obtain ⟨action, policy, handler, observer, listeners, w, occurrences⟩ := a
  cases action <;> rfl

theorem completedAt_initial (a : Attempt b) : a.initial.coordinator.completedAt = none := by
  obtain ⟨action, policy, handler, observer, listeners, w, occurrences⟩ := a
  cases action <;> rfl

/-- The request that a start makes if it goes on to wait for the hold. -/
def holdRequest (a : Attempt b) : List (Event r) :=
  match a.initial.start.1 with
  | .ok _ => [.asked a.action.hold .hold]
  | .error _ => []

theorem start_choosing {a : Attempt b}
    {out : Option Bool → Except Failure (Option ConnectionId) × Session b}
    (h : ∀ choice, (a.initial.amid { onEntry := choice }).start = out choice) (onEntry : Bool) :
    (a.choosing onEntry).initial.start = out (some onEntry) := by
  rw [initial_choosing, h]

/-- Where an attempt is after it went on at once, and after it asked and was told: in one session
amid different pasts. -/
structure Meets (a : Attempt b) (state : Leg.State) (u : Session b) (before : List (Event r)) :
    Prop where
  started : u.phase.rank ≤ 3
  answer : (a.choosing false).initial.start.1 = (a.choosing true).initial.start.1
  direct : (a.choosing true).initial.start.2 =
    u.amid { past := a.world.trace ++ before, onEntry := some true }
  notified : (a.choosing false).initial.start.2.dispatch
      ⟨a.action.hold.id, 1, .stateChanged state⟩ =
    u.amid { past := a.world.trace ++ before ++ a.holdRequest, onEntry := some false }
  asked : a.Started →
    (a.choosing false).initial.start.2.coordinator.watches = [⟨a.action.hold, 1⟩] ∧
      (a.choosing false).initial.start.2.world.trace =
        a.world.trace ++ before ++ a.holdRequest

theorem exists_meets_of_ok {a : Attempt b}
    (inert : ∀ memory, b.react memory (.asked a.action.hold .hold) = (memory, []))
    (hsettled : (a.entry.state a.action.hold).settled = true)
    {state : Leg.State} (hstate : state.settled = true)
    {answer : Option ConnectionId} {next : Continuation r}
    (hstart : ∀ choice, (a.initial.amid { onEntry := choice }).start =
      (.ok answer, (a.ready.amid { onEntry := choice }).awaitHold a.action.hold next)) :
    ∃ u before, a.Meets state u before := by
  have hok : a.initial.start.1 = .ok answer := by rw [a.initial_eq_amid, hstart]
  have hrequest : a.holdRequest = [.asked a.action.hold .hold] := by rw [holdRequest, hok]
  obtain ⟨allocation, hentry, -⟩ := a.action.quiet_entry a.world
  obtain ⟨u, before, hrank, hdirect, hnotified, hwatches, htrace⟩ :=
    Session.awaitHold_of_settled a.unstarted_ready a.completedAt_initial inert hsettled next hstate
  have hbefore : a.ready.world.trace ++ before = a.world.trace ++ (allocation ++ before) := by
    rw [← List.append_assoc, ← hentry]
    rfl
  rw [hbefore] at hdirect hnotified htrace
  refine ⟨u, allocation ++ before, hrank, ?_, ?_, ?_, fun _ => ?_⟩
  · rw [start_choosing hstart, start_choosing hstart]
  · rw [start_choosing hstart]
    exact hdirect
  · rw [start_choosing hstart, hrequest]
    exact hnotified
  · rw [start_choosing hstart, hrequest]
    exact ⟨hwatches, htrace⟩

theorem exists_meets_of_error {a : Attempt b} (state : Leg.State) {cause : Failure}
    (hstart : ∀ choice, (a.initial.amid { onEntry := choice }).start =
      (.error cause, ((a.ready.recordFailure cause).finish false).amid { onEntry := choice })) :
    ∃ u before, a.Meets state u before := by
  have herror : a.initial.start.1 = .error cause := by rw [a.initial_eq_amid, hstart]
  have hrequest : a.holdRequest = [] := by rw [holdRequest, herror]
  obtain ⟨allocation, hentry, -⟩ := a.action.quiet_entry a.world
  let failed : Session b := a.ready.recordFailure cause
  let u : Session b := { failed with world := { failed.world with trace := [] } }
  have hundated : failed.coordinator.completedAt = none := a.completedAt_initial
  have hfinish (choice : Option Bool) : (failed.finish false).amid { onEntry := choice } =
      (u.finish false).amid { past := a.world.trace ++ allocation, onEntry := choice } := by
    have hpast := Session.eq_amid_of_undated hundated (a.world.trace ++ allocation) choice
    rw [← hentry] at hpast ⊢
    rw [← Session.finish_amid, ← Session.finish_amid]
    exact congrArg (Session.finish · false) hpast
  have hdecided :
      ((failed.finish false).amid { onEntry := some false }).coordinator.outcome ≠ none :=
    Session.outcome_complete_ne_none _ false
  refine ⟨u.finish false, allocation, by simp [Phase.rank], ?_, ?_, ?_, ?_⟩
  · rw [start_choosing hstart, start_choosing hstart]
  · rw [start_choosing hstart]
    exact hfinish _
  · rw [start_choosing hstart, hrequest, List.append_nil]
    exact (Session.dispatch_of_decided hdecided _).trans (hfinish _)
  · rintro ⟨answer, hok⟩
    cases herror.symm.trans hok

theorem exists_meets {a : Attempt b}
    (inert : ∀ memory, b.react memory (.asked a.action.hold .hold) = (memory, []))
    (settled : a.Started → (a.entry.state a.action.hold).settled = true)
    {state : Leg.State} (hstate : state.settled = true) : ∃ u before, a.Meets state u before := by
  rcases Session.start_onEntry (Session.unstarted_initial a).phase with
    ⟨answer, next, hstart⟩ | ⟨cause, hstart⟩
  · have hok : a.initial.start.1 = .ok answer := by rw [a.initial_eq_amid, hstart]
    exact exists_meets_of_ok inert (settled ⟨answer, hok⟩) hstate hstart
  · exact exists_meets_of_error state hstart

end Attempt

/-- Take an action whose leg to hold is on hold or gone when the start looks at it, and legs in any
state otherwise, of any behaviour in which the request to hold that leg does nothing. Whether the
coordinator goes on at once, or asks for the hold and is told that the leg is on hold or gone
through the registration it made: the start answers the same, the legs, the letters and the
coordinator end the same, and the events are the same but for the one request, which a dial that is
refused does not make. After that, whatever happens, the two go on in the same way, with the same
answers and the same requests and calls. -/
theorem entry_agrees_with_report (a : Attempt b)
    (inert : ∀ memory, b.react memory (.asked a.action.hold .hold) = (memory, []))
    (settled : a.Started → (a.entry.state a.action.hold).settled = true)
    (state : Leg.State) (hstate : state.settled = true) :
    let direct := (a.choosing true).initial.start
    let asked := (a.choosing false).initial.start
    let notified := asked.2.dispatch ⟨a.action.hold.id, 1, .stateChanged state⟩
    asked.1 = direct.1 ∧
    (∃ before after, direct.2.world.trace = a.world.trace ++ before ++ after ∧
      notified.world.trace = a.world.trace ++ before ++ a.holdRequest ++ after ∧
      (a.Started → asked.2.coordinator.watches = [⟨a.action.hold, 1⟩] ∧
        asked.2.world.trace = a.world.trace ++ before ++ a.holdRequest)) ∧
    ∀ turns, Session.Resembles (direct.2.run turns) (notified.run turns) ∧
      notified.deeds turns = direct.2.deeds turns ∧
      ∀ operation, ((notified.run turns).perform operation).1 =
        ((direct.2.run turns).perform operation).1 := by
  intro direct asked notified
  obtain ⟨u, before, hmeets⟩ := Attempt.exists_meets inert settled hstate
  have htwins : Session.Twins direct.2 notified := by
    have hamid := Session.Twins.amid u hmeets.started (a.world.trace ++ before)
      (a.world.trace ++ before ++ a.holdRequest) (some true) (some false)
    rwa [← hmeets.direct, ← hmeets.notified] at hamid
  refine ⟨hmeets.answer, ⟨before, u.world.trace, ?_, ?_, hmeets.asked⟩, fun turns => ?_⟩
  · exact congrArg (·.world.trace) hmeets.direct
  · exact congrArg (·.world.trace) hmeets.notified
  · have hlater := htwins.run turns
    exact ⟨hlater.resembles, htwins.deeds_eq turns, hlater.reply_eq⟩

/-- A swap that has to roll back at once: the leg to resume is gone. -/
theorem entry_agrees_with_report_of_rollback :
    let a : Attempt (Script.behaviour (r := [⟨"a"⟩, ⟨"b"⟩]) {}) :=
      { action := .swap 0 1, policy := {}, handler := none, observer := ⟨0⟩, listeners := [⟨"l"⟩]
        world := World.pair .holding .disconnected, occurrences := [] }
    let direct := (a.choosing true).initial.start.2
    let notified :=
      (a.choosing false).initial.start.2.dispatch ⟨⟨"a"⟩, 1, .stateChanged .holding⟩
    let turns : List (Turn (Script.behaviour (r := [⟨"a"⟩, ⟨"b"⟩]) {})) :=
      [.stir () [.changeState 0 .active],
        .perform (.dispatch ⟨⟨"a"⟩, 2, .stateChanged .active⟩)]
    (∀ memory, (Script.behaviour {}).react memory (.asked a.action.hold .hold) = (memory, [])) ∧
      (a.Started → (a.entry.state a.action.hold).settled = true) ∧
      direct.phase = .rollingBack 0 ∧ notified.phase = .rollingBack 0 ∧
      notified.deeds turns = [.asked 0 (.unregister ⟨0⟩), .told ⟨"l"⟩ false 0] := by
  intro a direct notified turns
  have inert : ∀ memory,
      (Script.behaviour {}).react memory (.asked a.action.hold .hold) = (memory, []) :=
    fun _ => rfl
  have settled : a.Started → (a.entry.state a.action.hold).settled = true := fun _ => rfl
  have hdirect : direct.phase = .rollingBack 0 := by decide
  obtain ⟨-, -, hagree⟩ := entry_agrees_with_report a inert settled .holding rfl
  obtain ⟨hresembles, -, -⟩ := hagree []
  obtain ⟨-, hdeeds, -⟩ := hagree turns
  have hphase : notified.phase = direct.phase := congrArg (·.phase) hresembles.coordinator
  refine ⟨inert, settled, hdirect, hphase.trans hdirect, hdeeds.trans ?_⟩
  decide

end CallCoordination
