import CallCoordination.Proofs.Session.Attempt
import CallCoordination.Proofs.Session.Epochs
import CallCoordination.Proofs.Tracking

/-!
# What a phase heeds

In each phase a coordinator heeds a few notifications, and each of them ends the phase. All others
are heard without any consequence, as is a signal that was not sent through a live registration. To
work through the mailbox, in either way, is to hear one signal after the other.
-/

namespace CallCoordination

variable {r : Roster} {b : Behaviour r}

/-- Whether a notification of the leg under watch has any consequence in this phase. -/
def Phase.heeds : Phase r → Notification → Bool
  | awaitingHold _ _, notification => notification.holdExit?.isSome
  | awaitingResume _ resume, notification => (notification.resumeExit? resume.id).isSome
  | rollingBack _, notification => notification.endsRollback
  | recorder, .stateChanged _ | recorder, .connectionEvent _ => true
  | _, _ => false

namespace Session

/-! ## Hearing what is not heeded -/

theorem hearState_of_unheeded {s : Session b} {leg : Leg.Id} {state : Leg.State}
    (h : s.phase.heeds (.stateChanged state) = false) : s.hearState leg state = s := by
  cases hphase : s.phase with
  | awaitingHold hold next =>
    have hunsettled : state.settled = false := by
      cases state <;> simp_all [Phase.heeds, Notification.holdExit?, Leg.State.settled]
    simp [hearState, hphase, hunsettled]
  | awaitingResume held resume =>
    rw [hphase] at h
    cases state <;> simp_all [hearState, Phase.heeds, Notification.resumeExit?]
  | rollingBack back =>
    have hgoes : ¬ (state = .active ∨ state = .disconnected) := by
      rintro (rfl | rfl) <;> simp [hphase, Phase.heeds, Notification.endsRollback] at h
    simp only [hearState, hphase]
    exact if_neg fun hends => hgoes hends.2
  | recorder => simp [hphase, Phase.heeds] at h
  | idle _ | done | plain => simp [hearState, hphase]

theorem hearEvent_of_unheeded {s : Session b} {leg : Leg.Id} {event : ConnectionEvent}
    (h : s.phase.heeds (.connectionEvent event) = false) : s.hearEvent leg event = s := by
  cases hphase : s.phase with
  | awaitingHold hold next =>
    have hother : event ≠ .holdFailed := by
      rintro rfl
      simp [hphase, Phase.heeds, Notification.holdExit?] at h
    simp [hearEvent, hphase, hother]
  | awaitingResume held resume =>
    have hother : event ≠ .resumeFailed := by
      rintro rfl
      simp [hphase, Phase.heeds, Notification.resumeExit?] at h
    simp [hearEvent, hphase, hother]
  | rollingBack back =>
    have hother : event ≠ .resumeFailed := by
      rintro rfl
      simp [hphase, Phase.heeds, Notification.endsRollback] at h
    simp [hearEvent, hphase, hother]
  | recorder => simp [hphase, Phase.heeds] at h
  | idle _ | done | plain => simp [hearEvent, hphase]

theorem dispatch_of_unheeded {s : Session b} {signal : Signal}
    (h : s.coordinator.isCurrent signal = true → s.phase.heeds signal.notification = false) :
    s.dispatch signal = s := by
  unfold dispatch
  split
  · rfl
  next hheard =>
    have hunheeded := h (not_not.mp (not_or.mp hheard).2)
    split
    next state hnotification => exact hearState_of_unheeded (hnotification ▸ hunheeded)
    next event hnotification => exact hearEvent_of_unheeded (hnotification ▸ hunheeded)
    · rfl

/-! ## Hearing what is heeded -/

theorem rank_hearState_of_heeded {s : Session b} {leg : Leg.Id} {state : Leg.State}
    (hwatched : leg ∈ s.phase.watched.map Slot.id)
    (h : s.phase.heeds (.stateChanged state) = true) :
    (s.hearState leg state).phase.rank < s.phase.rank := by
  cases hphase : s.phase with
  | awaitingHold hold next =>
    obtain rfl : leg = hold.id := by simpa [hphase, Phase.watched] using hwatched
    have hsettled : state.settled = true := by
      cases state <;> simp_all [Phase.heeds, Notification.holdExit?, Leg.State.settled]
    have hle := rank_holdSettled_le s hold next
    simp only [hearState, hphase, hsettled, and_self, if_true]
    exact Nat.lt_succ_of_le hle
  | awaitingResume held resume =>
    obtain rfl : leg = resume.id := by simpa [hphase, Phase.watched] using hwatched
    have hle := rank_rollBack_le s held (.peerDisconnected resume.id)
    have hends : state = .active ∨ state = .disconnected := by
      cases state <;> simp_all [Phase.heeds, Notification.resumeExit?]
    rcases hends with rfl | rfl
    · simp [hearState, hphase, Phase.rank]
    · simp only [hearState, hphase, if_true]
      exact Nat.lt_succ_of_le hle
  | rollingBack back =>
    obtain rfl : leg = back.id := by simpa [hphase, Phase.watched] using hwatched
    have hends : state = .active ∨ state = .disconnected := by
      cases state <;> simp_all [Phase.heeds, Notification.endsRollback]
    simp [hearState, hphase, hends, Phase.rank]
  | idle _ | done | plain | recorder => simp [hphase, Phase.watched] at hwatched

theorem rank_hearEvent_of_heeded {s : Session b} {leg : Leg.Id} {event : ConnectionEvent}
    (hwatched : leg ∈ s.phase.watched.map Slot.id)
    (h : s.phase.heeds (.connectionEvent event) = true) :
    (s.hearEvent leg event).phase.rank < s.phase.rank := by
  cases hphase : s.phase with
  | awaitingHold hold next =>
    obtain rfl : leg = hold.id := by simpa [hphase, Phase.watched] using hwatched
    obtain rfl : event = .holdFailed := by
      cases event <;> simp_all [Phase.heeds, Notification.holdExit?]
    simp [hearEvent, hphase, phase_holdFailed, Phase.rank]
  | awaitingResume held resume =>
    obtain rfl : leg = resume.id := by simpa [hphase, Phase.watched] using hwatched
    have hle := rank_rollBack_le s held (.resumeFailed resume.id)
    obtain rfl : event = .resumeFailed := by
      cases event <;> simp_all [Phase.heeds, Notification.resumeExit?]
    simp only [hearEvent, hphase, and_self, if_true]
    exact Nat.lt_succ_of_le hle
  | rollingBack back =>
    obtain rfl : leg = back.id := by simpa [hphase, Phase.watched] using hwatched
    obtain rfl : event = .resumeFailed := by
      cases event <;> simp_all [Phase.heeds, Notification.endsRollback]
    simp [hearEvent, hphase, Phase.rank]
  | idle _ | done | plain | recorder => simp [hphase, Phase.watched] at hwatched

/-- A notification that counts ends the phase in which it is heard. -/
theorem rank_dispatch_of_heeded {action : Action r} {s : Session b} (h : Tracks action s)
    (hopen : s.coordinator.outcome = none) {signal : Signal}
    (hcurrent : s.coordinator.isCurrent signal = true)
    (hheeded : s.phase.heeds signal.notification = true) :
    (s.dispatch signal).phase.rank < s.phase.rank := by
  have hwatched : signal.leg ∈ s.phase.watched.map Slot.id := by
    rw [← h.watched, Coordinator.watchedIds, List.mem_map]
    simp only [Coordinator.isCurrent, List.any_eq_true, decide_eq_true_eq] at hcurrent
    obtain ⟨watch, hmem, -, hleg⟩ := hcurrent
    exact ⟨watch, hmem, hleg⟩
  rw [dispatch, if_neg (by simp [Coordinator.isCompleted, hopen, hcurrent])]
  split
  next state hnotification => exact rank_hearState_of_heeded hwatched (hnotification ▸ hheeded)
  next event hnotification => exact rank_hearEvent_of_heeded hwatched (hnotification ▸ hheeded)
  next hstate hevent =>
    obtain ⟨leg, epoch, notification⟩ := signal
    have hphase := h.phase_ne_recorder
    cases notification <;> cases hp : s.phase <;>
      simp_all [Phase.heeds, Notification.holdExit?, Notification.resumeExit?,
        Notification.endsRollback]

/-! ## Public turns -/

theorem Tracks.turn {action : Action r} {s : Session b} (h : Tracks action s) {turn : Turn b}
    (hpublic : turn.Public) : Tracks action (s.turn turn) := by
  cases turn with
  | elsewhere other operation => exact h.of_coordinator_eq rfl
  | stir memory effects => exact h.of_coordinator_eq rfl
  | perform operation =>
    rcases hpublic with rfl | hpublic
    · cases performs s .pop with
      | acts hacts _ _ => exact h.acts hacts
    · exact h.perform hpublic

theorem Tracks.run {action : Action r} {s : Session b} (h : Tracks action s)
    {turns : List (Turn b)} (allPublic : ∀ turn ∈ turns, turn.Public) :
    Tracks action (s.run turns) :=
  run_induction h (fun _ _ ht hpublic => ht.turn hpublic) allPublic

/-! ## Working through the mailbox -/

/-- The signals that `processPending` hears, each with the number of registrations made by then. -/
def pending (s : Session b) : List (Signal × Nat) :=
  if s.coordinator.isCompleted then []
  else
    match _ : s.pop with
    | none => []
    | some (signal, t) => (signal, t.coordinator.issued) :: (t.dispatch signal).pending
termination_by s.workload
decreasing_by exact workload_dispatch_lt ‹_›

theorem pending_of_completed {s : Session b} (h : s.coordinator.isCompleted = true) :
    s.pending = [] := by
  rw [pending, if_pos h]

theorem pending_of_pop_eq_none {s : Session b} (h : s.pop = none) : s.pending = [] := by
  rw [pending]
  split
  · rfl
  · split
    · rfl
    · next hsome => cases h.symm.trans hsome

theorem pending_of_pop_eq_some {s t : Session b} {signal : Signal}
    (hopen : s.coordinator.isCompleted ≠ true) (hpop : s.pop = some (signal, t)) :
    s.pending = (signal, t.coordinator.issued) :: (t.dispatch signal).pending := by
  rw [pending, if_neg hopen]
  split
  · next hnone => cases hpop.symm.trans hnone
  · next hsome =>
    cases hpop.symm.trans hsome
    rfl

/-- The count that `processPending` answers with is the number of signals it hears. -/
theorem fst_processPending (s : Session b) : s.processPending.1 = s.pending.length := by
  fun_induction pending s with
  | case1 s hdone => rw [processPending_of_completed hdone, List.length_nil]
  | case2 s hdone hnone => rw [processPending_of_pop_eq_none hnone, List.length_nil]
  | case3 s hdone signal t hsome ih =>
    rw [List.length_cons, ← ih, processPending_of_pop_eq_some hdone hsome]

/-- `serve` hears what `processPending` hears. -/
theorem serve_eq (s : Session b) :
    s.serve = (s.processPending.2.coordinator.outcome, s.processPending.2) := by
  fun_induction serve s with
  | case1 s success hdone =>
    rw [processPending_of_completed (by simp [Coordinator.isCompleted, hdone]), hdone]
  | case2 s hdone hnone => rw [processPending_of_pop_eq_none hnone, hdone]
  | case3 s hdone signal t hsome ih =>
    rw [processPending_of_pop (by simp [Coordinator.isCompleted, hdone]) hsome]
    exact ih

theorem run_hearing_pending (s : Session b) :
    s.run (hearing (s.pending.map Prod.fst)) = s.processPending.2 := by
  fun_induction pending s with
  | case1 s hdone => rw [processPending_of_completed hdone]; rfl
  | case2 s hdone hnone => rw [processPending_of_pop_eq_none hnone]; rfl
  | case3 s hdone signal t hsome ih =>
    rw [processPending_of_pop hdone hsome, ← ih, List.map_cons, run_hearing_cons hsome]

end Session

end CallCoordination
