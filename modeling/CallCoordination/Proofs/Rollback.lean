import CallCoordination.Proofs.Session.Attempt
import CallCoordination.Proofs.Session.Epochs
import CallCoordination.Proofs.Tracking

/-!
# A rollback starts afresh

The leg that a swap rolls back was observed before, and what it sent then may still be under way
when the rollback begins. It is registered anew for the rollback, under an epoch that nothing sent
before can have. So the rollback is ended by what comes through this registration, and by nothing
else.
-/

namespace CallCoordination

variable {r : Roster} {b : Behaviour r}

/-- A turn that hears the signal if the coordinator listens to it: the signal is dispatched, or it
is in the mailbox that is worked through. -/
def Turn.MayHear (s : Session b) (signal : Signal) : Turn b → Prop
  | perform (.dispatch heard) => heard = signal
  | perform .process | perform .serve => signal ∈ s.mailbox
  | _ => False

/-- A signal that ends the rollback of a leg, if it was sent through the registration made for it. -/
structure Signal.EndsRollback (signal : Signal) (held : Leg.Id) (epoch : Nat) : Prop where
  leg : signal.leg = held
  epoch : signal.epoch = epoch
  verdict : signal.notification.endsRollback = true

namespace Session

/-! ## Entering the rollback -/

theorem world_enter_rollingBack (s : Session b) (held : Slot r) :
    (s.enter (.rollingBack held)).world = (s.watchExactly []).world.ask held
      (.register ⟨s.coordinator.observer, s.coordinator.issued + 1⟩) := by
  have hunwatched : held.id ∉ (s.watchExactly []).coordinator.watchedIds := by
    simp [Coordinator.watchedIds]
  have hnothing : ((s.watchExactly []).release [held.id]).world = (s.watchExactly []).world := by
    rw [release, watches_watchExactly_nil]
    rfl
  have henter : (s.enter (.rollingBack held)).world =
      ((s.watchExactly []).watchExactly [held]).world := rfl
  rw [henter, world_watchExactly hunwatched, hnothing, (tidy_watchExactly s []).observer]
  rfl

theorem eq_of_phase_rollBack {s : Session b} {held back : Slot r} {cause : Failure}
    (h : (s.rollBack held cause).phase = .rollingBack back) : back = held := by
  unfold rollBack at h
  dsimp only at h
  split at h
  · cases h
    rfl
  · rw [phase_finish] at h
    cases h

/-- Hearing begins a rollback in one way only. -/
theorem Hears.of_rollingBack {s t : Session b} (h : Hears s t) {back : Slot r}
    (hback : t.phase = .rollingBack back) :
    t = s ∨ s.phase ≠ .done ∧ ∃ cause, t = s.rollBack back cause := by
  cases h with
  | nothing => exact .inl rfl
  | notes hphase _ => exact absurd (hphase.symm.trans hback) (by simp)
  | @holdSettled hold next hphase =>
    cases next with
    | answer leg video => exact absurd (phase_finish _ true ▸ hback) (by simp)
    | place leg call pending => exact absurd (phase_place s leg call pending ▸ hback) (by simp)
    | resume leg =>
      simp only [Session.holdSettled] at hback ⊢
      split at hback
      · cases hback
      · exact absurd (phase_finish _ true ▸ hback) (by simp)
      · obtain rfl := eq_of_phase_rollBack hback
        exact .inr ⟨by simp [hphase], .peerDisconnected leg.id, rfl⟩
  | holdFailed _ => exact absurd (phase_holdFailed s _ _ ▸ hback) (by simp)
  | resumed _ => exact absurd (phase_finish s true ▸ hback) (by simp)
  | @resumeFailed held resume cause hphase _ =>
    obtain rfl := eq_of_phase_rollBack hback
    exact .inr ⟨by simp [hphase], cause, rfl⟩
  | rolledBack _ => exact absurd (phase_finish s false ▸ hback) (by simp)

/-- A swap that starts with a settled hold may begin its rollback at once. -/
theorem start_of_rollingBack {s : Session b} {back : Slot r}
    (hback : s.start.2.phase = .rollingBack back) :
    s.start.2 = s ∨ ∃ (m : Session b) (cause : Failure), Acts s m ∧ m.phase ≠ .done ∧
      s.start.2 = m.rollBack back cause := by
  by_cases hidle : ∃ action, s.phase = .idle action
  · obtain ⟨action, hidle⟩ := hidle
    rcases start_of_idle hidle with ⟨next, hnext, hstart⟩ | ⟨cause, hstart⟩
    · rw [hstart, awaitHold] at hback ⊢
      split at hback
      · next hsettled =>
        let m : Session b := ({ s with world := action.entry s.world } : Session b).enter
          (.awaitingHold action.hold next)
        have hfollows : s.phase.Follows (.awaitingHold action.hold next) :=
          hidle ▸ .hold action hnext
        have hentered : Acts s m := by
          cases action with
          | answer hold leg video => exact .one (.enter hfollows)
          | swap hold leg => exact .one (.enter hfollows)
          | dial hold leg call => exact .step (.dial s leg _ _) (.one (.enter hfollows))
        have hears : Hears m (m.holdSettled action.hold next) := .holdSettled rfl
        rw [if_pos hsettled]
        rcases hears.of_rollingBack hback with hsame | ⟨hopen, cause, hrolled⟩
        · rw [hsame] at hback
          cases hback
        · exact .inr ⟨m, cause, hentered, hopen, hrolled⟩
      · cases hback
    · rw [hstart, phase_finish] at hback
      cases hback
  · exact .inl (start_eq_self fun action haction => hidle ⟨action, haction⟩)

/-! ## Rolling back -/

/-- A rollback under way in a world that goes back to `w`: a failure is recorded, and the leg is
under watch through a registration later than all that the world knew before it was made. -/
structure RollsBack (w : World b) (s : Session b) (held : Slot r) (epoch : Nat) (cause : Failure) :
    Prop where
  phase : s.phase = .rollingBack held
  expects : s.Expects held epoch
  failure : s.coordinator.failure = some cause
  begun : ∃ m : World b, World.Leads w m ∧
    (∀ earlier ∈ m.epochs s.coordinator.observer, earlier < epoch) ∧
    World.Leads ((m.ask held (.register ⟨s.coordinator.observer, epoch⟩)).ask held .resume) s.world

theorem RollsBack.of_same {w : World b} {s t : Session b} {held : Slot r} {epoch : Nat}
    {cause : Failure} (h : RollsBack w s held epoch cause) (hphase : t.phase = s.phase)
    (hwatches : t.coordinator.watches = s.coordinator.watches)
    (hissued : t.coordinator.issued = s.coordinator.issued)
    (houtcome : t.coordinator.outcome = s.coordinator.outcome)
    (hfailure : t.coordinator.failure = s.coordinator.failure)
    (hobserver : t.coordinator.observer = s.coordinator.observer)
    (hleads : World.Leads s.world t.world) : RollsBack w t held epoch cause := by
  obtain ⟨m, hbefore, hearlier, hafter⟩ := h.begun
  refine ⟨hphase.trans h.phase, ⟨⟨?_, ?_⟩, houtcome.trans h.expects.undecided⟩,
    hfailure.trans h.failure, m, hbefore, ?_, ?_⟩
  · exact hwatches.trans h.expects.watches.1
  · exact hissued.trans h.expects.watches.2
  · rwa [hobserver]
  · rw [hobserver]
    exact hafter.trans hleads

theorem RollsBack.of_leads {w : World b} {s : Session b} {held : Slot r} {epoch : Nat}
    {cause : Failure} (h : RollsBack w s held epoch cause) {w' : World b}
    (hleads : World.Leads s.world w') : RollsBack w { s with world := w' } held epoch cause :=
  h.of_same rfl rfl rfl rfl rfl rfl hleads

theorem rollsBack_enter {w : World b} {s : Session b} (hopen : s.coordinator.outcome = none)
    {cause : Failure} (hfailure : s.coordinator.failure = some cause)
    (hleads : World.Leads w s.world) (hnumbered : s.Numbered) (held : Slot r) :
    RollsBack w ((s.enter (.rollingBack held)).ask held .resume) held
      (s.coordinator.issued + 1) cause := by
  have hobserver : (s.enter (.rollingBack held)).coordinator.observer = s.coordinator.observer :=
    (tidy_enter s _).observer
  have hexpects : (s.enter (.rollingBack held)).Expects held (s.coordinator.issued + 1) :=
    expects_rollingBack held hopen
  have hentered : (s.enter (.rollingBack held)).coordinator.failure = some cause :=
    (failure_enter s _).trans hfailure
  refine ⟨rfl, hexpects.of_coordinator_eq rfl, hentered, (s.watchExactly []).world, ?_, ?_, ?_⟩
  · exact hleads.trans (moves_watchExactly s []).leads
  · intro earlier hmem
    change earlier ∈ (s.watchExactly []).world.epochs
      (s.enter (.rollingBack held)).coordinator.observer at hmem
    rw [hobserver, ← (tidy_watchExactly s []).observer] at hmem
    have hle : earlier ≤ s.coordinator.issued := hnumbered.watchExactly [] earlier hmem
    omega
  · change World.Leads (((s.watchExactly []).world.ask held (.register
      ⟨(s.enter (.rollingBack held)).coordinator.observer, s.coordinator.issued + 1⟩)).ask held
        .resume) ((s.enter (.rollingBack held)).world.ask held .resume)
    rw [hobserver, world_enter_rollingBack]

theorem rollsBack_rollBack {w : World b} {s : Session b} (hopen : s.coordinator.outcome = none)
    (hleads : World.Leads w s.world) (hnumbered : s.Numbered) {held : Slot r} {cause : Failure}
    (hback : (s.rollBack held cause).phase = .rollingBack held) :
    ∃ epoch first, RollsBack w (s.rollBack held cause) held epoch first := by
  unfold rollBack at hback ⊢
  dsimp only at hback ⊢
  split at hback
  · next hresumes =>
    obtain ⟨first, hfirst⟩ : ∃ first,
        (s.recordFailure cause).coordinator.failure = some first := by
      cases hf : s.coordinator.failure with
      | none => exact ⟨cause, failure_recordFailure_of_none hf cause⟩
      | some first => exact ⟨first, failure_recordFailure hf cause⟩
    have hrecorded : (s.recordFailure cause).Numbered := hnumbered.of_epochs_eq rfl rfl rfl
    rw [if_pos hresumes]
    exact ⟨_, first,
      rollsBack_enter (s := s.recordFailure cause) hopen hfirst hleads hrecorded held⟩
  · rw [phase_finish] at hback
    cases hback

/-! ## Genuine runs of a swap -/

/-- Between operations of a genuine run in a world that goes back to `w`. -/
structure Sequel (action : Action r) (observer : Observer) (w : World b) (s : Session b) :
    Prop where
  tracks : Tracks action s
  observer : s.coordinator.observer = observer
  numbered : s.Numbered
  leads : World.Leads w s.world

theorem Sequel.acts {action : Action r} {observer : Observer} {w : World b} {s t : Session b}
    (h : Sequel action observer w s) (hacts : Acts s t) : Sequel action observer w t where
  tracks := h.tracks.acts hacts
  observer := hacts.tidy.observer.trans h.observer
  numbered := h.numbered.acts hacts
  leads := h.leads.trans hacts.moves.leads

/-- And if the phase is that of a rollback, one is under way. -/
structure Orderly (action : Action r) (observer : Observer) (w : World b) (s : Session b) : Prop
    extends Sequel action observer w s where
  rolling : ∀ back, s.phase = .rollingBack back →
    ∃ epoch cause, RollsBack w s back epoch cause

theorem Orderly.turn {action : Action r} {observer : Observer} {w : World b} {s : Session b}
    (h : Orderly action observer w s) {turn : Turn b} (genuine : turn.Genuine s) :
    Orderly action observer w (s.turn turn) := by
  refine genuine_turn_preserves (P := Orderly action observer w) ?_ ?_ ?_ ?_ h genuine
  · intro s h
    refine ⟨h.acts (acts_start s), fun back hback => ?_⟩
    rcases start_of_rollingBack hback with hsame | ⟨m, cause, hacts, hopen, hrolled⟩
    · rw [hsame] at hback ⊢
      exact h.rolling back hback
    · have hm := h.toSequel.acts hacts
      rw [hrolled] at hback ⊢
      exact rollsBack_rollBack (hm.tracks.undecided hopen) hm.leads hm.numbered hback
  · intro s t h hears
    refine ⟨h.acts hears.acts, fun back hback => ?_⟩
    rcases hears.of_rollingBack hback with rfl | ⟨hopen, cause, rfl⟩
    · exact h.rolling back hback
    · exact rollsBack_rollBack (h.tracks.undecided hopen) h.leads h.numbered hback
  · intro s w' h hleads hepochs
    refine ⟨⟨h.tracks.of_coordinator_eq rfl, h.observer, ?_, h.leads.trans hleads⟩, ?_⟩
    · exact h.numbered.of_epochs_eq rfl rfl hepochs
    · intro back hback
      obtain ⟨epoch, cause, hrolls⟩ := h.rolling back hback
      exact ⟨epoch, cause, hrolls.of_leads hleads⟩
  · intro s listeners handler h
    refine ⟨⟨h.tracks.of_same rfl rfl rfl rfl, h.observer, ?_, h.leads⟩, fun back hback => ?_⟩
    · exact h.numbered.of_epochs_eq rfl rfl rfl
    · obtain ⟨epoch, cause, hrolls⟩ := h.rolling back hback
      exact ⟨epoch, cause, hrolls.of_same rfl rfl rfl rfl rfl rfl .refl⟩

theorem orderly_opened (action : Action r) (policy : Policy) (handler : Option FaultHandler)
    {observer : Observer} {w : World b} (unknown : w.Unknown observer) :
    Orderly action observer w (opened (.action action policy handler) observer w) := by
  refine ⟨⟨.opened action policy handler observer w, ?_, ?_, .refl⟩, ?_⟩
  · cases action <;> rfl
  · intro epoch hmem
    cases action <;> exact absurd (unknown.unmentioned ▸ hmem) List.not_mem_nil
  · intro back hback
    cases action <;> cases hback

/-! ## Leaving the rollback -/

/-- How a rollback ends: the swap has failed for the reason that was recorded before. -/
structure FailedFor (cause : Failure) (s : Session b) : Prop where
  phase : s.phase = .done
  outcome : s.coordinator.outcome = some false
  failure : s.coordinator.failure = some cause

section Leaving

variable {w : World b} {s t u : Session b} {held : Slot r} {epoch : Nat} {cause : Failure}

namespace RollsBack

theorem failedFor (h : RollsBack w s held epoch cause) : FailedFor cause (s.finish false) where
  phase := phase_finish s false
  outcome := outcome_finish h.expects.undecided false
  failure := (failure_finish s false).trans h.failure

theorem dispatch_eq_self (h : RollsBack w s held epoch cause) {signal : Signal}
    (hother : signal.epoch ≠ epoch) : s.dispatch signal = s := by
  have hvia : signal.via held.id epoch = none := if_neg fun hc => hother hc.2
  rw [dispatch_rollingBack h.phase h.expects, hvia]
  rfl

theorem dispatch (h : RollsBack w s held epoch cause) (signal : Signal) :
    s.dispatch signal = s ∨
      FailedFor cause (s.dispatch signal) ∧ signal.EndsRollback held.id epoch := by
  rw [dispatch_rollingBack h.phase h.expects]
  by_cases hvia : signal.leg = held.id ∧ signal.epoch = epoch
  · rw [Signal.via, if_pos hvia, Option.any_some]
    split
    · next hends => exact .inr ⟨h.failedFor, hvia.1, hvia.2, hends⟩
    · exact .inl rfl
  · rw [Signal.via, if_neg hvia]
    exact .inl rfl

theorem pop (h : RollsBack w s held epoch cause) {signal : Signal}
    (hpop : s.pop = some (signal, t)) : RollsBack w t held epoch cause := by
  rw [pop_eq hpop]
  exact h.of_leads (moves_pop hpop).leads

end RollsBack

/-- What becomes of a rollback while the mailbox of `s` is worked through: it goes on and nothing
new comes in, or it has ended with a signal that was there from the beginning. -/
inductive Unfolds (w : World b) (s : Session b) (held : Slot r) (epoch : Nat) (cause : Failure)
    (t : Session b) : Prop
  | rolling (h : RollsBack w t held epoch cause) (hmailbox : t.mailbox ⊆ s.mailbox)
  | ended (h : FailedFor cause t) {signal : Signal} (hmem : signal ∈ s.mailbox)
      (hends : signal.EndsRollback held.id epoch)

theorem Unfolds.dispatch {signal : Signal} (h : Unfolds w s held epoch cause t)
    (hpop : t.pop = some (signal, u)) : Unfolds w s held epoch cause (u.dispatch signal) := by
  obtain ⟨hc, hmailbox⟩ := pop_eq_some hpop
  cases h with
  | rolling hrolls hsub =>
    have hpopped : RollsBack w u held epoch cause := hrolls.pop hpop
    rw [hmailbox, List.cons_subset] at hsub
    rcases hpopped.dispatch signal with hsame | ⟨hfailed, hends⟩
    · rw [hsame]
      exact .rolling hpopped hsub.2
    · exact .ended hfailed hsub.1 hends
  | ended hfailed hmem hends =>
    have hdecided : u.coordinator.outcome ≠ none := by simp [hc, hfailed.outcome]
    have hphase : u.phase = t.phase := congrArg (·.phase) hc
    rw [dispatch_of_decided hdecided]
    exact .ended ⟨hphase.trans hfailed.phase, hc ▸ hfailed.outcome, hc ▸ hfailed.failure⟩ hmem hends

namespace RollsBack

theorem drain (h : RollsBack w s held epoch cause) {operation : Operation r}
    (hdrain : operation = .process ∨ operation = .serve) :
    Unfolds w s held epoch cause (s.perform operation).2 := by
  have hnow : Unfolds w s held epoch cause s := .rolling h fun _ => id
  rcases hdrain with rfl | rfl
  · exact processPending_preserves (fun _ _ _ ht hpop => ht.dispatch hpop) hnow
  · exact serve_preserves (fun _ _ _ ht hpop => ht.dispatch hpop) hnow

theorem turn_of_drain (h : RollsBack w s held epoch cause) {operation : Operation r}
    (hdrain : operation = .process ∨ operation = .serve) :
    RollsBack w (s.turn (.perform operation)) held epoch cause ∨
      FailedFor cause (s.turn (.perform operation)) ∧ ∃ signal,
        (Turn.perform operation : Turn b).MayHear s signal ∧
          signal.EndsRollback held.id epoch := by
  cases h.drain hdrain with
  | rolling hrolls _ => exact .inl hrolls
  | @ended hfailed signal hmem hends =>
    refine .inr ⟨hfailed, signal, ?_, hends⟩
    rcases hdrain with rfl | rfl
    · exact hmem
    · exact hmem

theorem turn (h : RollsBack w s held epoch cause) {turn : Turn b} (genuine : turn.Genuine s) :
    RollsBack w (s.turn turn) held epoch cause ∨ FailedFor cause (s.turn turn) ∧
      ∃ signal, turn.MayHear s signal ∧ signal.EndsRollback held.id epoch := by
  cases turn with
  | elsewhere other operation =>
    have hleads := (moves_perform ⟨other, s.world⟩ operation).leads
    exact .inl (h.of_leads hleads)
  | stir memory effects =>
    exact .inl (h.of_leads (.single (.stir s.world memory effects)))
  | perform operation =>
    cases operation with
    | start =>
      have hsame : s.turn (.perform .start) = s := start_eq_self fun action => by simp [h.phase]
      rw [hsame]
      exact .inl h
    | dispatch signal =>
      rcases h.dispatch signal with hsame | ⟨hfailed, hends⟩
      · have hkept : s.turn (.perform (.dispatch signal)) = s := hsame
        rw [hkept]
        exact .inl h
      · exact .inr ⟨hfailed, signal, rfl, hends⟩
    | process => exact h.turn_of_drain (.inl rfl)
    | serve => exact h.turn_of_drain (.inr rfl)
    | pop =>
      simp only [Session.turn, perform]
      split
      · exact .inl h
      · next signal t hpop => exact .inl (h.pop hpop)
    | addListener _ | removeListener _ | setHandler _ =>
      exact .inl (h.of_same rfl rfl rfl rfl rfl rfl .refl)
    | hearState _ _ | hearEvent _ _ => exact absurd genuine id
    | watchExactly _ | rewatch _ | complete _ | recordFailure _ =>
      simp [Turn.Genuine, Operation.isPublic] at genuine

end RollsBack

end Leaving

end Session

/-- A swap that hears nothing but signals sent through its own registrations, whatever legs and
other coordinators do: once it rolls back its leg, what was in its mailbox before the leg was
registered for that, and what comes through earlier registrations at any time, has no effect at
all. It rolls back until it hears through the new registration that the leg is active or gone or
cannot be resumed, and has then failed for the reason that was recorded before. To work through the
mailbox is to hear one signal after the other, so the same holds at each moment in between. -/
theorem rollback_starts_afresh (hold leg : Slot r) (policy : Policy)
    (handler : Option FaultHandler) (observer : Observer) (w : World b)
    (unknown : w.Unknown observer) (turns : List (Turn b))
    (genuine : (Session.opened (.action (.swap hold leg) policy handler) observer w).Genuine turns) :
    let s := (Session.opened (.action (.swap hold leg) policy handler) observer w).run turns
    (∀ operation, operation = .process ∨ operation = .serve →
      ∃ signals, s.Genuine (Session.hearing signals) ∧
        s.run (Session.hearing signals) = (s.perform operation).2) ∧
    ∀ back, s.phase = .rollingBack back → back = hold ∧
      ∃ epoch cause, Session.RollsBack w s hold epoch cause ∧
        (∀ before, World.Leads w before → epoch ∉ before.epochs observer →
          ∀ signal ∈ before.mailbox observer, s.dispatch signal = s) ∧
        (∀ signal, signal.epoch ≠ epoch → s.dispatch signal = s) ∧
        ∀ turn, turn.Genuine s → Session.RollsBack w (s.turn turn) hold epoch cause ∨
          Session.FailedFor cause (s.turn turn) ∧
            ∃ signal, turn.MayHear s signal ∧ signal.EndsRollback hold.id epoch := by
  intro s
  have hs : Session.Orderly (.swap hold leg) observer w s :=
    Session.genuine_run_preserves (fun _ _ h => h.turn)
      (Session.orderly_opened (.swap hold leg) policy handler unknown) genuine
  refine ⟨fun operation hdrain => ?_, fun back hback => ?_⟩
  · have haccounted := hs.leads.accounted unknown.accounted
    exact Session.exists_hearing (hs.observer.symm ▸ haccounted) hdrain
  · have hallows := hs.tracks.allows
    rw [hback] at hallows
    obtain ⟨other, hswap⟩ := hallows
    obtain ⟨rfl, -⟩ : hold = back ∧ leg = other := by simpa using hswap
    obtain ⟨epoch, cause, hrolls⟩ := hs.rolling hold hback
    refine ⟨rfl, epoch, cause, hrolls, ?_, fun _ => hrolls.dispatch_eq_self, fun _ => hrolls.turn⟩
    intro before hleads hnew signal hmem
    have hold' := (hleads.accounted unknown.accounted).mailed signal hmem
    exact hrolls.dispatch_eq_self fun he => hnew (he ▸ hold')

/-- A leg that keeps the registration it was asked to drop: what it sent through that before the
rollback is still to be read, and it sends more. -/
theorem rollback_starts_afresh_of_sticky :
    let w : World (Script.behaviour (r := [⟨"a"⟩, ⟨"c"⟩]) {}) :=
      .fresh #v[{ state := .active, sticky := true }, { state := .disconnected }] ()
    let turns : List (Turn (Script.behaviour (r := [⟨"a"⟩, ⟨"c"⟩]) {})) :=
      [.perform .start,
        .stir () [.changeState 0 .holding, .changeState 0 .active, .changeState 0 .holding],
        .perform .pop, .perform (.dispatch ⟨⟨"a"⟩, 1, .stateChanged .holding⟩),
        .stir () [.send 0 0 none (.connectionEvent .resumeFailed)]]
    let start := Session.opened (.action (.swap 0 1) {} none) ⟨0⟩ w
    w.Unknown ⟨0⟩ ∧ start.Genuine turns ∧ (start.run turns).phase = .rollingBack 0 ∧
      (start.run turns).mailbox = [⟨⟨"a"⟩, 1, .stateChanged .active⟩,
        ⟨⟨"a"⟩, 1, .stateChanged .holding⟩, ⟨⟨"a"⟩, 1, .connectionEvent .resumeFailed⟩] ∧
      ∀ signal ∈ (start.run turns).mailbox, (start.run turns).dispatch signal = start.run turns := by
  intro w turns start
  have unknown : w.Unknown ⟨0⟩ := ⟨by decide, rfl, rfl⟩
  have genuine : start.Genuine turns := by
    simp only [turns, Session.Genuine, Turn.Genuine, Operation.isPublic, reduceCtorEq, or_true,
      true_or, and_true, true_and]
    decide
  have hphase : (start.run turns).phase = .rollingBack 0 := by decide
  have hissued : (start.run turns).coordinator.issued = 2 := by decide
  have hmailbox : (start.run turns).mailbox = [⟨⟨"a"⟩, 1, .stateChanged .active⟩,
      ⟨⟨"a"⟩, 1, .stateChanged .holding⟩, ⟨⟨"a"⟩, 1, .connectionEvent .resumeFailed⟩] := by
    decide
  obtain ⟨-, hback⟩ := rollback_starts_afresh 0 1 {} none ⟨0⟩ w unknown turns genuine
  obtain ⟨-, epoch, cause, hrolls, -, hother, -⟩ := hback 0 hphase
  refine ⟨unknown, genuine, hphase, hmailbox, ?_⟩
  generalize start.run turns = s at *
  have hlast : s.coordinator.issued = epoch := hrolls.expects.watches.2
  intro signal hmem
  refine hother signal ?_
  rw [hmailbox] at hmem
  have hold : signal.epoch = 1 := by
    revert signal
    decide
  omega

end CallCoordination
