import CallCoordination.Proofs.Announcement
import CallCoordination.Proofs.Session.Tidy

/-!
# Registrations follow the phase

What a coordinator observes can be read off its phase alone: nothing before it starts and after it
is done, and in between the one leg that the phase waits for. Its legs hold exactly the
registrations that belong to it, so none is left when the listeners hear of the outcome.
-/

namespace CallCoordination

variable {r : Roster} {b : Behaviour r}

namespace Action

def Allows (action : Action r) : Phase r → Prop
  | .idle a => a = action
  | .awaitingHold hold next => hold = action.hold ∧ action.Leaves next
  | .awaitingResume held resume => action = .swap held resume
  | .rollingBack resume => ∃ leg, action = .swap resume leg
  | .done => True
  | .plain | .recorder => False

/-- The legs to be observed, said in terms of the action. -/
def tracked (action : Action r) : Phase r → List (Slot r)
  | .awaitingHold _ _ | .rollingBack _ => [action.hold]
  | .awaitingResume _ _ => [action.other]
  | _ => []

theorem allows_of_follows {action : Action r} {phase next : Phase r} (h : phase.Follows next)
    (ha : action.Allows phase) : action.Allows next := by
  cases h with
  | hold a hnext =>
    obtain rfl : a = action := ha
    exact ⟨rfl, hnext⟩
  | resume hold leg =>
    obtain ⟨rfl, hnext⟩ := ha
    cases action <;> simp_all [Leaves, Allows, Action.hold]
  | giveUp hold leg =>
    obtain ⟨rfl, hnext⟩ := ha
    cases action <;> simp_all [Leaves, Allows, Action.hold]
  | rollBack held leg => exact ⟨leg, ha⟩

theorem watched_of_allows {action : Action r} {phase : Phase r} (h : action.Allows phase) :
    phase.watched = action.tracked phase := by
  cases phase with
  | awaitingHold hold next => rw [Phase.watched, tracked, h.1]
  | awaitingResume held resume =>
    obtain rfl := h
    rfl
  | rollingBack resume =>
    obtain ⟨leg, rfl⟩ := h
    rfl
  | idle _ | done | plain | recorder => rfl

end Action

namespace Phase

theorem ne_done_of_follows {phase next : Phase r} (h : phase.Follows next) :
    phase ≠ done ∧ next ≠ done := by
  cases h <;> exact ⟨nofun, nofun⟩

theorem nodup_watched (phase : Phase r) : (phase.watched.map Slot.id).Nodup := by
  cases phase <;> simp [watched]

end Phase

namespace Session

/-- Between operations: the phase belongs to the action, exactly its legs are watched, and it is
the last one exactly when the outcome is known. -/
structure Tracks (action : Action r) (s : Session b) : Prop where
  allows : action.Allows s.phase
  watched : s.coordinator.watchedIds = s.phase.watched.map Slot.id
  done_iff : s.phase = .done ↔ s.coordinator.outcome ≠ none
  completed : s.coordinator.outcome ≠ none ↔ s.coordinator.completedAt ≠ none

namespace Tracks

variable {action : Action r} {s t : Session b}

theorem nodup (h : Tracks action s) : s.coordinator.watchedIds.Nodup := by
  rw [h.watched]
  exact s.phase.nodup_watched

theorem undecided (h : Tracks action s) (hphase : s.phase ≠ .done) :
    s.coordinator.outcome = none := by
  by_contra hne
  exact hphase (h.done_iff.mpr hne)

theorem phase_ne_recorder (h : Tracks action s) : s.phase ≠ .recorder := by
  intro hphase
  have hallows := h.allows
  rw [hphase] at hallows
  exact hallows

theorem of_same (h : Tracks action s) (hphase : t.phase = s.phase)
    (hwatches : t.coordinator.watches = s.coordinator.watches)
    (houtcome : t.coordinator.outcome = s.coordinator.outcome)
    (hcompleted : t.coordinator.completedAt = s.coordinator.completedAt) : Tracks action t where
  allows := hphase ▸ h.allows
  watched := by
    rw [hphase, ← h.watched, Coordinator.watchedIds, hwatches, Coordinator.watchedIds]
  done_iff := by rw [hphase, houtcome, h.done_iff]
  completed := by rw [houtcome, hcompleted, h.completed]

theorem of_coordinator_eq (h : Tracks action s) (hc : t.coordinator = s.coordinator) :
    Tracks action t :=
  h.of_same (by rw [phase, hc]; rfl) (by rw [hc]) (by rw [hc]) (by rw [hc])

theorem enter (h : Tracks action s) {phase : Phase r} (hf : s.phase.Follows phase) :
    Tracks action (s.enter phase) where
  allows := Action.allows_of_follows hf h.allows
  watched := watchedIds_enter h.nodup phase
  done_iff := by
    obtain ⟨hs, hp⟩ := Phase.ne_done_of_follows hf
    rw [outcome_enter, ← h.done_iff]
    exact ⟨fun hdone => absurd hdone hp, fun hdone => absurd hdone hs⟩
  completed := by rw [outcome_enter, completedAt_enter, h.completed]

theorem finish (h : Tracks action s) (success : Bool) : Tracks action (s.finish success) := by
  have hdone : (s.finish success).phase = .done := phase_finish s success
  have hne : (s.finish success).coordinator.outcome ≠ none :=
    outcome_complete_ne_none (s.enter .done) success
  have hwatched : (s.enter .done).coordinator.watchedIds = [] := watchedIds_enter h.nodup .done
  refine ⟨by rw [hdone]; trivial, ?_, by simp [hdone, hne], ?_⟩
  · rw [hdone, Session.finish, complete]
    split
    · exact hwatched
    · exact congrArg _ (watches_watchExactly_nil (s.enter .done))
  · refine ⟨fun _ => ?_, fun _ => hne⟩
    rw [Session.finish, complete]
    split
    · next outcome hsome =>
      rw [completedAt_enter, ← h.completed, ← outcome_enter s .done, hsome]
      simp
    · simp [tellListeners, settle]

theorem step (h : Tracks action s) (hstep : Step s t) : Tracks action t := by
  cases hstep with
  | begin hidle hnext =>
    have hf : s.phase.Follows (.awaitingHold _ _) := hidle ▸ Phase.Follows.hold _ hnext
    exact (h.enter hf).of_coordinator_eq rfl
  | enter hf => exact h.enter hf
  | ask | dial | noteState | noteEvent => exact h.of_coordinator_eq rfl
  | report slot fault => exact h.of_coordinator_eq (coordinator_reportFault s slot fault)
  | fail failure => exact h.of_same rfl rfl rfl rfl
  | pop hpop => exact h.of_coordinator_eq (pop_eq_some hpop).1

theorem acts (h : Tracks action s) (hacts : Acts s t) : Tracks action t := by
  induction hacts with
  | nothing s => exact h
  | finish s success => exact h.finish success
  | step hstep _ ih => exact ih (h.step hstep)

theorem perform (h : Tracks action s) {operation : Operation r}
    (hpublic : operation.isPublic = true) : Tracks action (s.perform operation).2 := by
  cases performs s operation with
  | acts hacts _ _ => exact h.acts hacts
  | addListener _ | removeListener _ | setHandler _ => exact h.of_same rfl rfl rfl rfl
  | watchExactly _ | rewatch _ | complete _ => simp [Operation.isPublic] at hpublic

theorem opened (action : Action r) (policy : Policy) (handler : Option FaultHandler)
    (observer : Observer) (w : World b) :
    Tracks action (opened (.action action policy handler) observer w) := by
  cases action <;> exact ⟨rfl, rfl, ⟨nofun, nofun⟩, ⟨nofun, nofun⟩⟩

end Tracks

/-! ## Runs -/

end Session

/-- A turn of a call manager: public operations here, and coordinators of other observers
elsewhere. -/
def Turn.Fair (observer : Observer) : Turn b → Prop
  | perform operation => operation.isPublic = true
  | elsewhere other _ => other.observer ≠ observer
  | stir _ _ => True

namespace Session

structure Sound (action : Action r) (observer : Observer) (s : Session b) : Prop where
  observer : s.coordinator.observer = observer
  loyal : s.world.Loyal
  mirrored : s.Mirrored
  tracks : Tracks action s

theorem Sound.perform {action : Action r} {observer : Observer} {s : Session b}
    (h : Sound action observer s) {operation : Operation r}
    (hpublic : operation.isPublic = true) : Sound action observer (s.perform operation).2 where
  observer := (tidy_perform s operation).observer.trans h.observer
  loyal := (tidy_perform s operation).loyal h.loyal
  mirrored := (tidy_perform s operation).mirrored h.loyal h.mirrored
  tracks := h.tracks.perform hpublic

theorem Sound.turn {action : Action r} {observer : Observer} {s : Session b}
    (h : Sound action observer s) {turn : Turn b} (hfair : turn.Fair observer) :
    Sound action observer (s.turn turn) := by
  cases turn with
  | perform operation => exact h.perform hfair
  | elsewhere other operation =>
    have htidy := tidy_perform ⟨other, s.world⟩ operation
    refine ⟨h.observer, htidy.loyal h.loyal, fun slot => ?_, h.tracks.of_coordinator_eq rfl⟩
    have hne : s.coordinator.observer ≠ other.observer := by
      rw [h.observer]
      exact Ne.symm hfair
    exact (htidy.others _ hne slot).trans (h.mirrored slot)
  | stir memory effects =>
    refine ⟨h.observer, ?_, fun slot => ?_, h.tracks.of_coordinator_eq rfl⟩
    · exact fun slot => (World.sticky_stir s.world memory effects slot).trans (h.loyal slot)
    · exact (World.registrationsOf_stir s.world memory effects _ slot).trans (h.mirrored slot)

theorem sound_run (action : Action r) (policy : Policy) (handler : Option FaultHandler)
    (observer : Observer) {w : World b} (loyal : w.Loyal)
    (unknown : ∀ slot, w.registrationsOf observer slot = []) {turns : List (Turn b)}
    (fair : ∀ turn ∈ turns, turn.Fair observer) :
    Sound action observer ((opened (.action action policy handler) observer w).run turns) := by
  refine run_induction (P := Sound action observer) ?_ (fun s turn h hfair => h.turn hfair) fair
  refine ⟨?_, loyal, fun slot => ?_, .opened action policy handler observer w⟩
  · cases action <;> rfl
  · cases action <;> exact unknown slot

/-! ## When listeners are called -/

/-- Done, with an outcome, and observed legs are neither remembered nor registered. -/
structure AtRest (s : Session b) (success : Bool) : Prop where
  phase : s.phase = .done
  outcome : s.coordinator.outcome = some success
  completedAt : s.coordinator.completedAt ≠ none
  watches : s.coordinator.watches = []
  registrations : ∀ slot, s.world.registrationsOf s.coordinator.observer slot = []

/-- The moment at which the first `count` listeners have been told. -/
def toldFirst (s : Session b) (success : Bool) (count : Nat) : Session b :=
  { s with
    world := (s.coordinator.listeners.take count).foldl (World.tell · success ·) s.world }

theorem toldFirst_length (s : Session b) (success : Bool) :
    s.toldFirst success s.coordinator.listeners.length = s.tellListeners success := by
  rw [toldFirst, List.take_length, tellListeners]

theorem Sound.atRest {action : Action r} {observer : Observer} {s : Session b} {success : Bool}
    (h : Sound action observer s) (hsome : s.coordinator.outcome = some success) :
    AtRest s success := by
  have hne : s.coordinator.outcome ≠ none := by simp [hsome]
  have hdone : s.phase = .done := h.tracks.done_iff.mpr hne
  have hwatches : s.coordinator.watches = [] := by
    have hids := h.tracks.watched
    rw [hdone] at hids
    exact List.map_eq_nil_iff.mp hids
  refine ⟨hdone, hsome, h.tracks.completed.mp hne, hwatches, fun slot => ?_⟩
  rw [h.mirrored slot, hwatches]
  rfl

/-- Telling listeners changes neither the coordinator nor its registrations, so what holds after
the last call holds at every call. -/
theorem AtRest.toldFirst {m : Session b} {success : Bool}
    (h : AtRest (m.tellListeners success) success) (count : Nat) :
    AtRest (m.toldFirst success count) success where
  phase := h.phase
  outcome := h.outcome
  completedAt := h.completedAt
  watches := h.watches
  registrations slot := by
    have hlast := h.registrations slot
    simp only [tellListeners, World.registrationsOf_foldl_tell] at hlast
    simpa only [Session.toldFirst, World.registrationsOf_foldl_tell] using hlast

end Session

/-- After any run of public operations, whatever legs and other coordinators do: the watched ids
are those of the leg that the phase tracks, the registrations on all legs are those of the watches,
and phase, outcome and time of completion agree on whether the coordination is done. Listeners are
called at the end of an operation only, when the time of completion has been taken, and at each call
nothing is observed any more. -/
theorem registrations_follow_phase (action : Action r) (policy : Policy)
    (handler : Option FaultHandler) (observer : Observer) (w : World b) (loyal : w.Loyal)
    (unknown : ∀ slot, w.registrationsOf observer slot = []) (turns : List (Turn b))
    (fair : ∀ turn ∈ turns, turn.Fair observer) :
    let s := (Session.opened (.action action policy handler) observer w).run turns
    s.coordinator.watchedIds = (action.tracked s.phase).map Slot.id ∧
    (∀ slot, s.world.registrationsOf observer slot =
      (s.coordinator.watches.filter (·.leg = slot)).map fun watch => ⟨observer, watch.epoch⟩) ∧
    (s.phase = .done ↔ s.coordinator.outcome ≠ none) ∧
    (s.coordinator.outcome ≠ none ↔ s.coordinator.completedAt ≠ none) ∧
    ∀ operation, operation.isPublic = true →
      (s.perform operation).2.world.calls = s.world.calls ∨
      ∃ (m : Session b) (success : Bool), m.world.calls = s.world.calls ∧
        (s.perform operation).2 = m.toldFirst success m.coordinator.listeners.length ∧
        m.coordinator.observer = observer ∧ m.coordinator.completedAt = some m.world.now ∧
        ∀ count, Session.AtRest (m.toldFirst success count) success := by
  intro s
  have hs : Session.Sound action observer s :=
    Session.sound_run action policy handler observer loyal unknown fair
  refine ⟨?_, ?_, hs.tracks.done_iff, hs.tracks.completed, ?_⟩
  · rw [hs.tracks.watched, Action.watched_of_allows hs.tracks.allows]
  · have hm := hs.mirrored
    simpa only [Session.Mirrored, hs.observer] using hm
  · intro operation hpublic
    cases Session.delivers_perform s operation with
    | silent _ hcalls => exact .inl hcalls
    | @announced m success h =>
      have ht := hs.perform hpublic
      have hrest : Session.AtRest (m.tellListeners success) success :=
        h.last ▸ ht.atRest h.outcome_eq
      have hobserver : (m.tellListeners success).coordinator.observer = observer :=
        h.last ▸ ht.observer
      have hlast := h.last.trans (Session.toldFirst_length m success).symm
      exact .inr ⟨m, success, h.silent, hlast, hobserver, h.completed, hrest.toldFirst⟩

/-- A swap whose leg was put on hold, while another coordinator watches the same legs. -/
theorem registrations_follow_phase_of_swap :
    let w := World.pair .active .holding
    let turns : List (Turn (Script.behaviour (r := [⟨"a"⟩, ⟨"b"⟩]) {})) :=
      [.perform .start, .elsewhere (.ofAction (.swap 1 0) {} ⟨1⟩ ⟨0⟩) .start,
        .perform (.dispatch ⟨⟨"a"⟩, 1, .stateChanged .holding⟩)]
    let s := (Session.opened (.action (.swap 0 1) {} none) ⟨0⟩ w).run turns
    w.Loyal ∧ (∀ slot, w.registrationsOf ⟨0⟩ slot = []) ∧ (∀ turn ∈ turns, turn.Fair ⟨0⟩) ∧
      s.coordinator.watchedIds = [⟨"b"⟩] ∧ s.world.registrationsOf ⟨0⟩ 0 = [] ∧
      s.world.registrationsOf ⟨0⟩ 1 = [⟨⟨0⟩, 2⟩] := by
  intro w turns s
  have loyal : w.Loyal := by
    unfold World.Loyal
    decide
  have unknown : ∀ slot, w.registrationsOf ⟨0⟩ slot = [] := by decide
  have fair : ∀ turn ∈ turns, turn.Fair ⟨0⟩ := by
    simp [turns, Turn.Fair, Operation.isPublic, Coordinator.ofAction]
  obtain ⟨hids, hregistrations, -⟩ :=
    registrations_follow_phase (.swap 0 1) {} none ⟨0⟩ w loyal unknown turns fair
  refine ⟨loyal, unknown, fair, hids, ?_, ?_⟩
  · exact (hregistrations 0).trans (by decide)
  · exact (hregistrations 1).trans (by decide)

end CallCoordination
