import CallCoordination.Proofs.Session.Ages
import CallCoordination.Proofs.Session.Heeding

/-!
# Duplicates change nothing

If the two legs have different ids then each registration serves a single phase, and what a phase
heeds ends it. So a signal that was dispatched is spent: either it ended the phase that its
registration served, or it has no consequence as long as this phase lasts.
-/

namespace CallCoordination

variable {r : Roster} {b : Behaviour r}

namespace Session

/-! ## One phase for each registration -/

/-- From `s` to `t` the phase and its registration stay, or nothing is watched any more through a
registration of before. -/
inductive Onward (s t : Session b) : Prop
  | stays (hphase : t.phase = s.phase) (hwatches : t.coordinator.watches = s.coordinator.watches)
      (hissued : t.coordinator.issued = s.coordinator.issued)
  | moves (hissued : s.coordinator.issued ≤ t.coordinator.issued)
      (hwatches : ∀ watch ∈ t.coordinator.watches, s.coordinator.issued < watch.epoch)

namespace Onward

variable {s t u : Session b}

theorem of_coordinator_eq (h : t.coordinator = s.coordinator) : Onward s t :=
  .stays (congrArg (·.phase) h) (by rw [h]) (by rw [h])

theorem trans (h : Onward s t) (h' : Onward t u) : Onward s u := by
  cases h with
  | stays hphase hwatches hissued =>
    cases h' with
    | stays hphase' hwatches' hissued' =>
      exact .stays (hphase'.trans hphase) (hwatches'.trans hwatches) (hissued'.trans hissued)
    | moves hissued' hwatches' =>
      rw [hissued] at hissued' hwatches'
      exact .moves hissued' hwatches'
  | moves hissued hwatches =>
    cases h' with
    | stays _ hwatches' hissued' => exact .moves (hissued' ▸ hissued) (hwatches' ▸ hwatches)
    | moves hissued' hwatches' =>
      refine .moves (Nat.le_trans hissued hissued') fun watch hmem => ?_
      exact Nat.lt_of_le_of_lt hissued (hwatches' watch hmem)

theorem of_watchesOnly {slot : Slot r}
    (h : t.WatchesOnly slot (s.coordinator.issued + 1)) : Onward s t := by
  obtain ⟨hwatches, hissued⟩ := h
  refine .moves (by omega) ?_
  rw [hwatches]
  simp

theorem enter {action : Action r} (distinct : action.hold.id ≠ action.other.id)
    (h : Tracks action s) {phase : Phase r} (hfollows : s.phase.Follows phase) :
    Onward s (s.enter phase) := by
  have hwatched := h.watched
  cases hphase : s.phase with
  | idle a =>
    rw [hphase] at hfollows hwatched
    cases hfollows
    exact of_watchesOnly (watchesOnly_enter rfl (by simp [hwatched, Phase.watched]))
  | awaitingHold hold next =>
    have hallows := h.allows
    rw [hphase] at hfollows hwatched hallows
    cases hfollows with
    | giveUp hold leg => exact of_watchesOnly (watchesOnly_rollingBack s hold)
    | resume hold leg =>
      -- the leg to resume is not the one that was watched until now
      obtain ⟨rfl, hleaves⟩ := hallows
      have hother : leg.id ≠ action.hold.id := by
        cases action <;> simp_all [Action.Leaves, Action.hold, Action.other, Ne.symm]
      exact of_watchesOnly (watchesOnly_enter rfl (by simp [hwatched, Phase.watched, hother]))
  | awaitingResume held resume =>
    rw [hphase] at hfollows
    cases hfollows
    exact of_watchesOnly (watchesOnly_rollingBack s held)
  | rollingBack _ | done | plain | recorder =>
    rw [hphase] at hfollows
    cases hfollows

theorem finish {action : Action r} (h : Tracks action s) (success : Bool) :
    Onward s (s.finish success) := by
  have hages : Ages s (s.finish success) := (ages_enter s .done).trans (ages_complete _ success)
  have hnone : (s.finish success).coordinator.watchedIds = [] := by
    rw [(h.finish success).watched, phase_finish]
    rfl
  refine .moves hages.issued_le ?_
  simp [List.map_eq_nil_iff.mp hnone]

theorem step {action : Action r} (distinct : action.hold.id ≠ action.other.id)
    (h : Tracks action s) (hstep : Step s t) : Onward s t := by
  cases hstep with
  | begin hidle hnext =>
    have hfollows : s.phase.Follows (.awaitingHold _ _) := hidle ▸ Phase.Follows.hold _ hnext
    exact (enter distinct h hfollows).trans (of_coordinator_eq rfl)
  | enter hfollows => exact enter distinct h hfollows
  | ask | dial | noteState | noteEvent => exact of_coordinator_eq rfl
  | report slot fault => exact of_coordinator_eq (coordinator_reportFault s slot fault)
  | fail failure => exact .stays rfl rfl rfl
  | pop hpop => exact of_coordinator_eq (pop_eq_some hpop).1

theorem acts {action : Action r} (distinct : action.hold.id ≠ action.other.id)
    (h : Tracks action s) (hacts : Acts s t) : Onward s t := by
  induction hacts with
  | nothing s => exact of_coordinator_eq rfl
  | finish s success => exact finish h success
  | step hstep _ ih => exact (step distinct h hstep).trans (ih (h.step hstep))

theorem turn {action : Action r} (distinct : action.hold.id ≠ action.other.id)
    (h : Tracks action s) {turn : Turn b} (hpublic : turn.Public) : Onward s (s.turn turn) := by
  cases turn with
  | elsewhere other operation => exact of_coordinator_eq rfl
  | stir memory effects => exact of_coordinator_eq rfl
  | perform operation =>
    change Onward s (s.perform operation).2
    cases performs s operation with
    | acts hacts _ _ => exact acts distinct h hacts
    | addListener _ | removeListener _ | setHandler _ => exact .stays rfl rfl rfl
    | watchExactly _ | rewatch _ | complete _ =>
      simp [Turn.Public, Operation.isPublic] at hpublic

end Onward

/-! ## Signals that were dispatched -/

/-- A signal of an epoch that was handed out, which is not heeded even if it is current. -/
structure Spent (s : Session b) (signal : Signal) : Prop where
  handed : signal.epoch ≤ s.coordinator.issued
  unheeded : s.coordinator.isCurrent signal = true → s.phase.heeds signal.notification = false

namespace Spent

variable {s t : Session b} {signal : Signal}

theorem of_later (h : signal.epoch ≤ s.coordinator.issued)
    (hissued : s.coordinator.issued ≤ t.coordinator.issued)
    (hwatches : ∀ watch ∈ t.coordinator.watches, s.coordinator.issued < watch.epoch) :
    t.Spent signal where
  handed := Nat.le_trans h hissued
  unheeded hcurrent := by
    simp only [Coordinator.isCurrent, List.any_eq_true, decide_eq_true_eq] at hcurrent
    obtain ⟨watch, hmem, hepoch, -⟩ := hcurrent
    have hlt := hwatches watch hmem
    omega

theorem onward (h : s.Spent signal) (honward : Onward s t) : t.Spent signal := by
  cases honward with
  | stays hphase hwatches hissued =>
    refine ⟨hissued ▸ h.handed, fun hcurrent => ?_⟩
    rw [Coordinator.isCurrent, hwatches] at hcurrent
    rw [hphase]
    exact h.unheeded hcurrent
  | moves hissued hwatches => exact of_later h.handed hissued hwatches

theorem dispatch_eq (h : s.Spent signal) : s.dispatch signal = s := dispatch_of_unheeded h.unheeded

/-- To dispatch a signal spends it. -/
theorem of_dispatch {action : Action r} (distinct : action.hold.id ≠ action.other.id)
    (h : Tracks action s) (hepoch : signal.epoch ≤ s.coordinator.issued) :
    (s.dispatch signal).Spent signal := by
  have hdone (hcompleted : s.coordinator.outcome ≠ none) :
      s.phase.heeds signal.notification = false := by
    rw [h.done_iff.mpr hcompleted]
    cases signal.notification <;> rfl
  by_cases hunheeded : s.coordinator.isCurrent signal = true →
      s.phase.heeds signal.notification = false
  · rw [dispatch_of_unheeded hunheeded]
    exact ⟨hepoch, hunheeded⟩
  · simp only [Classical.not_imp, Bool.not_eq_false] at hunheeded
    obtain ⟨hcurrent, hheeded⟩ := hunheeded
    have hopen : s.coordinator.outcome = none := by
      by_contra hcompleted
      simp [hdone hcompleted] at hheeded
    have hrank := rank_dispatch_of_heeded h hopen hcurrent hheeded
    -- the phase is another one, so its registration is a new one as well
    cases Onward.acts distinct h (acts_dispatch s signal) with
    | stays hphase _ _ => simp [hphase] at hrank
    | moves hissued hwatches => exact of_later hepoch hissued hwatches

end Spent

/-! ## The signals dispatched in a run -/

/-- The signals dispatched in a turn, each with the number of registrations made by then. -/
def dispatchedIn (s : Session b) : Turn b → List (Signal × Nat)
  | .perform (.dispatch signal) => [(signal, s.coordinator.issued)]
  | .perform .process | .perform .serve => s.pending
  | _ => []

def dispatched (s : Session b) : List (Turn b) → List (Signal × Nat)
  | [] => []
  | turn :: later => s.dispatchedIn turn ++ (s.turn turn).dispatched later

theorem dispatched_hearing_pending (s : Session b) :
    s.dispatched (hearing (s.pending.map Prod.fst)) = s.pending := by
  fun_induction pending s with
  | case1 s hdone => rfl
  | case2 s hdone hnone => rfl
  | case3 s hdone signal t hsome ih =>
    simp only [hearing, List.map_cons, List.flatMap_cons, List.cons_append, List.nil_append,
      dispatched, dispatchedIn, turn_pop hsome]
    exact congrArg _ ih

section Run

variable {action : Action r} {s : Session b}

theorem spent_pending (distinct : action.hold.id ≠ action.other.id) (h : Tracks action s)
    {signal : Signal} {made : Nat} (hmem : (signal, made) ∈ s.pending)
    (hepoch : signal.epoch ≤ made) : s.processPending.2.Spent signal := by
  fun_induction pending s with
  | case1 s hdone => simp at hmem
  | case2 s hdone hnone => simp at hmem
  | case3 s hdone first t hsome ih =>
    have ht := h.step (.pop hsome)
    have hdispatched := ht.acts (acts_dispatch t first)
    rw [processPending_of_pop hdone hsome]
    rcases List.mem_cons.mp hmem with heq | hlater
    · obtain ⟨rfl, rfl⟩ := Prod.mk.inj heq
      have hrest := Onward.acts distinct hdispatched (acts_processPending (t.dispatch signal))
      exact (Spent.of_dispatch distinct ht hepoch).onward hrest
    · exact ih hdispatched hlater

theorem spent_turn (distinct : action.hold.id ≠ action.other.id) (h : Tracks action s)
    {turn : Turn b} {signal : Signal} {made : Nat} (hmem : (signal, made) ∈ s.dispatchedIn turn)
    (hepoch : signal.epoch ≤ made) : (s.turn turn).Spent signal := by
  unfold dispatchedIn at hmem
  split at hmem
  · obtain ⟨rfl, rfl⟩ := by simpa using hmem
    exact Spent.of_dispatch distinct h hepoch
  · exact spent_pending distinct h hmem hepoch
  · change s.serve.2.Spent signal
    rw [serve_eq]
    exact spent_pending distinct h hmem hepoch
  · simp at hmem

theorem spent_run (distinct : action.hold.id ≠ action.other.id) (h : Tracks action s)
    {turns : List (Turn b)} (allPublic : ∀ turn ∈ turns, turn.Public) {signal : Signal}
    (hspent : s.Spent signal ∨
      ∃ made, (signal, made) ∈ s.dispatched turns ∧ signal.epoch ≤ made) :
    (s.run turns).Spent signal := by
  induction turns generalizing s with
  | nil =>
    rcases hspent with hspent | ⟨made, hmem, _⟩
    · exact hspent
    · simp [dispatched] at hmem
  | cons turn later ih =>
    have hturn := allPublic turn List.mem_cons_self
    refine ih (h.turn hturn) (fun t ht => allPublic t (List.mem_cons_of_mem _ ht)) ?_
    rcases hspent with hspent | ⟨made, hmem, hepoch⟩
    · exact .inl (hspent.onward (.turn distinct h hturn))
    · rcases List.mem_append.mp hmem with hmem | hmem
      · exact .inl (spent_turn distinct h hmem hepoch)
      · exact .inr ⟨made, hmem, hepoch⟩

end Run

end Session

/-- If the two legs have different ids then, after any run of public operations, whatever legs and
other coordinators do: to dispatch a signal once more which was dispatched before changes nothing at
all and asks nothing of anybody, unless it had been forged for a registration that was still to be
made. This holds at any moment, also while the mailbox is worked through: that comes to taking its
signals and dispatching them one by one, as many as are counted. -/
theorem duplicates_change_nothing (action : Action r)
    (distinct : action.hold.id ≠ action.other.id) (policy : Policy)
    (handler : Option FaultHandler) (observer : Observer) (w : World b) (turns : List (Turn b))
    (allPublic : ∀ turn ∈ turns, turn.Public) :
    let start := Session.opened (.action action policy handler) observer w
    let s := start.run turns
    (∀ signal made, (signal, made) ∈ start.dispatched turns → signal.epoch ≤ made →
      s.dispatch signal = s) ∧
    s.processPending.1 = s.pending.length ∧
    ∀ operation, operation = .process ∨ operation = .serve →
      s.run (Session.hearing (s.pending.map Prod.fst)) = (s.perform operation).2 ∧
      s.dispatched (Session.hearing (s.pending.map Prod.fst)) =
        s.dispatchedIn (.perform operation) := by
  intro start s
  refine ⟨fun signal made hmem hepoch => ?_, Session.fst_processPending s,
    fun operation hdrain => ?_⟩
  · have htracks := Session.Tracks.opened action policy handler observer w
    exact (Session.spent_run distinct htracks allPublic (.inr ⟨made, hmem, hepoch⟩)).dispatch_eq
  · have hrun := Session.run_hearing_pending s
    have hdispatched := Session.dispatched_hearing_pending s
    rcases hdrain with rfl | rfl
    · exact ⟨hrun, hdispatched⟩
    · exact ⟨hrun.trans (congrArg Prod.snd (Session.serve_eq s)).symm, hdispatched⟩

/-- The leg to hold reports that it is active before it is on hold, and again while the swap is
being rolled back: only the registration of then would make that decisive. -/
theorem duplicates_change_nothing_in_rollback :
    let action : Action [⟨"a"⟩, ⟨"b"⟩] := .swap 0 1
    let early : Signal := ⟨⟨"a"⟩, 1, .stateChanged .active⟩
    let turns : List (Turn (Script.behaviour (r := [⟨"a"⟩, ⟨"b"⟩]) {})) :=
      [.perform .start, .perform (.dispatch early), .stir () [.changeState 0 .holding],
        .perform .pop, .perform (.dispatch ⟨⟨"a"⟩, 1, .stateChanged .holding⟩),
        .perform (.dispatch ⟨⟨"b"⟩, 2, .connectionEvent .resumeFailed⟩)]
    let start := Session.opened (.action action {} none) ⟨0⟩ (World.pair .active .holding)
    action.hold.id ≠ action.other.id ∧ (∀ turn ∈ turns, turn.Public) ∧
      (early, 1) ∈ start.dispatched turns ∧ (start.run turns).phase = .rollingBack 0 ∧
      (start.run turns).dispatch early = start.run turns := by
  intro action early turns start
  have distinct : action.hold.id ≠ action.other.id := by decide
  have allPublic : ∀ turn ∈ turns, turn.Public := by
    simp [turns, Turn.Public, Operation.isPublic]
  have hmem : (early, 1) ∈ start.dispatched turns := List.mem_cons_self
  have hsame := (duplicates_change_nothing action distinct {} none ⟨0⟩ (World.pair .active .holding)
    turns allPublic).1 early 1 hmem (Nat.le_refl 1)
  exact ⟨distinct, allPublic, hmem, by decide, hsame⟩

end CallCoordination
