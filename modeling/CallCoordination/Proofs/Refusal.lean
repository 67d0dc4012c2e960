import CallCoordination.Proofs.Allocation
import CallCoordination.Proofs.Delivery
import CallCoordination.Proofs.Entry
import CallCoordination.Proofs.Staleness
import CallCoordination.Proofs.Switchboard.Turns

/-!
# A coordination starts once

Whether a start is refused is decided by the phase alone. Nothing but a start leaves `idle`, and
nothing ever leads back to it, so the phase tells whether there was a start, however it ended.
-/

namespace CallCoordination

variable {r : Roster} {b : Behaviour r}

/-! ## Before the start -/

theorem Turn.isStart_eq_false {turn : Turn b} (h : turn ≠ .perform .start) :
    turn.isStart = false := by
  unfold isStart
  split
  · exact absurd rfl h
  · rfl

namespace Session

variable {s : Session b} {action : Action r}

theorem Unstarted.run_of_public {turns : List (Turn b)} (h : s.Unstarted action)
    (allPublic : ∀ turn ∈ turns, turn.Public) (hnone : .perform .start ∉ turns) :
    (s.run turns).Unstarted action := by
  have hother : ∀ turn ∈ turns, turn.isStart = false := fun turn hmem =>
    Turn.isStart_eq_false fun hstart => hnone (hstart ▸ hmem)
  rw [← run_unrolled]
  exact (h.run (s.single_unrolled allPublic) (s.isStart_unrolled hother)).1

/-- Nobody holds a registration of an observer that was unknown and has made none. -/
theorem registrationsOf_run_of_issued {turns : List (Turn b)}
    (unknown : s.world.Unknown s.coordinator.observer)
    (apart : ∀ turn ∈ turns, turn.Apart s.coordinator.observer)
    (hissued : (s.run turns).coordinator.issued = 0) (slot : Slot r) :
    (s.run turns).world.registrationsOf (s.run turns).coordinator.observer slot = [] := by
  have hages := ages_run s apart
  have haccounted := (leads_run s turns).accounted unknown.accounted
  have hnone : (s.run turns).world.epochs s.coordinator.observer = [] := by
    obtain ⟨n, hn, hepochs⟩ := hages.handed
    obtain rfl : n = 0 := by omega
    rw [hepochs, unknown.unmentioned]
    rfl
  rw [hages.observer]
  refine List.filter_eq_nil_iff.mpr fun registration hmem hmine => ?_
  have hmade := haccounted.registered slot registration hmem (of_decide_eq_true hmine)
  rw [hnone] at hmade
  exact absurd hmade List.not_mem_nil

/-- The first start is never refused as a later one. -/
theorem result_start_ne_alreadyStarted (hidle : s.phase = .idle action) :
    s.start.1 ≠ .error .alreadyStarted := by
  cases action with
  | answer hold leg video => simp [start, hidle]
  | swap hold leg => simp [start, hidle]
  | dial hold leg call =>
    rw [result_start_dial hidle]
    cases s.world.nextAnswer leg <;> simp

/-! ## After the start -/

theorem rank_awaitHold_le (s : Session b) (hold : Slot r) (next : Continuation r) :
    (s.awaitHold hold next).phase.rank ≤ 3 := by
  unfold awaitHold
  split
  · exact Nat.le_succ_of_le (rank_holdSettled_le _ hold next)
  · exact Nat.le_refl _

theorem rank_start_le (s : Session b) : s.start.2.phase.rank ≤ 3 := by
  cases hphase : s.phase with
  | idle action =>
    cases hplan : action.plan s.world with
    | ok next =>
      rw [start_of_plan hphase hplan]
      exact rank_awaitHold_le ..
    | error fault =>
      rw [start_of_refused hphase hplan]
      simp [Phase.rank]
  | awaitingHold _ _ | awaitingResume _ _ | rollingBack _ | done | plain | recorder =>
    rw [start_eq_self (by simp [hphase]), hphase]
    simp [Phase.rank]

theorem rank_run_le (s : Session b) (turns : List (Turn b)) :
    (s.run turns).phase.rank ≤ s.phase.rank := by
  induction turns generalizing s with
  | nil => exact Nat.le_refl _
  | cons turn later ih => exact Nat.le_trans (ih (s.turn turn)) (s.rank_turn_le turn)

theorem ne_idle_of_start_mem {turns : List (Turn b)} (h : .perform .start ∈ turns) :
    ∀ action, (s.run turns).phase ≠ .idle action := by
  obtain ⟨before, after, rfl⟩ := List.append_of_mem h
  apply ne_idle_of_rank_le
  rw [run_append, run_cons]
  exact Nat.le_trans (rank_run_le _ after) (rank_start_le _)

theorem start_of_ne_idle (h : ∀ action, s.phase ≠ .idle action) :
    s.start = (.error .alreadyStarted, s) := by
  unfold start
  split
  next hidle => exact absurd hidle (h _)
  next hidle => exact absurd hidle (h _)
  next hidle => exact absurd hidle (h _)
  · rfl

end Session

/-! ## At a switchboard -/

theorem Switchboard.perform_start {board : Switchboard b} {name : String} {seat : Seat r}
    (hseat : board.seat? name = some seat) :
    let t := (board.session seat).start
    board.perform name .start =
      some (.started t.1, setSeat { board with world := t.2.world } name
        ⟨t.2.coordinator, seat.popped⟩) := by
  rw [perform, hseat]
  rfl

/-- Whatever was done at a switchboard before a coordinator is seated, let the seat be respected
from then on. Once the coordinator was started, however that ended, to start it again is refused
and leaves the board as it is, so whatever comes later is the same as without it. Before that,
whatever is heard and whoever says it, the coordinator is idle, no leg holds a registration of it,
and to start it is not refused in this way. -/
theorem refused_start_changes_nothing (w : World b) (next : Nat)
    (unknown : ∀ observer : Observer, next ≤ observer.number → w.Unknown observer)
    (earlier since : List (Act b)) (name : String) (action : Action r) (policy : Policy)
    (handler : Option FaultHandler) (respects : ∀ act ∈ since, act.Respects name) :
    let board := ({ world := w, nextObserver := next } : Switchboard b).acts
      (earlier ++ .openSeat name (.action action policy handler) :: since)
    ∃ seat, board.seat? name = some seat ∧
      (.perform name .start ∈ since →
        (∀ other, seat.coordinator.phase ≠ .idle other) ∧
        board.perform name .start = some (.started (.error .alreadyStarted), board) ∧
        ∀ later, board.acts (.perform name .start :: later) = board.acts later) ∧
      (.perform name .start ∉ since →
        (board.session seat).Unstarted action ∧
        (∀ slot, board.world.registrationsOf seat.coordinator.observer slot = []) ∧
        ∃ result after, board.perform name .start = some (.started result, after) ∧
          result ≠ .error .alreadyStarted) := by
  intro board
  let empty : Switchboard b := { world := w, nextObserver := next }
  let before := empty.acts earlier
  let o : Opening r := .action action policy handler
  have hnobody : empty.Allotted := Switchboard.allotted_of_seats_nil w next
  have hunknown : empty.Unmet := unknown
  have hnameless : empty.Distinct := List.nodup_nil
  have hunmet : before.Unmet := hunknown.acts hnobody earlier
  have hdistinct : board.Distinct := hnameless.acts _
  have hboard : board = (before.openSeat name o).acts since := empty.acts_append earlier _
  obtain ⟨seat, turns, ⟨hseat, hrun, hfair⟩, hstart⟩ :=
    ((hnobody.acts earlier).openSeat name o).exists_turns_acts
      ((before.seat?_openSeat name name o).trans (if_pos rfl)) respects
  rw [← hboard] at hseat hrun
  have hperform := Switchboard.perform_start hseat
  refine ⟨seat, hseat, fun hstarted => ?_, fun hnone => ?_⟩
  · have hidle : ∀ other, (board.session seat).phase ≠ .idle other := by
      rw [hrun]
      exact Session.ne_idle_of_start_mem (hstart.mpr hstarted)
    have hrefused : board.perform name .start =
        some (.started (.error .alreadyStarted), board) := by
      rw [hperform, Session.start_of_ne_idle hidle]
      exact congrArg (fun board => some (_, board)) (hdistinct.setSeat_eq_self hseat)
    refine ⟨hidle, hrefused, fun later => ?_⟩
    rw [Switchboard.acts, List.foldl_cons, Switchboard.act, hrefused]
    rfl
  · have hunstarted : (board.session seat).Unstarted action := by
      rw [hrun]
      exact (Session.unstarted_opened action policy handler _ _).run_of_public
        (fun turn hmem => (hfair turn hmem).1) (mt hstart.mp hnone)
    have hstranger : before.world.Unknown
        (o.coordinator ⟨before.nextObserver⟩ before.world.now).observer := by
      rw [Switchboard.observer_coordinator]
      exact hunmet _ (Nat.le_refl _)
    refine ⟨hunstarted, fun slot => ?_, _, _, hperform,
      Session.result_start_ne_alreadyStarted hunstarted.phase⟩
    have hissued := hunstarted.issued
    rw [hrun] at hissued
    have hnobody := Session.registrationsOf_run_of_issued hstranger
      (fun turn hmem => (hfair turn hmem).2) hissued slot
    rw [← hrun] at hnobody
    exact hnobody

/-- A dial is prepared while a swap waits for the same leg. It ignores what is heard, is given no
connection when it is started, and cannot be started again. -/
theorem refused_start_changes_nothing_of_refused_dial :
    let dial : Action [⟨"a"⟩, ⟨"b"⟩] := .dial 0 1 ⟨.address "5550100", .audioOnly, none⟩
    let w := World.pair .active .idle
    let earlier : List (Act (Script.behaviour (r := [⟨"a"⟩, ⟨"b"⟩]) {})) :=
      [.openSeat "s" (.action (.swap 0 1) {} none), .perform "s" .start]
    let prepared : List (Act (Script.behaviour (r := [⟨"a"⟩, ⟨"b"⟩]) {})) :=
      [.perform "d" (.hearState ⟨"a"⟩ .holding), .perform "s" (.complete false),
        .stir () [.queueAnswer 1 (.raised .outOfService)]]
    let board (since : List (Act (Script.behaviour (r := [⟨"a"⟩, ⟨"b"⟩]) {}))) :=
      ({ world := w } : Switchboard _).acts
        (earlier ++ .openSeat "d" (.action dial {} none) :: since)
    (∀ observer : Observer, 0 ≤ observer.number → w.Unknown observer) ∧
      (∀ act ∈ prepared ++ [.perform "d" .start], act.Respects "d") ∧
      ((board prepared).seat? "d").map (·.coordinator.phase) = some (.idle dial) ∧
      ((board (prepared ++ [.perform "d" .start])).seat? "d").map (·.coordinator.failure) =
        some (some (.dialRaised .outOfService)) ∧
      (board (prepared ++ [.perform "d" .start])).perform "d" .start =
        some (.started (.error .alreadyStarted), board (prepared ++ [.perform "d" .start])) := by
  intro dial w earlier prepared board
  have unknown : ∀ observer : Observer, 0 ≤ observer.number → w.Unknown observer := by
    intro observer _
    refine ⟨fun slot => ?_, rfl, rfl⟩
    match slot with
    | 0 => rfl
    | 1 => rfl
  have respects : ∀ act ∈ prepared ++ [.perform "d" .start], act.Respects "d" := by
    simp [prepared, Act.Respects, Turn.Public, Operation.isPublic]
  have respects' : ∀ act ∈ prepared, act.Respects "d" := fun act hmem =>
    respects act (List.mem_append_left _ hmem)
  obtain ⟨seat, hseat, -, hidle⟩ :=
    refused_start_changes_nothing w 0 unknown earlier prepared "d" dial {} none respects'
  obtain ⟨_, -, hrefused, -⟩ := refused_start_changes_nothing w 0 unknown earlier
    (prepared ++ [.perform "d" .start]) "d" dial {} none respects
  refine ⟨unknown, respects, ?_, by decide, (hrefused (by simp)).2.1⟩
  have hphase := (hidle (by simp [prepared])).1.phase
  exact congrArg (Option.map (·.coordinator.phase)) hseat |>.trans (congrArg some hphase)

end CallCoordination
