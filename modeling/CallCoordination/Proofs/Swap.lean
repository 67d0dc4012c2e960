import CallCoordination.Proofs.Session.Attempt
import CallCoordination.Proofs.World.States

/-!
# What a swap does

A swap can be read off its occurrences without a coordinator: one scan of them, in up to three
stages, gives phase, outcome, failure and requests. Each stage looks for the first signal that was
sent through the registration of its leg and ends it; the states that decide how to go on are those
at that moment.
-/

namespace CallCoordination

variable {r : Roster} {b : Behaviour r}

namespace Occurrence

def move (states : Slot r → Leg.State) : Occurrence b → Slot r → Leg.State
  | hear _ => states
  | stir _ effects => effects.foldl Effect.move states

def via (leg : Leg.Id) (epoch : Nat) : Occurrence b → Option Notification
  | hear signal => signal.via leg epoch
  | stir _ _ => none

end Occurrence

structure Swap (r : Roster) where
  hold : Slot r
  resume : Slot r
  policy : Policy

namespace Swap

structure Report (r : Roster) where
  phase : Phase r
  outcome : Option Bool
  failure : Option Failure
  demands : List (Event r)
  deriving DecidableEq

/-! ## The scan

`made` are the requests so far, and epochs count the registrations. -/

/-- The third stage: the leg that was put on hold is being resumed. -/
def scanRollback (p : Swap r) (epoch : Nat) (cause : Failure) (made : List (Event r)) :
    List (Occurrence b) → Report r
  | [] => ⟨.rollingBack p.hold, none, some cause, made⟩
  | occurrence :: later =>
    if (occurrence.via p.hold.id epoch).any (·.endsRollback) then
      ⟨.done, some false, some cause, made⟩
    else p.scanRollback epoch cause made later

/-- The swap cannot go on after its registration of that epoch. -/
def rollBack (p : Swap r) (epoch : Nat) (cause : Failure) (states : Slot r → Leg.State)
    (made : List (Event r)) (later : List (Occurrence b)) : Report r :=
  if p.policy.swapRollback ∧ states p.hold = .holding then
    p.scanRollback (epoch + 1) cause (made ++ [.asked p.hold .resume]) later
  else ⟨.done, some false, some cause, made⟩

/-- The second stage: the other leg is being resumed. -/
def scanResume (p : Swap r) (epoch : Nat) (states : Slot r → Leg.State)
    (made : List (Event r)) : List (Occurrence b) → Report r
  | [] => ⟨.awaitingResume p.hold p.resume, none, none, made⟩
  | occurrence :: later =>
    match (occurrence.via p.resume.id epoch).bind (·.resumeExit? p.resume.id) with
    | some (.ok _) => ⟨.done, some true, none, made⟩
    | some (.error cause) => p.rollBack epoch cause states made later
    | none => p.scanResume epoch (occurrence.move states) made later

/-- The hold has settled. -/
def goOn (p : Swap r) (states : Slot r → Leg.State) (made : List (Event r))
    (later : List (Occurrence b)) : Report r :=
  match states p.resume with
  | .holding => p.scanResume 2 states (made ++ [.asked p.resume .resume]) later
  | .active => ⟨.done, some true, none, made⟩
  | _ => p.rollBack 1 (.peerDisconnected p.resume.id) states made later

/-- The first stage: the leg to hold is being put on hold. -/
def scanHold (p : Swap r) (states : Slot r → Leg.State) (made : List (Event r)) :
    List (Occurrence b) → Report r
  | [] => ⟨.awaitingHold p.hold (.resume p.resume), none, none, made⟩
  | occurrence :: later =>
    match (occurrence.via p.hold.id 1).bind (·.holdExit?) with
    | some .settled => p.goOn states made later
    | some .failed => ⟨.done, some false, some (.holdFailed p.hold.id), made⟩
    | none => p.scanHold (occurrence.move states) made later

def scan (p : Swap r) (states : Slot r → Leg.State) (made : List (Event r))
    (occurrences : List (Occurrence b)) : Report r :=
  if p.policy.holdSettledOnEntry ∧ (states p.hold).settled then p.goOn states made occurrences
  else p.scanHold states (made ++ [.asked p.hold .hold]) occurrences

end Swap

namespace Session

def report (s : Session b) : Swap.Report r :=
  ⟨s.phase, s.coordinator.outcome, s.coordinator.failure, s.world.demands⟩

theorem report_live_of_decided {s : Session b} (h : s.coordinator.outcome ≠ none)
    (occurrences : List (Occurrence b)) : (s.live occurrences).report = s.report := by
  obtain ⟨hcoordinator, htrace⟩ := live_of_decided h occurrences
  simp only [report, phase, World.demands, hcoordinator, htrace]

theorem report_live_finish {s : Session b} (h : s.coordinator.outcome = none) (success : Bool)
    (later : List (Occurrence b)) :
    ((s.finish success).live later).report =
      ⟨.done, some success, s.coordinator.failure, s.world.demands⟩ := by
  have hout := outcome_finish h success
  rw [report_live_of_decided (by simp [hout]), report, phase_finish, hout, failure_finish,
    demands_finish]

/-! ## Each stage follows the scan -/

theorem demands_stir (s : Session b) (memory : b.Memory) (effects : List (Effect r)) :
    (s.world.stir memory effects).demands = s.world.demands := by
  rw [World.demands, World.trace_stir, World.demands]

theorem report_rollingBack {p : Swap r} {s : Session b} {epoch : Nat} {cause : Failure}
    (hphase : s.phase = .rollingBack p.hold) (h : s.Expects p.hold epoch)
    (hfailure : s.coordinator.failure = some cause) (occurrences : List (Occurrence b)) :
    (s.live occurrences).report =
      p.scanRollback epoch cause s.world.demands occurrences := by
  induction occurrences generalizing s with
  | nil => rw [live_nil, report, hphase, h.undecided, hfailure, Swap.scanRollback]
  | cons occurrence later ih =>
    cases occurrence with
    | stir memory effects =>
      have hlive := ih (s := { s with world := s.world.stir memory effects }) hphase
        (h.of_coordinator_eq rfl) hfailure
      rw [demands_stir] at hlive
      simpa [Swap.scanRollback, Occurrence.via] using hlive
    | hear signal =>
      rw [live_hear, dispatch_rollingBack hphase h, Swap.scanRollback, Occurrence.via]
      split
      · rw [report_live_finish h.undecided, hfailure]
      · exact ih hphase h hfailure

theorem report_rollBack {p : Swap r} {s : Session b} (hopen : s.coordinator.outcome = none)
    (hfailure : s.coordinator.failure = none) (hpolicy : s.coordinator.policy = p.policy)
    (cause : Failure) (later : List (Occurrence b)) :
    ((s.rollBack p.hold cause).live later).report =
      p.rollBack s.coordinator.issued cause s.world.state s.world.demands later := by
  have hrecorded : (s.recordFailure cause).coordinator.failure = some cause := by
    simp [recordFailure, Coordinator.recordFailure, hfailure]
  have hcondition : ((s.recordFailure cause).coordinator.policy.swapRollback = true ∧
      (s.recordFailure cause).world.state p.hold = .holding) ↔
      (p.policy.swapRollback = true ∧ s.world.state p.hold = .holding) := by
    rw [← hpolicy]
    rfl
  unfold rollBack Swap.rollBack
  dsimp only
  by_cases h : p.policy.swapRollback = true ∧ s.world.state p.hold = .holding
  · rw [if_pos (hcondition.mpr h), if_pos h]
    have hexpects := expects_rollingBack (s := s.recordFailure cause) p.hold hopen
    have hlive := report_rollingBack (p := p)
      (s := ((s.recordFailure cause).enter (.rollingBack p.hold)).ask p.hold .resume) rfl
      (hexpects.of_coordinator_eq rfl)
      ((failure_enter (s.recordFailure cause) (.rollingBack p.hold)).trans hrecorded) later
    rw [hlive, ask, World.demands_ask rfl, demands_enter]
    rfl
  · rw [if_neg fun hc => h (hcondition.mp hc), if_neg h,
      report_live_finish (s := s.recordFailure cause) hopen, hrecorded]
    rfl

theorem report_awaitingResume {p : Swap r} {s : Session b} {epoch : Nat}
    (hphase : s.phase = .awaitingResume p.hold p.resume) (h : s.Expects p.resume epoch)
    (hfailure : s.coordinator.failure = none) (hpolicy : s.coordinator.policy = p.policy)
    (occurrences : List (Occurrence b)) :
    (s.live occurrences).report =
      p.scanResume epoch s.world.state s.world.demands occurrences := by
  induction occurrences generalizing s with
  | nil => rw [live_nil, report, hphase, h.undecided, hfailure, Swap.scanResume]
  | cons occurrence later ih =>
    cases occurrence with
    | stir memory effects =>
      have hlive := ih (s := { s with world := s.world.stir memory effects }) hphase
        (h.of_coordinator_eq rfl) hfailure hpolicy
      rw [demands_stir, World.state_stir] at hlive
      simpa [Swap.scanResume, Occurrence.via, Occurrence.move] using hlive
    | hear signal =>
      rw [live_hear, dispatch_awaitingResume hphase h, Swap.scanResume, Occurrence.via]
      cases (signal.via p.resume.id epoch).bind (·.resumeExit? p.resume.id) with
      | none => exact ih hphase h hfailure hpolicy
      | some exit =>
        cases exit with
        | ok _ =>
          dsimp only
          rw [report_live_finish h.undecided, hfailure]
        | error cause =>
          have hissued : s.coordinator.issued = epoch := h.watches.2
          dsimp only
          rw [report_rollBack h.undecided hfailure hpolicy, hissued]

theorem state_enter (still : b.Still) (s : Session b) (phase : Phase r) :
    (s.enter phase).world.state = s.world.state := by
  refine enter_preserves (P := fun w => w.state = s.world.state) ?_ rfl phase
  intro w slot request hrequest hw
  have hne (cause : ReleaseCause) : request ≠ .disconnect cause := by
    rintro rfl
    simp [LegRequest.isRegistration] at hrequest
  exact (still w slot request hne).trans hw

theorem report_holdSettled (still : b.Still) {p : Swap r} (hne : p.hold.id ≠ p.resume.id)
    {s : Session b} (h : s.Waits p.hold (.resume p.resume))
    (hpolicy : s.coordinator.policy = p.policy) (later : List (Occurrence b)) :
    ((s.holdSettled p.hold (.resume p.resume)).live later).report =
      p.goOn s.world.state s.world.demands later := by
  have hissued : s.coordinator.issued = 1 := h.expects.watches.2
  have hopen := h.expects.undecided
  simp only [holdSettled, Swap.goOn]
  cases s.world.state p.resume with
  | holding =>
    -- legs of one id would share the registration made for the hold
    have hunwatched : p.resume.id ∉ s.coordinator.watchedIds := by
      simp [Coordinator.watchedIds, h.expects.watches.1, Ne.symm hne]
    have hexpects := expects_enter (s := s) (.awaitingResume p.hold p.resume) rfl
      hunwatched hopen
    rw [hissued] at hexpects
    have hlive := report_awaitingResume (p := p)
      (s := (s.enter (.awaitingResume p.hold p.resume)).ask p.resume .resume) rfl
      (hexpects.of_coordinator_eq rfl)
      ((failure_enter s (.awaitingResume p.hold p.resume)).trans h.failure)
      ((policy_enter s (.awaitingResume p.hold p.resume)).trans hpolicy) later
    have hstate : ((s.enter (.awaitingResume p.hold p.resume)).ask p.resume
        .resume).world.state = s.world.state :=
      (still _ p.resume .resume (by simp)).trans (state_enter still s _)
    rw [hlive, hstate, ask, World.demands_ask rfl, demands_enter]
  | active => rw [report_live_finish hopen, h.failure]
  | idle | dialing | ringing | pulling | disconnected =>
    rw [report_rollBack hopen h.failure hpolicy, hissued]

theorem report_awaitingHold (still : b.Still) {p : Swap r} (hne : p.hold.id ≠ p.resume.id)
    {s : Session b} (h : s.Waits p.hold (.resume p.resume))
    (hpolicy : s.coordinator.policy = p.policy) (occurrences : List (Occurrence b)) :
    (s.live occurrences).report = p.scanHold s.world.state s.world.demands occurrences := by
  induction occurrences generalizing s with
  | nil => rw [live_nil, report, h.phase, h.expects.undecided, h.failure, Swap.scanHold]
  | cons occurrence later ih =>
    cases occurrence with
    | stir memory effects =>
      have hlive := ih (s := { s with world := s.world.stir memory effects })
        (h.of_coordinator_eq rfl) hpolicy
      rw [demands_stir, World.state_stir] at hlive
      simpa [Swap.scanHold, Occurrence.via, Occurrence.move] using hlive
    | hear signal =>
      rw [live_hear, dispatch_awaitingHold h.phase h.expects, Swap.scanHold, Occurrence.via]
      cases (signal.via p.hold.id 1).bind (·.holdExit?) with
      | none => exact ih h hpolicy
      | some exit =>
        cases exit with
        | settled => exact report_holdSettled still hne h hpolicy later
        | failed =>
          have hfinish : s.holdFailed p.hold (.resume p.resume) =
            (s.recordFailure (.holdFailed p.hold.id)).finish false := rfl
          dsimp only
          rw [hfinish, report_live_finish (s := s.recordFailure _) h.expects.undecided]
          simp [recordFailure, Coordinator.recordFailure, h.failure]

end Session

/-- Whatever is done to the legs of a swap and whatever signals it hears, it shows what the scan
of these occurrences shows, if the legs have two ids and are not moved by being asked. -/
theorem swap_follows_scan (still : b.Still) (p : Swap r) (hne : p.hold.id ≠ p.resume.id)
    (handler : Option FaultHandler) (observer : Observer) (listeners : List Listener)
    (w : World b) (occurrences : List (Occurrence b)) :
    let a : Attempt b :=
      ⟨.swap p.hold p.resume, p.policy, handler, observer, listeners, w, occurrences⟩
    a.Started ∧ a.final.report = p.scan w.state w.demands occurrences := by
  intro a
  refine ⟨⟨none, rfl⟩, ?_⟩
  have hstart : a.initial.start.2 = a.initial.awaitHold p.hold (.resume p.resume) := rfl
  have hwaits := (Session.unstarted_initial a).waits (.resume p.resume) p.hold
  have hpolicy : a.initial.coordinator.policy = p.policy := Session.policy_initial a
  have hentered := (Session.policy_enter a.initial (.awaitingHold p.hold (.resume p.resume))).trans
    hpolicy
  have hstate := Session.state_enter still a.initial (.awaitingHold p.hold (.resume p.resume))
  have hdemands := Session.demands_enter a.initial (.awaitingHold p.hold (.resume p.resume))
  have hsettled : a.initial.isSettledOnEntry p.hold = true ↔
      p.policy.holdSettledOnEntry = true ∧ (w.state p.hold).settled = true := by
    rw [Session.isSettledOnEntry, hpolicy, Bool.and_eq_true]
    rfl
  rw [Attempt.final, hstart, Session.awaitHold, Swap.scan]
  by_cases h : p.policy.holdSettledOnEntry = true ∧ (w.state p.hold).settled = true
  · rw [if_pos (hsettled.mpr h), if_pos h,
      Session.report_holdSettled still hne hwaits hentered, hstate, hdemands]
    rfl
  · rw [if_neg fun hc => h (hsettled.mp hc), if_neg h]
    have hlive := Session.report_awaitingHold still hne
      (s := (a.initial.enter (.awaitingHold p.hold (.resume p.resume))).ask p.hold .hold)
      (hwaits.of_coordinator_eq rfl) hentered occurrences
    have hasked : ((a.initial.enter (.awaitingHold p.hold (.resume p.resume))).ask p.hold
        .hold).world.state = w.state := (still _ p.hold .hold (by simp)).trans hstate
    rw [hlive, hasked, Session.ask, World.demands_ask rfl, hdemands]
    rfl

/-- The leg to resume goes away, so the held one is resumed again; an old signal does not count
for that. -/
theorem swap_follows_scan_of_rollback :
    let p : Swap [⟨"a"⟩, ⟨"b"⟩] := ⟨0, 1, {}⟩
    let w := World.pair .active .holding
    let occurrences := [.stir () [.setState 0 .holding], .hear ⟨⟨"a"⟩, 1, .stateChanged .holding⟩,
      .hear ⟨⟨"b"⟩, 2, .stateChanged .disconnected⟩, .hear ⟨⟨"a"⟩, 1, .stateChanged .active⟩]
    let a : Attempt (Script.behaviour (r := [⟨"a"⟩, ⟨"b"⟩]) {}) :=
      ⟨.swap 0 1, {}, none, ⟨0⟩, [], w, occurrences⟩
    (Script.behaviour (r := [⟨"a"⟩, ⟨"b"⟩]) {}).Still ∧ p.hold.id ≠ p.resume.id ∧ a.final.report =
      ⟨.rollingBack 0, none, some (.peerDisconnected ⟨"b"⟩),
        [.asked 0 .hold, .asked 1 .resume, .asked 0 .resume]⟩ := by
  intro p w occurrences a
  have hne : p.hold.id ≠ p.resume.id := by decide
  obtain ⟨-, hreport⟩ :=
    swap_follows_scan Script.still_behaviour p hne none ⟨0⟩ [] w occurrences
  exact ⟨Script.still_behaviour, hne, hreport.trans (by decide)⟩

end CallCoordination
