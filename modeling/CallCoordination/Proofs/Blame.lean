import CallCoordination.Proofs.Session.Course

/-!
# The failure names its cause

A coordination fails exactly if a failure is recorded, and a swap that rolls back has recorded one
already. What is recorded first stays, so it is the actual cause: how the hold ended, in which state
the other leg was found by then, what was reported of it while it was to resume, or what it answered
to a dial order of this coordinator.
-/

namespace CallCoordination

variable {r : Roster} {b : Behaviour r}

/-! ## What a coordinator finds out -/

def Event.isOrder : Event r → Bool
  | dialled .. => true
  | _ => false

theorem Event.isOrder_of_call? {event : Event r} (h : event.call? ≠ none) :
    event.isOrder = false := by
  cases event <;> simp_all [call?, isOrder]

namespace Session

/-- The dial orders that the coordinator itself gives in a run, with their answers, oldest first. -/
def orders (s : Session b) (turns : List (Turn b)) : List (Event r) :=
  (s.deeds turns).filter (·.isOrder)

/-- What the coordinator is told in a turn: directly, or by a signal that is current. -/
def report? (s : Session b) : Turn b → Option (Leg.Id × Notification)
  | .perform (.dispatch signal) =>
    if s.coordinator.isCurrent signal then some (signal.leg, signal.notification) else none
  | .perform (.hearState leg state) => some (leg, .stateChanged state)
  | .perform (.hearEvent leg event) => some (leg, .connectionEvent event)
  | _ => none

/-- In this run the coordinator is told this of a leg while it waits for that leg to resume. -/
def Learns (s : Session b) (turns : List (Turn b)) (resume : Slot r)
    (notification : Notification) : Prop :=
  ∃ before turn later held, turns = before ++ turn :: later ∧
    (s.run before).phase = .awaitingResume held resume ∧
    (s.run before).report? turn = some (resume.id, notification)

theorem Learns.append {s : Session b} {before turns : List (Turn b)} {resume : Slot r}
    {notification : Notification} (h : (s.run before).Learns turns resume notification) :
    s.Learns (before ++ turns) resume notification := by
  obtain ⟨first, turn, later, held, rfl, hphase, hreport⟩ := h
  refine ⟨before ++ first, turn, later, held, (List.append_assoc ..).symm, ?_, ?_⟩
  · rw [run_append]
    exact hphase
  · rw [run_append]
    exact hreport

end Session

/-- What an action can fail from, given its dial orders with their answers, how the wait for its
hold ended, and what was reported of a leg while that was to resume. -/
inductive Action.Blames (orders : List (Event r)) (ended : Option (HoldEnd b))
    (reported : Slot r → Notification → Prop) : Action r → Failure → Prop
  | hold {action : Action r} {e : HoldEnd b} (h : e ∈ ended) (hfailed : e.exit = .failed) :
      Blames orders ended reported action (.holdFailed action.hold.id)
  | dialGone {hold leg : Slot r} {call : OutgoingCall} {e : HoldEnd b} (h : e ∈ ended)
      (hgone : e.Finds leg .disconnected) :
      Blames orders ended reported (.dial hold leg call) (.peerDisconnected leg.id)
  | dialRaised {hold leg : Slot r} {call : OutgoingCall} {terms : DialTerms} {fault : DialFault}
      (h : .dialled leg call.callee terms (.raised fault) ∈ orders) :
      Blames orders ended reported (.dial hold leg call) (.dialRaised fault)
  /-- The connection that was allocated is not the one of the call that was placed. -/
  | dialMismatch {hold leg : Slot r} {call : OutgoingCall} {expected actual : ConnectionId}
      (h : orders = [.dialled leg call.callee (call.terms true) (.placed expected),
        .dialled leg call.callee (call.terms false) (.placed actual)])
      (hne : expected ≠ actual) :
      Blames orders ended reported (.dial hold leg call) (.identityMismatch expected actual)
  /-- The leg to resume is neither on hold nor in service when the hold settles. -/
  | swapGone {hold leg : Slot r} {e : HoldEnd b} {state : Leg.State} (h : e ∈ ended)
      (hfinds : e.Finds leg state) (hgone : state ≠ .holding ∧ state ≠ .active) :
      Blames orders ended reported (.swap hold leg) (.peerDisconnected leg.id)
  | swapLost {hold leg : Slot r} (h : reported leg (.stateChanged .disconnected)) :
      Blames orders ended reported (.swap hold leg) (.peerDisconnected leg.id)
  | swapFailed {hold leg : Slot r} (h : reported leg (.connectionEvent .resumeFailed)) :
      Blames orders ended reported (.swap hold leg) (.resumeFailed leg.id)

theorem Action.blames_of_resumeExit {orders : List (Event r)} {ended : Option (HoldEnd b)}
    {reported : Slot r → Notification → Prop} {hold leg : Slot r} {notification : Notification}
    {cause : Failure} (hexit : notification.resumeExit? leg.id = some (.error cause))
    (h : reported leg notification) : Blames orders ended reported (.swap hold leg) cause := by
  unfold Notification.resumeExit? at hexit
  split at hexit
  · cases hexit
  · cases hexit
    exact .swapLost h
  · cases hexit
    exact .swapFailed h
  · cases hexit

namespace Session

variable {s : Session b} {causes : Failure → Prop} {turn : Turn b} {turns : List (Turn b)}

/-! ## Failure, outcome and phase -/

/-- Failure and outcome agree with each other and with the phase, and a failure is one of the
causes. -/
structure Explained (s : Session b) (causes : Failure → Prop) : Prop where
  verdict : ∀ success, s.coordinator.outcome = some success →
    (success = true ↔ s.coordinator.failure = none)
  rolling : s.coordinator.outcome = none →
    (s.coordinator.failure ≠ none ↔ ∃ back, s.phase = .rollingBack back)
  blamed : ∀ cause, s.coordinator.failure = some cause → causes cause

theorem Explained.mono {causes' : Failure → Prop} (h : s.Explained causes)
    (hcauses : ∀ cause, causes cause → causes' cause) : s.Explained causes' where
  verdict := h.verdict
  rolling := h.rolling
  blamed cause hcause := hcauses cause (h.blamed cause hcause)

/-- The outcome is the one that the failure, or the lack of one, stands for. -/
theorem Explained.outcome_iff (h : s.Explained causes) (success : Bool) :
    s.coordinator.outcome = some success ↔ s.coordinator.isCompleted = true ∧
      (success = true ↔ s.coordinator.failure = none) := by
  constructor
  · intro houtcome
    exact ⟨by simp [Coordinator.isCompleted, houtcome], h.verdict success houtcome⟩
  · rintro ⟨hcompleted, hsuccess⟩
    obtain ⟨actual, hactual⟩ := Option.isSome_iff_exists.mp hcompleted
    have hverdict := h.verdict actual hactual
    rw [hactual, Bool.eq_iff_iff.mpr (hverdict.trans hsuccess.symm)]

theorem explained_of_open (hopen : s.coordinator.outcome = none)
    (hnone : s.coordinator.failure = none) (hphase : ∀ back, s.phase ≠ .rollingBack back) :
    s.Explained causes where
  verdict success hsome := by cases hopen.symm.trans hsome
  rolling _ := ⟨fun hne => absurd hnone hne, fun ⟨back, hback⟩ => absurd hback (hphase back)⟩
  blamed cause hsome := by cases hnone.symm.trans hsome

theorem explained_of_concluded {cause : Option Failure}
    (houtcome : s.coordinator.outcome = some cause.isNone)
    (hfailure : s.coordinator.failure = cause) (hcauses : ∀ c ∈ cause, causes c) :
    s.Explained causes where
  verdict success hsome := by
    obtain rfl : cause.isNone = success := Option.some.inj (houtcome.symm.trans hsome)
    rw [hfailure, Option.isNone_iff_eq_none]
  rolling hopen := by cases hopen.symm.trans houtcome
  blamed c hsome := hcauses c (hfailure.symm.trans hsome)

theorem explained_finish {success : Bool} (hopen : s.coordinator.outcome = none)
    (hsuccess : success = s.coordinator.failure.isNone)
    (hcauses : ∀ cause ∈ s.coordinator.failure, causes cause)
    (allPublic : ∀ turn ∈ turns, turn.Public) :
    ((s.finish success).run turns).Explained causes := by
  subst hsuccess
  have houtcome := outcome_finish hopen s.coordinator.failure.isNone
  obtain ⟨hkeeps, -⟩ := run_of_done (phase_finish s _) houtcome allPublic
  exact explained_of_concluded (hkeeps.outcome_eq.trans houtcome)
    (hkeeps.failure_eq.trans (failure_finish s _)) hcauses

theorem explained_succeed (hopen : s.coordinator.outcome = none)
    (hnone : s.coordinator.failure = none) (single : ∀ turn ∈ turns, turn.Single) :
    ((s.finish true).run turns).Explained causes := by
  refine explained_finish hopen (by rw [hnone]; rfl) ?_ fun turn ht => (single turn ht).isPublic
  intro cause hsome
  cases hnone.symm.trans hsome

theorem explained_fail {cause : Failure} (hopen : s.coordinator.outcome = none)
    (hcause : s.coordinator.failure = some cause) (single : ∀ turn ∈ turns, turn.Single) :
    ((s.finish false).run turns).Explained (· = cause) := by
  refine explained_finish hopen (by rw [hcause]; rfl) ?_ fun turn ht => (single turn ht).isPublic
  intro other hother
  exact Option.some.inj (hother.symm.trans hcause)

/-! ## Turns that tell something -/

/-- Hear what is told of a leg. -/
def hear (s : Session b) (leg : Leg.Id) : Notification → Session b
  | .stateChanged state => s.hearState leg state
  | .connectionEvent event => s.hearEvent leg event
  | _ => s

theorem turn_of_report (hopen : s.coordinator.outcome = none) {leg : Leg.Id}
    {notification : Notification} (h : s.report? turn = some (leg, notification)) :
    s.turn turn = s.hear leg notification := by
  unfold report? at h
  split at h
  next signal =>
    split at h
    next hcurrent =>
      obtain ⟨rfl, rfl⟩ := Prod.mk.inj (Option.some.inj h)
      have hheard : ¬ (s.coordinator.isCompleted = true ∨ ¬ s.coordinator.isCurrent signal) := by
        simp [Coordinator.isCompleted, hopen, hcurrent]
      simp only [Session.turn, perform, dispatch, if_neg hheard]
      cases signal.notification <;> rfl
    · cases h
  · obtain ⟨rfl, rfl⟩ := Prod.mk.inj (Option.some.inj h)
    rfl
  · obtain ⟨rfl, rfl⟩ := Prod.mk.inj (Option.some.inj h)
    rfl
  · cases h

/-- Once it is started, a coordination moves only if its coordinator is told something. -/
theorem keeps_of_no_report (hstarted : ∀ action, s.phase ≠ .idle action) (hsingle : turn.Single)
    (h : s.report? turn = none) : s.coordinator.Keeps (s.turn turn).coordinator := by
  obtain ⟨hkeeps, -⟩ := keeps_turn (s := s) hsingle fun operation heq hdrives => by
    subst heq
    cases operation with
    | start => exact start_eq_self hstarted
    | dispatch signal =>
      have hstale : ¬ s.coordinator.isCurrent signal := fun hcurrent => by
        simp [report?, hcurrent] at h
      exact if_pos (.inr hstale)
    | hearState _ _ | hearEvent _ _ => cases h
    | _ => cases hdrives
  exact hkeeps

theorem hear_rollingBack {back : Slot r} (hphase : s.phase = .rollingBack back) (leg : Leg.Id)
    (notification : Notification) :
    s.hear leg notification = s ∨ s.hear leg notification = s.finish false := by
  cases notification with
  | stateChanged state =>
    simp only [hear, hearState, hphase]
    split
    · exact .inr rfl
    · exact .inl rfl
  | connectionEvent event =>
    simp only [hear, hearEvent, hphase]
    split
    · exact .inr rfl
    · exact .inl rfl
  | _ => exact .inl rfl

theorem hear_awaitingResume {held resume : Slot r} (hphase : s.phase = .awaitingResume held resume)
    (leg : Leg.Id) (notification : Notification) :
    s.hear leg notification =
      if leg = resume.id then
        match notification.resumeExit? resume.id with
        | some (.ok _) => s.finish true
        | some (.error cause) => s.rollBack held cause
        | none => s
      else s := by
  by_cases hleg : leg = resume.id
  · subst hleg
    cases notification with
    | stateChanged state => cases state <;> simp [hear, hearState, hphase, Notification.resumeExit?]
    | connectionEvent event =>
      cases event <;> simp [hear, hearEvent, hphase, Notification.resumeExit?]
    | _ => exact (ite_self s).symm
  · rw [if_neg hleg]
    cases notification with
    | stateChanged state => simp [hear, hearState, hphase, Ne.symm hleg]
    | connectionEvent event => simp [hear, hearEvent, hphase, Ne.symm hleg]
    | _ => rfl

/-! ## The later phases of a swap -/

theorem explained_rollingBack {back : Slot r} {cause : Failure}
    (hphase : s.phase = .rollingBack back) (hopen : s.coordinator.outcome = none)
    (hcause : s.coordinator.failure = some cause) (single : ∀ turn ∈ turns, turn.Single) :
    (s.run turns).Explained (· = cause) := by
  induction turns generalizing s with
  | nil =>
    refine ⟨fun success hsome => ?_, fun _ => ⟨fun _ => ⟨back, hphase⟩, fun _ => ?_⟩, ?_⟩
    · cases hopen.symm.trans hsome
    · rw [run_nil, hcause]
      exact Option.some_ne_none _
    · intro other hother
      exact Option.some.inj (hother.symm.trans hcause)
  | cons turn later ih =>
    obtain ⟨hsingle, hlater⟩ := List.forall_mem_cons.mp single
    have hkept (hkeeps : s.coordinator.Keeps (s.turn turn).coordinator) :
        ((s.turn turn).run later).Explained (· = cause) :=
      ih (hkeeps.phase_eq.trans hphase) (hkeeps.outcome_eq.trans hopen)
        (hkeeps.failure_eq.trans hcause) hlater
    rw [run_cons]
    cases hreport : s.report? turn with
    | none => exact hkept (keeps_of_no_report (by simp [hphase]) hsingle hreport)
    | some report =>
      have hturn := turn_of_report hopen hreport
      rcases hear_rollingBack hphase report.1 report.2 with hsame | hfinish
      · exact hkept (by rw [hturn, hsame]; rfl)
      · rw [hturn, hfinish]
        exact explained_fail hopen hcause hlater

/-- What a swap gives up for stays its failure, whatever becomes of the rollback. -/
theorem explained_rollBack (hopen : s.coordinator.outcome = none)
    (hnone : s.coordinator.failure = none) (held : Slot r) (cause : Failure)
    (single : ∀ turn ∈ turns, turn.Single) :
    ((s.rollBack held cause).run turns).Explained (· = cause) := by
  have hrecorded := failure_recordFailure_of_none hnone cause
  unfold rollBack
  dsimp only
  split
  · have hopen' : ((s.recordFailure cause).enter (.rollingBack held)).coordinator.outcome = none :=
      (outcome_enter _ _).trans hopen
    have hcause : ((s.recordFailure cause).enter (.rollingBack held)).coordinator.failure =
        some cause := (failure_enter _ _).trans hrecorded
    exact explained_rollingBack rfl hopen' hcause single
  · exact explained_fail hopen hrecorded single

theorem explained_awaitingResume {held resume : Slot r}
    (hphase : s.phase = .awaitingResume held resume) (hopen : s.coordinator.outcome = none)
    (hnone : s.coordinator.failure = none) (single : ∀ turn ∈ turns, turn.Single) :
    (s.run turns).Explained fun cause => ∃ notification : Notification,
      notification.resumeExit? resume.id = some (.error cause) ∧
        s.Learns turns resume notification := by
  -- up to the first report that ends the wait, which the coordinator is told in the phase it is in
  induction turns generalizing s with
  | nil => exact explained_of_open hopen hnone (by simp [hphase])
  | cons turn later ih =>
    obtain ⟨hsingle, hlater⟩ := List.forall_mem_cons.mp single
    have hkept (hkeeps : s.coordinator.Keeps (s.turn turn).coordinator) :
        ((s.turn turn).run later).Explained fun cause => ∃ notification : Notification,
          notification.resumeExit? resume.id = some (.error cause) ∧
            s.Learns (turn :: later) resume notification := by
      refine (ih (hkeeps.phase_eq.trans hphase) (hkeeps.outcome_eq.trans hopen)
        (hkeeps.failure_eq.trans hnone) hlater).mono ?_
      rintro cause ⟨notification, hexit, hlearns⟩
      have hrun : (s.run [turn]).Learns later resume notification := hlearns
      exact ⟨notification, hexit, hrun.append⟩
    rw [run_cons]
    cases hreport : s.report? turn with
    | none => exact hkept (keeps_of_no_report (by simp [hphase]) hsingle hreport)
    | some report =>
      obtain ⟨leg, notification⟩ := report
      have hturn := turn_of_report hopen hreport
      rw [hear_awaitingResume hphase] at hturn
      split at hturn
      next hleg =>
        subst hleg
        split at hturn
        · rw [hturn]
          exact explained_succeed hopen hnone hlater
        next cause hexit =>
          rw [hturn]
          refine (explained_rollBack hopen hnone held cause hlater).mono ?_
          rintro _ rfl
          exact ⟨notification, hexit, [], turn, later, held, rfl, hphase, hreport⟩
        · exact hkept (by rw [hturn]; rfl)
      · exact hkept (by rw [hturn]; rfl)

/-! ## After the hold -/

section Ended

variable {m : Session b} {action : Action r} {hold leg : Slot r} {next : Continuation r}
  {later : List (Turn b)} {e : HoldEnd b} {done : List (Event r)}
  {reported : Slot r → Notification → Prop} {orders : List (Event r)}

theorem EndsHold.explained_failed (h : s.EndsHold action.hold next turns e done m later)
    (hexit : e.exit = .failed) :
    (s.run turns).Explained (action.Blames orders (some e) reported) := by
  have hcloses : Closes m (m.leaveHold action.hold next e.exit) next.dropping
      (some (.holdFailed action.hold.id)) := by
    rw [hexit]
    exact closes_holdFailed h.waits.expects.undecided h.waits.failure action.hold next
  obtain ⟨houtcome, hfailure, -⟩ := h.concluded hcloses
  refine explained_of_concluded houtcome hfailure ?_
  rintro _ ⟨⟩
  exact .hold rfl hexit

theorem EndsHold.explained_answer {video : Video}
    (h : s.EndsHold hold (.answer leg video) turns e done m later) (hexit : e.exit = .settled) :
    (s.run turns).Explained causes := by
  have hcloses : Closes m (m.leaveHold hold (.answer leg video) e.exit)
      (m.world.answering leg video) none := by
    rw [hexit]
    exact closes_answer h.waits.expects.undecided h.waits.failure hold leg video
  obtain ⟨houtcome, hfailure, -⟩ := h.concluded hcloses
  exact explained_of_concluded houtcome hfailure nofun

/-- Besides the order that has allocated the connection, a dial gives those by which it goes on. -/
theorem orders_of_deeds {call : OutgoingCall} {pending : ConnectionId}
    {requests acts told : List (Event r)} {observer : Observer}
    (hrequests : requests.Sublist [.asked hold .hold])
    (hdeeds : s.deeds turns = s.onset hold (.place leg call pending) ++ requests ++ acts ++
      .asked hold (.unregister observer) :: told)
    (htold : ∀ event ∈ told, event.call? ≠ none) :
    s.orders turns = .dialled leg call.callee (call.terms true) (.placed pending) ::
      acts.filter (·.isOrder) := by
  have hasked : requests.filter (·.isOrder) = [] := by
    refine List.filter_eq_nil_iff.mpr fun event hmem => ?_
    rw [List.mem_singleton.mp (hrequests.subset hmem)]
    exact Bool.false_ne_true
  have hcalled : told.filter (·.isOrder) = [] :=
    List.filter_eq_nil_iff.mpr fun event hmem => by
      simp [Event.isOrder_of_call? (htold event hmem)]
  have honset : (s.onset hold (.place leg call pending)).filter (·.isOrder) =
      [.dialled leg call.callee (call.terms true) (.placed pending)] := rfl
  rw [Session.orders, hdeeds, List.filter_append, List.filter_append, List.filter_append, honset,
    hasked, List.filter_cons_of_neg Bool.false_ne_true, hcalled, List.append_nil, List.append_nil]
  rfl

theorem EndsHold.explained_place {call : OutgoingCall} {pending : ConnectionId}
    {requests : List (Event r)} (hrequests : requests.Sublist [.asked hold .hold])
    (h : s.EndsHold hold (.place leg call pending) turns e
      (s.onset hold (.place leg call pending) ++ requests) m later)
    (hexit : e.exit = .settled) :
    (s.run turns).Explained
      ((Action.dial hold leg call).Blames (s.orders turns) (some e) reported) := by
  let placing :=
    m.world.placing leg call pending m.coordinator.policy m.coordinator.handler
  have hcloses : Closes m (m.leaveHold hold (.place leg call pending) e.exit) placing.1
      placing.2 := by
    rw [hexit]
    exact closes_place h.waits.expects.undecided h.waits.failure leg call pending
  obtain ⟨houtcome, hfailure, told, hdeeds, htold⟩ := h.concluded hcloses
  have horders := orders_of_deeds hrequests hdeeds htold
  refine explained_of_concluded houtcome hfailure fun cause hcause => ?_
  by_cases hgone : m.world.state leg = .disconnected
  · simp only [placing, World.placing_of_gone hgone] at hcause
    obtain rfl := Option.some.inj hcause
    exact .dialGone rfl ⟨hexit, h.world ▸ hgone⟩
  · cases hanswer : m.world.nextAnswer leg with
    | placed placed =>
      simp only [placing, World.placing_of_placed hgone hanswer] at hcause horders
      by_cases hsame : placed = pending
      · rw [if_pos hsame] at hcause
        cases hcause
      · rw [if_neg hsame] at hcause horders
        obtain rfl := Option.some.inj hcause
        exact .dialMismatch horders (Ne.symm hsame)
    | raised fault =>
      simp only [placing, World.placing_of_raised hgone hanswer] at hcause horders
      obtain rfl := Option.some.inj hcause
      have hordered : .dialled leg call.callee (call.terms false) (.raised fault) ∈
          s.orders turns := by
        rw [horders]
        exact List.mem_cons_of_mem _ (List.mem_filter.mpr ⟨List.mem_cons_self, rfl⟩)
      exact .dialRaised hordered

theorem EndsHold.explained_resume
    (h : s.EndsHold hold (.resume leg) turns e done m later) (hexit : e.exit = .settled) :
    (s.run turns).Explained ((Action.swap hold leg).Blames orders (some e) (s.Learns turns)) := by
  obtain ⟨before, rfl, hreached⟩ := h.reached
  have hopen : m.coordinator.outcome = none := h.waits.expects.undecided
  have hnone : m.coordinator.failure = none := h.waits.failure
  rw [hexit, leaveHold, holdSettled] at hreached
  rw [run_append]
  split at hreached
  · -- the wait for the other leg has begun, so its reports are what counts from here on
    have hopen' : (s.run before).coordinator.outcome = none := by
      rw [hreached]
      exact (outcome_enter m (.awaitingResume hold leg)).trans hopen
    have hnone' : (s.run before).coordinator.failure = none := by
      rw [hreached]
      exact (failure_enter m (.awaitingResume hold leg)).trans hnone
    have hphase : (s.run before).phase = .awaitingResume hold leg := by
      rw [hreached]
      rfl
    refine (explained_awaitingResume hphase hopen' hnone' h.laterSingle).mono ?_
    rintro cause ⟨notification, hresumeExit, hlearns⟩
    exact Action.blames_of_resumeExit hresumeExit hlearns.append
  · rw [hreached]
    exact explained_succeed hopen hnone h.laterSingle
  next hholding hactive =>
    rw [hreached]
    refine (explained_rollBack hopen hnone hold _ h.laterSingle).mono ?_
    rintro _ rfl
    exact .swapGone rfl ⟨hexit, h.world ▸ rfl⟩ ⟨hholding, hactive⟩

end Ended

theorem Unstarted.explained {action : Action r} (h : s.Unstarted action)
    (single : ∀ turn ∈ turns, turn.Single) :
    (s.run turns).Explained
      (action.Blames (s.orders turns) (s.holdEnd? action turns) (s.Learns turns)) := by
  have hcourse := h.course single
  generalize s.holdEnd? action turns = ended at hcourse ⊢
  cases hcourse with
  | unstarted hrun _ => exact explained_of_open hrun.undecided hrun.failure (by simp [hrun.phase])
  | waiting _ hrun _ =>
    exact explained_of_open hrun.expects.undecided hrun.failure (by simp [hrun.phase])
  | @refused hold leg call fault told haction houtcome hfailure hdeeds _ =>
    subst haction
    have hordered : .dialled leg call.callee (call.terms true) (.raised fault) ∈
        s.orders turns := by
      rw [orders, hdeeds]
      exact List.mem_filter.mpr ⟨List.mem_cons_self, rfl⟩
    have hfalse : false = (some (Failure.dialRaised fault)).isNone := rfl
    rw [hfalse] at houtcome
    refine explained_of_concluded houtcome hfailure ?_
    rintro _ ⟨⟩
    exact .dialRaised hordered
  | @ended next e requests m later hleaves hrequests hends =>
    cases hexit : e.exit with
    | failed => exact hends.explained_failed hexit
    | settled =>
      cases action with
      | answer hold leg video =>
        cases hleaves
        exact hends.explained_answer hexit
      | dial hold leg call =>
        obtain ⟨pending, rfl⟩ := hleaves
        exact hends.explained_place hrequests hexit
      | swap hold leg =>
        cases hleaves
        exact hends.explained_resume hexit

end Session

/-- Whatever the legs do and whatever else happens: after a run of public operations an outcome is
a failure exactly if a failure is recorded, before there is an outcome one is recorded exactly
while a swap rolls back, and no operation replaces it. What it names has come to pass in this run:
the wait for the hold ended in a failure; or, when the hold had settled, the other leg was found in
a state in which the action cannot go on; or that leg was reported lost, or unable to resume, while
the coordinator waited for it to resume; or the dial orders of this run were answered in this way.
Where the mailbox is worked through, the reports are told signal by signal. -/
theorem failure_names_cause (action : Action r) (policy : Policy) (handler : Option FaultHandler)
    (observer : Observer) (w : World b) (turns : List (Turn b))
    (allPublic : ∀ turn ∈ turns, turn.Public) :
    let start := Session.opened (.action action policy handler) observer w
    let s := start.run turns
    (s.coordinator.outcome = some false ↔
      s.coordinator.isCompleted = true ∧ s.coordinator.failure ≠ none) ∧
    (s.coordinator.outcome = some true ↔
      s.coordinator.isCompleted = true ∧ s.coordinator.failure = none) ∧
    (s.coordinator.isCompleted = false →
      (s.coordinator.failure ≠ none ↔ ∃ back, s.phase = .rollingBack back)) ∧
    ∀ cause, s.coordinator.failure = some cause →
      action.Blames (start.orders turns) (start.holdEnd? action (start.unrolled turns))
        (start.Learns (start.unrolled turns)) cause ∧ cause ≠ .alreadyStarted ∧
        ∀ later, (s.run later).coordinator.failure = some cause := by
  intro start s
  have hunstarted := Session.unstarted_opened action policy handler observer w
  have hs := hunstarted.explained (start.single_unrolled allPublic)
  have horders : start.orders (start.unrolled turns) = start.orders turns := by
    rw [Session.orders, Session.deeds_unrolled, Session.orders]
  rw [start.run_unrolled, horders] at hs
  refine ⟨?_, ?_, ?_, fun cause hcause => ⟨?_, ?_, ?_⟩⟩
  · simpa using hs.outcome_iff false
  · simpa using hs.outcome_iff true
  · intro hcompleted
    have hopen : s.coordinator.outcome = none := by
      simpa [Coordinator.isCompleted] using hcompleted
    exact hs.rolling hopen
  · exact hs.blamed cause hcause
  · rintro rfl
    cases hs.blamed _ hcause
  · exact Session.failure_run hcause

/-- A dial whose call is placed under another connection than the one that was allocated. -/
theorem failure_names_cause_of_dial :
    let w : World (Script.behaviour (r := [⟨"a"⟩, ⟨"b"⟩]) {}) :=
      .fresh #v[{ state := .active },
        { state := .idle, answers := [.placed ⟨"first"⟩, .placed ⟨"second"⟩] }] ()
    let call : OutgoingCall := ⟨.address "5550100", .audioOnly, none⟩
    let turns : List (Turn (Script.behaviour (r := [⟨"a"⟩, ⟨"b"⟩]) {})) :=
      [.perform .start, .perform (.dispatch ⟨⟨"a"⟩, 1, .stateChanged .holding⟩)]
    let start := Session.opened (.action (.dial 0 1 call) {} none) ⟨0⟩ w
    (∀ turn ∈ turns, turn.Public) ∧
      (start.run turns).coordinator.failure = some (.identityMismatch ⟨"first"⟩ ⟨"second"⟩) ∧
      (start.run turns).coordinator.outcome = some false ∧
      start.orders turns = [.dialled 1 call.callee (call.terms true) (.placed ⟨"first"⟩),
        .dialled 1 call.callee (call.terms false) (.placed ⟨"second"⟩)] := by
  intro w call turns start
  have allPublic : ∀ turn ∈ turns, turn.Public := by
    simp [turns, Turn.Public, Operation.isPublic]
  have hfailure : (start.run turns).coordinator.failure =
      some (.identityMismatch ⟨"first"⟩ ⟨"second"⟩) := by decide
  have hsome : (start.run turns).coordinator.failure ≠ none := by
    rw [hfailure]
    exact Option.some_ne_none _
  have hcompleted : (start.run turns).coordinator.isCompleted = true := by decide
  obtain ⟨hfalse, -, -, hcause⟩ :=
    failure_names_cause (.dial 0 1 call) {} none ⟨0⟩ w turns allPublic
  refine ⟨allPublic, hfailure, ?_, ?_⟩
  · exact hfalse.mpr ⟨hcompleted, hsome⟩
  · obtain ⟨hblames, -, -⟩ := hcause _ hfailure
    cases hblames with
    | dialMismatch horders _ => exact horders

end CallCoordination
