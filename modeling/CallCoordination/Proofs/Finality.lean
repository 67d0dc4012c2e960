import CallCoordination.Proofs.Session.Deeds
import CallCoordination.Proofs.Session.Wire

/-!
# Completion is final

A coordination that is done stays as it is. Signals are turned away because the outcome is known,
and what is said to the handlers directly because the phase heeds nothing; a start is refused. So
what still waits in the mailbox when the deciding signal is heard will wait there for ever.
-/

namespace CallCoordination

variable {r : Roster} {b : Behaviour r}

namespace Coordinator

/-- What an operation answers once the outcome is known. -/
def lateReply (c : Coordinator r) : Operation r → Reply
  | .start => .started (.error .alreadyStarted)
  | .process => .processed 0
  | .serve => .served c.outcome
  | .removeListener listener => .removed (listener ∈ c.listeners)
  | _ => .done

/-- The coordinator after an operation, once the outcome is known. -/
def afterwards (c : Coordinator r) : Operation r → Coordinator r
  | .addListener listener => c.addListener listener
  | .removeListener listener => c.removeListener listener
  | .setHandler handler => { c with handler := some handler }
  | _ => c

/-- Only listeners and handler may be others. -/
def Keeps (c c' : Coordinator r) : Prop :=
  c' = { c with listeners := c'.listeners, handler := c'.handler }

theorem keeps_afterwards (c : Coordinator r) (operation : Operation r) :
    c.Keeps (c.afterwards operation) := by
  cases operation <;> rfl

theorem Keeps.trans {c c' c'' : Coordinator r} (h : c.Keeps c') (h' : c'.Keeps c'') :
    c.Keeps c'' := by
  unfold Keeps at h' ⊢
  rw [h', h]

theorem Keeps.phase_eq {c c' : Coordinator r} (h : c.Keeps c') : c'.phase = c.phase :=
  congrArg (·.phase) h

theorem Keeps.outcome_eq {c c' : Coordinator r} (h : c.Keeps c') : c'.outcome = c.outcome :=
  congrArg (·.outcome) h

theorem Keeps.failure_eq {c c' : Coordinator r} (h : c.Keeps c') : c'.failure = c.failure :=
  congrArg (·.failure) h

end Coordinator

namespace Session

/-! ## The operation that completes -/

/-- One signal after the other was taken from the mailbox and heard, and the last one decided. -/
structure Decides (s t : Session b) (before : List Signal) (deciding : Signal) : Prop where
  heard : s.pending.map Prod.fst = before ++ [deciding]
  undecided : (s.run (hearing before)).coordinator.outcome = none
  last : s.run (hearing (before ++ [deciding])) = t
  /-- Those that waited behind the last one still do, in the same order. -/
  left : ∃ behind, (s.run (hearing before)).mailbox = deciding :: behind ∧ behind <+: t.mailbox

theorem exists_decides {s : Session b} (hopen : s.coordinator.outcome = none)
    (hdone : s.processPending.2.coordinator.outcome ≠ none) :
    ∃ before deciding, s.Decides s.processPending.2 before deciding := by
  -- along the signals that are heard, up to the first one after which the outcome is known
  fun_induction pending s with
  | case1 s hcompleted => simp [Coordinator.isCompleted, hopen] at hcompleted
  | case2 s _ hnone =>
    rw [processPending_of_pop_eq_none hnone] at hdone
    exact absurd hopen hdone
  | case3 s hincomplete signal t hsome ih =>
    rw [processPending_of_pop hincomplete hsome] at hdone ⊢
    have hpending := pending_of_pop_eq_some hincomplete hsome
    have hwaiting := (pop_eq_some hsome).2
    cases hout : (t.dispatch signal).coordinator.outcome with
    | some success =>
      have hcompleted : (t.dispatch signal).coordinator.isCompleted = true := by
        simp [Coordinator.isCompleted, hout]
      have htakes : (Operation.dispatch signal : Operation r).takes = false := rfl
      have hkept : t.mailbox <+: (t.dispatch signal).mailbox := mailbox_perform t htakes
      rw [processPending_of_completed hcompleted]
      refine ⟨[], signal, ?_, hopen, run_hearing_cons hsome [], t.mailbox, hwaiting, hkept⟩
      rw [hpending, pending_of_completed hcompleted]
      rfl
    | none =>
      obtain ⟨before, deciding, hdecides⟩ := ih hout hdone
      obtain ⟨behind, hbehind, hkept⟩ := hdecides.left
      refine ⟨signal :: before, deciding, ?_, ?_, ?_, behind, ?_, hkept⟩
      · rw [hpending, List.map_cons, hdecides.heard, List.cons_append]
      · rw [run_hearing_cons hsome]
        exact hdecides.undecided
      · rw [List.cons_append, run_hearing_cons hsome]
        exact hdecides.last
      · rw [run_hearing_cons hsome]
        exact hbehind

/-! ## Ever after -/

theorem perform_of_done {s : Session b} (hphase : s.phase = .done) {success : Bool}
    (hsome : s.coordinator.outcome = some success) {operation : Operation r}
    (hpublic : operation.isPublic = true) :
    s.perform operation =
      (s.coordinator.lateReply operation, ⟨s.coordinator.afterwards operation, s.world⟩) := by
  have hcompleted : s.coordinator.isCompleted = true := by simp [Coordinator.isCompleted, hsome]
  cases operation with
  | start => simp only [perform, start, hphase, Coordinator.lateReply, Coordinator.afterwards]
  | process => rw [perform, processPending_of_completed hcompleted]; rfl
  | serve =>
    rw [perform, serve_of_completed hsome, ← hsome]
    rfl
  | dispatch signal => rw [perform, dispatch_of_decided (by simp [hsome])]; rfl
  | hearState leg state => simp only [perform, hearState, hphase]; rfl
  | hearEvent leg event => simp only [perform, hearEvent, hphase]; rfl
  | addListener _ | removeListener _ | setHandler _ => rfl
  | watchExactly _ | rewatch _ | complete _ | recordFailure _ | pop =>
    simp [Operation.isPublic] at hpublic

theorem turn_of_done {s : Session b} (hphase : s.phase = .done) {success : Bool}
    (hsome : s.coordinator.outcome = some success) {turn : Turn b} (hpublic : turn.Public) :
    s.coordinator.Keeps (s.turn turn).coordinator ∧ s.deedsIn turn = [] := by
  cases turn with
  | elsewhere other operation => exact ⟨rfl, rfl⟩
  | stir memory effects => exact ⟨rfl, rfl⟩
  | perform operation =>
    rcases hpublic with rfl | hpublic
    · simp only [turn, deedsIn, perform]
      split
      · exact ⟨rfl, by simp⟩
      next signal t hpop =>
        rw [(pop_eq_some hpop).1, trace_pop hpop]
        exact ⟨rfl, by simp⟩
    · have hperform := perform_of_done hphase hsome hpublic
      simp only [turn, deedsIn, hperform]
      exact ⟨Coordinator.keeps_afterwards _ _, by simp⟩

theorem run_of_done {s : Session b} (hphase : s.phase = .done) {success : Bool}
    (hsome : s.coordinator.outcome = some success) {turns : List (Turn b)}
    (allPublic : ∀ turn ∈ turns, turn.Public) :
    s.coordinator.Keeps (s.run turns).coordinator ∧ s.deeds turns = [] := by
  induction turns generalizing s with
  | nil => exact ⟨rfl, rfl⟩
  | cons turn later ih =>
    obtain ⟨hkeeps, hdeeds⟩ := turn_of_done hphase hsome (allPublic turn List.mem_cons_self)
    obtain ⟨hlater, hnone⟩ := ih (hkeeps.phase_eq.trans hphase) (hkeeps.outcome_eq.trans hsome)
      fun t ht => allPublic t (List.mem_cons_of_mem turn ht)
    rw [run_cons, deeds, hdeeds, hnone]
    exact ⟨hkeeps.trans hlater, rfl⟩

end Session

/-- After any run of public operations, whatever legs do. If an operation completes the
coordination, then the signals behind the one that decided stay in the mailbox; an operation that
takes none from it leaves it as it is. Once the outcome is known, no further run of public
operations asks, dials or calls anybody, and the coordinator stays the same but for its listeners
and handler. Whatever world it finds itself in, an operation answers the same and leaves that world
as it is: `processPending` takes nothing, `serve` answers with the outcome, and a start is
refused. -/
theorem completion_is_final (action : Action r) (policy : Policy) (handler : Option FaultHandler)
    (observer : Observer) (w : World b) (turns : List (Turn b))
    (allPublic : ∀ turn ∈ turns, turn.Public) :
    let s := (Session.opened (.action action policy handler) observer w).run turns
    (∀ operation, operation.isPublic = true → s.coordinator.outcome = none →
      let t := (s.perform operation).2
      t.coordinator.outcome ≠ none →
        if operation.takes then ∃ before deciding, s.Decides t before deciding
        else s.mailbox <+: t.mailbox) ∧
    ∀ success, s.coordinator.outcome = some success →
      s.phase = .done ∧ s.coordinator.watches = [] ∧
      ∀ later, (∀ turn ∈ later, turn.Public) →
        let c := (s.run later).coordinator
        s.coordinator.Keeps c ∧ s.deeds later = [] ∧
        ∀ (world : World b) (operation : Operation r), operation.isPublic = true →
          Session.perform ⟨c, world⟩ operation =
            (c.lateReply operation, ⟨c.afterwards operation, world⟩) := by
  intro s
  have htracks : Session.Tracks action s :=
    (Session.Tracks.opened action policy handler observer w).run allPublic
  constructor
  · intro operation hpublic hopen t hdone
    split
    next htakes =>
      cases operation with
      | process => exact Session.exists_decides hopen hdone
      | serve =>
        have hsame : t = s.processPending.2 := congrArg Prod.snd (Session.serve_eq s)
        rw [hsame] at hdone ⊢
        exact Session.exists_decides hopen hdone
      | pop => simp [Operation.isPublic] at hpublic
      | _ => simp [Operation.takes] at htakes
    next htakes => exact Session.mailbox_perform s (Bool.eq_false_iff.mpr htakes)
  · intro success hsome
    have hphase : s.phase = .done := htracks.done_iff.mpr (by simp [hsome])
    have hwatches : s.coordinator.watches = [] := by
      have hids := htracks.watched
      rw [hphase] at hids
      exact List.map_eq_nil_iff.mp hids
    refine ⟨hphase, hwatches, fun later hlater => ?_⟩
    intro c
    obtain ⟨hkeeps, hdeeds⟩ := Session.run_of_done hphase hsome hlater
    refine ⟨hkeeps, hdeeds, fun world operation hpublic => ?_⟩
    exact Session.perform_of_done (s := ⟨c, world⟩) (hkeeps.phase_eq.trans hphase)
      (hkeeps.outcome_eq.trans hsome) hpublic

/-- The leg to hold never forgets a registration, and it changes its state twice more before the
coordinator hears that it is on hold. -/
theorem completion_is_final_of_sticky :
    let w : World (Script.behaviour (r := [⟨"a"⟩, ⟨"b"⟩]) {}) :=
      .fresh #v[{ state := .active, sticky := true }, { state := .ringing }] ()
    let turns : List (Turn (Script.behaviour (r := [⟨"a"⟩, ⟨"b"⟩]) {})) :=
      [.perform (.addListener ⟨"l"⟩), .perform .start,
        .stir () [.changeState 0 .holding, .changeState 0 .active, .changeState 0 .disconnected]]
    let later : List (Turn (Script.behaviour (r := [⟨"a"⟩, ⟨"b"⟩]) {})) :=
      [.stir () [.changeState 0 .holding], .perform .start,
        .perform (.hearState ⟨"a"⟩ .holding),
        .perform (.dispatch ⟨⟨"a"⟩, 1, .stateChanged .active⟩)]
    let s := (Session.opened (.action (.answer 0 1 .audioOnly) {} none) ⟨0⟩ w).run turns
    let t := (s.perform .process).2
    let active : Signal := ⟨⟨"a"⟩, 1, .stateChanged .active⟩
    let gone : Signal := ⟨⟨"a"⟩, 1, .stateChanged .disconnected⟩
    let held : Signal := ⟨⟨"a"⟩, 1, .stateChanged .holding⟩
    (∀ turn ∈ turns, turn.Public) ∧ (∀ turn ∈ later, turn.Public) ∧
      s.coordinator.outcome = none ∧ t.coordinator.outcome = some true ∧
      (∃ before deciding, s.Decides t before deciding) ∧ t.mailbox = [active, gone] ∧
      t.deeds later = [] ∧ (t.run later).mailbox = [active, gone, held] ∧
      (t.run later).perform .process = (.processed 0, t.run later) := by
  intro w turns later s t active gone held
  have allPublic : ∀ turn ∈ turns, turn.Public := by
    simp [turns, Turn.Public, Operation.isPublic]
  have allPublic' : ∀ turn ∈ turns ++ [.perform .process], turn.Public := by
    simp [turns, Turn.Public, Operation.isPublic]
  have laterPublic : ∀ turn ∈ later, turn.Public := by
    simp [later, Turn.Public, Operation.isPublic]
  have hopen : s.coordinator.outcome = none := by decide
  have hheard : (s.hearUpTo 1).coordinator.isCompleted = true := by decide
  have ht : t = s.hearUpTo 1 := Session.processPending_eq_of_completed hheard
  have hdone : t.coordinator.outcome = some true := by rw [ht]; decide
  have hne : t.coordinator.outcome ≠ none := by simp [hdone]
  have hrun : (Session.opened (.action (.answer 0 1 .audioOnly) {} none) ⟨0⟩ w).run
      (turns ++ [.perform .process]) = t := Session.run_append _ _ _
  obtain ⟨hdecided, -⟩ :=
    completion_is_final (.answer 0 1 .audioOnly) {} none ⟨0⟩ w turns allPublic
  have hfinal :=
    (completion_is_final (.answer 0 1 .audioOnly) {} none ⟨0⟩ w _ allPublic').2 true
  rw [hrun] at hfinal
  obtain ⟨-, -, hlater⟩ := hfinal hdone
  obtain ⟨-, hdeeds, hlate⟩ := hlater later laterPublic
  refine ⟨allPublic, laterPublic, hopen, hdone, ?_, ?_, hdeeds, ?_, ?_⟩
  · exact hdecided .process rfl hopen hne
  · rw [ht]
    decide
  · rw [ht]
    decide
  · exact hlate (t.run later).world .process rfl

end CallCoordination
