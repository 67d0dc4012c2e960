import CallCoordination.Proofs.Session.Course

/-!
# Placing a call that was allocated

A dial orders its call twice. Once the hold has settled, the second order says the same as the
first, except that it is for real, and its answer is checked against the connection that the first
one has allocated.
-/

namespace CallCoordination

variable {r : Roster} {b : Behaviour r}

namespace Event

/-- A dial order that is for real. -/
def isPlacing : Event r → Bool
  | dialled _ _ terms _ => !terms.deferred
  | _ => false

/-- What a dial may do about its call once the hold has ended. -/
def concludes : Event r → Bool
  | asked _ (.disconnect _) => true
  | asked _ (.answer _) => true
  | dialled _ _ terms _ => !terms.deferred
  | faultReported .. => true
  | _ => false

theorem concludes_of_isPlacing {event : Event r} (h : event.isPlacing = true) :
    event.concludes = true := by
  cases event <;> simp_all [isPlacing, concludes]

theorem call?_of_concludes {event : Event r} (h : event.concludes = true) :
    event.call? = none := by
  cases event <;> simp_all [call?, concludes]

/-- Neither about the call nor told to a listener. -/
def IsAside (event : Event r) : Prop := event.concludes = false ∧ event.call? = none

/-- What a dial does, with what it does about its call in the middle and its listeners last. -/
theorem acts_of_deeds {deeds begun acts dropped told : List (Event r)}
    (hdeeds : deeds = begun ++ acts ++ dropped ++ told)
    (hbegun : ∀ event ∈ begun, event.IsAside) (hacts : ∀ event ∈ acts, event.concludes = true)
    (hdropped : ∀ event ∈ dropped, event.IsAside) (htold : ∀ event ∈ told, event.call? ≠ none) :
    deeds.filter (·.concludes) = acts ∧ ∃ before told, deeds = before ++ told ∧
      (∀ event ∈ before, event.call? = none) ∧ ∀ event ∈ told, event.call? ≠ none := by
  have haside {events : List (Event r)} (h : ∀ event ∈ events, event.concludes = false) :
      events.filter (·.concludes) = [] :=
    List.filter_eq_nil_iff.mpr fun event hmem => by simp [h event hmem]
  have hcalled : ∀ event ∈ told, event.concludes = false := by
    intro event hmem
    refine Bool.eq_false_iff.mpr fun hconcludes => ?_
    exact htold event hmem (call?_of_concludes hconcludes)
  refine ⟨?_, begun ++ acts ++ dropped, told, hdeeds, ?_, htold⟩
  · rw [hdeeds, List.filter_append, List.filter_append, List.filter_append,
      haside fun event hmem => (hbegun event hmem).1, List.filter_eq_self.mpr hacts,
      haside fun event hmem => (hdropped event hmem).1, haside hcalled]
    simp
  · intro event hmem
    simp only [List.mem_append] at hmem
    rcases hmem with (hmem | hmem) | hmem
    · exact (hbegun event hmem).2
    · exact call?_of_concludes (hacts event hmem)
    · exact (hdropped event hmem).2

end Event

/-! ## The second order -/

namespace World

variable {w : World b} {leg : Slot r} {call : OutgoingCall} {pending : ConnectionId}
  {policy : Policy} {handler : Option FaultHandler}

/-- One order is given for real, unless the leg is gone. -/
theorem filter_isPlacing_placing :
    (w.placing leg call pending policy handler).1.filter (·.isPlacing) =
      if w.state leg = .disconnected then []
      else [.dialled leg call.callee (call.terms false) (w.nextAnswer leg)] := by
  by_cases hgone : w.state leg = .disconnected
  · rw [placing_of_gone hgone, if_pos hgone]
    rfl
  · rw [if_neg hgone]
    cases hnext : w.nextAnswer leg with
    | placed placed =>
      rw [placing_of_placed hgone hnext]
      split
      · rfl
      · rfl
    | raised fault =>
      rw [placing_of_raised hgone hnext, List.filter_cons_of_pos rfl]
      cases handler <;> rfl

theorem concludes_placing :
    ∀ event ∈ (w.placing leg call pending policy handler).1, event.concludes = true := by
  intro event hmem
  by_cases hgone : w.state leg = .disconnected
  · rw [placing_of_gone hgone] at hmem
    cases hmem
  · cases hnext : w.nextAnswer leg with
    | placed placed =>
      rw [placing_of_placed hgone hnext] at hmem
      split at hmem
      · obtain rfl := List.mem_singleton.mp hmem
        rfl
      · simp only [List.mem_cons, List.not_mem_nil, or_false] at hmem
        rcases hmem with rfl | rfl
        · rfl
        · rfl
    | raised fault =>
      rw [placing_of_raised hgone hnext] at hmem
      rcases List.mem_cons.mp hmem with rfl | hmem
      · rfl
      · obtain ⟨_, -, rfl⟩ := List.mem_map.mp hmem
        rfl

theorem placing_succeeds_iff :
    (w.placing leg call pending policy handler).2 = none ↔
      w.state leg ≠ .disconnected ∧ w.nextAnswer leg = .placed pending := by
  by_cases hgone : w.state leg = .disconnected
  · simp [placing_of_gone hgone, hgone]
  · cases hnext : w.nextAnswer leg with
    | placed placed =>
      rw [placing_of_placed hgone hnext]
      split <;> simp_all
    | raised fault => simp [placing_of_raised hgone hnext]

end World

/-- What a dial does about its call when the hold has ended so, and what goes wrong with it. -/
def HoldEnd.verdict (e : HoldEnd b) (hold leg : Slot r) (call : OutgoingCall)
    (pending : ConnectionId) (policy : Policy) (handler : Option FaultHandler) :
    List (Event r) × Option Failure :=
  match e.exit with
  | .settled => e.world.placing leg call pending policy (lastHandler handler e.before)
  | .failed => ([.asked leg (.disconnect .errorUnspecified)], some (.holdFailed hold.id))

namespace HoldEnd

variable {e : HoldEnd b} {hold leg : Slot r} {call : OutgoingCall} {pending : ConnectionId}
  {policy : Policy} {handler : Option FaultHandler}

theorem verdict_of_settled (h : e.exit = .settled) :
    e.verdict hold leg call pending policy handler =
      e.world.placing leg call pending policy (lastHandler handler e.before) := by
  simp only [verdict, h]

theorem verdict_of_failed (h : e.exit = .failed) :
    e.verdict hold leg call pending policy handler =
      ([.asked leg (.disconnect .errorUnspecified)], some (.holdFailed hold.id)) := by
  simp only [verdict, h]

theorem concludes_verdict :
    ∀ event ∈ (e.verdict hold leg call pending policy handler).1, event.concludes = true := by
  unfold verdict
  split
  · exact World.concludes_placing
  · simp [Event.concludes]

theorem mem_verdict_iff {event : Event r} :
    event ∈ (e.verdict hold leg call pending policy handler).1 ∧ event.isPlacing = true ↔
      e.exit = .settled ∧ e.world.state leg ≠ .disconnected ∧
        event = .dialled leg call.callee (call.terms false) (e.world.nextAnswer leg) := by
  cases hexit : e.exit with
  | settled =>
    rw [verdict_of_settled hexit, ← List.mem_filter, World.filter_isPlacing_placing]
    split <;> simp_all
  | failed => simp +contextual [verdict_of_failed hexit, Event.isPlacing]

theorem verdict_succeeds_iff :
    (e.verdict hold leg call pending policy handler).2 = none ↔
      e.exit = .settled ∧ e.world.state leg ≠ .disconnected ∧
        e.world.nextAnswer leg = .placed pending := by
  cases hexit : e.exit with
  | settled => simp [verdict_of_settled hexit, World.placing_succeeds_iff]
  | failed => simp [verdict_of_failed hexit]

end HoldEnd

namespace Session

variable {s m : Session b} {hold leg : Slot r} {call : OutgoingCall} {pending : ConnectionId}

theorem closes_leaveHold_place (h : m.Waits hold (.place leg call pending)) {e : HoldEnd b}
    (hworld : m.world = e.world) {handler : Option FaultHandler}
    (hhandler : m.coordinator.handler = lastHandler handler e.before) :
    let verdict := e.verdict hold leg call pending m.coordinator.policy handler
    Closes m (m.leaveHold hold (.place leg call pending) e.exit) verdict.1 verdict.2 := by
  intro verdict
  cases hexit : e.exit with
  | settled =>
    simp only [verdict, HoldEnd.verdict_of_settled hexit, ← hworld, ← hhandler]
    exact closes_place h.expects.undecided h.failure leg call pending
  | failed =>
    simp only [verdict, HoldEnd.verdict_of_failed hexit]
    exact closes_holdFailed h.expects.undecided h.failure hold (.place leg call pending)

/-- What a coordinator did once its connection was allocated: `acts` is what it did about the call,
and only listeners were told after that. -/
structure Places (deeds : List (Event r)) (c : Coordinator r) (ended : Option (HoldEnd b))
    (verdict : HoldEnd b → List (Event r) × Option Failure) (acts : List (Event r)) : Prop where
  concludes : deeds.filter (·.concludes) = acts
  calls : ∃ before told, deeds = before ++ told ∧
    (∀ event ∈ before, event.call? = none) ∧ ∀ event ∈ told, event.call? ≠ none
  waiting : ended = none → acts = [] ∧ c.outcome = none
  concluded : ∀ e ∈ ended,
    acts = (verdict e).1 ∧ c.failure = (verdict e).2 ∧ c.outcome = some (verdict e).2.isNone

theorem mem_onset_place {slot : Slot r} {callee : Callee} {terms : DialTerms}
    {answer : DialAnswer} (h : .dialled slot callee terms answer ∈
      s.onset hold (.place leg call pending) ++ [.asked hold .hold]) :
    slot = leg ∧ callee = call.callee ∧ terms = call.terms true ∧ answer = .placed pending := by
  simpa [onset, Continuation.allocation] using h

theorem isAside_onset_place :
    ∀ event ∈ s.onset hold (.place leg call pending) ++ [.asked hold .hold], event.IsAside := by
  simp [onset, Continuation.allocation, Event.IsAside, Event.concludes, Event.call?,
    OutgoingCall.terms]

theorem Unstarted.places {turns : List (Turn b)} (h : s.Unstarted (.dial hold leg call))
    (single : ∀ turn ∈ turns, turn.Single) {slot : Slot r} {callee : Callee} {terms : DialTerms}
    (deferred : terms.deferred = true)
    (allocated : .dialled slot callee terms (.placed pending) ∈ s.deeds turns) :
    slot = leg ∧ callee = call.callee ∧ terms = call.terms true ∧
    ∃ acts, Places (s.deeds turns) (s.run turns).coordinator
      (s.holdEnd? (.dial hold leg call) turns)
      (·.verdict hold leg call pending s.coordinator.policy s.coordinator.handler) acts := by
  have hcourse := h.course single
  generalize s.holdEnd? (.dial hold leg call) turns = ended at hcourse
  cases hcourse with
  | unstarted hrun hdeeds =>
    rw [hdeeds] at allocated
    cases allocated
  | refused haction _ _ hdeeds htold =>
    rw [hdeeds] at allocated
    rcases List.mem_cons.mp allocated with heq | hmem
    · cases heq
    · exact absurd rfl (htold _ hmem)
  | waiting hleaves hrun hdeeds =>
    obtain ⟨allocation, rfl⟩ := hleaves
    rw [hdeeds] at allocated
    obtain ⟨hslot, hcallee, hterms, hplaced⟩ := mem_onset_place allocated
    have hshape : s.deeds turns =
        s.onset hold (.place leg call allocation) ++ [.asked hold .hold] ++ [] ++ [] ++ [] := by
      rw [hdeeds, List.append_nil, List.append_nil, List.append_nil]
      rfl
    obtain ⟨hacts, hcalls⟩ :=
      Event.acts_of_deeds hshape isAside_onset_place (by simp) (by simp) (by simp)
    exact ⟨hslot, hcallee, hterms, [], hacts, hcalls, fun _ => ⟨rfl, hrun.expects.undecided⟩,
      fun _ hmem => by cases hmem⟩
  | @ended next e requests m later hleaves hrequests hends =>
    obtain ⟨allocation, rfl⟩ := hleaves
    have hcloses := closes_leaveHold_place hends.waits hends.world hends.handler
    rw [hends.policy] at hcloses
    obtain ⟨houtcome, hfailure, told, hdeeds, htold⟩ := hends.concluded hcloses
    rw [List.append_cons] at hdeeds
    have hbegun := ((List.Sublist.refl (s.onset hold (.place leg call allocation))).append
      hrequests).subset
    have hfirst : .dialled slot callee terms (.placed pending) ∈
        s.onset hold (.place leg call allocation) ++ requests := by
      rw [hdeeds] at allocated
      rcases List.mem_append.mp allocated with hmem | hmem
      · rcases List.mem_append.mp hmem with hmem | hmem
        · rcases List.mem_append.mp hmem with hmem | hmem
          · exact hmem
          · simpa [Event.concludes, deferred] using HoldEnd.concludes_verdict _ hmem
        · cases List.mem_singleton.mp hmem
      · exact absurd rfl (htold _ hmem)
    obtain ⟨hslot, hcallee, hterms, hplaced⟩ := mem_onset_place (hbegun hfirst)
    obtain rfl := DialAnswer.placed.inj hplaced
    obtain ⟨hacts, hcalls⟩ := Event.acts_of_deeds hdeeds
      (fun event hmem => isAside_onset_place event (hbegun hmem)) HoldEnd.concludes_verdict
      (by simp [Event.IsAside, Event.concludes, Event.call?]) htold
    refine ⟨hslot, hcallee, hterms, _, hacts, hcalls, (fun hnone => by cases hnone), ?_⟩
    rintro _ ⟨⟩
    exact ⟨rfl, hfailure, houtcome⟩

namespace Places

variable {deeds : List (Event r)} {c : Coordinator r} {ended : Option (HoldEnd b)}
  {policy : Policy} {handler : Option FaultHandler} {acts : List (Event r)}
  (h : Places deeds c ended (·.verdict hold leg call pending policy handler) acts)

include h

/-- The order for real is given if the hold settles and the leg is still there. -/
theorem mem_iff {event : Event r} :
    event ∈ deeds ∧ event.isPlacing = true ↔
      ∃ e ∈ ended, e.exit = .settled ∧ e.world.state leg ≠ .disconnected ∧
        event = .dialled leg call.callee (call.terms false) (e.world.nextAnswer leg) := by
  have hacts : event ∈ deeds ∧ event.isPlacing = true ↔
      event ∈ acts ∧ event.isPlacing = true := by
    rw [← h.concludes, List.mem_filter]
    exact ⟨fun hin => ⟨⟨hin.1, Event.concludes_of_isPlacing hin.2⟩, hin.2⟩,
      fun hin => ⟨hin.1.1, hin.2⟩⟩
  rw [hacts]
  cases ended with
  | none => simp [(h.waiting rfl).1]
  | some e =>
    rw [(h.concluded e rfl).1, HoldEnd.mem_verdict_iff]
    simp

theorem ordered_iff {answer : DialAnswer} :
    .dialled leg call.callee (call.terms false) answer ∈ deeds ↔
      ∃ e ∈ ended, e.exit = .settled ∧ e.world.state leg ≠ .disconnected ∧
        e.world.nextAnswer leg = answer := by
  have hplacing : (Event.dialled leg call.callee (call.terms false) answer).isPlacing = true := rfl
  rw [← and_iff_left (a := _ ∈ _) hplacing, h.mem_iff]
  simp only [Event.dialled.injEq, true_and, eq_comm]

theorem succeeds_iff :
    c.outcome = some true ↔
      .dialled leg call.callee (call.terms false) (.placed pending) ∈ deeds := by
  rw [h.ordered_iff]
  cases ended with
  | none => simp [(h.waiting rfl).2]
  | some e => simp [(h.concluded e rfl).2.2, HoldEnd.verdict_succeeds_iff]

/-- What was done given the answer to the order for real. -/
theorem of_ordered {answer : DialAnswer}
    (hordered : .dialled leg call.callee (call.terms false) answer ∈ deeds) :
    ∃ e ∈ ended, e.world.state leg ≠ .disconnected ∧ e.world.nextAnswer leg = answer ∧
      (acts, c.failure) =
        e.world.placing leg call pending policy (lastHandler handler e.before) := by
  obtain ⟨e, hend, hexit, hthere, hanswer⟩ := h.ordered_iff.mp hordered
  obtain ⟨hacts, hfailure, -⟩ := h.concluded e hend
  rw [HoldEnd.verdict_of_settled hexit] at hacts hfailure
  exact ⟨e, hend, hthere, hanswer, Prod.ext hacts hfailure⟩

end Places

end Session

/-- After any run of public operations in which the deferred order was answered with a connection,
whatever legs do. The order for real says the same as the deferred one, and it is given if the leg
to dial is there when the hold settles. The dial succeeds if that order is answered with the same
connection. Another connection is disconnected again, a fault is reported to the handler that was
set last, and nothing is done about a leg that is gone. Listeners are called after all that. -/
theorem placement_follows_allocation (hold leg : Slot r) (call : OutgoingCall) (policy : Policy)
    (handler : Option FaultHandler) (observer : Observer) (w : World b) (turns : List (Turn b))
    (allPublic : ∀ turn ∈ turns, turn.Public) {slot : Slot r} {callee : Callee}
    {terms : DialTerms} {pending : ConnectionId} (deferred : terms.deferred = true)
    (allocated : .dialled slot callee terms (.placed pending) ∈
      (Session.opened (.action (.dial hold leg call) policy handler) observer w).deeds turns) :
    let s := Session.opened (.action (.dial hold leg call) policy handler) observer w
    let ended := s.holdEnd? (.dial hold leg call) (s.unrolled turns)
    let acts := (s.deeds turns).filter (·.concludes)
    let c := (s.run turns).coordinator
    let order (answer : DialAnswer) : Event r :=
      .dialled slot callee { terms with deferred := false } answer
    slot = leg ∧ callee = call.callee ∧ terms.video = call.video ∧
    terms.extras = (if call.callee.isConference then none else call.extras) ∧
    ((∃ event ∈ s.deeds turns, event.isPlacing = true) ↔
      ∃ e ∈ ended, e.exit = .settled ∧ e.world.state leg ≠ .disconnected) ∧
    (∀ event ∈ s.deeds turns, event.isPlacing = true → ∃ answer, event = order answer) ∧
    (c.outcome = some true ↔ order (.placed pending) ∈ s.deeds turns) ∧
    (∀ placed, placed ≠ pending → order (.placed placed) ∈ s.deeds turns →
      acts = [order (.placed placed),
        .asked leg (.disconnect (.internalFailure policy.mismatchReason))] ∧
      c.failure = some (.identityMismatch pending placed)) ∧
    (∀ fault, order (.raised fault) ∈ s.deeds turns →
      (∃ e ∈ ended, acts = order (.raised fault) ::
        (lastHandler handler e.before).toList.map (.faultReported · leg.id fault)) ∧
      c.failure = some (.dialRaised fault)) ∧
    ((∃ e ∈ ended, e.Finds leg .disconnected) →
      acts = [] ∧ c.failure = some (.peerDisconnected leg.id) ∧ c.outcome = some false) ∧
    ∃ before told, s.deeds turns = before ++ told ∧
      (∀ event ∈ before, event.call? = none) ∧ ∀ event ∈ told, event.call? ≠ none := by
  intro s ended acts c order
  have hunstarted := Session.unstarted_opened (.dial hold leg call) policy handler observer w
  have hallocated := allocated
  rw [← s.deeds_unrolled] at hallocated
  obtain ⟨rfl, rfl, rfl, _, hplaces⟩ :=
    hunstarted.places (s.single_unrolled allPublic) deferred hallocated
  rw [s.deeds_unrolled, s.run_unrolled] at hplaces
  obtain rfl := hplaces.concludes
  refine ⟨rfl, rfl, rfl, rfl, ?_, ?_, hplaces.succeeds_iff, ?_, ?_, ?_, hplaces.calls⟩
  · constructor
    · rintro ⟨event, hevent, hplacing⟩
      obtain ⟨e, hend, hexit, hthere, -⟩ := hplaces.mem_iff.mp ⟨hevent, hplacing⟩
      exact ⟨e, hend, hexit, hthere⟩
    · rintro ⟨e, hend, hexit, hthere⟩
      obtain ⟨hevent, hplacing⟩ := hplaces.mem_iff.mpr ⟨e, hend, hexit, hthere, rfl⟩
      exact ⟨_, hevent, hplacing⟩
  · intro event hevent hplacing
    obtain ⟨e, -, -, -, hordered⟩ := hplaces.mem_iff.mp ⟨hevent, hplacing⟩
    exact ⟨_, hordered⟩
  · intro placed hne hordered
    obtain ⟨e, -, hthere, hanswer, hplacing⟩ := hplaces.of_ordered hordered
    rw [World.placing_of_placed hthere hanswer, if_neg hne] at hplacing
    exact Prod.mk.inj hplacing
  · intro fault hordered
    obtain ⟨e, hend, hthere, hanswer, hplacing⟩ := hplaces.of_ordered hordered
    rw [World.placing_of_raised hthere hanswer] at hplacing
    obtain ⟨hacts, hfailure⟩ := Prod.mk.inj hplacing
    exact ⟨⟨e, hend, hacts⟩, hfailure⟩
  · rintro ⟨e, hend, hexit, hgone⟩
    obtain ⟨hacts, hfailure, houtcome⟩ := hplaces.concluded e hend
    rw [HoldEnd.verdict_of_settled hexit, World.placing_of_gone hgone] at hacts hfailure houtcome
    exact ⟨hacts, hfailure, houtcome⟩

/-- The conference is refused after all, and the handler has been changed while the hold was
awaited. -/
theorem placement_follows_allocation_of_fault :
    let call : OutgoingCall := ⟨.conference ["x", "y"], .bidirectional, some [("k", "v")]⟩
    let w : World (Script.behaviour (r := [⟨"a"⟩, ⟨"b"⟩]) {}) :=
      .fresh #v[{ state := .active },
        { state := .idle, answers := [.placed ⟨"p"⟩, .raised .outOfService] }] ()
    let turns : List (Turn (Script.behaviour (r := [⟨"a"⟩, ⟨"b"⟩]) {})) :=
      [.perform (.addListener ⟨"l"⟩), .perform .start, .perform (.setHandler ⟨"h"⟩),
        .stir () [.changeState 0 .holding], .perform .pop,
        .perform (.dispatch ⟨⟨"a"⟩, 1, .stateChanged .holding⟩)]
    let s := Session.opened (.action (.dial 0 1 call) {} none) ⟨0⟩ w
    let order : Event [⟨"a"⟩, ⟨"b"⟩] :=
      .dialled 1 call.callee ⟨.bidirectional, none, false⟩ (.raised .outOfService)
    (∀ turn ∈ turns, turn.Public) ∧ (call.terms true).deferred = true ∧
      .dialled 1 call.callee (call.terms true) (.placed ⟨"p"⟩) ∈ s.deeds turns ∧
      (s.deeds turns).filter (·.concludes) =
        [order, .faultReported ⟨"h"⟩ ⟨"b"⟩ .outOfService] ∧
      (s.run turns).coordinator.failure = some (.dialRaised .outOfService) := by
  intro call w turns s order
  have allPublic : ∀ turn ∈ turns, turn.Public := by
    simp [turns, Turn.Public, Operation.isPublic]
  have deferred : (call.terms true).deferred = true := rfl
  have allocated : .dialled 1 call.callee (call.terms true) (.placed ⟨"p"⟩) ∈ s.deeds turns := by
    decide
  obtain ⟨-, -, -, -, -, -, -, -, hraised, -⟩ :=
    placement_follows_allocation 0 1 call {} none ⟨0⟩ w turns allPublic deferred allocated
  have hordered : order ∈ s.deeds turns := by decide
  obtain ⟨⟨e, hend, hacts⟩, hfailure⟩ := hraised .outOfService hordered
  have hhandler : (s.holdEnd? (.dial 0 1 call) (s.unrolled turns)).map
      (fun e => lastHandler none e.before) = some (some ⟨"h"⟩) := by decide
  rw [Option.mem_def.mp hend] at hhandler
  have hlast : lastHandler none e.before = some ⟨"h"⟩ := Option.some.inj hhandler
  rw [hlast] at hacts
  refine ⟨allPublic, deferred, allocated, ?_, ?_⟩
  · rw [hacts]
    rfl
  · rw [hfailure]

end CallCoordination
