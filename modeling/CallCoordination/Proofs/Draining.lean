import CallCoordination.Proofs.Delivery

/-!
# Draining a mailbox

To work through a mailbox is to go through rounds: a signal is taken and heard, and what is done
about it may bring new signals, which come to stand behind all others. Rounds are counted here
without any regard to why they end. They do end, at an empty mailbox or with the outcome, and every
signal that was there or that came is either taken in one of them or left.
-/

namespace CallCoordination

variable {r : Roster} {b : Behaviour r}

namespace World

/-! ## Events one after the other -/

theorem trace_foldl_after (w : World b) (events : List (Event r)) :
    (events.foldl after w).trace = w.trace ++ events := by
  induction events generalizing w with
  | nil => exact (List.append_nil _).symm
  | cons event events ih =>
    rw [List.foldl_cons, ih, trace_after, List.append_assoc]
    rfl

theorem wire_foldl_after (w : World b) (events : List (Event r)) :
    (events.foldl after w).wire = w.wire ++ w.responses events := by
  induction events generalizing w with
  | nil => exact (List.append_nil _).symm
  | cons event events ih =>
    rw [List.foldl_cons, ih, wire_after, responses, List.append_assoc]

namespace Alike

variable {w w' : World b}

theorem foldl_after (h : Alike w w') (events : List (Event r)) :
    Alike (events.foldl World.after w) (events.foldl World.after w') := by
  induction events generalizing w w' with
  | nil => exact h
  | cons event events ih => exact ih (h.after event)

theorem responses_eq (h : Alike w w') (events : List (Event r)) :
    w'.responses events = w.responses events := by
  induction events generalizing w w' with
  | nil => rfl
  | cons event events ih => rw [responses, responses, h.response_eq, ih (h.after event)]

end Alike

/-- Some events happen one after the other, and no letter is taken. -/
def Proceeds (w w' : World b) : Prop := ∃ events : List (Event r), w' = events.foldl after w

namespace Proceeds

variable {w w' w'' : World b}

theorem refl (w : World b) : Proceeds w w := ⟨[], rfl⟩

theorem trans (h : Proceeds w w') (h' : Proceeds w' w'') : Proceeds w w'' := by
  obtain ⟨events, rfl⟩ := h
  obtain ⟨later, rfl⟩ := h'
  exact ⟨events ++ later, (List.foldl_append ..).symm⟩

theorem single (w : World b) (event : Event r) : Proceeds w (w.after event) := ⟨[event], rfl⟩

theorem ask (w : World b) (slot : Slot r) (request : LegRequest) :
    Proceeds w (w.ask slot request) := by
  rw [ask_eq_after]
  exact single w _

theorem foldl_tell (w : World b) (success : Bool) (listeners : List Listener) :
    Proceeds w (listeners.foldl (tell · success ·) w) := by
  induction listeners generalizing w with
  | nil => exact refl w
  | cons listener later ih =>
    have hfirst : Proceeds w (w.tell success listener) := single w (.told listener success _)
    exact hfirst.trans (ih _)

end Proceeds

end World

namespace Session

/-! ## Hearing takes nothing -/

theorem proceeds_watchExactly (s : Session b) (wanted : List (Slot r)) :
    s.world.Proceeds (s.watchExactly wanted).world :=
  watchExactly_preserves (P := s.world.Proceeds)
    (fun w slot request _ h => h.trans (.ask w slot request)) (.refl _) wanted

theorem proceeds_enter (s : Session b) (phase : Phase r) :
    s.world.Proceeds (s.enter phase).world :=
  enter_preserves (P := s.world.Proceeds)
    (fun w slot request _ h => h.trans (.ask w slot request)) (.refl _) phase

theorem proceeds_finish (s : Session b) (success : Bool) :
    s.world.Proceeds (s.finish success).world := by
  refine (proceeds_enter s .done).trans ?_
  unfold finish complete
  split
  · exact .refl _
  · exact (proceeds_watchExactly (s.enter .done) []).trans (.foldl_tell _ success _)

theorem proceeds_ask (s : Session b) (slot : Slot r) (request : LegRequest) :
    s.world.Proceeds (s.ask slot request).world :=
  .ask s.world slot request

theorem proceeds_fail (s : Session b) (failure : Failure) :
    s.world.Proceeds ((s.recordFailure failure).finish false).world :=
  proceeds_finish (s.recordFailure failure) false

theorem proceeds_rollBack (s : Session b) (held : Slot r) (cause : Failure) :
    s.world.Proceeds (s.rollBack held cause).world := by
  unfold rollBack
  dsimp only
  split
  · exact (proceeds_enter (s.recordFailure cause) (.rollingBack held)).trans
      (proceeds_ask _ held .resume)
  · exact proceeds_fail s cause

theorem proceeds_reportFault (s : Session b) (leg : Slot r) (fault : DialFault) :
    s.world.Proceeds (s.reportFault leg fault).world := by
  unfold reportFault
  split
  · exact .refl _
  next handler _ => exact .single s.world (.faultReported handler leg.id fault)

theorem proceeds_place (s : Session b) (leg : Slot r) (call : OutgoingCall)
    (pending : ConnectionId) : s.world.Proceeds (s.place leg call pending).world := by
  unfold place
  split
  · exact proceeds_fail s _
  · let dialled : Session b :=
      { s with world := (s.world.dial leg call.callee (call.terms false)).2 }
    have hdialled : s.world.Proceeds dialled.world :=
      .single s.world (.dialled leg call.callee (call.terms false) _)
    dsimp only
    split
    · split
      · exact hdialled.trans (proceeds_finish dialled true)
      · exact (hdialled.trans (proceeds_ask dialled leg _)).trans
          (proceeds_fail (dialled.ask leg _) _)
    · exact (hdialled.trans (proceeds_reportFault dialled leg _)).trans
        (proceeds_fail (dialled.reportFault leg _) _)

theorem proceeds_holdSettled (s : Session b) (hold : Slot r) (next : Continuation r) :
    s.world.Proceeds (s.holdSettled hold next).world := by
  cases next with
  | answer leg video =>
    simp only [holdSettled]
    split
    · exact (proceeds_ask s leg (.answer video)).trans (proceeds_finish (s.ask leg _) true)
    · exact proceeds_finish s true
  | place leg call pending => exact proceeds_place s leg call pending
  | resume leg =>
    simp only [holdSettled]
    split
    · exact (proceeds_enter s (.awaitingResume hold leg)).trans (proceeds_ask _ leg .resume)
    · exact proceeds_finish s true
    · exact proceeds_rollBack s hold _

theorem proceeds_holdFailed (s : Session b) (hold : Slot r) (next : Continuation r) :
    s.world.Proceeds (s.holdFailed hold next).world := by
  cases next with
  | place leg call pending =>
    exact (proceeds_ask s leg (.disconnect .errorUnspecified)).trans
      (proceeds_fail (s.ask leg _) _)
  | answer _ _ | resume _ => exact proceeds_fail s _

theorem Hears.proceeds {s t : Session b} (h : Hears s t) : s.world.Proceeds t.world := by
  cases h with
  | nothing => exact .refl _
  | notes _ hevent =>
    obtain ⟨leg, ⟨state, rfl⟩ | ⟨event, rfl⟩⟩ := hevent
    · exact .single s.world (.heardState leg state)
    · exact .single s.world (.heardEvent leg event)
  | holdSettled _ => exact proceeds_holdSettled s _ _
  | holdFailed _ => exact proceeds_holdFailed s _ _
  | resumed _ => exact proceeds_finish s true
  | resumeFailed _ _ => exact proceeds_rollBack s _ _
  | rolledBack _ => exact proceeds_finish s false

/-! ## What is taken and what comes -/

/-- From `s` to `t` the events happened and the signals were taken. What came into the mailbox is
what legs sent in response to the events. -/
structure Exchanges (s : Session b) (events : List (Event r)) (taken : List Signal)
    (t : Session b) : Prop where
  observer : t.coordinator.observer = s.coordinator.observer
  trace : t.world.trace = s.world.trace ++ events
  alike : World.Alike (events.foldl World.after s.world) t.world
  mailbox : taken ++ t.mailbox = s.mailbox ++
    ((s.world.responses events).filter (·.recipient = s.coordinator.observer)).map (·.signal)

namespace Exchanges

variable {s t u : Session b} {events later : List (Event r)} {taken taken' : List Signal}

theorem refl (s : Session b) : Exchanges s [] [] s :=
  ⟨rfl, (List.append_nil _).symm, ⟨rfl, rfl⟩, (List.append_nil _).symm⟩

theorem trans (h : Exchanges s events taken t) (h' : Exchanges t later taken' u) :
    Exchanges s (events ++ later) (taken ++ taken') u where
  observer := h'.observer.trans h.observer
  trace := by rw [h'.trace, h.trace, List.append_assoc]
  alike := by
    have hlater := h.alike.foldl_after later
    rw [List.foldl_append]
    exact ⟨h'.alike.legs.trans hlater.legs, h'.alike.memory.trans hlater.memory⟩
  mailbox := by
    have hsent := h.alike.responses_eq later
    rw [List.append_assoc, h'.mailbox, ← List.append_assoc, h.mailbox, h.observer, hsent,
      World.responses_append, List.filter_append, List.map_append, List.append_assoc]

theorem pop {signal : Signal} (h : s.pop = some (signal, t)) : Exchanges s [] [signal] t where
  observer := by rw [(pop_eq_some h).1]
  trace := by rw [trace_pop h, List.append_nil]
  alike := by
    simp only [Session.pop, Option.map_eq_some_iff, Prod.exists, Prod.mk.injEq] at h
    obtain ⟨_, world, hcollect, rfl, rfl⟩ := h
    rw [World.collect_eq_some hcollect]
    exact ⟨rfl, rfl⟩
  mailbox := by
    rw [(pop_eq_some h).2]
    exact (List.append_nil _).symm

theorem of_proceeds (hobserver : t.coordinator.observer = s.coordinator.observer)
    (h : s.world.Proceeds t.world) : ∃ events, Exchanges s events [] t := by
  obtain ⟨events, hworld⟩ := h
  refine ⟨events, hobserver, ?_, ?_, ?_⟩
  · rw [hworld, World.trace_foldl_after]
  · rw [hworld]
    exact ⟨rfl, rfl⟩
  · have hwire : t.world.wire = s.world.wire ++ s.world.responses events := by
      rw [hworld, World.wire_foldl_after]
    rw [List.nil_append, Session.mailbox, hobserver]
    exact World.mailbox_of_wire hwire _

end Exchanges

/-! ## Rounds -/

/-- As long as the outcome is not known, the first signal of the mailbox is taken and heard. -/
inductive Round (s : Session b) (signal : Signal) : Session b → Prop
  | heard {t : Session b} (hopen : s.coordinator.isCompleted ≠ true)
      (hpop : s.pop = some (signal, t)) : Round s signal (t.dispatch signal)

/-- One round after the other, with the signals that are taken in them. -/
inductive Rounds : Session b → List Signal → Session b → Prop
  | nothing (s : Session b) : Rounds s [] s
  | round {s t u : Session b} {signal : Signal} {later : List Signal} (h : s.Round signal t)
      (hrest : Rounds t later u) : Rounds s (signal :: later) u

theorem Round.exists_exchanges {s t : Session b} {signal : Signal} (h : s.Round signal t) :
    ∃ events, Exchanges s events [signal] t := by
  obtain ⟨hopen, hpop⟩ := h
  next t =>
    have hhears := hears_dispatch t signal
    obtain ⟨events, hevents⟩ :=
      Exchanges.of_proceeds hhears.acts.tidy.observer hhears.proceeds
    exact ⟨events, (Exchanges.pop hpop).trans hevents⟩

theorem Rounds.exists_exchanges {s t : Session b} {taken : List Signal} (h : s.Rounds taken t) :
    ∃ events, Exchanges s events taken t := by
  induction h with
  | nothing s => exact ⟨[], .refl s⟩
  | round hround _ ih =>
    obtain ⟨events, hevents⟩ := hround.exists_exchanges
    obtain ⟨later, hlater⟩ := ih
    exact ⟨events ++ later, hevents.trans hlater⟩

/-- Rounds leave no choice, so they can only be broken off. -/
theorem Rounds.prefix_of_done {s t u : Session b} {begun taken : List Signal}
    (h : s.Rounds begun u) (htaken : s.Rounds taken t)
    (hdone : t.coordinator.isCompleted = true ∨ t.mailbox = []) : begun <+: taken := by
  induction h generalizing taken with
  | nothing s => exact List.nil_prefix
  | round hround _ ih =>
    obtain ⟨hopen, hpop⟩ := hround
    cases htaken with
    | nothing s =>
      rcases hdone with hcompleted | hempty
      · exact absurd hcompleted hopen
      · cases hpop.symm.trans (pop_of_mailbox hempty)
    | round hround' hrest' =>
      obtain ⟨-, hpop'⟩ := hround'
      cases hpop.symm.trans hpop'
      exact List.prefix_cons_inj _ |>.mpr (ih hrest')

/-- The rounds of `processPending`, up to where no other one follows. -/
theorem rounds_processPending (s : Session b) :
    s.Rounds (s.pending.map Prod.fst) s.processPending.2 ∧
      (s.processPending.2.coordinator.isCompleted = true ∨ s.processPending.2.mailbox = []) := by
  fun_induction pending s with
  | case1 s hdone =>
    rw [processPending_of_completed hdone]
    exact ⟨.nothing s, .inl hdone⟩
  | case2 s _ hnone =>
    rw [processPending_of_pop_eq_none hnone]
    exact ⟨.nothing s, .inr (mailbox_of_pop_eq_none hnone)⟩
  | case3 s hopen signal t hsome ih =>
    rw [processPending_of_pop hopen hsome]
    exact ⟨.round (.heard hopen hsome) ih.1, ih.2⟩

end Session

/-- From any session, whatever is in the mailbox and whatever legs, listeners and handlers send in
response to what they are asked and told. To process the mailbox is to go through finitely many
rounds, and there is no way to go through more of them. They end with the outcome or at an empty
mailbox, and the answer is their number. The signals that are taken, and then those that are left,
are the ones that were there and then the ones that were sent meanwhile, all in their order. Then
there is nothing more to process. -/
theorem processing_drains_mailbox (s : Session b) :
    let t := (s.perform .process).2
    ∃ taken, s.Rounds taken t ∧ (∀ begun u, s.Rounds begun u → begun <+: taken) ∧
      (t.coordinator.isCompleted = true ∨ t.mailbox = []) ∧
      (s.perform .process).1 = .processed taken.length ∧
      taken ++ t.mailbox = s.mailbox ++ s.sentIn (.perform .process) ∧
      t.perform .process = (.processed 0, t) := by
  intro t
  obtain ⟨hrounds, hdone⟩ := s.rounds_processPending
  refine ⟨s.pending.map Prod.fst, hrounds, fun begun u hbegun => ?_, hdone, ?_, ?_, ?_⟩
  · exact hbegun.prefix_of_done hrounds hdone
  · rw [List.length_map, ← Session.fst_processPending, Session.perform]
  · obtain ⟨events, hevents⟩ := hrounds.exists_exchanges
    rw [Session.sentIn, Session.eventsIn_eq s (.perform .process) hevents.trace]
    exact hevents.mailbox
  · have hnothing : t.processPending = (0, t) := by
      rcases hdone with hcompleted | hempty
      · exact Session.processPending_of_completed hcompleted
      · exact Session.processPending_of_mailbox hempty
    rw [Session.perform, hnothing]

/-- The leg that is asked to resume answers into the mailbox that is being processed. -/
example :
    let script : Script [⟨"a"⟩, ⟨"b"⟩] :=
      { legs := fun leg => [(.resume, [.changeState leg .active])] }
    let w : World script.behaviour := .fresh #v[{ state := .active }, { state := .holding }] ()
    let s := (Session.opened (.action (.swap 0 1) {} none) ⟨0⟩ w).run
      [.perform .start, .stir () [.changeState 0 .ringing, .changeState 0 .holding]]
    (s.mailbox.length, s.processPending.1, s.processPending.2.coordinator.outcome) =
      (2, 3, some true) := by
  cbv

end CallCoordination
