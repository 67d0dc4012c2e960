import CallCoordination.Proofs.Session.Heeding

/-!
# What a session does not look at

Whatever is done with a session, apart from taking a letter, is done in the same way however many
letters already wait on the wire: new letters are put behind them, and nothing reads them. It is
the same with the events that took place before, and with the time of completion. The choice how to
treat a leg that is on hold on entry is looked at by the start and by nothing else.
-/

namespace CallCoordination

variable {r : Roster} {b : Behaviour r}

/-- What may be put behind a session without any difference to what it does. -/
structure Backdrop (r : Roster) where
  /-- Letters on the wire before all others. -/
  letters : List Letter := []
  /-- Events before all others. -/
  past : List (Event r) := []
  /-- The choice that replaces the coordinator's own, if any. -/
  onEntry : Option Bool := none
  /-- What is remembered as time of completion before there is one. -/
  completedAt : Option Instant := none

namespace Backdrop

/-- Instants are later by the events that took place before. -/
def date (d : Backdrop r) : Option Instant → Option Instant
  | none => d.completedAt
  | some instant => some ⟨d.past.length + instant.events⟩

end Backdrop

namespace World

/-- The same world with these letters on the wire before all others. -/
def behind (w : World b) (letters : List Letter) : World b :=
  { w with wire := letters ++ w.wire }

/-- The same world with the letters and events of a backdrop before all others. -/
def amid (w : World b) (d : Backdrop r) : World b :=
  { w with wire := d.letters ++ w.wire, trace := d.past ++ w.trace }

theorem behind_wire (w : World b) : { w with wire := [] }.behind w.wire = w := by
  simp [behind]

@[simp] theorem mailbox_behind (w : World b) (letters : List Letter) (observer : Observer) :
    (w.behind letters).mailbox observer =
      (letters.filter (·.recipient = observer)).map (·.signal) ++ w.mailbox observer := by
  simp [behind, mailbox]

section Amid

variable (w : World b) (d : Backdrop r)

@[simp] theorem state_amid (slot : Slot r) : (w.amid d).state slot = w.state slot := rfl

theorem now_amid : some (w.amid d).now = d.date (some w.now) := by
  simp [now, amid, Backdrop.date]

@[simp] theorem apply_amid (effect : Effect r) :
    (w.amid d).apply effect = (w.apply effect).amid d := by
  cases effect with
  | setState slot state => rfl
  | queueAnswer slot answer => rfl
  | changeState slot state | notify slot under notification | send slot index under notification =>
    simp only [apply, notify, post, setState, modifyLeg, amid, leg, List.append_assoc]

@[simp] theorem applyAll_amid (effects : List (Effect r)) :
    (w.amid d).applyAll effects = (w.applyAll effects).amid d := by
  induction effects generalizing w with
  | nil => rfl
  | cons effect effects ih =>
    change ((w.amid d).apply effect).applyAll effects = _
    rw [apply_amid, ih]
    rfl

@[simp] theorem note_amid (event : Event r) : (w.amid d).note event = (w.note event).amid d := by
  simp only [note, amid, List.append_assoc]

@[simp] theorem stir_amid (memory : b.Memory) (effects : List (Effect r)) :
    (w.amid d).stir memory effects = (w.stir memory effects).amid d :=
  applyAll_amid { w with memory := memory } d effects

@[simp] theorem emit_amid (event : Event r) :
    (w.amid d).emit event = (w.emit event).amid d := by
  have hstir := stir_amid (w.note event) d (b.react w.memory event).1 (b.react w.memory event).2
  rwa [← note_amid] at hstir

@[simp] theorem ask_amid (slot : Slot r) (request : LegRequest) :
    (w.amid d).ask slot request = (w.ask slot request).amid d := by
  cases request with
  | register registration => exact emit_amid (w.modifyLeg slot (·.register registration)) d _
  | unregister observer => exact emit_amid (w.modifyLeg slot (·.unregister observer)) d _
  | hold | resume | answer _ | disconnect _ => exact emit_amid w d _

@[simp] theorem dial_amid (slot : Slot r) (callee : Callee) (terms : DialTerms) :
    (w.amid d).dial slot callee terms =
      ((w.dial slot callee terms).1, (w.dial slot callee terms).2.amid d) := by
  have hworld := emit_amid
    (w.modifyLeg slot fun leg => { leg with answers := leg.answers.tail }) d
    (.dialled slot callee terms (w.nextAnswer slot))
  exact congrArg (Prod.mk (w.nextAnswer slot)) hworld

@[simp] theorem foldl_tell_amid (success : Bool) (listeners : List Listener) :
    listeners.foldl (tell · success ·) (w.amid d) =
      (listeners.foldl (tell · success ·) w).amid d := by
  induction listeners generalizing w with
  | nil => rfl
  | cons listener listeners ih =>
    have hfirst : (w.amid d).tell success listener =
        (w.tell success listener).amid d := emit_amid w d _
    rw [List.foldl_cons, hfirst, ih, List.foldl_cons]

end Amid

end World

/-- The same coordinator with the choice on entry and the times of a backdrop. -/
def Coordinator.amid (c : Coordinator r) (d : Backdrop r) : Coordinator r :=
  { c with
    policy :=
      { c.policy with holdSettledOnEntry := d.onEntry.getD c.policy.holdSettledOnEntry }
    completedAt := d.date c.completedAt }

/-- Whether an operation takes signals from the mailbox. -/
def Operation.takes : Operation r → Bool
  | .process | .serve | .pop => true
  | _ => false

namespace Session

def behind (s : Session b) (letters : List Letter) : Session b :=
  { s with world := s.world.behind letters }

def amid (s : Session b) (d : Backdrop r) : Session b where
  coordinator := s.coordinator.amid d
  world := s.world.amid d

section Amid

variable (s : Session b) (d : Backdrop r)

@[simp] theorem phase_amid : (s.amid d).phase = s.phase := rfl

@[simp] theorem outcome_amid : (s.amid d).coordinator.outcome = s.coordinator.outcome := rfl

@[simp] theorem handler_amid : (s.amid d).coordinator.handler = s.coordinator.handler := rfl

@[simp] theorem world_amid : (s.amid d).world = s.world.amid d := rfl

@[simp] theorem ask_amid (slot : Slot r) (request : LegRequest) :
    (s.amid d).ask slot request = (s.ask slot request).amid d := by
  simp [ask, amid]

@[simp] theorem recordFailure_amid (failure : Failure) :
    (s.amid d).recordFailure failure = (s.recordFailure failure).amid d := rfl

theorem ite_amid {c : Prop} [Decidable c] (s t : Session b) :
    (if c then s.amid d else t.amid d) = (if c then s else t).amid d :=
  (apply_ite (fun u : Session b => u.amid d) c s t).symm

/-! ## Watching -/

theorem release_amid (wanted : List Leg.Id) :
    (s.amid d).release wanted = (s.release wanted).amid d := by
  have hfold (watches : List (Watch r)) (w : World b) :
      watches.foldl (fun w watch => w.ask watch.leg (.unregister s.coordinator.observer))
          (w.amid d) =
        (watches.foldl (fun w watch => w.ask watch.leg (.unregister s.coordinator.observer))
          w).amid d := by
    induction watches generalizing w with
    | nil => rfl
    | cons watch watches ih => rw [List.foldl_cons, World.ask_amid, ih, List.foldl_cons]
  exact congrArg (Session.mk _) (hfold _ s.world)

theorem watch_amid (slot : Slot r) : (s.amid d).watch slot = (s.watch slot).amid d := by
  have hasked := World.ask_amid s.world d slot
    (.register ⟨s.coordinator.observer, s.coordinator.issued + 1⟩)
  unfold watch
  change (if s.coordinator.isWatching slot.id then s.amid d else _) = _
  split
  · rfl
  · exact congrArg (Session.mk _) hasked

theorem watchExactly_amid (wanted : List (Slot r)) :
    (s.amid d).watchExactly wanted = (s.watchExactly wanted).amid d := by
  have hfold (slots : List (Slot r)) (t : Session b) :
      slots.foldl watch (t.amid d) = (slots.foldl watch t).amid d := by
    induction slots generalizing t with
    | nil => rfl
    | cons slot slots ih => rw [List.foldl_cons, watch_amid, ih, List.foldl_cons]
  rw [watchExactly, release_amid, hfold, watchExactly]

theorem rewatch_amid (wanted : List (Slot r)) :
    (s.amid d).rewatch wanted = (s.rewatch wanted).amid d := by
  rw [rewatch, watchExactly_amid, watchExactly_amid, rewatch]

@[simp] theorem enter_amid (phase : Phase r) :
    (s.amid d).enter phase = (s.enter phase).amid d := by
  unfold enter
  split
  · rw [rewatch_amid]
    rfl
  · rw [watchExactly_amid]
    rfl

/-! ## Finishing -/

theorem settle_amid (success : Bool) : (s.amid d).settle success = (s.settle success).amid d := by
  simp only [settle, amid, Coordinator.amid, World.now_amid]

theorem complete_amid (success : Bool) :
    (s.amid d).complete success = (s.complete success).amid d := by
  unfold complete
  rw [outcome_amid]
  split
  · rfl
  · rw [watchExactly_amid, settle_amid]
    exact congrArg (Session.mk _) (World.foldl_tell_amid _ d success _)

@[simp] theorem finish_amid (success : Bool) :
    (s.amid d).finish success = (s.finish success).amid d := by
  rw [finish, enter_amid, complete_amid, finish]

@[simp] theorem rollBack_amid (held : Slot r) (cause : Failure) :
    (s.amid d).rollBack held cause = (s.rollBack held cause).amid d := by
  simp only [rollBack, recordFailure_amid, enter_amid, ask_amid, finish_amid,
    world_amid, World.state_amid]
  exact ite_amid d _ _

@[simp] theorem reportFault_amid (leg : Slot r) (fault : DialFault) :
    (s.amid d).reportFault leg fault = (s.reportFault leg fault).amid d := by
  unfold reportFault
  rw [handler_amid]
  split
  · rfl
  · exact congrArg (Session.mk _) (World.emit_amid s.world d _)

/-! ## Going on -/

theorem place_amid (leg : Slot r) (call : OutgoingCall) (pending : ConnectionId) :
    (s.amid d).place leg call pending = (s.place leg call pending).amid d := by
  unfold place
  rw [world_amid, World.state_amid]
  split
  · rw [recordFailure_amid, finish_amid]
  · rw [World.dial_amid]
    have hdialled (w : World b) :
        ({ s.amid d with world := w.amid d } : Session b) =
          ({ s with world := w } : Session b).amid d := rfl
    dsimp only
    rw [hdialled]
    split
    · split
      · rw [finish_amid]
      · rw [ask_amid, recordFailure_amid, finish_amid]
        rfl
    · rw [reportFault_amid, recordFailure_amid, finish_amid]

theorem holdSettled_amid (hold : Slot r) (next : Continuation r) :
    (s.amid d).holdSettled hold next = (s.holdSettled hold next).amid d := by
  cases next with
  | answer leg video =>
    simp only [holdSettled]
    rw [ask_amid, ite_amid, finish_amid]
    rfl
  | place leg call pending => exact place_amid s d leg call pending
  | resume leg =>
    simp only [holdSettled, world_amid, World.state_amid]
    split
    · rw [enter_amid, ask_amid]
    · rw [finish_amid]
    · rw [rollBack_amid]

theorem holdFailed_amid (hold : Slot r) (next : Continuation r) :
    (s.amid d).holdFailed hold next = (s.holdFailed hold next).amid d := by
  cases next with
  | place leg call pending =>
    simp only [holdFailed]
    rw [ask_amid, recordFailure_amid, finish_amid]
  | answer _ _ | resume _ =>
    simp only [holdFailed]
    rw [recordFailure_amid, finish_amid]

/-! ## Hearing -/

theorem hearState_amid (leg : Leg.Id) (state : Leg.State) :
    (s.amid d).hearState leg state = (s.hearState leg state).amid d := by
  unfold hearState
  rw [phase_amid]
  split
  next hold next _ =>
    rw [holdSettled_amid]
    exact ite_amid d _ _
  next held resume _ =>
    split
    · split
      · rw [finish_amid]
      · rw [rollBack_amid]
      · rfl
    · rfl
  next back _ =>
    rw [finish_amid]
    exact ite_amid d _ _
  · exact congrArg (Session.mk _) (World.note_amid s.world d _)
  · rfl

theorem hearEvent_amid (leg : Leg.Id) (event : ConnectionEvent) :
    (s.amid d).hearEvent leg event = (s.hearEvent leg event).amid d := by
  unfold hearEvent
  rw [phase_amid]
  split
  next hold next _ =>
    rw [holdFailed_amid]
    exact ite_amid d _ _
  next held resume _ =>
    rw [rollBack_amid]
    exact ite_amid d _ _
  next back _ =>
    rw [finish_amid]
    exact ite_amid d _ _
  · exact congrArg (Session.mk _) (World.note_amid s.world d _)
  · rfl

theorem dispatch_amid (signal : Signal) :
    (s.amid d).dispatch signal = (s.dispatch signal).amid d := by
  unfold dispatch
  change (if s.coordinator.isCompleted ∨ ¬ s.coordinator.isCurrent signal then s.amid d else _) = _
  split
  · rfl
  · split
    · exact hearState_amid s d _ _
    · exact hearEvent_amid s d _ _
    · rfl

/-! ## Starting -/

theorem awaitHold_amid (hentry : d.onEntry = none) (hold : Slot r) (next : Continuation r) :
    (s.amid d).awaitHold hold next = (s.awaitHold hold next).amid d := by
  have hsettled : (s.amid d).isSettledOnEntry hold = s.isSettledOnEntry hold := by
    simp [isSettledOnEntry, amid, Coordinator.amid, hentry]
  unfold awaitHold
  rw [hsettled, enter_amid, holdSettled_amid, ask_amid]
  exact ite_amid d _ _

theorem start_amid (h : d.onEntry = none ∨ ∀ action, s.phase ≠ .idle action) :
    (s.amid d).start = (s.start.1, s.start.2.amid d) := by
  unfold start
  rw [phase_amid]
  split
  next hold leg video hp =>
    have hentry := h.resolve_right fun hidle => hidle _ hp
    rw [awaitHold_amid s d hentry]
  next hold leg hp =>
    have hentry := h.resolve_right fun hidle => hidle _ hp
    rw [awaitHold_amid s d hentry]
  next hold leg call hp =>
    have hentry := h.resolve_right fun hidle => hidle _ hp
    have hdialled (w : World b) :
        ({ s.amid d with world := w.amid d } : Session b) =
          ({ s with world := w } : Session b).amid d := rfl
    rw [world_amid, World.dial_amid]
    dsimp only
    rw [hdialled]
    split
    · rw [awaitHold_amid _ d hentry]
    · rw [recordFailure_amid, finish_amid]
  · rfl

/-! ## Operations -/

theorem pop_amid (hletters : d.letters = []) :
    (s.amid d).pop = s.pop.map fun next => (next.1, next.2.amid d) := by
  have hmailbox : (s.world.amid d).mailbox s.coordinator.observer =
      s.world.mailbox s.coordinator.observer := by
    simp [World.mailbox, World.amid, hletters]
  have hwire : (s.world.amid d).wire = s.world.wire := by
    simp [World.amid, hletters]
  change ((s.world.amid d).collect s.coordinator.observer).map _ = _
  unfold pop World.collect
  rw [hmailbox, hwire]
  split
  · rfl
  · simp [amid, World.amid, hletters]

theorem processPending_amid (hletters : d.letters = []) :
    (s.amid d).processPending = (s.processPending.1, s.processPending.2.amid d) := by
  fun_induction processPending s with
  | case1 s hdone => exact processPending_of_completed hdone
  | case2 s hdone hnone =>
    apply processPending_of_pop_eq_none
    rw [pop_amid s d hletters, hnone]
    rfl
  | case3 s hdone signal t hsome count last hrec ih =>
    have hsome' : (s.amid d).pop = some (signal, t.amid d) := by
      rw [pop_amid s d hletters, hsome]
      rfl
    rw [processPending_of_pop_eq_some (s := s.amid d) hdone hsome', dispatch_amid, ih, hrec]

/-- An operation does and answers the same amid any backdrop, if the start is not made to look at it
and no letters are put before those that it takes. -/
theorem perform_amid (hentry : d.onEntry = none ∨ ∀ action, s.phase ≠ .idle action)
    {operation : Operation r} (hletters : d.letters = [] ∨ operation.takes = false) :
    (s.amid d).perform operation =
      ((s.perform operation).1, (s.perform operation).2.amid d) := by
  cases operation with
  | start => rw [perform, start_amid s d hentry, perform]
  | process =>
    have hnone := hletters.resolve_right Bool.noConfusion
    rw [perform, processPending_amid s d hnone, perform]
  | serve =>
    have hnone := hletters.resolve_right Bool.noConfusion
    rw [perform, serve_eq, processPending_amid s d hnone, perform, serve_eq]
    rfl
  | pop =>
    have hnone := hletters.resolve_right Bool.noConfusion
    simp only [perform]
    rw [pop_amid s d hnone]
    cases s.pop with
    | none => rfl
    | some next => rfl
  | dispatch signal => exact congrArg (Prod.mk _) (dispatch_amid s d signal)
  | hearState leg state => exact congrArg (Prod.mk _) (hearState_amid s d leg state)
  | hearEvent leg event => exact congrArg (Prod.mk _) (hearEvent_amid s d leg event)
  | watchExactly legs => exact congrArg (Prod.mk _) (watchExactly_amid s d legs)
  | rewatch legs => exact congrArg (Prod.mk _) (rewatch_amid s d legs)
  | complete success => exact congrArg (Prod.mk _) (complete_amid s d success)
  | addListener _ | removeListener _ | setHandler _ | recordFailure _ => rfl

end Amid

/-! ## Letters alone -/

section Behind

variable (s : Session b) (letters : List Letter)

@[simp] theorem coordinator_behind : (s.behind letters).coordinator = s.coordinator := rfl

@[simp] theorem world_behind : (s.behind letters).world = s.world.behind letters := rfl

theorem behind_eq_amid : s.behind letters = s.amid { letters := letters } := by
  have hdate (time : Option Instant) :
      Backdrop.date (r := r) { letters := letters } time = time := by
    cases time <;> simp [Backdrop.date]
  simp only [amid, Coordinator.amid, hdate]
  rfl

/-- A signal is heard in the same way whatever is still on the wire. -/
theorem dispatch_behind (signal : Signal) :
    (s.behind letters).dispatch signal = (s.dispatch signal).behind letters := by
  rw [behind_eq_amid, dispatch_amid, behind_eq_amid]

/-- An operation that takes nothing leaves the mailbox as it is and puts what is sent behind it. -/
theorem mailbox_perform {operation : Operation r} (h : operation.takes = false) :
    s.mailbox <+: (s.perform operation).2.mailbox := by
  let u : Session b := { s with world := { s.world with wire := [] } }
  have hs : s = u.behind s.world.wire :=
    congrArg (Session.mk _) (World.behind_wire s.world).symm
  have hperform : (s.perform operation).2 = (u.perform operation).2.behind s.world.wire := by
    conv_lhs => rw [hs]
    rw [behind_eq_amid, perform_amid u _ (.inl rfl) (.inr h), behind_eq_amid]
  have hobserver := (tidy_perform u operation).observer
  rw [hperform]
  simp only [mailbox, world_behind, coordinator_behind, World.mailbox_behind, hobserver]
  exact List.prefix_append _ _

end Behind

end Session

end CallCoordination
