import CallCoordination.Proofs.Session.Attempt
import CallCoordination.Proofs.Session.Hearing
import CallCoordination.Proofs.Tracking
import CallCoordination.Proofs.World.Reports

/-!
# No state goes unnoticed

A coordinator waits for its leg to reach certain states. On legs that report, it cannot go on
waiting for a state that has been reached: if it has nothing to read, the leg is in none of these
states. For a hold this needs nothing else, because nothing is asked of a leg between the look at
its state and the registration, and to look at a leg, or to read its id, is taken to have no effect
by itself. To resume a leg the coordinator drops its old registration in between, and what the leg
does in that call goes unnoticed.
-/

namespace CallCoordination

variable {r : Roster} {b : Behaviour r}

/-- Whether a leg that is to resume need not be waited for any more. -/
def Leg.State.conclusive : State → Bool
  | active | disconnected => true
  | _ => false

theorem Leg.State.conclusive_iff {state : State} :
    state.conclusive = true ↔ state = active ∨ state = disconnected := by
  cases state <;> simp [conclusive]

/-- The leg that a phase waits for, and the states that end the wait. -/
def Phase.goal? : Phase r → Option (Slot r × (Leg.State → Bool))
  | awaitingHold hold _ => some (hold, Leg.State.settled)
  | awaitingResume _ resume => some (resume, Leg.State.conclusive)
  | rollingBack back => some (back, Leg.State.conclusive)
  | _ => none

/-- Whatever a leg does while it is asked to drop a registration of the observer, no leg thereby
reaches a state that is looked for. -/
def Behaviour.Calm (b : Behaviour r) (goal : Leg.State → Bool) (observer : Observer) : Prop :=
  ∀ (w : World b) (slot other : Slot r), goal (w.state other) = false →
    goal ((w.ask slot (.unregister observer)).state other) = false

/-- A turn in which no leg changes its state unnoticed. -/
def Turn.Frank : Turn b → Prop
  | stir _ effects => b.Frank effects
  | _ => True

namespace Session

/-! ## Waiting under guard -/

/-- If the phase waits for a leg, that leg is guarded by the registration whose signals count. -/
def Alert (s : Session b) : Prop :=
  ∀ slot goal, s.phase.goal? = some (slot, goal) →
    ∃ epoch, s.Expects slot epoch ∧ s.world.Guards goal s.coordinator.observer slot epoch

theorem alert_of_no_goal {s : Session b} (h : s.phase.goal? = none) : s.Alert := by
  intro slot goal hgoal
  rw [h] at hgoal
  cases hgoal

theorem alert_finish (s : Session b) (success : Bool) : (s.finish success).Alert :=
  alert_of_no_goal (by rw [phase_finish]; rfl)

/-- With nothing left to read, the leg is in none of the states that end the wait. -/
theorem Alert.not_reached {s : Session b} (h : s.Alert) {slot : Slot r} {goal : Leg.State → Bool}
    (hgoal : s.phase.goal? = some (slot, goal)) (hempty : s.mailbox = []) :
    goal (s.world.state slot) = false := by
  obtain ⟨epoch, -, hguards⟩ := h slot goal hgoal
  cases hreached : goal (s.world.state slot) with
  | false => rfl
  | true =>
    obtain ⟨state, -, hmem⟩ := hguards.reported hreached
    change _ ∈ s.mailbox at hmem
    rw [hempty] at hmem
    exact absurd hmem List.not_mem_nil

theorem Alert.of_same {s t : Session b} (h : s.Alert) (hphase : t.phase = s.phase)
    (hwatches : t.coordinator.watches = s.coordinator.watches)
    (hissued : t.coordinator.issued = s.coordinator.issued)
    (houtcome : t.coordinator.outcome = s.coordinator.outcome)
    (hobserver : t.coordinator.observer = s.coordinator.observer)
    (hguards : ∀ slot goal epoch, s.world.Guards goal s.coordinator.observer slot epoch →
      t.world.Guards goal s.coordinator.observer slot epoch) : t.Alert := by
  intro slot goal hgoal
  obtain ⟨epoch, hexpects, hheld⟩ := h slot goal (hphase ▸ hgoal)
  refine ⟨epoch, ⟨?_, houtcome.trans hexpects.undecided⟩, ?_⟩
  · exact ⟨hwatches.trans hexpects.watches.1, hissued.trans hexpects.watches.2⟩
  · rw [hobserver]
    exact hguards slot goal epoch hheld

/-- A report of a state that ends the wait does end it. -/
theorem rank_dispatch_lt {s : Session b} {slot : Slot r} {goal : Leg.State → Bool} {epoch : Nat}
    (hgoal : s.phase.goal? = some (slot, goal)) (h : s.Expects slot epoch) {state : Leg.State}
    (hreached : goal state = true) :
    (s.dispatch ⟨slot.id, epoch, .stateChanged state⟩).phase.rank < s.phase.rank := by
  have hvia : Signal.via ⟨slot.id, epoch, .stateChanged state⟩ slot.id epoch =
      some (.stateChanged state) := if_pos ⟨rfl, rfl⟩
  cases hp : s.phase with
  | idle _ | done | plain | recorder => simp [hp, Phase.goal?] at hgoal
  | awaitingHold hold next =>
    obtain ⟨rfl, rfl⟩ : hold = slot ∧ Leg.State.settled = goal := by
      simpa [hp, Phase.goal?] using hgoal
    have hexit : (Notification.stateChanged state).holdExit? = some .settled := by
      rcases Leg.State.settled_iff.mp hreached with rfl | rfl <;> rfl
    rw [dispatch_awaitingHold hp h, hvia, Option.bind_some, hexit]
    exact Nat.lt_of_le_of_lt (rank_holdSettled_le s hold next) (by simp [Phase.rank])
  | awaitingResume held resume =>
    obtain ⟨rfl, rfl⟩ : resume = slot ∧ Leg.State.conclusive = goal := by
      simpa [hp, Phase.goal?] using hgoal
    rw [dispatch_awaitingResume hp h, hvia, Option.bind_some]
    rcases Leg.State.conclusive_iff.mp hreached with rfl | rfl
    · simp [Notification.resumeExit?, Phase.rank]
    · exact Nat.lt_of_le_of_lt (rank_rollBack_le s held _) (by simp [Phase.rank])
  | rollingBack back =>
    obtain ⟨rfl, rfl⟩ : back = slot ∧ Leg.State.conclusive = goal := by
      simpa [hp, Phase.goal?] using hgoal
    have hends : (Notification.stateChanged state).endsRollback = true := by
      rcases Leg.State.conclusive_iff.mp hreached with rfl | rfl <;> rfl
    rw [dispatch_rollingBack hp h, hvia, Option.any_some, if_pos hends, phase_finish]
    simp [Phase.rank]

/-- A signal that is read without any consequence was not about a state that ends the wait. -/
theorem Alert.pop {s t : Session b} (h : s.Alert) {signal : Signal}
    (hpop : s.pop = some (signal, t)) (hidle : t.dispatch signal = t) : t.Alert := by
  obtain ⟨hc, -⟩ := pop_eq_some hpop
  have hphase : t.phase = s.phase := congrArg (·.phase) hc
  intro slot goal hgoal
  obtain ⟨epoch, hexpects, hguards⟩ := h slot goal (hphase ▸ hgoal)
  have hexpects' : t.Expects slot epoch := hexpects.of_coordinator_eq hc
  refine ⟨epoch, hexpects', ?_⟩
  have hother (state : Leg.State) (hreached : goal state = true) :
      signal ≠ ⟨slot.id, epoch, .stateChanged state⟩ := by
    rintro rfl
    have hlt := rank_dispatch_lt hgoal hexpects' hreached
    rw [hidle] at hlt
    exact Nat.lt_irrefl _ hlt
  simp only [Session.pop, Option.map_eq_some_iff, Prod.exists, Prod.mk.injEq] at hpop
  obtain ⟨_, world, hcollect, rfl, rfl⟩ := hpop
  exact hguards.collect hcollect hother

/-! ## Going under guard -/

theorem guards_watchExactly (hb : b.Reports) {s : Session b} {slot : Slot r}
    {goal : Leg.State → Bool} (hunwatched : slot.id ∉ s.coordinator.watchedIds)
    (hclear : goal ((s.release [slot.id]).world.state slot) = false) :
    (s.watchExactly [slot]).world.Guards goal s.coordinator.observer slot
      (s.coordinator.issued + 1) := by
  rw [world_watchExactly hunwatched]
  exact World.guards_register hb hclear _ _

theorem release_calm {s : Session b} {goal : Leg.State → Bool}
    (calm : b.Calm goal s.coordinator.observer) {slot : Slot r}
    (h : goal (s.world.state slot) = false) (wanted : List Leg.Id) :
    goal ((s.release wanted).world.state slot) = false := by
  have hfold (watches : List (Watch r)) {w : World b} (hw : goal (w.state slot) = false) :
      goal ((watches.foldl (fun w watch => w.ask watch.leg (.unregister s.coordinator.observer))
        w).state slot) = false := by
    induction watches generalizing w with
    | nil => exact hw
    | cons watch watches ih => exact ih (calm w watch.leg slot hw)
  exact hfold _ h

theorem alert_ask (hb : b.Reports) {s : Session b} (h : s.Alert) (slot : Slot r)
    {request : LegRequest} (hkept : request ≠ .unregister s.coordinator.observer) :
    (s.ask slot request).Alert :=
  h.of_same rfl rfl rfl rfl rfl fun _ _ _ hguards => hguards.ask hb slot hkept

theorem alert_enter {s : Session b} {phase : Phase r} {slot : Slot r} {goal : Leg.State → Bool}
    (hphase : phase.goal? = some (slot, goal)) {epoch : Nat}
    (hexpects : (s.enter phase).Expects slot epoch)
    (hguards : (s.enter phase).world.Guards goal s.coordinator.observer slot epoch) :
    (s.enter phase).Alert := by
  intro other goal' hgoal
  rw [phase_enter, hphase] at hgoal
  obtain ⟨rfl, rfl⟩ := by simpa using hgoal
  refine ⟨epoch, hexpects, ?_⟩
  rwa [(tidy_enter s phase).observer]

theorem alert_awaitHold (hb : b.Reports) {s : Session b} (hwatches : s.coordinator.watches = [])
    (hopen : s.coordinator.outcome = none) {hold : Slot r} (next : Continuation r)
    (hclear : (s.world.state hold).settled = false) :
    ((s.enter (.awaitingHold hold next)).ask hold .hold).Alert := by
  have hunwatched : hold.id ∉ s.coordinator.watchedIds := by
    simp [Coordinator.watchedIds, hwatches]
  -- nothing is watched before, so nothing is dropped
  have hrelease : (s.release [hold.id]).world = s.world := by simp [release, hwatches]
  refine alert_ask hb ?_ hold (by simp)
  refine alert_enter rfl (expects_enter (.awaitingHold hold next) rfl hunwatched hopen) ?_
  exact guards_watchExactly hb hunwatched (by rwa [hrelease])

theorem alert_awaitResume (hb : b.Reports) {s : Session b}
    (calm : b.Calm Leg.State.conclusive s.coordinator.observer)
    (hopen : s.coordinator.outcome = none) (held : Slot r) {resume : Slot r}
    (hunwatched : resume.id ∉ s.coordinator.watchedIds)
    (hclear : (s.world.state resume).conclusive = false) :
    ((s.enter (.awaitingResume held resume)).ask resume .resume).Alert := by
  refine alert_ask hb ?_ resume (by simp)
  refine alert_enter rfl (expects_enter (.awaitingResume held resume) rfl hunwatched hopen) ?_
  exact guards_watchExactly hb hunwatched (release_calm calm hclear _)

theorem alert_rollBack (hb : b.Reports) {s : Session b}
    (calm : b.Calm Leg.State.conclusive s.coordinator.observer)
    (hopen : s.coordinator.outcome = none) (held : Slot r) (cause : Failure) :
    (s.rollBack held cause).Alert := by
  have hunwatched : held.id ∉ ((s.recordFailure cause).watchExactly []).coordinator.watchedIds := by
    simp [Coordinator.watchedIds]
  have hobserver := (tidy_watchExactly (s.recordFailure cause) []).observer
  have hissued : ((s.recordFailure cause).watchExactly []).coordinator.issued =
      s.coordinator.issued := rfl
  unfold rollBack
  dsimp only
  split
  · next hstate =>
    have hclear : (s.world.state held).conclusive = false := by
      have hholding : s.world.state held = .holding := hstate.2
      rw [hholding]
      rfl
    refine alert_ask hb ?_ held (by simp)
    refine alert_enter rfl (expects_rollingBack (s := s.recordFailure cause) held hopen) ?_
    have hdropped := release_calm (s := s.recordFailure cause) calm hclear []
    have hguards := guards_watchExactly hb hunwatched
      (release_calm (s := (s.recordFailure cause).watchExactly []) (hobserver ▸ calm)
        hdropped [held.id])
    rwa [hissued, hobserver] at hguards
  · exact alert_finish _ false

/-! ## Staying alert -/

/-- What a run of public operations keeps, whatever happens around it. -/
structure Steady (action : Action r) (policy : Policy) (observer : Observer) (s : Session b) :
    Prop where
  tracks : Tracks action s
  policy : s.coordinator.policy = policy
  observer : s.coordinator.observer = observer

namespace Steady

variable {action : Action r} {policy : Policy} {observer : Observer} {s t : Session b}

theorem acts (h : Steady action policy observer s) (hacts : Acts s t) :
    Steady action policy observer t :=
  ⟨h.tracks.acts hacts, hacts.policy_eq.trans h.policy, hacts.tidy.observer.trans h.observer⟩

theorem of_coordinator_eq (h : Steady action policy observer s)
    (hc : t.coordinator = s.coordinator) : Steady action policy observer t :=
  ⟨h.tracks.of_coordinator_eq hc, hc ▸ h.policy, hc ▸ h.observer⟩

end Steady

theorem steady_opened (action : Action r) (policy : Policy) (handler : Option FaultHandler)
    (observer : Observer) (w : World b) :
    Steady action policy observer (opened (.action action policy handler) observer w) := by
  refine ⟨.opened action policy handler observer w, ?_, ?_⟩ <;> cases action <;> rfl

section Run

variable {action : Action r} {policy : Policy} {observer : Observer} {K : Phase r → Prop}

/-- Whoever is alert in certain phases when it gets into them stays so, as long as legs report. -/
theorem alert_perform
    (hstart : ∀ s : Session b, Steady action policy observer s → s.phase = .idle action →
      K s.start.2.phase → s.start.2.Alert)
    (hhear : ∀ s t : Session b, Steady action policy observer s → Hears s t →
      t = s ∨ (K t.phase → t.Alert))
    {s : Session b} (hs : Steady action policy observer s) (halert : K s.phase → s.Alert)
    {operation : Operation r} (hpublic : operation.isPublic = true) :
    Steady action policy observer (s.perform operation).2 ∧
      (K (s.perform operation).2.phase → (s.perform operation).2.Alert) := by
  refine perform_preserves (P := fun s => Steady action policy observer s ∧ (K s.phase → s.Alert))
    ?_ ?_ ?_ ?_ ⟨hs, halert⟩ hpublic
  · rintro s ⟨hs, halert⟩
    refine ⟨hs.acts (acts_start s), ?_⟩
    by_cases hidle : ∃ a, s.phase = .idle a
    · obtain ⟨a, hidle⟩ := hidle
      have hallows := hs.tracks.allows
      rw [hidle] at hallows
      obtain rfl : a = action := hallows
      exact hstart s hs hidle
    · rw [start_eq_self fun a ha => hidle ⟨a, ha⟩]
      exact halert
  · rintro s t ⟨hs, halert⟩ hhears
    refine ⟨hs.acts hhears.acts, ?_⟩
    rcases hhear s t hs hhears with rfl | h
    · exact halert
    · exact h
  · rintro s t signal ⟨hs, halert⟩ hpop
    have hc := (pop_eq_some hpop).1
    have ht : Steady action policy observer t := hs.of_coordinator_eq hc
    have hhears := hears_dispatch t signal
    refine ⟨ht.acts hhears.acts, ?_⟩
    rcases hhear t _ ht hhears with hsame | h
    · rw [hsame]
      intro hk
      have hphase : t.phase = s.phase := congrArg (·.phase) hc
      exact (halert (hphase ▸ hk)).pop hpop hsame
    · exact h
  · rintro s listeners handler ⟨hs, halert⟩
    refine ⟨⟨hs.tracks.of_same rfl rfl rfl rfl, hs.policy, hs.observer⟩, fun hk => ?_⟩
    exact (halert hk).of_same rfl rfl rfl rfl rfl fun _ _ _ => id

theorem alert_turn (hb : b.Reports)
    (hstart : ∀ s : Session b, Steady action policy observer s → s.phase = .idle action →
      K s.start.2.phase → s.start.2.Alert)
    (hhear : ∀ s t : Session b, Steady action policy observer s → Hears s t →
      t = s ∨ (K t.phase → t.Alert))
    {s : Session b} (hs : Steady action policy observer s) (halert : K s.phase → s.Alert)
    {turn : Turn b} (hfair : turn.Fair observer) (hfrank : turn.Frank) :
    Steady action policy observer (s.turn turn) ∧
      (K (s.turn turn).phase → (s.turn turn).Alert) := by
  cases turn with
  | perform operation => exact alert_perform hstart hhear hs halert hfair
  | elsewhere other operation =>
    refine ⟨hs.of_coordinator_eq rfl, fun hk => (halert hk).of_same rfl rfl rfl rfl rfl ?_⟩
    intro slot goal epoch hguards
    have hne : s.coordinator.observer ≠ other.observer := by
      rw [hs.observer]
      exact Ne.symm hfair
    exact hguards.moves hb (moves_perform ⟨other, s.world⟩ operation) hne
  | stir memory effects =>
    refine ⟨hs.of_coordinator_eq rfl, fun hk => (halert hk).of_same rfl rfl rfl rfl rfl ?_⟩
    exact fun slot goal epoch hguards => hguards.stir memory hfrank

/-- A coordinator that is alert in certain phases whenever it gets into one of them is alert in
these phases at every time, if legs report. -/
theorem alert_run (hb : b.Reports)
    (hstart : ∀ s : Session b, Steady action policy observer s → s.phase = .idle action →
      K s.start.2.phase → s.start.2.Alert)
    (hhear : ∀ s t : Session b, Steady action policy observer s → Hears s t →
      t = s ∨ (K t.phase → t.Alert))
    (handler : Option FaultHandler) (w : World b) {turns : List (Turn b)}
    (hfair : ∀ turn ∈ turns, turn.Fair observer) (hfrank : ∀ turn ∈ turns, turn.Frank) :
    let s := (opened (.action action policy handler) observer w).run turns
    Steady action policy observer s ∧ (K s.phase → s.Alert) := by
  have hopened := steady_opened action policy handler observer w
  have hidle : (opened (.action action policy handler) observer w).Alert := by
    refine alert_of_no_goal ?_
    cases action <;> rfl
  refine run_induction
    (P := fun s => Steady action policy observer s ∧ (K s.phase → s.Alert))
    (Q := fun turn : Turn b => turn.Fair observer ∧ turn.Frank) ⟨hopened, fun _ => hidle⟩
    ?_ fun turn hmem => ⟨hfair turn hmem, hfrank turn hmem⟩
  rintro s turn ⟨hs, halert⟩ ⟨hturn, hturn'⟩
  exact alert_turn hb hstart hhear hs halert hturn hturn'

end Run

/-! ## Holding -/

theorem alert_start_hold (hb : b.Reports) {action : Action r} {policy : Policy}
    {observer : Observer} (onEntry : policy.holdSettledOnEntry = true) {s : Session b}
    (hs : Steady action policy observer s) (hidle : s.phase = .idle action)
    (hrank : s.start.2.phase.rank = 3) : s.start.2.Alert := by
  have hwatches : s.coordinator.watches = [] := by
    have hids := hs.tracks.watched
    rw [hidle] at hids
    exact List.map_eq_nil_iff.mp hids
  rcases start_of_idle hidle with ⟨next, -, hstart⟩ | ⟨cause, hstart⟩
  · rw [hstart, awaitHold] at hrank ⊢
    split at hrank
    · have hle := rank_holdSettled_le (({ s with world := action.entry s.world } :
        Session b).enter (.awaitingHold action.hold next)) action.hold next
      omega
    · next hunsettled =>
      have hclear : ((action.entry s.world).state action.hold).settled = false := by
        simpa [isSettledOnEntry, hs.policy, onEntry] using hunsettled
      rw [if_neg hunsettled]
      exact alert_awaitHold (s := { s with world := action.entry s.world }) hb hwatches
        (hs.tracks.undecided (by simp [hidle])) next hclear
  · rw [hstart]
    exact alert_finish _ false

/-! ## Resuming -/

section Resume

variable {hold leg : Slot r} {policy : Policy} {observer : Observer} {s t : Session b}

theorem alert_holdSettled (hb : b.Reports) (calm : b.Calm Leg.State.conclusive observer)
    (hne : hold.id ≠ leg.id) (hs : Steady (.swap hold leg) policy observer s)
    {next : Continuation r} (hphase : s.phase = .awaitingHold hold next) :
    (s.holdSettled hold next).Alert := by
  have hopen : s.coordinator.outcome = none := hs.tracks.undecided (by simp [hphase])
  have hcalm : b.Calm Leg.State.conclusive s.coordinator.observer := hs.observer ▸ calm
  have hallows := hs.tracks.allows
  rw [hphase] at hallows
  obtain rfl : next = .resume leg := hallows.2
  have hunwatched : leg.id ∉ s.coordinator.watchedIds := by
    rw [hs.tracks.watched, hphase]
    simpa [Phase.watched] using Ne.symm hne
  simp only [holdSettled]
  split
  · next hstate =>
    have hclear : (s.world.state leg).conclusive = false := by
      rw [hstate]
      rfl
    exact alert_awaitResume hb hcalm hopen hold hunwatched hclear
  · exact alert_finish s true
  · exact alert_rollBack hb hcalm hopen hold _

theorem alert_start_resume (hb : b.Reports) (calm : b.Calm Leg.State.conclusive observer)
    (hne : hold.id ≠ leg.id) (hs : Steady (.swap hold leg) policy observer s)
    (hidle : s.phase = .idle (.swap hold leg)) (hrank : s.start.2.phase.rank < 3) :
    s.start.2.Alert := by
  have hstart : s.start.2 = s.awaitHold hold (.resume leg) := by rw [start, hidle]
  rw [hstart, awaitHold] at hrank ⊢
  split at hrank
  · next hsettled =>
    have hentered : Steady (.swap hold leg) policy observer
        (s.enter (.awaitingHold hold (.resume leg))) :=
      hs.acts (.one (.enter (hidle ▸ .hold (.swap hold leg) rfl)))
    rw [if_pos hsettled]
    exact alert_holdSettled hb calm hne hentered rfl
  · exact absurd hrank (by simp [Phase.rank])

theorem alert_of_hears (hb : b.Reports) (calm : b.Calm Leg.State.conclusive observer)
    (hne : hold.id ≠ leg.id) (hs : Steady (.swap hold leg) policy observer s)
    (h : Hears s t) : t = s ∨ t.Alert := by
  cases h with
  | nothing => exact .inl rfl
  | notes hrecorder _ => exact absurd hrecorder hs.tracks.phase_ne_recorder
  | @holdSettled hold' next hphase =>
    have hallows := hs.tracks.allows
    rw [hphase] at hallows
    obtain rfl : hold' = hold := hallows.1
    exact .inr (alert_holdSettled hb calm hne hs hphase)
  | holdFailed hphase => exact .inr (alert_of_no_goal (by rw [phase_holdFailed]; rfl))
  | resumed hphase => exact .inr (alert_finish s true)
  | resumeFailed hphase _ =>
    have hopen : s.coordinator.outcome = none := hs.tracks.undecided (by simp [hphase])
    exact .inr (alert_rollBack hb (hs.observer ▸ calm) hopen _ _)
  | rolledBack hphase => exact .inr (alert_finish s false)

end Resume

end Session

/-- Coordinators of all kinds that take a leg on hold or gone for put on hold: between operations, a
coordinator with nothing to read that waits for its hold has a leg that is neither on hold nor
gone. Legs may change their states at any moment, also within the coordinator's requests, as long
as they report it. -/
theorem no_hold_unnoticed (reports : b.Reports) (action : Action r) (policy : Policy)
    (onEntry : policy.holdSettledOnEntry = true) (handler : Option FaultHandler)
    (observer : Observer) (w : World b) (turns : List (Turn b))
    (fair : ∀ turn ∈ turns, turn.Fair observer) (frank : ∀ turn ∈ turns, turn.Frank) :
    let s := (Session.opened (.action action policy handler) observer w).run turns
    ∀ hold next, s.phase = .awaitingHold hold next → s.mailbox = [] →
      hold = action.hold ∧ s.world.state hold ≠ .holding ∧ s.world.state hold ≠ .disconnected := by
  intro s hold next hphase hempty
  have hhear (s t : Session b) (hs : Session.Steady action policy observer s)
      (h : Session.Hears s t) : t = s ∨ (t.phase.rank = 3 → t.Alert) := by
    rcases h.eq_or_rank_lt hs.tracks.phase_ne_recorder with hsame | ⟨hlt, hle⟩
    · exact .inl hsame
    · exact .inr fun hrank => absurd hrank (by omega)
  obtain ⟨hs, halert⟩ := Session.alert_run (K := fun phase => phase.rank = 3) reports
    (fun _ => Session.alert_start_hold reports onEntry) hhear handler w fair frank
  have hunsettled : (s.world.state hold).settled = false :=
    (halert (congrArg Phase.rank hphase)).not_reached (congrArg Phase.goal? hphase) hempty
  have hallows := hs.tracks.allows
  rw [show Session.phase _ = _ from hphase] at hallows
  have hneither : ¬ (s.world.state hold = .holding ∨ s.world.state hold = .disconnected) := by
    rw [← Leg.State.settled_iff, hunsettled]
    exact Bool.false_ne_true
  exact ⟨hallows.1, not_or.mp hneither⟩

/-- Two legs that change their states in the very calls that dial, observe or hold them. -/
def Script.restless : Script [⟨"a"⟩, ⟨"b"⟩] where
  legs slot :=
    [(.dial, [.changeState 0 .ringing]), (.register, [.changeState slot .pulling]),
      (.hold, [.changeState slot .active])]

theorem Script.reports_restless : restless.behaviour.Reports :=
  reports_behaviour (by simp [restless, Effect.isSilent]) (by simp [restless])

/-- A dial whose leg to hold was on hold before the order that allocates the connection. -/
theorem no_hold_unnoticed_of_dial :
    let w : World Script.restless.behaviour :=
      .fresh #v[{ state := .holding }, { state := .idle }] ()
    let call : OutgoingCall := ⟨.address "5550100", .audioOnly, none⟩
    let turns : List (Turn Script.restless.behaviour) := [.perform .start, .perform .process]
    let s := (Session.opened (.action (.dial 0 1 call) {} none) ⟨0⟩ w).run turns
    (∀ turn ∈ turns, turn.Fair ⟨0⟩) ∧ (∀ turn ∈ turns, turn.Frank) ∧
      s.phase = .awaitingHold 0 (.place 1 call ⟨"b-conn"⟩) ∧ s.mailbox = [] ∧
      s.world.state 0 ≠ .holding ∧ s.world.state 0 ≠ .disconnected := by
  intro w call turns s
  have fair : ∀ turn ∈ turns, turn.Fair ⟨0⟩ := by simp [turns, Turn.Fair, Operation.isPublic]
  have frank : ∀ turn ∈ turns, turn.Frank := by simp [turns, Turn.Frank]
  let t := (Session.opened (.action (.dial 0 1 call) {} none) ⟨0⟩ w).start.2.hearUpTo 4
  have hempty : t.mailbox = [] := by decide
  have hphase : t.phase = .awaitingHold 0 (.place 1 call ⟨"b-conn"⟩) := by decide
  have hs : s = t := Session.processPending_eq_hearUpTo hempty
  rw [← hs] at hempty hphase
  obtain ⟨-, hstate⟩ := no_hold_unnoticed Script.reports_restless (.dial 0 1 call) {} rfl none
    ⟨0⟩ w turns fair frank 0 _ hphase hempty
  exact ⟨fair, frank, hphase, hempty, hstate⟩

/-- A leg to hold that makes the other leg active just when it is asked to drop a registration, and
so while nobody is registered there: the swap waits for an active leg and has nothing to read. -/
theorem resume_unnoticed_of_unregistering :
    let script : Script [⟨"a"⟩, ⟨"c"⟩] :=
      { legs := fun _ => [(.unregister, [.changeState 1 .active])] }
    let w : World script.behaviour := .fresh #v[{ state := .active }, { state := .holding }] ()
    let turns : List (Turn script.behaviour) :=
      [.perform .start, .stir () [.changeState 0 .holding], .perform .process]
    let s := (Session.opened (.action (.swap 0 1) {} none) ⟨0⟩ w).run turns
    script.behaviour.Reports ∧ w.Loyal ∧ (∀ turn ∈ turns, turn.Fair ⟨0⟩) ∧
      (∀ turn ∈ turns, turn.Frank) ∧ s.mailbox = [] ∧ s.phase = .awaitingResume 0 1 ∧
      s.world.state 1 = .active := by
  intro script w turns s
  let t := ((Session.opened (.action (.swap 0 1) {} none) ⟨0⟩ w).start.2.turn
    (.stir () [.changeState 0 .holding])).hearUpTo 2
  have hempty : t.mailbox = [] := by decide
  have hs : s = t := Session.processPending_eq_hearUpTo hempty
  rw [hs]
  refine ⟨?_, ?_, ?_, ?_, hempty, ?_, ?_⟩
  · refine Script.reports_behaviour ?_ ?_ <;> simp [script, Effect.isSilent]
  · unfold World.Loyal
    decide
  · simp [turns, Turn.Fair, Operation.isPublic]
  · simp [turns, Turn.Frank, Behaviour.frank_changeState]
  · decide
  · decide

/-- If no leg becomes active or gone just while one is asked to drop a registration of the swap:
between operations, a swap with nothing to read that waits for a leg to resume, or to come back,
has a leg that is neither active nor gone. -/
theorem no_resume_unnoticed (reports : b.Reports) (hold leg : Slot r) (hne : hold.id ≠ leg.id)
    (policy : Policy) (handler : Option FaultHandler) (observer : Observer)
    (calm : b.Calm Leg.State.conclusive observer) (w : World b) (turns : List (Turn b))
    (fair : ∀ turn ∈ turns, turn.Fair observer) (frank : ∀ turn ∈ turns, turn.Frank) :
    let s := (Session.opened (.action (.swap hold leg) policy handler) observer w).run turns
    s.mailbox = [] →
      (∀ held resume, s.phase = .awaitingResume held resume →
        resume = leg ∧ s.world.state leg ≠ .active ∧ s.world.state leg ≠ .disconnected) ∧
      (∀ back, s.phase = .rollingBack back →
        back = hold ∧ s.world.state hold ≠ .active ∧ s.world.state hold ≠ .disconnected) := by
  intro s hempty
  have hhear (s t : Session b) (hs : Session.Steady (.swap hold leg) policy observer s)
      (h : Session.Hears s t) : t = s ∨ (t.phase.rank < 3 → t.Alert) :=
    (Session.alert_of_hears reports calm hne hs h).imp_right fun halert _ => halert
  obtain ⟨hs, halert⟩ := Session.alert_run (K := fun phase => phase.rank < 3) reports
    (fun _ => Session.alert_start_resume reports calm hne) hhear handler w fair frank
  have hallows := hs.tracks.allows
  have hneither {state : Leg.State} (h : state.conclusive = false) :
      state ≠ .active ∧ state ≠ .disconnected := by
    apply not_or.mp
    rw [← Leg.State.conclusive_iff, h]
    exact Bool.false_ne_true
  refine ⟨fun held resume hphase => ?_, fun back hphase => ?_⟩
  · rw [show Session.phase _ = _ from hphase] at hallows
    obtain ⟨-, rfl⟩ : hold = held ∧ leg = resume := by simpa [Action.Allows] using hallows
    have hrank : s.phase.rank < 3 := by simp [hphase, Phase.rank]
    exact ⟨rfl, hneither ((halert hrank).not_reached (congrArg Phase.goal? hphase) hempty)⟩
  · rw [show Session.phase _ = _ from hphase] at hallows
    obtain ⟨leg', hswap⟩ := hallows
    obtain ⟨rfl, -⟩ : hold = back ∧ leg = leg' := by simpa using hswap
    have hrank : s.phase.rank < 3 := by simp [hphase, Phase.rank]
    exact ⟨rfl, hneither ((halert hrank).not_reached (congrArg Phase.goal? hphase) hempty)⟩

/-- Two legs that are on their way for a while before they are back in service. -/
def Script.leisurely : Script [⟨"a"⟩, ⟨"b"⟩] where
  legs slot := [(.resume, [.changeState slot .pulling])]

theorem Script.reports_leisurely : leisurely.behaviour.Reports :=
  reports_behaviour (by simp [leisurely, Effect.isSilent]) (by simp [leisurely])

theorem Script.calm_leisurely (goal : Leg.State → Bool) (observer : Observer) :
    leisurely.behaviour.Calm goal observer := by
  intro w slot other h
  rw [World.state_ask]
  exact h

/-- A swap whose leg to resume hangs up, so that the held one is asked to resume. -/
theorem no_resume_unnoticed_of_rollback :
    let w : World Script.leisurely.behaviour :=
      .fresh #v[{ state := .active }, { state := .holding }] ()
    let turns : List (Turn Script.leisurely.behaviour) :=
      [.perform .start, .stir () [.changeState 0 .holding], .perform .process,
        .stir () [.changeState 1 .disconnected], .perform .process]
    let s := (Session.opened (.action (.swap 0 1) {} none) ⟨0⟩ w).run turns
    (∀ turn ∈ turns, turn.Fair ⟨0⟩) ∧ (∀ turn ∈ turns, turn.Frank) ∧
      s.mailbox = [] ∧ s.phase = .rollingBack 0 ∧
      s.world.state 0 ≠ .active ∧ s.world.state 0 ≠ .disconnected := by
  intro w turns s
  have fair : ∀ turn ∈ turns, turn.Fair ⟨0⟩ := by simp [turns, Turn.Fair, Operation.isPublic]
  have frank : ∀ turn ∈ turns, turn.Frank := by
    simp [turns, Turn.Frank, Behaviour.frank_changeState]
  let asked := (Session.opened (.action (.swap 0 1) {} none) ⟨0⟩ w).start.2.turn
    (.stir () [.changeState 0 .holding])
  let held := asked.hearUpTo 2
  let hungUp : Turn Script.leisurely.behaviour := .stir () [.changeState 1 .disconnected]
  let t := (held.turn hungUp).hearUpTo 2
  have hheld : held.mailbox = [] := by decide
  have hempty : t.mailbox = [] := by decide
  have hphase : t.phase = .rollingBack 0 := by decide
  have hs : s = t := by
    calc s = (asked.processPending.2.turn hungUp).processPending.2 := rfl
      _ = (held.turn hungUp).processPending.2 := by
        rw [Session.processPending_eq_hearUpTo hheld]
      _ = t := Session.processPending_eq_hearUpTo hempty
  rw [← hs] at hempty hphase
  obtain ⟨-, hback⟩ := no_resume_unnoticed Script.reports_leisurely 0 1 (by decide) {} none ⟨0⟩
    (Script.calm_leisurely _ _) w turns fair frank hempty
  exact ⟨fair, frank, hempty, hphase, (hback 0 hphase).2⟩

end CallCoordination
