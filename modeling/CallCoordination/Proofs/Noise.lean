import CallCoordination.Proofs.Session.Ages
import CallCoordination.Proofs.Session.Heeding
import CallCoordination.Proofs.Session.Wire

/-!
# Noise is invisible

Some notifications have no consequence in any phase, and neither has a signal that has become stale.
A mailbox may be interspersed with them: to work through it does the same as without them.
-/

namespace CallCoordination

variable {r : Roster} {b : Behaviour r}

/-- A notification that no phase of a user action heeds. -/
def Notification.isIncidental : Notification → Bool
  | stateChanged .idle | stateChanged .dialing | stateChanged .ringing | stateChanged .pulling
  | connectionEvent (.other _ _) | videoChanged _ | extrasChanged _ | released _ | destroyed => true
  | _ => false

/-- Noise has no consequence: nothing heeds it, or its registration is a thing of the past. -/
def Coordinator.IsNoise (c : Coordinator r) (signal : Signal) : Prop :=
  signal.notification.isIncidental = true ∨ signal.epoch ≤ c.issued ∧ c.isCurrent signal = false

theorem Phase.heeds_of_isIncidental {phase : Phase r} (hphase : phase ≠ recorder)
    {notification : Notification} (h : notification.isIncidental = true) :
    phase.heeds notification = false := by
  cases phase with
  | recorder => exact absurd rfl hphase
  | idle _ | done | plain => rfl
  | awaitingHold _ _ | awaitingResume _ _ | rollingBack _ =>
    cases notification with
    | stateChanged state => cases state <;> first | rfl | cases h
    | connectionEvent event => cases event <;> first | rfl | cases h
    | videoChanged _ | extrasChanged _ | released _ | destroyed => rfl

/-- The elements of `xs` in their order, with others between them that satisfy `P`. -/
inductive Inserted {α : Type} (P : α → Prop) : List α → List α → Prop
  | nil : Inserted P [] []
  | keep (x : α) {xs ys : List α} (h : Inserted P xs ys) : Inserted P (x :: xs) (x :: ys)
  | insert {y : α} (hy : P y) {xs ys : List α} (h : Inserted P xs ys) : Inserted P xs (y :: ys)

namespace Inserted

variable {α : Type} {P : α → Prop} {xs ys : List α}

theorem append_right (h : Inserted P xs ys) (zs : List α) : Inserted P (xs ++ zs) (ys ++ zs) := by
  induction h with
  | nil =>
    induction zs with
    | nil => exact .nil
    | cons z zs ih => exact .keep z ih
  | keep x _ ih => exact .keep x ih
  | insert hy _ ih => exact .insert hy ih

theorem eq_nil (h : Inserted P xs []) : xs = [] := by
  cases h
  rfl

end Inserted

namespace Session

/-! ## Sessions that differ in noise -/

/-- The sessions are the same but for the coordinator's own mailbox. -/
structure Alike (s t : Session b) : Prop where
  coordinator : t.coordinator = s.coordinator
  legs : t.world.legs = s.world.legs
  trace : t.world.trace = s.world.trace
  memory : t.world.memory = s.world.memory
  others : ∀ other, other ≠ s.coordinator.observer →
    t.world.mailbox other = s.world.mailbox other

namespace Alike

variable {s t u : Session b}

theorem symm (h : Alike s t) : Alike t s where
  coordinator := h.coordinator.symm
  legs := h.legs.symm
  trace := h.trace.symm
  memory := h.memory.symm
  others other hne := (h.others other (h.coordinator ▸ hne)).symm

theorem trans (h : Alike s t) (h' : Alike t u) : Alike s u where
  coordinator := h'.coordinator.trans h.coordinator
  legs := h'.legs.trans h.legs
  trace := h'.trace.trans h.trace
  memory := h'.memory.trans h.memory
  others other hne := (h'.others other (h.coordinator ▸ hne)).trans (h.others other hne)

/-- To take a letter off the wire changes nothing but the mailbox that it was in. -/
theorem of_pop {signal : Signal} (h : s.pop = some (signal, t)) : Alike s t := by
  simp only [Session.pop, Option.map_eq_some_iff, Prod.exists, Prod.mk.injEq] at h
  obtain ⟨_, world, hcollect, rfl, rfl⟩ := h
  have hother (other : Observer) (hne : other ≠ s.coordinator.observer) :=
    World.mailbox_collect_of_ne hcollect hne
  obtain rfl := World.collect_eq_some hcollect
  exact ⟨rfl, rfl, rfl, rfl, hother⟩

end Alike

/-- The second session is the first one with noise in its mailbox. -/
structure AlikeBut (noise : Signal → Prop) (s t : Session b) : Prop extends Alike s t where
  mailbox : Inserted noise s.mailbox t.mailbox

theorem exists_pop {s : Session b} {signal : Signal} {rest : List Signal}
    (h : s.mailbox = signal :: rest) : ∃ t, s.pop = some (signal, t) := by
  rw [mailbox] at h
  simp [Session.pop, World.collect, h]

theorem mailbox_behind_of_empty {w : World b} (h : w.wire = []) (letters : List Letter)
    (observer : Observer) : (w.behind letters).mailbox observer =
      (letters.filter (·.recipient = observer)).map (·.signal) := by
  rw [World.mailbox_behind, World.mailbox, h]
  simp

namespace AlikeBut

variable {noise : Signal → Prop} {s t : Session b}

theorem exists_behind (h : AlikeBut noise s t) :
    ∃ (u : Session b) (letters letters' : List Letter), u.world.wire = [] ∧
      s = u.behind letters ∧ t = u.behind letters' := by
  obtain ⟨c', ⟨legs', letters', trace', memory'⟩⟩ := t
  obtain ⟨⟨hcoordinator, hlegs, htrace, hmemory, -⟩, -⟩ := h
  dsimp only at hcoordinator hlegs htrace hmemory
  subst hcoordinator hlegs htrace hmemory
  refine ⟨{ s with world := { s.world with wire := [] } }, s.world.wire, letters', rfl, ?_, ?_⟩
  · exact congrArg (Session.mk _) (World.behind_wire s.world).symm
  · simp [behind, World.behind]

/-- Sessions that differ in noise do the same when they hear the same. -/
theorem dispatch (h : AlikeBut noise s t) (signal : Signal) :
    AlikeBut noise (s.dispatch signal) (t.dispatch signal) := by
  obtain ⟨u, letters, letters', hempty, rfl, rfl⟩ := h.exists_behind
  have hobserver := (acts_dispatch u signal).tidy.observer
  have hmailbox := h.mailbox
  have hothers := h.others
  simp only [Session.mailbox, world_behind, coordinator_behind, mailbox_behind_of_empty hempty]
    at hmailbox hothers
  rw [dispatch_behind, dispatch_behind]
  refine ⟨⟨rfl, rfl, rfl, rfl, fun other hne => ?_⟩, ?_⟩
  · rw [coordinator_behind, hobserver] at hne
    simp only [world_behind, World.mailbox_behind]
    rw [hothers other hne]
  · simp only [Session.mailbox, world_behind, coordinator_behind, World.mailbox_behind, hobserver]
    exact hmailbox.append_right _

/-- The next letter of the second session is noise, or the next one of the first session, too. -/
theorem pop (h : AlikeBut noise s t) {signal : Signal} {t' : Session b}
    (hpop : t.pop = some (signal, t')) :
    noise signal ∧ AlikeBut noise s t' ∨
      ∃ s', s.pop = some (signal, s') ∧ AlikeBut noise s' t' := by
  have halike : Alike s t' := h.toAlike.trans (.of_pop hpop)
  have hmailbox := h.mailbox
  rw [(pop_eq_some hpop).2] at hmailbox
  generalize hm : s.mailbox = mails at hmailbox
  cases hmailbox with
  | insert hnoise hrest => exact .inl ⟨hnoise, halike, hm ▸ hrest⟩
  | keep _ hrest =>
    obtain ⟨s', hpop'⟩ := exists_pop hm
    have hmailbox' := (pop_eq_some hpop').2
    rw [hm] at hmailbox'
    obtain ⟨-, rfl⟩ := List.cons.inj hmailbox'
    exact .inr ⟨s', hpop', (Alike.of_pop hpop').symm.trans halike, hrest⟩

end AlikeBut

/-! ## Hearing noise -/

theorem dispatch_of_noise {s t : Session b} (hages : Ages s t) (hphase : t.phase ≠ .recorder)
    {signal : Signal} (h : s.coordinator.IsNoise signal) : t.dispatch signal = t := by
  apply dispatch_of_unheeded
  intro hcurrent
  rcases h with hincidental | ⟨hepoch, hstale⟩
  · exact Phase.heeds_of_isIncidental hphase hincidental
  · simp [hages.isCurrent_eq_false hepoch hstale] at hcurrent

/-- What is noise at some moment is noise for ever. -/
theorem Ages.isNoise {s t : Session b} (h : Ages s t) {signal : Signal}
    (hnoise : s.coordinator.IsNoise signal) : t.coordinator.IsNoise signal := by
  rcases hnoise with hincidental | ⟨hepoch, hstale⟩
  · exact .inl hincidental
  · exact .inr ⟨Nat.le_trans hepoch h.issued_le, h.isCurrent_eq_false hepoch hstale⟩

theorem AlikeBut.processPending {action : Action r} {origin s t : Session b}
    (hages : Ages origin t) (h : AlikeBut origin.coordinator.IsNoise s t)
    (htracks : Tracks action t) :
    AlikeBut origin.coordinator.IsNoise s.processPending.2 t.processPending.2 := by
  -- along the noisy side: noise is passed over, and everything else is heard on both sides
  fun_induction Session.processPending t generalizing s with
  | case1 t hdone =>
    rw [processPending_of_completed (h.coordinator ▸ hdone)]
    exact h
  | case2 t hdone hnone =>
    have hempty : t.mailbox = [] := by
      cases hm : t.mailbox with
      | nil => rfl
      | cons signal rest =>
        obtain ⟨_, hsome⟩ := exists_pop hm
        cases hnone.symm.trans hsome
    have hmailbox := h.mailbox
    rw [hempty] at hmailbox
    rw [processPending_of_mailbox hmailbox.eq_nil]
    exact h
  | case3 t hdone signal t' hsome count last hrec ih =>
    have htaken := htracks.step (.pop hsome)
    have hlater := hages.trans (Step.ages (.pop hsome))
    have hacts := acts_dispatch t' signal
    rw [hrec] at ih
    rcases h.pop hsome with ⟨hnoise, halike⟩ | ⟨s', hsome', halike⟩
    · rw [dispatch_of_noise hlater htaken.phase_ne_recorder hnoise] at ih
      exact ih hlater halike htaken
    · rw [processPending_of_pop (h.coordinator ▸ hdone) hsome']
      exact ih (hlater.trans hacts.ages) (halike.dispatch signal) (htaken.acts hacts)

end Session

/-- After any run of public operations, whatever the legs do and whatever is in the mailbox: to work
through the mailbox does the same if there is noise in it as if there is none. The coordinators end
alike, with the legs in the same states and after the same requests and calls, and nothing differs
but what is left of the noise, which is noise still. -/
theorem noise_is_invisible (action : Action r) (policy : Policy) (handler : Option FaultHandler)
    (observer : Observer) (w : World b) (turns : List (Turn b))
    (allPublic : ∀ turn ∈ turns, turn.Public) (quiet noisy : World b) :
    let c := ((Session.opened (.action action policy handler) observer w).run turns).coordinator
    Session.AlikeBut c.IsNoise ⟨c, quiet⟩ ⟨c, noisy⟩ →
      let s := (Session.processPending ⟨c, quiet⟩).2
      let t := (Session.processPending ⟨c, noisy⟩).2
      Session.AlikeBut c.IsNoise s t ∧
        ∀ signal, c.IsNoise signal → t.coordinator.IsNoise signal := by
  intro c halike s t
  have hreached : Session.Tracks action
      ((Session.opened (.action action policy handler) observer w).run turns) :=
    (Session.Tracks.opened action policy handler observer w).run allPublic
  have htracks : Session.Tracks action (⟨c, noisy⟩ : Session b) := hreached.of_coordinator_eq rfl
  have horigin := Session.Ages.refl (⟨c, noisy⟩ : Session b)
  have hages := (Session.acts_processPending (⟨c, noisy⟩ : Session b)).ages
  have hend := Session.AlikeBut.processPending horigin halike htracks
  exact ⟨hend, fun signal => hages.isNoise⟩

/-- A report that the leg is on hold, amid signals of other legs, of no registration and of no
interest, the last of which come when the leg is not observed any more. -/
theorem noise_is_invisible_of_swap :
    let turns : List (Turn (Script.behaviour (r := [⟨"a"⟩, ⟨"b"⟩]) {})) := [.perform .start]
    let start := Session.opened (.action (.swap 0 1) {} none) ⟨0⟩ (World.pair .active .holding)
    let c := (start.run turns).coordinator
    let w := (start.run turns).world
    let settled : Letter := ⟨⟨0⟩, ⟨⟨"a"⟩, 1, .stateChanged .holding⟩⟩
    let quiet := { w with wire := [settled] }
    let noisy := { w with wire :=
      [⟨⟨0⟩, ⟨⟨"b"⟩, 7, .videoChanged .rxOnly⟩⟩, ⟨⟨0⟩, ⟨⟨"b"⟩, 1, .stateChanged .disconnected⟩⟩,
        settled, ⟨⟨0⟩, ⟨⟨"b"⟩, 0, .stateChanged .active⟩⟩] }
    (∀ turn ∈ turns, turn.Public) ∧ Session.AlikeBut c.IsNoise ⟨c, quiet⟩ ⟨c, noisy⟩ ∧
      (Session.processPending ⟨c, noisy⟩).2.phase = .awaitingResume 0 1 := by
  intro turns start c w settled quiet noisy
  have allPublic : ∀ turn ∈ turns, turn.Public := by
    simp [turns, Turn.Public, Operation.isPublic]
  have halike : Session.AlikeBut c.IsNoise ⟨c, quiet⟩ ⟨c, noisy⟩ := by
    refine ⟨⟨rfl, rfl, rfl, rfl, fun other hne => ?_⟩, ?_⟩
    · have hnone : other ≠ ⟨0⟩ := hne
      simp [World.mailbox, quiet, noisy, settled, Ne.symm hnone]
    · refine .insert (.inl rfl) (.insert (.inr ?_) (.keep _ (.insert (.inr ?_) .nil)))
      · decide
      · decide
  have hsettled : (Session.processPending ⟨c, quiet⟩).2.phase = .awaitingResume 0 1 := by
    have hheard : (Session.hearUpTo ⟨c, quiet⟩ 1).mailbox = [] := by decide
    rw [Session.processPending_eq_hearUpTo hheard]
    decide
  have hend := (noise_is_invisible (.swap 0 1) {} none ⟨0⟩ (World.pair .active .holding) turns
    allPublic quiet noisy halike).1
  exact ⟨allPublic, halike, (congrArg (·.phase) hend.coordinator).trans hsettled⟩

end CallCoordination
