import CallCoordination.Proofs.Session.Ages

/-!
# Genuine runs

In a genuine run a coordinator hears nothing but what could be sent through a registration that it
had made by then. Epochs are handed out in ascending order, so whatever was under way before a
registration was made is of an earlier epoch than the registration.
-/

namespace CallCoordination

variable {r : Roster} {b : Behaviour r}

/-- A turn in which the coordinator hears only signals of epochs that it has handed out, whoever
they are said to come from. To take a signal from the mailbox without hearing it does no harm. -/
def Turn.Genuine (s : Session b) : Turn b → Prop
  | perform (.dispatch signal) => signal.epoch ∈ s.world.epochs s.coordinator.observer
  | perform (.hearState _ _) | perform (.hearEvent _ _) => False
  | perform operation => operation = .pop ∨ operation.isPublic = true
  | elsewhere other _ => other.observer ≠ s.coordinator.observer
  | stir _ _ => True

namespace Session

def Genuine (s : Session b) : List (Turn b) → Prop
  | [] => True
  | turn :: later => turn.Genuine s ∧ (s.turn turn).Genuine later

theorem genuine_append {s : Session b} {turns later : List (Turn b)} :
    s.Genuine (turns ++ later) ↔ s.Genuine turns ∧ (s.run turns).Genuine later := by
  induction turns generalizing s with
  | nil => simp [Genuine]
  | cons turn turns ih => simp [Genuine, ih, and_assoc]

section Preserves

variable {P : Session b → Prop}

theorem pop_eq {s t : Session b} {signal : Signal} (h : s.pop = some (signal, t)) :
    t = { s with world := t.world } := by
  have hc := (pop_eq_some h).1
  cases t
  cases hc
  rfl

theorem turn_pop {s t : Session b} {signal : Signal} (h : s.pop = some (signal, t)) :
    s.turn (.perform .pop) = t := by
  simp only [turn, perform]
  rw [h]

/-- A genuine turn preserves whatever starting, hearing and any change of the world without new
epochs preserve. -/
theorem genuine_turn_preserves (hstart : ∀ s, P s → P s.start.2)
    (hhear : ∀ s t, P s → Hears s t → P t)
    (hworld : ∀ (s : Session b) w, P s → World.Leads s.world w →
      w.epochs s.coordinator.observer = s.world.epochs s.coordinator.observer →
      P { s with world := w })
    (hkeep : ∀ s listeners handler, P s →
      P (s.modify ({ · with listeners := listeners, handler := handler })))
    {s : Session b} (h : P s) {turn : Turn b} (genuine : turn.Genuine s) : P (s.turn turn) := by
  have htake (s t : Session b) (signal : Signal) (h : P s) (hpop : s.pop = some (signal, t)) :
      P t := by
    have hleads : World.Leads s.world t.world := (moves_pop hpop).leads
    have hepochs : t.world.epochs s.coordinator.observer =
        s.world.epochs s.coordinator.observer := by
      rw [World.epochs, trace_pop hpop, World.epochs]
    rw [pop_eq hpop]
    exact hworld s t.world h hleads hepochs
  have hpublic {operation : Operation r} (hpublic : operation.isPublic = true) :
      P (s.perform operation).2 := by
    refine perform_preserves hstart hhear ?_ hkeep h hpublic
    intro s t signal h hpop
    exact hhear t _ (htake s t signal h hpop) (hears_dispatch t signal)
  cases turn with
  | elsewhere other operation =>
    have hmoves := moves_perform ⟨other, s.world⟩ operation
    exact hworld s _ h hmoves.leads (hmoves.epochs_of_ne (Ne.symm genuine))
  | stir memory effects =>
    exact hworld s _ h (.single (.stir s.world memory effects)) (World.epochs_stir _ _ _ _)
  | perform operation =>
    cases operation with
    | pop =>
      simp only [turn, perform]
      split
      · exact h
      · next signal t hpop => exact htake s t signal h hpop
    | hearState _ _ | hearEvent _ _ => exact absurd genuine id
    | watchExactly _ | rewatch _ | complete _ | recordFailure _ =>
      simp [Turn.Genuine, Operation.isPublic] at genuine
    | start | process | serve | dispatch _ | addListener _ | removeListener _ | setHandler _ =>
      exact hpublic rfl

theorem genuine_run_preserves (hturn : ∀ s turn, P s → turn.Genuine s → P (s.turn turn))
    {s : Session b} (h : P s) {turns : List (Turn b)} (genuine : s.Genuine turns) :
    P (s.run turns) := by
  induction turns generalizing s with
  | nil => exact h
  | cons turn turns ih => exact ih (hturn s turn h genuine.1) genuine.2

end Preserves

/-! ## One signal at a time -/

/-- Take as many signals from the mailbox and hear each of them before the next. -/
def hearing (signals : List Signal) : List (Turn b) :=
  signals.flatMap fun signal => [.perform .pop, .perform (.dispatch signal)]

theorem hearing_append_singleton (signals : List Signal) (signal : Signal) :
    (hearing (signals ++ [signal]) : List (Turn b)) =
      hearing signals ++ [.perform .pop, .perform (.dispatch signal)] := by
  simp [hearing]

theorem run_hearing_cons {s t : Session b} {signal : Signal} (h : s.pop = some (signal, t))
    (signals : List Signal) :
    s.run (hearing (signal :: signals)) = (t.dispatch signal).run (hearing signals) := by
  simp only [hearing, List.flatMap_cons, List.cons_append, List.nil_append, run_cons, turn_pop h]
  rfl

/-- A session that comes of hearing signals of the mailbox. -/
structure Heard (s t : Session b) : Prop where
  leads : World.Leads s.world t.world
  observer : t.coordinator.observer = s.coordinator.observer
  signals : ∃ signals, s.Genuine (hearing signals) ∧ s.run (hearing signals) = t

theorem Heard.dispatch {s t u : Session b} {signal : Signal} (h : Heard s t)
    (haccounted : s.world.Accounted s.coordinator.observer) (hpop : t.pop = some (signal, u)) :
    Heard s (u.dispatch signal) := by
  obtain ⟨signals, hgenuine, hrun⟩ := h.signals
  obtain ⟨hc, hmailbox⟩ := pop_eq_some hpop
  have hacts := acts_dispatch u signal
  have hobserver : u.coordinator.observer = s.coordinator.observer := by rw [hc, h.observer]
  have htaken : (t.perform .pop).2 = u := turn_pop hpop
  have hepoch : signal.epoch ∈ u.world.epochs u.coordinator.observer := by
    have hmailed : signal ∈ t.world.mailbox s.coordinator.observer := by
      rw [mailbox, h.observer] at hmailbox
      rw [hmailbox]
      exact List.mem_cons_self
    have hhanded := (h.leads.accounted haccounted).mailed signal hmailed
    rw [World.epochs, ← trace_pop hpop] at hhanded
    rwa [hobserver]
  refine ⟨(h.leads.trans (moves_pop hpop).leads).trans hacts.moves.leads,
    hacts.tidy.observer.trans hobserver, signals ++ [signal], ?_, ?_⟩
  · rw [hearing_append_singleton, genuine_append, hrun]
    refine ⟨hgenuine, .inl rfl, ?_, trivial⟩
    change signal.epoch ∈ (t.perform .pop).2.world.epochs (t.perform .pop).2.coordinator.observer
    rwa [htaken]
  · rw [hearing_append_singleton, run_append, hrun]
    change (t.perform .pop).2.dispatch signal = u.dispatch signal
    rw [htaken]

/-- To work through the mailbox, in either way, is to hear one signal of it after the other. -/
theorem exists_hearing {s : Session b} (h : s.world.Accounted s.coordinator.observer)
    {operation : Operation r} (hdrain : operation = .process ∨ operation = .serve) :
    ∃ signals, s.Genuine (hearing signals) ∧
      s.run (hearing signals) = (s.perform operation).2 := by
  have hnone : Heard s s := ⟨.refl, rfl, [], trivial, rfl⟩
  have hnext (t u : Session b) (signal : Signal) (ht : Heard s t)
      (hpop : t.pop = some (signal, u)) : Heard s (u.dispatch signal) := ht.dispatch h hpop
  rcases hdrain with rfl | rfl
  · exact (processPending_preserves hnext hnone).signals
  · exact (serve_preserves hnext hnone).signals

/-! ## Ascending epochs -/

/-- No epoch was handed out that is later than the last one the coordinator has counted. -/
def Numbered (s : Session b) : Prop :=
  ∀ epoch ∈ s.world.epochs s.coordinator.observer, epoch ≤ s.coordinator.issued

namespace Numbered

variable {s t : Session b}

theorem of_epochs_eq (h : s.Numbered) (hobserver : t.coordinator.observer = s.coordinator.observer)
    (hissued : t.coordinator.issued = s.coordinator.issued)
    (hepochs : t.world.epochs s.coordinator.observer = s.world.epochs s.coordinator.observer) :
    t.Numbered := by
  intro epoch hmem
  rw [hobserver, hepochs] at hmem
  rw [hissued]
  exact h epoch hmem

/-- Epochs are handed out in their order, so the last one that was counted stays the latest. -/
theorem of_ages (h : s.Numbered) (hages : Ages s t) : t.Numbered := by
  obtain ⟨n, hissued, hepochs⟩ := hages.handed
  intro epoch hmem
  rw [hages.observer, hepochs] at hmem
  rcases List.mem_append.mp hmem with hmem | hmem
  · have hle := h epoch hmem
    omega
  · have hlt := (List.mem_range'_1.mp hmem).2
    omega

theorem watchExactly (h : s.Numbered) (wanted : List (Slot r)) :
    (s.watchExactly wanted).Numbered :=
  h.of_ages (ages_watchExactly s wanted)

theorem acts (h : s.Numbered) (hacts : Acts s t) : t.Numbered := h.of_ages hacts.ages

end Numbered

end Session

end CallCoordination
