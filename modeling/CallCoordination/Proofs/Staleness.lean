import CallCoordination.Proofs.Session.Ages

/-!
# What is stale stays stale

Epochs tell registrations apart, also those of the same leg. So whether a signal counts depends on
the one registration of its epoch: it counts as long as the leg is watched through this very
registration, and never after.
-/

namespace CallCoordination

variable {r : Roster} {b : Behaviour r}

namespace Session

theorem isCurrent_iff {s : Session b} (h : s.Registered) (signal : Signal) :
    s.coordinator.isCurrent signal = true ↔ ∃ slot : Slot r, slot.id = signal.leg ∧
      .asked slot (.register ⟨s.coordinator.observer, signal.epoch⟩) ∈ s.world.trace ∧
      ⟨slot, signal.epoch⟩ ∈ s.coordinator.watches := by
  simp only [Coordinator.isCurrent, List.any_eq_true, decide_eq_true_eq]
  constructor
  · rintro ⟨watch, hmem, hepoch, hleg⟩
    exact ⟨watch.leg, hleg, hepoch ▸ h.requested watch hmem, hepoch ▸ hmem⟩
  · rintro ⟨slot, hleg, -, hmem⟩
    exact ⟨⟨slot, signal.epoch⟩, hmem, rfl, hleg⟩

theorem registered_opened (o : Opening r) (observer : Observer) (w : World b) :
    (opened o observer w).Registered := by
  cases o with
  | action action policy handler => cases action <;> exact ⟨.nil, .nil, nofun, nofun⟩
  | bare recording kind policy => exact ⟨.nil, .nil, nofun, nofun⟩

@[simp] theorem issued_opened (o : Opening r) (observer : Observer) (w : World b) :
    (opened o observer w).coordinator.issued = 0 := by
  cases o with
  | action action policy handler => cases action <;> rfl
  | bare recording kind policy => rfl

@[simp] theorem observer_opened (o : Opening r) (observer : Observer) (w : World b) :
    (opened o observer w).coordinator.observer = observer := by
  cases o with
  | action action policy handler => cases action <;> rfl
  | bare recording kind policy => rfl

end Session

/-- After any sequence of operations, those that drive the bookkeeping by hand included, whatever
legs do and whichever of them share an id: the watched ids are different, the epochs of the watches
ascend, and the registrations made so far have the epochs 1, 2, 3 and so on. A signal counts exactly
if it bears the id of a leg that is watched through the registration of its epoch. If it does not
count although its epoch was handed out, it never will, and once all registrations were renewed this
is the case of every signal of an epoch handed out before. -/
theorem stale_signals_stay_stale (o : Opening r) (observer : Observer) (w : World b)
    (unheard : w.epochs observer = []) (turns : List (Turn b))
    (apart : ∀ turn ∈ turns, turn.Apart observer) :
    let s := (Session.opened o observer w).run turns
    let made := s.world.epochs observer
    s.coordinator.watchedIds.Nodup ∧
    (s.coordinator.watches.map (·.epoch)).Pairwise (· < ·) ∧
    (∀ watch ∈ s.coordinator.watches, 1 ≤ watch.epoch ∧ watch.epoch ≤ made.length) ∧
    made = List.range' 1 made.length ∧
    (∀ signal, s.coordinator.isCurrent signal = true ↔ ∃ slot : Slot r, slot.id = signal.leg ∧
      .asked slot (.register ⟨observer, signal.epoch⟩) ∈ s.world.trace ∧
      ⟨slot, signal.epoch⟩ ∈ s.coordinator.watches) ∧
    ∀ later, (∀ turn ∈ later, turn.Apart observer) →
      ∀ signal : Signal, signal.epoch ≤ made.length →
        (s.coordinator.isCurrent signal = false →
          (s.run later).coordinator.isCurrent signal = false) ∧
        ∀ legs, ((s.rewatch legs).run later).coordinator.isCurrent signal = false := by
  intro s made
  have hages : Session.Ages (Session.opened o observer w) s :=
    Session.ages_run _ (by simpa using apart)
  have hobserver : s.coordinator.observer = observer := hages.observer.trans (by simp)
  have hregistered : s.Registered := hages.registered (Session.registered_opened o observer w)
  have hworld : (Session.opened o observer w).world.epochs observer = [] := unheard
  obtain ⟨n, hissued, hhanded⟩ := hages.handed
  rw [Session.observer_opened, hworld, Session.issued_opened, List.nil_append] at hhanded
  have hmade : made = List.range' 1 n := hhanded
  have hlength : made.length = n := by rw [hmade, List.length_range']
  have hcount : s.coordinator.issued = made.length := by
    rw [hissued, hlength, Session.issued_opened, Nat.zero_add]
  refine ⟨hregistered.distinct, hregistered.ascending, ?_, ?_, ?_, ?_⟩
  · rw [← hcount]
    exact hregistered.counted
  · rw [hlength]
    exact hmade
  · intro signal
    rw [← hobserver]
    exact Session.isCurrent_iff hregistered signal
  · intro later hlater signal hepoch
    rw [← hcount] at hepoch
    constructor
    · exact (Session.ages_run s (hobserver.symm ▸ hlater)).isCurrent_eq_false hepoch
    · intro legs
      have hrenewed := Session.ages_rewatch s legs
      have hstale := Session.isCurrent_rewatch s legs hepoch
      have hapart : ∀ turn ∈ later, turn.Apart (s.rewatch legs).coordinator.observer := by
        rw [hrenewed.observer, hobserver]
        exact hlater
      have hrun := Session.ages_run (s.rewatch legs) hapart
      exact hrun.isCurrent_eq_false (Nat.le_trans hepoch hrenewed.issued_le) hstale

/-- Two legs share an id and one of them drops nothing; both are wanted, one of them twice, and then
all is renewed. -/
theorem stale_signals_stay_stale_of_shared_id :
    let w : World (Script.behaviour (r := [⟨"a"⟩, ⟨"a"⟩, ⟨"b"⟩]) {}) :=
      .fresh #v[{ state := .active, sticky := true }, { state := .holding }, { state := .idle }] ()
    let turns : List (Turn (Script.behaviour (r := [⟨"a"⟩, ⟨"a"⟩, ⟨"b"⟩]) {})) :=
      [.perform (.watchExactly [0, 1, 2, 0]),
        .elsewhere (.bare true .dial {} ⟨1⟩ ⟨0⟩) (.watchExactly [1]),
        .perform (.rewatch [1, 2])]
    let later : List (Turn (Script.behaviour (r := [⟨"a"⟩, ⟨"a"⟩, ⟨"b"⟩]) {})) :=
      [.perform (.complete true), .perform (.watchExactly [0])]
    let s := (Session.opened (.bare false .swap {}) ⟨0⟩ w).run turns
    w.epochs ⟨0⟩ = [] ∧ (∀ turn ∈ turns, turn.Apart ⟨0⟩) ∧ (∀ turn ∈ later, turn.Apart ⟨0⟩) ∧
      s.coordinator.watches = [⟨1, 3⟩, ⟨2, 4⟩] ∧ s.world.epochs ⟨0⟩ = [1, 2, 3, 4] ∧
      s.coordinator.isCurrent ⟨⟨"a"⟩, 1, .destroyed⟩ = false ∧
      (s.run later).coordinator.isCurrent ⟨⟨"a"⟩, 1, .destroyed⟩ = false := by
  intro w turns later s
  have unheard : w.epochs ⟨0⟩ = [] := rfl
  have apart : ∀ turn ∈ turns, turn.Apart ⟨0⟩ := by
    simp [turns, Turn.Apart, Coordinator.bare]
  have apart' : ∀ turn ∈ later, turn.Apart ⟨0⟩ := by simp [later, Turn.Apart]
  have hlength : (s.world.epochs ⟨0⟩).length = 4 := by decide
  have hwatches : s.coordinator.watches = [⟨1, 3⟩, ⟨2, 4⟩] := by decide
  have hstale : s.coordinator.isCurrent ⟨⟨"a"⟩, 1, .destroyed⟩ = false := by
    rw [Coordinator.isCurrent, hwatches]
    decide
  obtain ⟨-, -, -, hmade, -, hlater⟩ :=
    stale_signals_stay_stale (.bare false .swap {}) ⟨0⟩ w unheard turns apart
  have hepoch : 1 ≤ (s.world.epochs ⟨0⟩).length := by omega
  refine ⟨unheard, apart, apart', hwatches, ?_, hstale, ?_⟩
  · rw [hlength] at hmade
    exact hmade
  · exact (hlater later apart' ⟨⟨"a"⟩, 1, .destroyed⟩ hepoch).1 hstale

end CallCoordination
