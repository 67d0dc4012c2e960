import CallCoordination.Proofs.Staleness
import Mathlib.Data.List.Nodup

/-!
# Reconciling what is watched

To watch exactly the legs that are wanted is to drop the watches whose ids are not wanted, and then
to add one watch for each id that is new. The first leg of that id is taken, and the next epoch.
Legs are told apart by their slots, but what is wanted is told by ids.
-/

namespace CallCoordination

variable {r : Roster} {b : Behaviour r}

/-! ## What is new -/

/-- Of the legs whose ids are not known the first one of each id, in their order. -/
def newcomers (known : List Leg.Id) (wanted : List (Slot r)) : List (Slot r) :=
  (wanted.filter (·.id ∉ known)).eraseDupsBy fun later earlier => later.id = earlier.id

/-- Watches of legs in their order, of one epoch after the other. -/
def Watch.number (epoch : Nat) (legs : List (Slot r)) : List (Watch r) :=
  (legs.zipIdx epoch).map fun next => ⟨next.1, next.2⟩

@[simp] theorem newcomers_nil (known : List Leg.Id) : newcomers (r := r) known [] = [] := rfl

theorem newcomers_cons_of_mem {known : List Leg.Id} {slot : Slot r} (h : slot.id ∈ known)
    (wanted : List (Slot r)) : newcomers known (slot :: wanted) = newcomers known wanted := by
  rw [newcomers, List.filter_cons_of_neg (by simpa using h), newcomers]

theorem newcomers_cons_of_not_mem {known : List Leg.Id} {slot : Slot r} (h : slot.id ∉ known)
    (wanted : List (Slot r)) :
    newcomers known (slot :: wanted) = slot :: newcomers (known ++ [slot.id]) wanted := by
  rw [newcomers, List.filter_cons_of_pos (by simpa using h), List.eraseDupsBy_cons,
    List.filter_filter, newcomers]
  congr 2
  apply List.filter_congr
  intro other _
  simp [and_comm]

theorem newcomers_congr {known known' : List Leg.Id} {wanted : List (Slot r)}
    (h : ∀ slot ∈ wanted, slot.id ∈ known ↔ slot.id ∈ known') :
    newcomers known wanted = newcomers known' wanted := by
  unfold newcomers
  congr 1
  apply List.filter_congr
  intro slot hslot
  rw [decide_eq_decide, h slot hslot]

/-- A newcomer is the first of its id, and its id is not known. -/
theorem mem_newcomers_iff {known : List Leg.Id} {wanted : List (Slot r)} {slot : Slot r} :
    slot ∈ newcomers known wanted ↔ ∃ before after,
      wanted = before ++ slot :: after ∧ slot.id ∉ known ∧ slot.id ∉ before.map Slot.id := by
  induction wanted generalizing known with
  | nil => simp
  | cons first rest ih =>
    by_cases hfirst : first.id ∈ known
    · rw [newcomers_cons_of_mem hfirst, ih]
      constructor
      · rintro ⟨before, after, rfl, hknown, hbefore⟩
        refine ⟨first :: before, after, rfl, hknown, ?_⟩
        rw [List.map_cons, List.mem_cons, not_or]
        exact ⟨fun hsame => hknown (hsame ▸ hfirst), hbefore⟩
      · rintro ⟨before, after, hsplit, hknown, hbefore⟩
        cases before with
        | nil =>
          obtain ⟨rfl, -⟩ := List.cons.inj hsplit
          exact absurd hfirst hknown
        | cons other before =>
          obtain ⟨-, rfl⟩ := List.cons.inj hsplit
          exact ⟨before, after, rfl, hknown, fun hmem => hbefore (List.mem_cons_of_mem _ hmem)⟩
    · rw [newcomers_cons_of_not_mem hfirst, List.mem_cons, ih]
      constructor
      · rintro (rfl | ⟨before, after, rfl, hknown, hbefore⟩)
        · exact ⟨[], rest, rfl, hfirst, List.not_mem_nil⟩
        · rw [List.mem_append, List.mem_singleton, not_or] at hknown
          refine ⟨first :: before, after, rfl, hknown.1, ?_⟩
          rw [List.map_cons, List.mem_cons, not_or]
          exact ⟨hknown.2, hbefore⟩
      · rintro ⟨before, after, hsplit, hknown, hbefore⟩
        cases before with
        | nil => exact .inl (List.cons.inj hsplit).1.symm
        | cons other before =>
          obtain ⟨rfl, rfl⟩ := List.cons.inj hsplit
          rw [List.map_cons, List.mem_cons, not_or] at hbefore
          refine .inr ⟨before, after, rfl, ?_, hbefore.2⟩
          rw [List.mem_append, List.mem_singleton, not_or]
          exact ⟨hknown, hbefore.1⟩

theorem newcomers_sublist (known : List Leg.Id) (wanted : List (Slot r)) :
    (newcomers known wanted).Sublist wanted := by
  induction wanted generalizing known with
  | nil => exact List.nil_sublist _
  | cons first rest ih =>
    by_cases hfirst : first.id ∈ known
    · rw [newcomers_cons_of_mem hfirst]
      exact (ih known).cons first
    · rw [newcomers_cons_of_not_mem hfirst]
      exact (ih _).cons_cons first

theorem mem_map_newcomers_iff {known : List Leg.Id} {wanted : List (Slot r)} {id : Leg.Id} :
    id ∈ (newcomers known wanted).map Slot.id ↔ id ∈ wanted.map Slot.id ∧ id ∉ known := by
  induction wanted generalizing known with
  | nil => simp
  | cons first rest ih =>
    by_cases hfirst : first.id ∈ known
    · rw [newcomers_cons_of_mem hfirst, ih, List.map_cons, List.mem_cons]
      grind
    · rw [newcomers_cons_of_not_mem hfirst, List.map_cons, List.mem_cons, ih, List.map_cons,
        List.mem_cons, List.mem_append, List.mem_singleton]
      grind

theorem nodup_newcomers (known : List Leg.Id) (wanted : List (Slot r)) :
    ((newcomers known wanted).map Slot.id).Nodup := by
  induction wanted generalizing known with
  | nil => exact List.nodup_nil
  | cons first rest ih =>
    by_cases hfirst : first.id ∈ known
    · rw [newcomers_cons_of_mem hfirst]
      exact ih known
    · rw [newcomers_cons_of_not_mem hfirst, List.map_cons, List.nodup_cons]
      refine ⟨fun hmem => ?_, ih _⟩
      obtain ⟨other, hother, hsame⟩ := List.mem_map.mp hmem
      obtain ⟨-, -, -, hknown, -⟩ := mem_newcomers_iff.mp hother
      exact hknown (hsame ▸ List.mem_append_right known (List.mem_singleton_self _))

namespace Watch

@[simp] theorem number_nil (epoch : Nat) : number (r := r) epoch [] = [] := rfl

theorem number_cons (epoch : Nat) (leg : Slot r) (legs : List (Slot r)) :
    number epoch (leg :: legs) = ⟨leg, epoch⟩ :: number (epoch + 1) legs := rfl

@[simp] theorem map_leg_number (epoch : Nat) (legs : List (Slot r)) :
    (number epoch legs).map (·.leg) = legs := by
  rw [number, List.map_map]
  exact List.zipIdx_map_fst ..

theorem map_epoch_number (epoch : Nat) (legs : List (Slot r)) :
    (number epoch legs).map (·.epoch) = List.range' epoch legs.length := by
  rw [number, List.map_map]
  exact List.zipIdx_map_snd ..

end Watch

/-- The watches of the newcomers, one epoch after the other. -/
def Coordinator.added (c : Coordinator r) (wanted : List (Slot r)) : List (Watch r) :=
  Watch.number (c.issued + 1) (newcomers c.watchedIds wanted)

theorem Coordinator.map_leg_added (c : Coordinator r) (wanted : List (Slot r)) :
    (c.added wanted).map (·.leg) = newcomers c.watchedIds wanted :=
  Watch.map_leg_number ..

theorem Coordinator.map_id_added (c : Coordinator r) (wanted : List (Slot r)) :
    (c.added wanted).map (·.leg.id) = (newcomers c.watchedIds wanted).map Slot.id := by
  rw [← map_leg_added, List.map_map]
  rfl

theorem Coordinator.map_epoch_added (c : Coordinator r) (wanted : List (Slot r)) :
    (c.added wanted).map (·.epoch) = List.range' (c.issued + 1) (c.added wanted).length := by
  have hlength : ((c.added wanted).map (·.leg)).length = (c.added wanted).length :=
    List.length_map ..
  rw [← hlength, map_leg_added]
  exact Watch.map_epoch_number ..

namespace Session

/-! ## Dropping and adding watches -/

/-- The watches that are added are those of the newcomers, and each is asked for once. -/
theorem foldl_watch_eq (s : Session b) (wanted : List (Slot r)) :
    (wanted.foldl watch s).coordinator =
        { s.coordinator with
          watches := s.coordinator.watches ++ s.coordinator.added wanted
          issued := s.coordinator.issued + (s.coordinator.added wanted).length } ∧
      (wanted.foldl watch s).world.trace =
        s.world.trace ++ (s.coordinator.added wanted).map fun watch =>
          .asked watch.leg (.register ⟨s.coordinator.observer, watch.epoch⟩) := by
  induction wanted generalizing s with
  | nil => simp [Coordinator.added]
  | cons slot rest ih =>
    by_cases hknown : slot.id ∈ s.coordinator.watchedIds
    · have hsame : s.watch slot = s := if_pos (Coordinator.isWatching_iff.mpr hknown)
      rw [Coordinator.added, newcomers_cons_of_mem hknown, List.foldl_cons, hsame]
      exact ih s
    · have hwatch : s.watch slot = _ := if_neg fun h => hknown (Coordinator.isWatching_iff.mp h)
      have hadded : s.coordinator.added (slot :: rest) =
          ⟨slot, s.coordinator.issued + 1⟩ :: (s.watch slot).coordinator.added rest := by
        rw [Coordinator.added, Coordinator.added, newcomers_cons_of_not_mem hknown,
          Watch.number_cons, watchedIds_watch, if_neg hknown, hwatch]
      obtain ⟨hcoordinator, htrace⟩ := ih (s.watch slot)
      rw [List.foldl_cons, hcoordinator, htrace, hadded, List.length_cons]
      generalize (s.watch slot).coordinator.added rest = later
      rw [hwatch]
      constructor
      · simp [Nat.add_right_comm, Nat.add_assoc]
      · simp

/-- What watching comes to, whatever is watched before. -/
theorem watchExactly_eq (s : Session b) (wanted : List (Slot r)) :
    (s.watchExactly wanted).coordinator =
        { s.coordinator with
          watches := s.coordinator.watches.filter (·.leg.id ∈ wanted.map Slot.id) ++
            s.coordinator.added wanted
          issued := s.coordinator.issued + (s.coordinator.added wanted).length } ∧
      (s.watchExactly wanted).world.trace = s.world.trace ++
        ((s.coordinator.watches.filter (·.leg.id ∉ wanted.map Slot.id)).map fun watch =>
          .asked watch.leg (.unregister s.coordinator.observer)) ++
        (s.coordinator.added wanted).map fun watch =>
          .asked watch.leg (.register ⟨s.coordinator.observer, watch.epoch⟩) := by
  have hadded : (s.release (wanted.map Slot.id)).coordinator.added wanted =
      s.coordinator.added wanted := by
    rw [Coordinator.added, Coordinator.added]
    congr 1
    apply newcomers_congr
    intro slot hslot
    rw [watchedIds_release, List.mem_filter, and_iff_left]
    exact decide_eq_true (List.mem_map_of_mem hslot)
  obtain ⟨hcoordinator, htrace⟩ := foldl_watch_eq (s.release (wanted.map Slot.id)) wanted
  rw [hadded] at hcoordinator htrace
  rw [trace_release] at htrace
  exact ⟨hcoordinator, htrace⟩

theorem watchedIds_watchExactly (s : Session b) (wanted : List (Slot r)) :
    (s.watchExactly wanted).coordinator.watchedIds =
      s.coordinator.watchedIds.filter (· ∈ wanted.map Slot.id) ++
        (newcomers s.coordinator.watchedIds wanted).map Slot.id := by
  rw [(watchExactly_eq s wanted).1, Coordinator.watchedIds, List.map_append,
    Coordinator.map_id_added, Coordinator.watchedIds, List.filter_map]
  rfl

theorem mem_watchedIds_watchExactly (s : Session b) (wanted : List (Slot r)) (id : Leg.Id) :
    id ∈ (s.watchExactly wanted).coordinator.watchedIds ↔ id ∈ wanted.map Slot.id := by
  rw [watchedIds_watchExactly, List.mem_append, List.mem_filter, mem_map_newcomers_iff,
    decide_eq_true_eq]
  constructor
  · rintro (⟨-, hwanted⟩ | ⟨hwanted, -⟩) <;> exact hwanted
  · intro hwanted
    by_cases hknown : id ∈ s.coordinator.watchedIds
    · exact .inl ⟨hknown, hwanted⟩
    · exact .inr ⟨hwanted, hknown⟩

/-- Where nothing is to be dropped and nobody is new, nothing happens. -/
theorem watchExactly_eq_self {s : Session b} {wanted : List (Slot r)}
    (h : ∀ id, id ∈ s.coordinator.watchedIds ↔ id ∈ wanted.map Slot.id) :
    s.watchExactly wanted = s := by
  have hwanted : ∀ watch ∈ s.coordinator.watches, watch.leg.id ∈ wanted.map Slot.id :=
    fun watch hmem => (h _).mp (List.mem_map.mpr ⟨watch, hmem, rfl⟩)
  have hrelease : s.release (wanted.map Slot.id) = s := by
    have hkept : s.coordinator.watches.filter (·.leg.id ∈ wanted.map Slot.id) =
        s.coordinator.watches :=
      List.filter_eq_self.mpr fun watch hmem => decide_eq_true (hwanted watch hmem)
    have hdropped : s.coordinator.watches.filter (·.leg.id ∉ wanted.map Slot.id) = [] :=
      List.filter_eq_nil_iff.mpr fun watch hmem => by simpa using hwanted watch hmem
    rw [release, hkept, hdropped, List.foldl_nil]
  have hfold (slots : List (Slot r)) (hslots : ∀ slot ∈ slots, slot.id ∈ s.coordinator.watchedIds) :
      slots.foldl watch s = s := by
    induction slots with
    | nil => rfl
    | cons slot slots ih =>
      have hfirst : s.watch slot = s :=
        if_pos (Coordinator.isWatching_iff.mpr (hslots slot List.mem_cons_self))
      rw [List.foldl_cons, hfirst]
      exact ih fun other hother => hslots other (List.mem_cons_of_mem _ hother)
  rw [watchExactly, hrelease]
  exact hfold wanted fun slot hslot => (h _).mpr (List.mem_map_of_mem hslot)

end Session

/-- After any sequence of operations, those that drive the bookkeeping by hand included, whatever
legs do and whichever of them share an id, let any legs be wanted, none of them or one of them
twice. The watches whose ids are wanted stay, and behind them comes one watch for each id that is
new, on the first leg of that id, in the order in which they are wanted and of the next epochs.
First the legs of the watches that go are asked to drop their registrations, then those of the
watches that come are asked to keep one, each of them once, and nothing else is asked for. So
exactly the ids that are wanted are watched, and to watch the same legs again does nothing. -/
theorem watching_reconciles (o : Opening r) (observer : Observer) (w : World b)
    (unheard : w.epochs observer = []) (turns : List (Turn b))
    (apart : ∀ turn ∈ turns, turn.Apart observer) (wanted : List (Slot r)) :
    let s := (Session.opened o observer w).run turns
    let t := (s.perform (.watchExactly wanted)).2
    let kept := s.coordinator.watches.filter (·.leg.id ∈ wanted.map Slot.id)
    let dropped := s.coordinator.watches.filter (·.leg.id ∉ wanted.map Slot.id)
    let added := s.coordinator.added wanted
    t.coordinator = { s.coordinator with
      watches := kept ++ added
      issued := s.coordinator.issued + added.length } ∧
    t.world.trace = s.world.trace ++
      (dropped.map fun watch => .asked watch.leg (.unregister observer)) ++
      (added.map fun watch => .asked watch.leg (.register ⟨observer, watch.epoch⟩)) ∧
    ((dropped ++ added).map (·.leg.id)).Nodup ∧
    (added.map (·.leg)).Sublist wanted ∧
    (∀ slot, slot ∈ added.map (·.leg) ↔ ∃ before after, wanted = before ++ slot :: after ∧
      slot.id ∉ s.coordinator.watchedIds ∧ slot.id ∉ before.map Slot.id) ∧
    added.map (·.epoch) = List.range' (s.coordinator.issued + 1) added.length ∧
    (∀ watch ∈ added, watch.epoch ∉ s.world.epochs observer) ∧
    (∀ id, id ∈ t.coordinator.watchedIds ↔ id ∈ wanted.map Slot.id) ∧
    t.perform (.watchExactly wanted) = (.done, t) ∧
    let u := (s.perform (.watchExactly [])).2
    u.coordinator = { s.coordinator with watches := [] } ∧
    u.world.trace = s.world.trace ++
      (s.coordinator.watches.map fun watch => .asked watch.leg (.unregister observer)) ∧
    s.coordinator.watchedIds.Nodup := by
  intro s t kept dropped added
  have hages : Session.Ages (Session.opened o observer w) s :=
    Session.ages_run _ (by simpa using apart)
  have hobserver : s.coordinator.observer = observer := hages.observer.trans (by simp)
  have hregistered : s.Registered := hages.registered (Session.registered_opened o observer w)
  have hmade : s.world.epochs observer = List.range' 1 s.coordinator.issued := by
    have hworld : (Session.opened o observer w).world.epochs observer = [] := unheard
    obtain ⟨n, hissued, hhanded⟩ := hages.handed
    rw [Session.observer_opened, hworld, Session.issued_opened, List.nil_append] at hhanded
    rw [hhanded, hissued, Session.issued_opened, Nat.zero_add, Nat.zero_add]
  have hlegs : added.map (·.leg) = newcomers s.coordinator.watchedIds wanted :=
    Coordinator.map_leg_added ..
  have hepochs : added.map (·.epoch) = List.range' (s.coordinator.issued + 1) added.length :=
    Coordinator.map_epoch_added ..
  have hwatched : ∀ id, id ∈ t.coordinator.watchedIds ↔ id ∈ wanted.map Slot.id :=
    s.mem_watchedIds_watchExactly wanted
  obtain ⟨hcoordinator, htrace⟩ := s.watchExactly_eq wanted
  rw [hobserver] at htrace
  refine ⟨hcoordinator, htrace, ?_, ?_, ?_, hepochs, ?_, hwatched, ?_, ?_⟩
  · have hdropped : dropped.Sublist s.coordinator.watches := List.filter_sublist
    rw [List.map_append, Coordinator.map_id_added, List.nodup_append]
    refine ⟨hregistered.distinct.sublist (hdropped.map _), nodup_newcomers .., ?_⟩
    rintro id hold _ hnew rfl
    exact (mem_map_newcomers_iff.mp hnew).2 ((hdropped.map _).subset hold)
  · rw [hlegs]
    exact newcomers_sublist ..
  · intro slot
    rw [hlegs]
    exact mem_newcomers_iff
  · intro watch hmem hold
    have hnew := List.mem_map_of_mem (f := (·.epoch)) hmem
    rw [hepochs, List.mem_range'_1] at hnew
    rw [hmade, List.mem_range'_1] at hold
    omega
  · rw [Session.perform, Session.watchExactly_eq_self hwatched]
  · have hnobody : s.coordinator.added [] = [] := rfl
    obtain ⟨hcoordinator, htrace⟩ := s.watchExactly_eq []
    rw [hnobody] at hcoordinator htrace
    rw [hobserver] at htrace
    refine ⟨hcoordinator.trans ?_, htrace.trans ?_, hregistered.distinct⟩
    · simp
    · simp

/-- Of the two legs of one id the one that is wanted first is taken, although it is the later one of
the roster. -/
theorem watching_reconciles_of_shared_id :
    let w : World (Script.behaviour (r := [⟨"a"⟩, ⟨"b"⟩, ⟨"b"⟩, ⟨"c"⟩]) {}) :=
      .fresh (.replicate 4 { state := .active }) ()
    let turns : List (Turn (Script.behaviour (r := [⟨"a"⟩, ⟨"b"⟩, ⟨"b"⟩, ⟨"c"⟩]) {})) :=
      [.perform (.watchExactly [0, 3])]
    let s := (Session.opened (.bare false .answer {}) ⟨0⟩ w).run turns
    let t := (s.perform (.watchExactly [2, 1, 0, 2])).2
    w.epochs ⟨0⟩ = [] ∧ (∀ turn ∈ turns, turn.Apart ⟨0⟩) ∧
      s.coordinator.watches = [⟨0, 1⟩, ⟨3, 2⟩] ∧ t.coordinator.watches = [⟨0, 1⟩, ⟨2, 3⟩] ∧
      t.world.trace = s.world.trace ++
        [.asked 3 (.unregister ⟨0⟩), .asked 2 (.register ⟨⟨0⟩, 3⟩)] := by
  intro w turns s t
  have unheard : w.epochs ⟨0⟩ = [] := rfl
  have apart : ∀ turn ∈ turns, turn.Apart ⟨0⟩ := by simp [turns, Turn.Apart]
  have hwatches : s.coordinator.watches = [⟨0, 1⟩, ⟨3, 2⟩] := by decide
  have hkept : s.coordinator.watches.filter
      (·.leg.id ∈ ([2, 1, 0, 2] : List (Slot [⟨"a"⟩, ⟨"b"⟩, ⟨"b"⟩, ⟨"c"⟩])).map Slot.id) =
        [⟨0, 1⟩] := by
    decide
  have hdropped : s.coordinator.watches.filter
      (·.leg.id ∉ ([2, 1, 0, 2] : List (Slot [⟨"a"⟩, ⟨"b"⟩, ⟨"b"⟩, ⟨"c"⟩])).map Slot.id) =
        [⟨3, 2⟩] := by
    decide
  have hadded : s.coordinator.added [2, 1, 0, 2] = [⟨2, 3⟩] := by decide
  obtain ⟨hcoordinator, htrace, -⟩ :=
    watching_reconciles (.bare false .answer {}) ⟨0⟩ w unheard turns apart [2, 1, 0, 2]
  rw [hkept, hadded] at hcoordinator
  rw [hdropped, hadded, List.append_assoc] at htrace
  refine ⟨unheard, apart, hwatches, ?_, ?_⟩
  · simp only [t, s, hcoordinator]
    rfl
  · simp only [t, s, htrace]
    rfl

end CallCoordination
