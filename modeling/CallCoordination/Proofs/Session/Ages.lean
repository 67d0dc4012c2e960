import CallCoordination.Proofs.Session.Hearing

/-!
# Watches age

Epochs are handed out one after the other, each to one registration, and a watch keeps the epoch
that it was made with. What is watched at a later time is therefore watched already or of a later
epoch, so a watch that was dropped does not come back. This holds of every operation, also of those
that drive the bookkeeping by hand, and on legs that keep what they are asked to drop.
-/

namespace CallCoordination

variable {r : Roster} {b : Behaviour r}

/-- A turn in which nobody else acts under the name of the observer. -/
def Turn.Apart (observer : Observer) : Turn b → Prop
  | elsewhere other _ => other.observer ≠ observer
  | perform _ | stir _ _ => True

theorem World.Grows.epochs_eq {observer : Observer} {w w' : World b}
    (h : Grows (·.epoch? observer = none) w w') : w'.epochs observer = w.epochs observer :=
  h.filterMap_eq fun _ => id

namespace Session

/-- The watches are of different ids and in the order of their epochs, and the trace shows for each
of them the request that made it. -/
structure Registered (s : Session b) : Prop where
  distinct : s.coordinator.watchedIds.Nodup
  ascending : (s.coordinator.watches.map (·.epoch)).Pairwise (· < ·)
  counted : ∀ watch ∈ s.coordinator.watches,
    1 ≤ watch.epoch ∧ watch.epoch ≤ s.coordinator.issued
  requested : ∀ watch ∈ s.coordinator.watches,
    .asked watch.leg (.register ⟨s.coordinator.observer, watch.epoch⟩) ∈ s.world.trace

/-- From `s` to `t` the next epochs were handed out in their order, and no watch came back. -/
structure Ages (s t : Session b) : Prop where
  observer : t.coordinator.observer = s.coordinator.observer
  handed : ∃ n, t.coordinator.issued = s.coordinator.issued + n ∧
    t.world.epochs s.coordinator.observer =
      s.world.epochs s.coordinator.observer ++ List.range' (s.coordinator.issued + 1) n
  watches : ∀ watch ∈ t.coordinator.watches,
    watch ∈ s.coordinator.watches ∨ s.coordinator.issued < watch.epoch
  registered : s.Registered → t.Registered

namespace Ages

variable {s t u : Session b}

theorem issued_le (h : Ages s t) : s.coordinator.issued ≤ t.coordinator.issued := by
  obtain ⟨n, hissued, -⟩ := h.handed
  omega

theorem trans (h : Ages s t) (h' : Ages t u) : Ages s u where
  observer := h'.observer.trans h.observer
  handed := by
    obtain ⟨n, hissued, hepochs⟩ := h.handed
    obtain ⟨m, hissued', hepochs'⟩ := h'.handed
    rw [h.observer, hepochs, hissued] at hepochs'
    refine ⟨n + m, by omega, ?_⟩
    rw [hepochs', List.append_assoc, Nat.add_right_comm, List.range'_append_1]
  watches watch hmem := by
    rcases h'.watches watch hmem with hkept | hlater
    · exact h.watches watch hkept
    · exact .inr (Nat.lt_of_le_of_lt h.issued_le hlater)
  registered hs := h'.registered (h.registered hs)

/-- Where no registration is made and no watch changes, the trace only has to grow. -/
theorem of_grows (hobserver : t.coordinator.observer = s.coordinator.observer)
    (hwatches : t.coordinator.watches = s.coordinator.watches)
    (hissued : t.coordinator.issued = s.coordinator.issued)
    (hgrows : World.Grows (·.epoch? s.coordinator.observer = none) s.world t.world) :
    Ages s t where
  observer := hobserver
  handed := ⟨0, hissued, by simpa using hgrows.epochs_eq⟩
  watches watch hmem := .inl (hwatches ▸ hmem)
  registered hs := by
    obtain ⟨events, htrace, -⟩ := hgrows
    refine ⟨?_, hwatches ▸ hs.ascending, ?_, ?_⟩
    · rw [Coordinator.watchedIds, hwatches]
      exact hs.distinct
    · rw [hwatches, hissued]
      exact hs.counted
    · rw [hwatches, hobserver, htrace]
      exact fun watch hmem => List.mem_append_left events (hs.requested watch hmem)

theorem of_same (hc : t.coordinator = s.coordinator)
    (hgrows : World.Grows (·.epoch? s.coordinator.observer = none) s.world t.world) : Ages s t :=
  of_grows (by rw [hc]) (by rw [hc]) (by rw [hc]) hgrows

theorem refl (s : Session b) : Ages s s := of_same rfl (.refl _ _)

/-- A signal whose epoch has been handed out, and which is not current, never is again. -/
theorem isCurrent_eq_false (h : Ages s t) {signal : Signal}
    (hepoch : signal.epoch ≤ s.coordinator.issued)
    (hstale : s.coordinator.isCurrent signal = false) :
    t.coordinator.isCurrent signal = false := by
  simp only [Coordinator.isCurrent, List.any_eq_false, decide_eq_true_eq] at hstale ⊢
  rintro watch hmem ⟨hsame, hleg⟩
  rcases h.watches watch hmem with hkept | hlater
  · exact hstale watch hkept ⟨hsame, hleg⟩
  · omega

end Ages

/-! ## Dropping and adding watches -/

theorem grows_release (s : Session b) (wanted : List Leg.Id) :
    World.Grows (·.epoch? s.coordinator.observer = none) s.world (s.release wanted).world := by
  have hfold (watches : List (Watch r)) (w : World b) :
      World.Grows (·.epoch? s.coordinator.observer = none) w
        (watches.foldl (fun w watch => w.ask watch.leg (.unregister s.coordinator.observer)) w) := by
    induction watches generalizing w with
    | nil => exact .refl _ w
    | cons watch watches ih =>
      have hfirst := World.grows_ask w watch.leg (.unregister s.coordinator.observer)
      exact (hfirst.mono fun _ he => he ▸ rfl).trans (ih _)
  exact hfold _ s.world

theorem ages_release (s : Session b) (wanted : List Leg.Id) : Ages s (s.release wanted) where
  observer := rfl
  handed := ⟨0, rfl, by simpa using (grows_release s wanted).epochs_eq⟩
  watches watch hmem := .inl (List.mem_filter.mp hmem).1
  registered hs := by
    have hkept : (s.release wanted).coordinator.watches.Sublist s.coordinator.watches :=
      List.filter_sublist
    obtain ⟨events, htrace, -⟩ := grows_release s wanted
    refine ⟨hs.distinct.sublist (hkept.map _), hs.ascending.sublist (hkept.map _), ?_, ?_⟩
    · exact fun watch hmem => hs.counted watch (hkept.subset hmem)
    · rw [htrace]
      intro watch hmem
      exact List.mem_append_left events (hs.requested watch (hkept.subset hmem))

/-- The watch that is added is the latest of all. -/
theorem Registered.watch {s : Session b} (hs : s.Registered) (slot : Slot r) :
    (s.watch slot).Registered := by
  unfold Session.watch
  split
  · exact hs
  next hnot =>
    have hnew : slot.id ∉ s.coordinator.watchedIds := fun hmem =>
      hnot (Coordinator.isWatching_iff.mpr hmem)
    have htrace := World.trace_ask s.world slot
      (.register ⟨s.coordinator.observer, s.coordinator.issued + 1⟩)
    constructor
    · simp only [Coordinator.watchedIds, List.map_append, List.map_cons, List.map_nil]
      rw [List.nodup_append]
      refine ⟨hs.distinct, by simp, ?_⟩
      rintro id hmem other hother rfl
      rw [List.mem_singleton] at hother
      exact hnew (hother ▸ hmem)
    · simp only [List.map_append, List.map_cons, List.map_nil]
      rw [List.pairwise_append]
      refine ⟨hs.ascending, List.pairwise_singleton _ _, ?_⟩
      intro epoch hmem last hlast
      obtain ⟨watch, hwatch, rfl⟩ := List.mem_map.mp hmem
      have hle := (hs.counted watch hwatch).2
      rw [List.mem_singleton] at hlast
      omega
    · intro watch hmem
      rcases List.mem_append.mp hmem with hmem | hmem
      · have hbounds := hs.counted watch hmem
        exact ⟨hbounds.1, Nat.le_succ_of_le hbounds.2⟩
      · obtain rfl := List.mem_singleton.mp hmem
        exact ⟨Nat.succ_pos _, Nat.le_refl _⟩
    · rw [htrace]
      intro watch hmem
      rcases List.mem_append.mp hmem with hmem | hmem
      · exact List.mem_append_left _ (hs.requested watch hmem)
      · obtain rfl := List.mem_singleton.mp hmem
        exact List.mem_append_right _ (List.mem_singleton_self _)

theorem ages_watch (s : Session b) (slot : Slot r) : Ages s (s.watch slot) where
  observer := (tidy_watch s slot).observer
  handed := by
    unfold Session.watch
    split
    · exact ⟨0, rfl, by simp⟩
    · refine ⟨1, rfl, ?_⟩
      change (s.world.ask slot (.register ⟨s.coordinator.observer,
        s.coordinator.issued + 1⟩)).epochs s.coordinator.observer = _
      rw [World.epochs_of_trace (World.trace_ask _ _ _)]
      simp [Event.epoch?]
  watches watch hmem := by
    unfold Session.watch at hmem
    split at hmem
    · exact .inl hmem
    · rcases List.mem_append.mp hmem with hmem | hmem
      · exact .inl hmem
      · obtain rfl := List.mem_singleton.mp hmem
        exact .inr (Nat.lt_succ_self _)
  registered hs := hs.watch slot

theorem ages_watchExactly (s : Session b) (wanted : List (Slot r)) :
    Ages s (s.watchExactly wanted) := by
  have hfold (slots : List (Slot r)) (t : Session b) : Ages t (slots.foldl watch t) := by
    induction slots generalizing t with
    | nil => exact .refl t
    | cons slot slots ih => exact (ages_watch t slot).trans (ih _)
  exact (ages_release s _).trans (hfold wanted _)

theorem ages_rewatch (s : Session b) (wanted : List (Slot r)) : Ages s (s.rewatch wanted) :=
  (ages_watchExactly s []).trans (ages_watchExactly _ wanted)

/-- After all registrations were renewed, none of the epochs handed out before counts. -/
theorem isCurrent_rewatch (s : Session b) (wanted : List (Slot r)) {signal : Signal}
    (hepoch : signal.epoch ≤ s.coordinator.issued) :
    (s.rewatch wanted).coordinator.isCurrent signal = false := by
  have hdropped := ages_watchExactly s []
  apply (ages_watchExactly (s.watchExactly []) wanted).isCurrent_eq_false
  · exact Nat.le_trans hepoch hdropped.issued_le
  · simp [Coordinator.isCurrent]

/-! ## Everything else -/

theorem ages_enter (s : Session b) (phase : Phase r) : Ages s (s.enter phase) := by
  have hphase (t : Session b) :
      Ages t { t with coordinator := { t.coordinator with phase := phase } } :=
    .of_grows rfl rfl rfl (.refl _ _)
  unfold enter
  split
  · exact (ages_rewatch s _).trans (hphase _)
  · exact (ages_watchExactly s _).trans (hphase _)

theorem ages_ask (s : Session b) (slot : Slot r) {request : LegRequest}
    (hrequest : request.isRegistration = false) : Ages s (s.ask slot request) := by
  refine .of_same rfl ((World.grows_ask s.world slot request).mono ?_)
  rintro event rfl
  cases request with
  | register _ | unregister _ => simp [LegRequest.isRegistration] at hrequest
  | hold | resume | answer _ | disconnect _ => rfl

theorem ages_complete (s : Session b) (success : Bool) : Ages s (s.complete success) := by
  unfold complete
  split
  · exact .refl s
  · refine (ages_watchExactly s []).trans (.of_grows rfl rfl rfl ?_)
    refine (World.grows_foldl_tell (s.watchExactly []).world success _).mono ?_
    intro event hcall
    cases event <;> simp_all [Event.call?, Event.epoch?]

theorem Step.ages {s t : Session b} (h : Step s t) : Ages s t := by
  cases h with
  | begin _ _ => exact (ages_enter s _).trans (ages_ask _ _ rfl)
  | enter _ => exact ages_enter s _
  | @ask slot request hrequest =>
    apply ages_ask
    cases request <;> simp_all [LegRequest.isFollowUp, LegRequest.isRegistration]
  | dial slot callee terms => exact .of_same rfl (.single (World.trace_dial _ _ _ _) rfl)
  | report slot fault =>
    refine .of_same (coordinator_reportFault s slot fault)
      ((grows_reportFault s slot fault).mono ?_)
    rintro event ⟨handler, rfl⟩
    rfl
  | fail failure => exact .of_grows rfl rfl rfl (.refl _ _)
  | noteState leg state => exact .of_same rfl (.single rfl rfl)
  | noteEvent leg event => exact .of_same rfl (.single rfl rfl)
  | pop hpop => exact .of_same (pop_eq_some hpop).1 (.of_eq _ (trace_pop hpop))

theorem Acts.ages {s t : Session b} (h : Acts s t) : Ages s t := by
  induction h with
  | nothing s => exact .refl s
  | finish s success => exact (ages_enter s .done).trans (ages_complete _ success)
  | step hstep _ ih => exact hstep.ages.trans ih

theorem ages_perform (s : Session b) (operation : Operation r) :
    Ages s (s.perform operation).2 := by
  cases performs s operation with
  | acts h _ _ => exact h.ages
  | addListener _ | removeListener _ | setHandler _ => exact .of_grows rfl rfl rfl (.refl _ _)
  | watchExactly legs => exact ages_watchExactly s legs
  | rewatch legs => exact ages_rewatch s legs
  | complete success => exact ages_complete s success

theorem ages_turn (s : Session b) {turn : Turn b}
    (hapart : turn.Apart s.coordinator.observer) : Ages s (s.turn turn) := by
  cases turn with
  | perform operation => exact ages_perform s operation
  | elsewhere other operation =>
    have hmoves := moves_perform ⟨other, s.world⟩ operation
    exact .of_same rfl (hmoves.grows.mono fun event h => h _ (Ne.symm hapart))
  | stir memory effects => exact .of_same rfl (.of_eq _ (World.trace_stir s.world memory effects))

theorem ages_run (s : Session b) {turns : List (Turn b)}
    (hapart : ∀ turn ∈ turns, turn.Apart s.coordinator.observer) : Ages s (s.run turns) := by
  refine run_induction (P := Ages s) (Q := fun turn => turn.Apart s.coordinator.observer)
    (.refl s) ?_ hapart
  intro t turn ht hturn
  exact ht.trans (ages_turn t (ht.observer ▸ hturn))

end Session

end CallCoordination
