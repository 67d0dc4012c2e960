import CallCoordination.Proofs.Session.Acts

/-!
# Watches and registrations

A session touches no registrations but those of its own observer. On loyal legs, which drop what
they are asked to drop, its watches and its registrations stay the same thing kept in two places:
each leg holds one registration for each watch of that leg, with the epoch of the watch.
-/

namespace CallCoordination

variable {r : Roster} {b : Behaviour r}

def World.Loyal (w : World b) : Prop := ∀ slot, (w.leg slot).sticky = false

namespace Session

/-- The registrations of the coordinator are those of its watches. -/
def Mirrored (s : Session b) : Prop :=
  ∀ slot, s.world.registrationsOf s.coordinator.observer slot =
    (s.coordinator.watches.filter (·.leg = slot)).map fun watch =>
      ⟨s.coordinator.observer, watch.epoch⟩

/-- Between `s` and `t` no registration of another observer was touched, and watches and
registrations were changed together. -/
structure Tidy (s t : Session b) : Prop where
  observer : t.coordinator.observer = s.coordinator.observer
  sticky : ∀ slot, (t.world.leg slot).sticky = (s.world.leg slot).sticky
  others : ∀ observer, observer ≠ s.coordinator.observer → ∀ slot,
    t.world.registrationsOf observer slot = s.world.registrationsOf observer slot
  mirrored : s.world.Loyal → s.Mirrored → t.Mirrored

namespace Tidy

theorem refl (s : Session b) : Tidy s s :=
  ⟨rfl, fun _ => rfl, fun _ _ _ => rfl, fun _ h => h⟩

theorem loyal {s t : Session b} (h : Tidy s t) (hl : s.world.Loyal) : t.world.Loyal :=
  fun slot => (h.sticky slot).trans (hl slot)

theorem trans {s t u : Session b} (h : Tidy s t) (h' : Tidy t u) : Tidy s u where
  observer := h'.observer.trans h.observer
  sticky slot := (h'.sticky slot).trans (h.sticky slot)
  others observer ho slot :=
    (h'.others observer (h.observer ▸ ho) slot).trans (h.others observer ho slot)
  mirrored hl hm := h'.mirrored (h.loyal hl) (h.mirrored hl hm)

/-- Where neither watches nor registrations change there is nothing to show. -/
theorem of_same {s t : Session b} (hobserver : t.coordinator.observer = s.coordinator.observer)
    (hwatches : t.coordinator.watches = s.coordinator.watches)
    (hsticky : ∀ slot, (t.world.leg slot).sticky = (s.world.leg slot).sticky)
    (hregistrations : ∀ observer slot,
      t.world.registrationsOf observer slot = s.world.registrationsOf observer slot) :
    Tidy s t where
  observer := hobserver
  sticky := hsticky
  others observer _ slot := hregistrations observer slot
  mirrored _ hm slot := by rw [hregistrations, hobserver, hwatches, hm slot]

end Tidy

/-! ## Dropping and adding watches -/

theorem sticky_foldl_unregister (mine : Observer) (watches : List (Watch r)) (w : World b)
    (slot : Slot r) :
    ((watches.foldl (fun w watch => w.ask watch.leg (.unregister mine)) w).leg slot).sticky =
      (w.leg slot).sticky := by
  induction watches generalizing w with
  | nil => rfl
  | cons watch watches ih => rw [List.foldl_cons, ih, World.sticky_ask]

theorem others_foldl_unregister {mine observer : Observer} (ho : observer ≠ mine)
    (watches : List (Watch r)) (w : World b) (slot : Slot r) :
    (watches.foldl (fun w watch => w.ask watch.leg (.unregister mine)) w).registrationsOf
      observer slot = w.registrationsOf observer slot := by
  induction watches generalizing w with
  | nil => rfl
  | cons watch watches ih =>
    rw [List.foldl_cons, ih, World.registrationsOf_unregister_of_ne w watch.leg slot ho]

theorem mine_foldl_unregister {w : World b} (hl : w.Loyal) (mine : Observer)
    (watches : List (Watch r)) (slot : Slot r) :
    (watches.foldl (fun w watch => w.ask watch.leg (.unregister mine)) w).registrationsOf
      mine slot = if ∃ watch ∈ watches, watch.leg = slot then [] else w.registrationsOf mine slot := by
  induction watches generalizing w with
  | nil => simp
  | cons watch watches ih =>
    have hl' : (w.ask watch.leg (.unregister mine)).Loyal := fun slot =>
      (World.sticky_ask w watch.leg slot _).trans (hl slot)
    rw [List.foldl_cons, ih hl', World.registrationsOf_unregister (hl watch.leg)]
    by_cases hhere : watch.leg = slot
    · simp [hhere]
    · simp [hhere, Ne.symm hhere]

theorem tidy_release (s : Session b) (wanted : List Leg.Id) : Tidy s (s.release wanted) where
  observer := rfl
  sticky slot := sticky_foldl_unregister _ _ s.world slot
  others observer ho slot := others_foldl_unregister ho _ s.world slot
  mirrored hl hm slot := by
    -- all watches of one leg are kept, or all of them are dropped: the leg has one id
    have hmine := mine_foldl_unregister hl s.coordinator.observer
      (s.coordinator.watches.filter (·.leg.id ∉ wanted)) slot
    simp only [release]
    rw [hmine, hm slot, List.filter_filter]
    by_cases hslot : slot.id ∈ wanted
    · have hnone : ¬ ∃ watch ∈ s.coordinator.watches.filter (·.leg.id ∉ wanted),
          watch.leg = slot := by
        rintro ⟨watch, hmem, rfl⟩
        simp [hslot] at hmem
      rw [if_neg hnone]
      congr 1
      apply List.filter_congr
      intro watch _
      by_cases hw : watch.leg = slot <;> simp [hw, hslot]
    · have hkept : s.coordinator.watches.filter
          (fun watch => decide (watch.leg = slot) && decide (watch.leg.id ∈ wanted)) = [] := by
        rw [List.filter_eq_nil_iff]
        intro watch _
        by_cases hw : watch.leg = slot <;> simp [hw, hslot]
      rw [hkept]
      split
      · rfl
      · next hnone =>
        rw [List.map_nil, List.map_eq_nil_iff, List.filter_eq_nil_iff]
        intro watch hmem
        simp only [decide_eq_true_eq]
        rintro rfl
        exact hnone ⟨watch, by simp [hmem, hslot], rfl⟩

theorem tidy_watch (s : Session b) (slot : Slot r) : Tidy s (s.watch slot) := by
  unfold watch
  split
  · exact .refl s
  · refine ⟨rfl, fun other => World.sticky_ask s.world slot other _, ?_, ?_⟩
    · intro observer ho other
      rw [World.registrationsOf_register, if_neg fun h => ho h.2.symm]
    · intro _ hm other
      simp only
      rw [World.registrationsOf_register, hm other, List.filter_append, List.map_append]
      by_cases hslot : other = slot
      · simp [hslot]
      · simp [hslot, Ne.symm hslot]

theorem tidy_watchExactly (s : Session b) (wanted : List (Slot r)) :
    Tidy s (s.watchExactly wanted) := by
  have hfold (slots : List (Slot r)) (t : Session b) : Tidy t (slots.foldl watch t) := by
    induction slots generalizing t with
    | nil => exact .refl t
    | cons slot slots ih => exact (tidy_watch t slot).trans (ih _)
  exact (tidy_release s _).trans (hfold wanted _)

theorem tidy_rewatch (s : Session b) (wanted : List (Slot r)) : Tidy s (s.rewatch wanted) :=
  (tidy_watchExactly s []).trans (tidy_watchExactly _ wanted)

theorem tidy_enter (s : Session b) (phase : Phase r) : Tidy s (s.enter phase) := by
  unfold enter
  split
  · exact (tidy_rewatch s _).trans (.of_same rfl rfl (fun _ => rfl) fun _ _ => rfl)
  · exact (tidy_watchExactly s _).trans (.of_same rfl rfl (fun _ => rfl) fun _ _ => rfl)

/-! ## Everything else -/

theorem tidy_ask {request : LegRequest} (h : request.isRegistration = false) (s : Session b)
    (slot : Slot r) : Tidy s (s.ask slot request) :=
  .of_same rfl rfl (fun other => World.sticky_ask s.world slot other request)
    fun observer other => World.registrationsOf_ask h s.world slot other observer

theorem tidy_reportFault (s : Session b) (slot : Slot r) (fault : DialFault) :
    Tidy s (s.reportFault slot fault) := by
  unfold reportFault
  split
  · exact .refl s
  · exact .of_same rfl rfl (fun other => World.sticky_emit s.world _ other)
      fun observer other => World.registrationsOf_emit s.world _ observer other

theorem tidy_tellListeners (s : Session b) (success : Bool) :
    Tidy s (s.tellListeners success) :=
  .of_same rfl rfl (fun slot => World.sticky_foldl_tell s.world success _ slot)
    fun observer slot => World.registrationsOf_foldl_tell s.world success _ observer slot

theorem tidy_complete (s : Session b) (success : Bool) : Tidy s (s.complete success) := by
  unfold complete
  split
  · exact .refl s
  · have hsettle : Tidy (s.watchExactly []) ((s.watchExactly []).settle success) :=
      .of_same rfl rfl (fun _ => rfl) fun _ _ => rfl
    exact ((tidy_watchExactly s []).trans hsettle).trans (tidy_tellListeners _ success)

theorem tidy_pop {s t : Session b} {signal : Signal} (h : s.pop = some (signal, t)) :
    Tidy s t := by
  simp only [pop, World.collect] at h
  split at h
  · simp at h
  · obtain ⟨_, rfl⟩ := by simpa using h
    exact .of_same rfl rfl (fun _ => rfl) fun _ _ => rfl

theorem Step.tidy {s t : Session b} (h : Step s t) : Tidy s t := by
  cases h with
  | begin h hnext => exact (tidy_enter s _).trans (tidy_ask rfl _ _)
  | enter h => exact tidy_enter s _
  | @ask _ request h =>
    refine tidy_ask ?_ s _
    cases request <;> simp_all [LegRequest.isFollowUp, LegRequest.isRegistration]
  | dial slot callee terms =>
    exact .of_same rfl rfl (fun other => World.sticky_dial s.world slot other callee terms)
      fun observer other => World.registrationsOf_dial s.world slot other callee terms observer
  | report slot fault => exact tidy_reportFault s slot fault
  | fail | noteState | noteEvent => exact .of_same rfl rfl (fun _ => rfl) fun _ _ => rfl
  | pop h => exact tidy_pop h

theorem Acts.tidy {s t : Session b} (h : Acts s t) : Tidy s t := by
  induction h with
  | nothing s => exact .refl s
  | finish s success => exact (tidy_enter s .done).trans (tidy_complete _ success)
  | step h _ ih => exact h.tidy.trans ih

theorem tidy_perform (s : Session b) (operation : Operation r) :
    Tidy s (s.perform operation).2 := by
  cases performs s operation with
  | acts h _ _ => exact h.tidy
  | addListener _ | removeListener _ | setHandler _ =>
    exact .of_same rfl rfl (fun _ => rfl) fun _ _ => rfl
  | watchExactly legs => exact tidy_watchExactly s legs
  | rewatch legs => exact tidy_rewatch s legs
  | complete success => exact tidy_complete s success

end Session

end CallCoordination
