import CallCoordination.Proofs.World.Moves
import Mathlib.Data.List.Pairwise

/-!
# Who holds a registration

A leg holds no registration that it was not asked to make. As long as an observer hands out each
epoch once, the trace names one leg for each of its registrations, and only that leg can send
through it, under whatever id it likes.
-/

namespace CallCoordination.World

variable {r : Roster} {b : Behaviour r} {w w' : World b} {observer : Observer}

/-- Legs hold only registrations of the observer that they were asked to make. -/
def Granted (observer : Observer) (w : World b) : Prop :=
  ∀ slot, ∀ registration ∈ (w.leg slot).registrations, registration.observer = observer →
    .asked slot (.register registration) ∈ w.trace

/-- This leg was asked to make the registration, and no other leg was. -/
def GivenTo (w : World b) (registration : Registration) (slot : Slot r) : Prop :=
  ∀ other, .asked other (.register registration) ∈ w.trace ↔ other = slot

/-! ## One registration for each epoch -/

theorem mem_epochs_iff {epoch : Nat} : epoch ∈ w.epochs observer ↔
    ∃ slot, .asked slot (.register ⟨observer, epoch⟩) ∈ w.trace := by
  rw [epochs, List.mem_filterMap]
  constructor
  · rintro ⟨event, hmem, hepoch⟩
    cases event with
    | asked slot request =>
      cases request with
      | register registration =>
        obtain ⟨hmine, hsome⟩ := Option.ite_none_right_eq_some.mp hepoch
        obtain rfl := Option.some.inj hsome
        exact ⟨slot, hmine ▸ hmem⟩
      | unregister _ | hold | resume | answer _ | disconnect _ => cases hepoch
    | dialled _ _ _ _ | told _ _ _ | faultReported _ _ _ | heardState _ _ | heardEvent _ _ =>
      cases hepoch
  · rintro ⟨slot, hmem⟩
    exact ⟨_, hmem, if_pos rfl⟩

theorem givenTo_of_mem (hdistinct : (w.epochs observer).Nodup) {slot : Slot r} {epoch : Nat}
    (hmem : .asked slot (.register ⟨observer, epoch⟩) ∈ w.trace) :
    w.GivenTo ⟨observer, epoch⟩ slot := by
  intro other
  refine ⟨fun hother => ?_, fun heq => heq ▸ hmem⟩
  -- two requests with the same epoch are one and the same event of the trace
  let differ (event event' : Event r) : Prop := ∀ number, event.epoch? observer = some number →
    ∀ number', event'.epoch? observer = some number' → number ≠ number'
  have hdiffer : w.trace.Pairwise differ := List.pairwise_filterMap.mp hdistinct
  have hsymm : Std.Symm differ := ⟨fun _ _ h number hnumber number' hnumber' =>
    (h number' hnumber' number hnumber).symm⟩
  by_contra hne
  have hevents : (.asked other (.register ⟨observer, epoch⟩) : Event r) ≠
      .asked slot (.register ⟨observer, epoch⟩) := fun h => hne (Event.asked.inj h).1
  exact hdiffer.forall hother hmem hevents epoch (if_pos rfl) epoch (if_pos rfl) rfl

/-! ## What happens to registrations -/

namespace Granted

theorem mono (h : Granted observer w)
    (hregistrations : ∀ slot, ∀ registration ∈ (w'.leg slot).registrations,
      registration ∈ (w.leg slot).registrations)
    (htrace : w.trace ⊆ w'.trace) : Granted observer w' :=
  fun slot registration hmem hmine =>
    htrace (h slot registration (hregistrations slot registration hmem) hmine)

theorem emit (h : Granted observer w) (event : Event r) : Granted observer (w.emit event) := by
  refine h.mono (fun slot registration hmem => ?_) ?_
  · rwa [registrations_emit] at hmem
  · rw [trace_emit]
    exact List.subset_append_left _ _

theorem stir (h : Granted observer w) (memory : b.Memory) (effects : List (Effect r)) :
    Granted observer (w.stir memory effects) := by
  refine h.mono (fun slot registration hmem => ?_) ?_
  · rw [World.stir, registrations_applyAll] at hmem
    exact hmem
  · rw [trace_stir]
    exact List.Subset.refl _

theorem ask (h : Granted observer w) (slot : Slot r) (request : LegRequest) :
    Granted observer (w.ask slot request) := by
  cases request with
  | hold | resume | answer _ | disconnect _ => exact h.emit _
  | register registration =>
    intro other held hmem hmine
    rw [trace_ask, List.mem_append, List.mem_singleton]
    rw [World.ask, registrations_emit] at hmem
    by_cases he : other = slot
    · subst he
      rw [leg_modifyLeg_self, Leg.register, List.mem_append, List.mem_singleton] at hmem
      rcases hmem with hmem | rfl
      · exact .inl (h other held hmem hmine)
      · exact .inr rfl
    · rw [leg_modifyLeg_ne w he] at hmem
      exact .inl (h other held hmem hmine)
  | unregister dropped =>
    refine h.mono (fun other held hmem => ?_) ?_
    · rw [World.ask, registrations_emit] at hmem
      by_cases he : other = slot
      · subst he
        rw [leg_modifyLeg_self, Leg.unregister] at hmem
        split at hmem
        · exact hmem
        · exact (List.mem_filter.mp hmem).1
      · rwa [leg_modifyLeg_ne w he] at hmem
    · rw [trace_ask]
      exact List.subset_append_left _ _

theorem move (h : Granted observer w) {mover : Observer} (hmove : Move mover w w') :
    Granted observer w' := by
  cases hmove with
  | ask slot _ => exact h.ask slot _
  | dial slot callee terms =>
    let asked := w.modifyLeg slot fun leg => { leg with answers := leg.answers.tail }
    have hsame (other : Slot r) : (asked.leg other).registrations = (w.leg other).registrations :=
      registrations_modifyLeg w slot other _ fun _ => rfl
    have hasked : Granted observer asked :=
      h.mono (fun other registration hmem => hsame other ▸ hmem) (List.Subset.refl _)
    exact hasked.emit _
  | tell success listener => exact h.emit _
  | report handler leg fault => exact h.emit _
  | noteState _ _ | noteEvent _ _ =>
    exact h.mono (fun _ _ => id) (List.subset_append_left _ _)
  | collect hcollect =>
    rw [collect_eq_some hcollect]
    exact h.mono (fun _ _ => id) (List.Subset.refl _)

end Granted

theorem Leads.granted (h : Leads w w') (hw : Granted observer w) : Granted observer w' := by
  induction h with
  | refl => exact hw
  | tail _ hhappens ih =>
    cases hhappens with
    | move hmove => exact ih.move hmove
    | stir _ memory effects => exact ih.stir memory effects

/-- The trace only grows. -/
theorem Leads.trace_subset (h : Leads w w') : w.trace ⊆ w'.trace := by
  induction h with
  | refl => exact List.Subset.refl _
  | tail _ hhappens ih =>
    cases hhappens with
    | move hmove =>
      obtain ⟨events, htrace, -⟩ := hmove.grows
      rw [htrace]
      exact List.Subset.trans ih (List.subset_append_left _ _)
    | stir _ memory effects =>
      rw [trace_stir]
      exact ih

theorem Unknown.granted (h : w.Unknown observer) : Granted observer w :=
  fun _ _ hmem hmine => absurd hmine (h.observer_ne hmem)

end CallCoordination.World
