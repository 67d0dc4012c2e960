import CallCoordination.Proofs.World.Trace
import CallCoordination.Script
import Mathlib.Logic.Function.Basic

/-!
# The states of the legs

Of all effects only two change the state of a leg, and they can be followed without a world.
Requests change states only through what the surroundings make of them.
-/

namespace CallCoordination

variable {r : Roster} {b : Behaviour r}

def Effect.move (states : Slot r → Leg.State) : Effect r → Slot r → Leg.State
  | changeState slot state | setState slot state => Function.update states slot state
  | notify .. | send .. | queueAnswer .. => states

/-- No leg changes its state when something is asked of a leg, unless it is told to disconnect. -/
def Behaviour.Still (b : Behaviour r) : Prop :=
  ∀ (w : World b) (slot : Slot r) (request : LegRequest), (∀ cause, request ≠ .disconnect cause) →
    (w.ask slot request).state = w.state

namespace World

theorem state_modifyLeg (w : World b) (slot : Slot r) (f : Leg → Leg) :
    (w.modifyLeg slot f).state = Function.update w.state slot (f (w.leg slot)).state := by
  funext other
  by_cases he : other = slot
  · subst he
    simp [state]
  · rw [Function.update_of_ne he, state, leg_modifyLeg_ne w he, state]

theorem state_modifyLeg_of_same (w : World b) (slot : Slot r) {f : Leg → Leg}
    (h : ∀ leg, (f leg).state = leg.state) : (w.modifyLeg slot f).state = w.state := by
  rw [state_modifyLeg, h]
  exact Function.update_eq_self slot w.state

theorem state_apply (w : World b) (effect : Effect r) :
    (w.apply effect).state = effect.move w.state := by
  cases effect with
  | changeState slot state => exact state_modifyLeg w slot ({ · with state := state })
  | setState slot state => exact state_modifyLeg w slot ({ · with state := state })
  | notify slot under notification => rfl
  | send slot index under notification => rfl
  | queueAnswer slot answer => exact state_modifyLeg_of_same w slot fun _ => rfl

theorem state_applyAll (w : World b) (effects : List (Effect r)) :
    (w.applyAll effects).state = effects.foldl Effect.move w.state := by
  induction effects generalizing w with
  | nil => rfl
  | cons effect effects ih => rw [applyAll_cons, ih, state_apply, List.foldl_cons]

theorem state_stir (w : World b) (memory : b.Memory) (effects : List (Effect r)) :
    (w.stir memory effects).state = effects.foldl Effect.move w.state :=
  state_applyAll { w with memory := memory } effects

theorem state_emit (w : World b) (event : Event r) :
    (w.emit event).state = (b.react w.memory event).2.foldl Effect.move w.state :=
  state_stir (w.note event) _ _

theorem state_ask (w : World b) (slot : Slot r) (request : LegRequest) :
    (w.ask slot request).state =
      (b.react w.memory (.asked slot request)).2.foldl Effect.move w.state := by
  cases request with
  | register registration =>
    have hkept (leg : Leg) : (leg.register registration).state = leg.state := rfl
    rw [ask, state_emit, state_modifyLeg_of_same w slot hkept]
    rfl
  | unregister observer =>
    have hkept (leg : Leg) : (leg.unregister observer).state = leg.state := by
      unfold Leg.unregister
      split <;> rfl
    rw [ask, state_emit, state_modifyLeg_of_same w slot hkept]
    rfl
  | hold | resume | answer _ | disconnect _ => exact state_emit w _

end World

theorem Script.still_behaviour : (Script.behaviour (r := r) {}).Still := by
  intro w slot request hne
  rw [World.state_ask]
  cases request with
  | disconnect cause => exact absurd rfl (hne cause)
  | hold | resume | answer _ | register _ | unregister _ => rfl

end CallCoordination
