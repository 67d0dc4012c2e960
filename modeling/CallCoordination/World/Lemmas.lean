import CallCoordination.World.Basic

/-!
# What the steps of a world change

Effects change states, queued answers and the wire, but never a registration nor the trace. A
request adds exactly its own event to the trace.
-/

namespace CallCoordination.World

variable {r : Roster} {b : Behaviour r}

/-! ## Single legs -/

@[simp] theorem leg_modifyLeg_self (w : World b) (slot : Slot r) (f : Leg → Leg) :
    (w.modifyLeg slot f).leg slot = f (w.leg slot) :=
  Vector.getElem_set_self (Slot.lt slot)

theorem leg_modifyLeg_ne (w : World b) {slot other : Slot r} (h : other ≠ slot) (f : Leg → Leg) :
    (w.modifyLeg slot f).leg other = w.leg other :=
  Vector.getElem_set_ne (Slot.lt slot) (Slot.lt other) fun he => h (Fin.ext he.symm)

@[simp] theorem trace_modifyLeg (w : World b) (slot : Slot r) (f : Leg → Leg) :
    (w.modifyLeg slot f).trace = w.trace := rfl

theorem registrations_modifyLeg (w : World b) (slot other : Slot r) (f : Leg → Leg)
    (h : ∀ leg, (f leg).registrations = leg.registrations) :
    ((w.modifyLeg slot f).leg other).registrations = (w.leg other).registrations := by
  by_cases he : other = slot
  · subst he
    simp [h]
  · rw [leg_modifyLeg_ne w he]

/-! ## Effects -/

@[simp] theorem mailbox_post (w : World b) (letters : List Letter) (observer : Observer) :
    (w.post letters).mailbox observer =
      w.mailbox observer ++ (letters.filter (·.recipient = observer)).map (·.signal) := by
  simp [post, mailbox]

@[simp] theorem trace_apply (w : World b) (effect : Effect r) :
    (w.apply effect).trace = w.trace := by
  cases effect <;> rfl

@[simp] theorem registrations_apply (w : World b) (effect : Effect r) (slot : Slot r) :
    ((w.apply effect).leg slot).registrations = (w.leg slot).registrations := by
  cases effect with
  | changeState leg state =>
    exact registrations_modifyLeg w leg slot ({ · with state := state }) fun _ => rfl
  | setState leg state => exact registrations_modifyLeg w leg slot _ fun _ => rfl
  | notify leg under notification => rfl
  | send leg index under notification => rfl
  | queueAnswer leg answer => exact registrations_modifyLeg w leg slot _ fun _ => rfl

@[simp] theorem applyAll_nil (w : World b) : w.applyAll [] = w := rfl

@[simp] theorem applyAll_cons (w : World b) (effect : Effect r) (effects : List (Effect r)) :
    w.applyAll (effect :: effects) = (w.apply effect).applyAll effects := rfl

@[simp] theorem trace_applyAll (w : World b) (effects : List (Effect r)) :
    (w.applyAll effects).trace = w.trace := by
  induction effects generalizing w with
  | nil => rfl
  | cons effect effects ih => simp [ih]

@[simp] theorem registrations_applyAll (w : World b) (effects : List (Effect r))
    (slot : Slot r) :
    ((w.applyAll effects).leg slot).registrations = (w.leg slot).registrations := by
  induction effects generalizing w with
  | nil => rfl
  | cons effect effects ih => simp [ih]

/-! ## Events -/

@[simp] theorem trace_emit (w : World b) (event : Event r) :
    (w.emit event).trace = w.trace ++ [event] := by
  simp [emit, stir, note]

@[simp] theorem registrations_emit (w : World b) (event : Event r) (slot : Slot r) :
    ((w.emit event).leg slot).registrations = (w.leg slot).registrations :=
  registrations_applyAll { w.note event with memory := (b.react w.memory event).1 } _ slot

@[simp] theorem trace_ask (w : World b) (slot : Slot r) (request : LegRequest) :
    (w.ask slot request).trace = w.trace ++ [.asked slot request] := by
  cases request <;> simp [ask]

theorem trace_dial (w : World b) (slot : Slot r) (callee : Callee) (terms : DialTerms) :
    (w.dial slot callee terms).2.trace =
      w.trace ++ [.dialled slot callee terms (w.nextAnswer slot)] := by
  simp [dial]

end CallCoordination.World
