import CallCoordination.World.Behaviour

/-!
# The world of a coordinator

A `World` holds the legs, the letters on their way to observers, the memory of its behaviour and
the trace of all events so far. Letters share one wire; the mailbox of an observer is what the wire
holds for it, in sending order.

In each request the leg first changes its list of registrations or its queue of answers, then the
event enters the trace, and then the surroundings respond.
-/

namespace CallCoordination

structure Leg where
  state : Leg.State
  registrations : List Registration := []
  answers : List DialAnswer := []
  /-- Whether the leg keeps registrations that it is asked to drop. -/
  sticky : Bool := false
  deriving DecidableEq, Repr

namespace Leg

def register (leg : Leg) (registration : Registration) : Leg :=
  { leg with registrations := leg.registrations ++ [registration] }

def unregister (leg : Leg) (observer : Observer) : Leg :=
  if leg.sticky then leg
  else { leg with registrations := leg.registrations.filter (·.observer ≠ observer) }

end Leg

/-- Points on the time line of a world: how many events came before. -/
structure Instant where
  events : Nat
  deriving DecidableEq, Repr

structure World {r : Roster} (b : Behaviour r) where
  legs : Vector Leg r.length
  wire : List Letter
  trace : List (Event r)
  memory : b.Memory

namespace World

variable {r : Roster} {b : Behaviour r}

def fresh (legs : Vector Leg r.length) (memory : b.Memory) : World b where
  legs := legs
  wire := []
  trace := []
  memory := memory

def leg (w : World b) (slot : Slot r) : Leg := w.legs.get slot

def state (w : World b) (slot : Slot r) : Leg.State := (w.leg slot).state

def now (w : World b) : Instant := ⟨w.trace.length⟩

def modifyLeg (w : World b) (slot : Slot r) (f : Leg → Leg) : World b :=
  { w with legs := w.legs.set slot.val (f (w.leg slot)) (Slot.lt slot) }

def registrationCount (w : World b) : Nat :=
  (w.legs.toList.flatMap (·.registrations)).length

/-! ## Letters -/

def post (w : World b) (letters : List Letter) : World b :=
  { w with wire := w.wire ++ letters }

def mailbox (w : World b) (observer : Observer) : List Signal :=
  (w.wire.filter (·.recipient = observer)).map (·.signal)

/-- Take the first letter for an observer off the wire. -/
def collect (w : World b) (observer : Observer) : Option (Signal × World b) :=
  match w.mailbox observer with
  | [] => none
  | signal :: _ =>
    some (signal, { w with wire := w.wire.eraseP (·.recipient = observer) })

theorem mailbox_of_collect {w w' : World b} {observer : Observer} {signal : Signal}
    (h : w.collect observer = some (signal, w')) :
    w.mailbox observer = signal :: w'.mailbox observer := by
  have erased (wire : List Letter) :
      ((wire.eraseP (·.recipient = observer)).filter (·.recipient = observer)).map (·.signal)
        = ((wire.filter (·.recipient = observer)).map (·.signal)).tail := by
    induction wire with
    | nil => rfl
    | cons letter wire ih =>
      by_cases hl : letter.recipient = observer <;> simp [hl, ih]
  unfold collect at h
  split at h
  · simp at h
  · next first rest hm =>
    obtain ⟨rfl, rfl⟩ := by simpa using h
    have rest_eq := erased w.wire
    change _ = (w.mailbox observer).tail at rest_eq
    rw [hm] at rest_eq
    rw [hm]
    exact congrArg (first :: ·) rest_eq.symm

/-! ## Effects -/

/-- The letter a leg writes when it sends through a registration. -/
def letter (slot : Slot r) (under : Option Leg.Id) (notification : Notification)
    (registration : Registration) : Letter where
  recipient := registration.observer
  signal :=
    { leg := under.getD slot.id
      epoch := registration.epoch
      notification := notification }

def setState (w : World b) (slot : Slot r) (state : Leg.State) : World b :=
  w.modifyLeg slot ({ · with state := state })

def notify (w : World b) (slot : Slot r) (under : Option Leg.Id) (notification : Notification) :
    World b :=
  w.post ((w.leg slot).registrations.map (letter slot under notification))

def apply (w : World b) : Effect r → World b
  | .changeState slot state => (w.setState slot state).notify slot none (.stateChanged state)
  | .setState slot state => w.setState slot state
  | .notify slot under notification => w.notify slot under notification
  | .send slot index under notification =>
    w.post ((w.leg slot).registrations[index]?.toList.map (letter slot under notification))
  | .queueAnswer slot answer =>
    w.modifyLeg slot fun leg => { leg with answers := leg.answers ++ [answer] }

def applyAll (w : World b) (effects : List (Effect r)) : World b :=
  effects.foldl apply w

/-- Something happens that no coordinator has asked for. -/
def stir (w : World b) (memory : b.Memory) (effects : List (Effect r)) : World b :=
  { w with memory := memory }.applyAll effects

/-! ## Events -/

/-- Enter an event into the trace without any response. -/
def note (w : World b) (event : Event r) : World b :=
  { w with trace := w.trace ++ [event] }

/-- Enter an event into the trace and let the surroundings respond. -/
def emit (w : World b) (event : Event r) : World b :=
  let (memory, effects) := b.react w.memory event
  (w.note event).stir memory effects

def ask (w : World b) (slot : Slot r) (request : LegRequest) : World b :=
  match request with
  | .register registration =>
    (w.modifyLeg slot (·.register registration)).emit (.asked slot request)
  | .unregister observer =>
    (w.modifyLeg slot (·.unregister observer)).emit (.asked slot request)
  | _ => w.emit (.asked slot request)

/-- The answer that a leg with an empty queue gives. -/
def ownAnswer (slot : Slot r) : DialAnswer :=
  .placed ⟨slot.id.text ++ "-conn"⟩

def nextAnswer (w : World b) (slot : Slot r) : DialAnswer :=
  (w.leg slot).answers.headD (ownAnswer slot)

def dial (w : World b) (slot : Slot r) (callee : Callee) (terms : DialTerms) :
    DialAnswer × World b :=
  let answer := w.nextAnswer slot
  let w := w.modifyLeg slot fun leg => { leg with answers := leg.answers.tail }
  (answer, w.emit (.dialled slot callee terms answer))

def tell (w : World b) (success : Bool) (listener : Listener) : World b :=
  w.emit (.told listener success w.registrationCount)

end World

end CallCoordination
