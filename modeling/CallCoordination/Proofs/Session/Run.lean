import CallCoordination.Proofs.Session.Acts
import CallCoordination.Script
import CallCoordination.Switchboard
import Mathlib.Data.List.Basic

/-!
# Runs

A run of a coordinator is any sequence of operations on it, of operations on other coordinators
that share its legs, and of things that nobody has asked for.
-/

namespace CallCoordination

/-- Two legs, `a` and `b`, that do nothing by themselves. -/
def World.pair (first second : Leg.State) :
    World (Script.behaviour (r := [⟨"a"⟩, ⟨"b"⟩]) {}) :=
  fresh #v[{ state := first }, { state := second }] ()

inductive Turn {r : Roster} (b : Behaviour r) where
  | perform (operation : Operation r)
  /-- An operation on another coordinator, whatever its state. -/
  | elsewhere (other : Coordinator r) (operation : Operation r)
  | stir (memory : b.Memory) (effects : List (Effect r))

/-- A turn that leaves the coordinator to public operations. To take a signal from the mailbox
without hearing it is allowed as well. -/
def Turn.Public {r : Roster} {b : Behaviour r} : Turn b → Prop
  | perform operation => operation = .pop ∨ operation.isPublic = true
  | elsewhere _ _ | stir _ _ => True

namespace Session

variable {r : Roster} {b : Behaviour r}

def opened (o : Opening r) (observer : Observer) (w : World b) : Session b :=
  ⟨o.coordinator observer w.now, w⟩

def turn (s : Session b) : Turn b → Session b
  | .perform operation => (s.perform operation).2
  | .elsewhere other operation =>
    { s with world := (perform ⟨other, s.world⟩ operation).2.world }
  | .stir memory effects => { s with world := s.world.stir memory effects }

def run (s : Session b) (turns : List (Turn b)) : Session b := turns.foldl turn s

@[simp] theorem run_nil (s : Session b) : s.run [] = s := rfl

@[simp] theorem run_cons (s : Session b) (turn : Turn b) (turns : List (Turn b)) :
    s.run (turn :: turns) = (s.turn turn).run turns := rfl

@[simp] theorem run_append (s : Session b) (turns turns' : List (Turn b)) :
    s.run (turns ++ turns') = (s.run turns).run turns' := by
  simp [run]

theorem run_induction {P : Session b → Prop} {Q : Turn b → Prop} {s : Session b} (h : P s)
    (hturn : ∀ s turn, P s → Q turn → P (s.turn turn)) {turns : List (Turn b)}
    (hturns : ∀ turn ∈ turns, Q turn) : P (s.run turns) := by
  induction turns generalizing s with
  | nil => exact h
  | cons turn turns ih =>
    apply ih (hturn s turn h (hturns turn List.mem_cons_self))
    intro later hlater
    exact hturns later (List.mem_cons_of_mem _ hlater)

end Session

end CallCoordination
