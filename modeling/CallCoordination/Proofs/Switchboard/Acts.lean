import CallCoordination.Proofs.Session.Tidy
import CallCoordination.Switchboard

/-!
# What is done at a switchboard

Seats are opened and dropped, coordinators are operated, and things happen that nobody has asked
for. An act concerns one seat at most and leaves the others where they are. Observers are numbered
in the order of the openings, so no two seats share one, not even seats of one name that follow each
other.
-/

namespace CallCoordination

variable {r : Roster} {b : Behaviour r}

inductive Act {r : Roster} (b : Behaviour r) where
  | openSeat (name : String) (o : Opening r)
  | drop (name : String)
  | perform (name : String) (operation : Operation r)
  | redispatch (name : String) (index : Nat)
  | stir (memory : b.Memory) (effects : List (Effect r))

/-- The name of the seat that an act concerns. -/
def Act.name? : Act b → Option String
  | openSeat name _ | drop name | perform name _ | redispatch name _ => some name
  | stir _ _ => none

namespace Switchboard

/-- What cannot be done, because nobody has that name, changes nothing. -/
def act (board : Switchboard b) : Act b → Switchboard b
  | .openSeat name o => board.openSeat name o
  | .drop name => (board.drop name).2
  | .perform name operation => ((board.perform name operation).map Prod.snd).getD board
  | .redispatch name index => ((board.redispatch name index).map Prod.snd).getD board
  | .stir memory effects => board.stir memory effects

def acts (board : Switchboard b) (history : List (Act b)) : Switchboard b :=
  history.foldl act board

theorem acts_append (board : Switchboard b) (earlier later : List (Act b)) :
    board.acts (earlier ++ later) = (board.acts earlier).acts later :=
  List.foldl_append

theorem acts_induction {P : Switchboard b → Prop} {board : Switchboard b} (h : P board)
    (hact : ∀ board act, P board → P (board.act act)) (history : List (Act b)) :
    P (board.acts history) := by
  induction history generalizing board with
  | nil => exact h
  | cons first later ih => exact ih (hact board first h)

/-! ## Seats by name -/

section Lookup

variable {α : Type}

theorem lookup_cons_of_ne {name first : String} (h : name ≠ first) (value : α)
    (entries : List (String × α)) :
    ((first, value) :: entries).lookup name = entries.lookup name := by
  rw [List.lookup_cons, beq_eq_false_iff_ne.mpr h]

theorem lookup_filter_ne (entries : List (String × α)) (dropped name : String) :
    (entries.filter (·.1 ≠ dropped)).lookup name =
      if name = dropped then none else entries.lookup name := by
  induction entries with
  | nil => simp
  | cons entry entries ih =>
    obtain ⟨first, value⟩ := entry
    by_cases hdropped : first = dropped
    · rw [List.filter_cons_of_neg (by simp [hdropped]), ih]
      split
      · rfl
      next hname => rw [lookup_cons_of_ne (hdropped ▸ hname)]
    · rw [List.filter_cons_of_pos (by simp [hdropped])]
      by_cases hname : name = first
      · simp [hname, hdropped]
      · rw [lookup_cons_of_ne hname, lookup_cons_of_ne hname, ih]

theorem lookup_map_update (entries : List (String × α)) (updated name : String) (value : α) :
    (entries.map fun entry => if entry.1 = updated then (updated, value) else entry).lookup name =
      if name = updated then (entries.lookup name).map fun _ => value
      else entries.lookup name := by
  induction entries with
  | nil => simp
  | cons entry entries ih =>
    obtain ⟨first, old⟩ := entry
    rw [List.map_cons]
    by_cases hname : name = first
    · subst hname
      by_cases hupdated : name = updated <;> simp [hupdated]
    · rw [lookup_cons_of_ne hname, ← ih]
      by_cases hupdated : first = updated
      · rw [if_pos hupdated, lookup_cons_of_ne (hupdated ▸ hname)]
      · rw [if_neg hupdated, lookup_cons_of_ne hname]

end Lookup

theorem seat?_unseat (board : Switchboard b) (name other : String) :
    (board.unseat name).seat? other = if other = name then none else board.seat? other :=
  lookup_filter_ne board.seats name other

theorem seat?_setSeat (board : Switchboard b) (name other : String) (seat : Seat r) :
    (board.setSeat name seat).seat? other =
      if other = name then (board.seat? other).map fun _ => seat else board.seat? other :=
  lookup_map_update board.seats name other seat

theorem seat?_openSeat (board : Switchboard b) (name other : String) (o : Opening r) :
    (board.openSeat name o).seat? other =
      if other = name then some ⟨o.coordinator ⟨board.nextObserver⟩ board.world.now, []⟩
      else board.seat? other := by
  rw [seat?, openSeat, List.lookup_append]
  change ((board.unseat name).seat? other).or _ = _
  rw [seat?_unseat]
  by_cases hother : other = name
  · simp [hother]
  · rw [if_neg hother, if_neg hother, lookup_cons_of_ne hother]
    exact Option.or_none

theorem observer_coordinator (o : Opening r) (observer : Observer) (now : Instant) :
    (o.coordinator observer now).observer = observer := by
  cases o with
  | action action policy handler => cases action <;> rfl
  | bare recording kind policy => rfl

/-! ## Operations through a seat -/

/-- What an operation through a seat comes to: a session of its coordinator takes place in the
world, and the seat keeps the coordinator. -/
inductive Operates (board : Switchboard b) (name : String) : Switchboard b → Prop
  | nobody : Operates board name board
  | performs {seat : Seat r} (h : board.seat? name = some seat) {operation : Operation r}
      {t : Session b} (ht : t = (Session.perform ⟨seat.coordinator, board.world⟩ operation).2)
      (popped : List Signal) :
      Operates board name (setSeat { board with world := t.world } name ⟨t.coordinator, popped⟩)

theorem operates_perform (board : Switchboard b) (name : String) (operation : Operation r) :
    board.Operates name (board.act (.perform name operation)) := by
  simp only [act, perform]
  cases h : board.seat? name with
  | none => exact .nobody
  | some seat => exact .performs h rfl _

theorem operates_redispatch (board : Switchboard b) (name : String) (index : Nat) :
    board.Operates name (board.act (.redispatch name index)) := by
  simp only [act, redispatch]
  cases h : board.seat? name with
  | none => exact .nobody
  | some seat =>
    cases hsignal : seat.popped[index]? with
    | none => simpa [hsignal] using .nobody
    | some signal =>
      have hdispatch := operates_perform board name (.dispatch signal)
      simpa [act, hsignal] using hdispatch

/-! ## Observers -/

/-- The observers of the seats were handed out before, each to one of them. -/
structure Allotted (board : Switchboard b) : Prop where
  seated : ∀ name seat, board.seat? name = some seat →
    seat.coordinator.observer.number < board.nextObserver
  apart : ∀ name seat other seat', board.seat? name = some seat →
    board.seat? other = some seat' → other ≠ name →
    seat'.coordinator.observer ≠ seat.coordinator.observer

theorem allotted_of_seats_nil (w : World b) (next : Nat) :
    Allotted ({ world := w, nextObserver := next } : Switchboard b) := by
  have hnobody (name : String) :
      ({ world := w, nextObserver := next } : Switchboard b).seat? name = none := rfl
  refine ⟨fun name seat hseat => ?_, fun name seat other seat' hseat => ?_⟩
  · cases (hnobody name).symm.trans hseat
  · cases (hnobody name).symm.trans hseat

namespace Allotted

variable {board board' : Switchboard b}

/-- Seats may be left or change hands, as long as the observers stay where they are. -/
theorem of_seats (h : board.Allotted) (hnext : board'.nextObserver = board.nextObserver)
    (hseats : ∀ name seat', board'.seat? name = some seat' → ∃ seat,
      board.seat? name = some seat ∧ seat'.coordinator.observer = seat.coordinator.observer) :
    board'.Allotted where
  seated name seat' hseat' := by
    obtain ⟨seat, hseat, hobserver⟩ := hseats name seat' hseat'
    rw [hobserver, hnext]
    exact h.seated name seat hseat
  apart name seat' other seat'' hseat' hseat'' hne := by
    obtain ⟨seat, hseat, hobserver⟩ := hseats name seat' hseat'
    obtain ⟨seat₁, hseat₁, hobserver₁⟩ := hseats other seat'' hseat''
    rw [hobserver, hobserver₁]
    exact h.apart name seat other seat₁ hseat hseat₁ hne

theorem openSeat (h : board.Allotted) (name : String) (o : Opening r) :
    (board.openSeat name o).Allotted where
  seated other seat hseat := by
    rw [seat?_openSeat] at hseat
    split at hseat
    · obtain rfl := Option.some.inj hseat
      rw [observer_coordinator]
      exact Nat.lt_succ_self _
    · exact Nat.lt_succ_of_lt (h.seated other seat hseat)
  apart first seat other seat' hseat hseat' hne := by
    -- a new observer is none of those that were handed out before
    have hnew {other : String} {seat : Seat r} (hseat : board.seat? other = some seat) :
        seat.coordinator.observer ≠ ⟨board.nextObserver⟩ := by
      intro hsame
      have hlt := h.seated other seat hseat
      rw [hsame] at hlt
      exact Nat.lt_irrefl _ hlt
    rw [seat?_openSeat] at hseat hseat'
    split at hseat
    next hfirst =>
      obtain rfl := Option.some.inj hseat
      rw [if_neg fun h => hne (h.trans hfirst.symm)] at hseat'
      rw [observer_coordinator]
      exact hnew hseat'
    next =>
      split at hseat'
      · obtain rfl := Option.some.inj hseat'
        rw [observer_coordinator]
        exact Ne.symm (hnew hseat)
      · exact h.apart first seat other seat' hseat hseat' hne

theorem operates (h : board.Allotted) {name : String} (hoperates : board.Operates name board') :
    board'.Allotted := by
  cases hoperates with
  | nobody => exact h
  | @performs seat hseat operation t ht popped =>
    have hobserver := (Session.tidy_perform ⟨seat.coordinator, board.world⟩ operation).observer
    rw [← ht] at hobserver
    refine h.of_seats rfl fun other seat' hseat' => ?_
    rw [seat?_setSeat] at hseat'
    split at hseat'
    next hother =>
      obtain ⟨old, hold, rfl⟩ := Option.map_eq_some_iff.mp hseat'
      rw [hother] at hold ⊢
      exact ⟨seat, hseat, hobserver⟩
    next => exact ⟨seat', hseat', rfl⟩

theorem act (h : board.Allotted) (act : Act b) : (board.act act).Allotted := by
  cases act with
  | openSeat name o => exact h.openSeat name o
  | drop name =>
    refine h.of_seats rfl fun other seat hseat => ⟨seat, ?_, rfl⟩
    have hunseated := board.seat?_unseat name other
    rw [show (board.unseat name).seat? other = some seat from hseat] at hunseated
    split at hunseated
    · cases hunseated
    · exact hunseated.symm
  | perform name operation => exact h.operates (operates_perform board name operation)
  | redispatch name index => exact h.operates (operates_redispatch board name index)
  | stir memory effects => exact h.of_seats rfl fun _ seat hseat => ⟨seat, hseat, rfl⟩

theorem acts (h : board.Allotted) (history : List (Act b)) : (board.acts history).Allotted :=
  acts_induction h (fun _ act hboard => hboard.act act) history

end Allotted

end Switchboard

end CallCoordination
