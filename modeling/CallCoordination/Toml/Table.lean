import CallCoordination.Datum

/-!
# TOML tables

A document builds its tables piece by piece: by headers, by dotted keys, and as arrays that get one
more table with each header. Which piece may extend which table depends on how the table came
about, so each remembers its origin.
-/

namespace CallCoordination.Toml

/-- How a table came about. -/
inductive Origin where
  /-- By a header of its own, or as the document. -/
  | header
  /-- As a part of the path of another header. -/
  | implied
  /-- By a dotted key. -/
  | dotted
  deriving DecidableEq

inductive Item where
  /-- A value, which nothing can extend. -/
  | value (d : Datum)
  | table (origin : Origin) (members : List (String × Item))
  /-- An array that headers add tables to; the last one can be extended. -/
  | tables (elements : List (List (String × Item)))

abbrev Members := List (String × Item)

namespace Members

def put (members : Members) (key : String) (item : Item) : Members :=
  members.map fun entry => if entry.1 = key then (key, item) else entry

/-- Change the table at the end of a path, which is created as far as it does not exist. Paths of
dotted keys stay out of tables that have a header. -/
def within (dotted : Bool) (change : Origin → Members → Option Members) (origin : Origin)
    (members : Members) : (path : List String) → Option Members
  | [] => change origin members
  | key :: path =>
    let created := if dotted then Origin.dotted else .implied
    match members.lookup key with
    | none => do
      let inner ← within dotted change created [] path
      some (members ++ [(key, .table created inner)])
    | some (.value _) => none
    | some (.table origin inner) =>
      if dotted ∧ origin = .header then none
      else do
        let inner ← within dotted change origin inner path
        some (members.put key (.table origin inner))
    | some (.tables elements) => do
      let inner ← within dotted change .header (← elements.getLast?) path
      some (members.put key (.tables (elements.dropLast ++ [inner])))

/-- Set a value. A key with dots sets it in a table that only dotted keys have built, one without
dots in any other table. -/
def assign (path : List String) (key : String) (d : Datum) (origin : Origin) (members : Members) :
    Option Members :=
  within true
    (fun origin members =>
      if (origin = .dotted ↔ path.isEmpty) then none
      else if (members.lookup key).isSome then none
      else some (members ++ [(key, .value d)]))
    origin members path

def beginTable (path : List String) (key : String) (members : Members) : Option Members :=
  within false
    (fun _ members =>
      match members.lookup key with
      | none => some (members ++ [(key, .table .header [])])
      | some (.table .implied inner) => some (members.put key (.table .header inner))
      | _ => none)
    .header members path

def beginElement (path : List String) (key : String) (members : Members) : Option Members :=
  within false
    (fun _ members =>
      match members.lookup key with
      | none => some (members ++ [(key, .tables [[]])])
      | some (.tables elements) => some (members.put key (.tables (elements ++ [[]])))
      | _ => none)
    .header members path

end Members

mutual

def Item.datum : Item → Datum
  | .value d => d
  | .table _ members => .table (data members)
  | .tables elements => .list (dataOfElements elements)

def data : List (String × Item) → List (String × Datum)
  | [] => []
  | (key, item) :: members => (key, item.datum) :: data members

def dataOfElements : List (List (String × Item)) → List Datum
  | [] => []
  | members :: elements => .table (data members) :: dataOfElements elements

end

/-! ## Statements -/

/-- A key with dots, split into its last part and those before. It has fewer parts than values may
be nested deep. -/
structure Path where
  before : List String
  last : String
  deriving DecidableEq

inductive Statement where
  | assign (path : Path) (d : Datum)
  | table (path : Path)
  | element (path : Path)

structure Draft where
  members : Members := []
  /-- The path of the last header, whose table the next assignment goes to. -/
  current : List String := []

namespace Draft

def step (draft : Draft) : Statement → Option Draft
  | .assign path d => do
    let members ←
      draft.members.within false (Members.assign path.before path.last d) .header draft.current
    some { draft with members := members }
  | .table path => do
    let members ← draft.members.beginTable path.before path.last
    some { members := members, current := path.before ++ [path.last] }
  | .element path => do
    let members ← draft.members.beginElement path.before path.last
    some { members := members, current := path.before ++ [path.last] }

end Draft

def ofStatements? (statements : List Statement) : Option Datum := do
  let draft ← statements.foldlM Draft.step {}
  some (.table (data draft.members))

/-- The data of an inline table, which is closed once it is read. -/
def ofAssignments? (assignments : List (Path × Datum)) : Option Datum :=
  ofStatements? (assignments.map fun (path, d) => .assign path d)

end CallCoordination.Toml
