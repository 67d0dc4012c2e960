/-!
# Data read from a document

What the readers of both document formats produce: plain data without the details of its notation.
Records are read from it with a default for every field.
-/

namespace CallCoordination

inductive Datum where
  | null
  | bool (b : Bool)
  | text (s : String)
  | list (items : List Datum)
  | table (members : List (String × Datum))
  /-- A number, or anything else that no record here asks for. -/
  | other

namespace Datum

def bool? : Datum → Option Bool
  | bool b => some b
  | _ => none

def text? : Datum → Option String
  | text s => some s
  | _ => none

def textOrNull? : Datum → Option (Option String)
  | null => some none
  | text s => some (some s)
  | _ => none

def texts? : Datum → Option (List String)
  | list items => items.mapM text?
  | _ => none

/-! ## Records -/

/-- A format may let a record that is written as a list have more items than fields. -/
structure Dialect where
  surplusItems : Bool
  deriving DecidableEq, Repr

/-- The field of that name: its default when it is absent, and an error when it occurs twice or
cannot be read. -/
def member {α : Type} (members : List (String × Datum)) (name : String) (read : Datum → Option α)
    (default : α) : Option α :=
  match members.filter (·.1 = name) with
  | [] => some default
  | [(_, d)] => read d
  | _ => none

def item {α : Type} (items : List Datum) (index : Nat) (read : Datum → Option α) (default : α) :
    Option α :=
  match items[index]? with
  | none => some default
  | some d => read d

def record {α β γ δ : Type} (dialect : Dialect) (build : α → β → γ → δ)
    (first : String × (Datum → Option α) × α) (second : String × (Datum → Option β) × β)
    (third : String × (Datum → Option γ) × γ) : Datum → Option δ
  | table members => do
    let a ← member members first.1 first.2.1 first.2.2
    let b ← member members second.1 second.2.1 second.2.2
    let c ← member members third.1 third.2.1 third.2.2
    some (build a b c)
  | list items => do
    if !dialect.surplusItems && items.length > 3 then none
    let a ← item items 0 first.2.1 first.2.2
    let b ← item items 1 second.2.1 second.2.2
    let c ← item items 2 third.2.1 third.2.2
    some (build a b c)
  | _ => none

/-! ## Names and tagged values -/

/-- A bare name, or a table that gives the name nothing more. -/
def name? : Datum → Option String
  | text s => some s
  | table [(s, null)] => some s
  | _ => none

inductive Payload where
  | named (members : List (String × Datum))
  | positional (items : List Datum)

namespace Payload

/-- Whether a value without fields may have this payload. Members are ignored, items are not. -/
def isEmpty : Payload → Bool
  | named _ => true
  | positional items => items.isEmpty

def only? (name : String) : Payload → Option Datum
  | named members =>
    match members.filter (·.1 = name) with
    | [(_, d)] => some d
    | _ => none
  | positional [d] => some d
  | positional _ => none

end Payload

/-- Split a tagged value: a table with one `type`, or a list that starts with the tag. -/
def tagged? : Datum → Option (String × Payload)
  | table members =>
    match members.filter (·.1 = "type") with
    | [(_, text tag)] => some (tag, .named (members.filter (·.1 ≠ "type")))
    | _ => none
  | list (text tag :: items) => some (tag, .positional items)
  | _ => none

end Datum

end CallCoordination
