import CallCoordination.Json.Number
import CallCoordination.Json.Quoted
import CallCoordination.Json.Token

/-!
# JSON trees

A tree holds strings and numbers as they were written. It is read from tokens by a machine with a
stack of the arrays and objects that are still open, so there is no limit on nesting here;
`isStorable` asks for the limits that apply where a value is evaluated as a whole.
-/

namespace CallCoordination.Json

inductive Tree where
  | literal (l : Literal)
  | number (text : List Char)
  | string (body : List Char)
  | array (items : List Tree)
  | object (members : List (List Char × Tree))

namespace Tree

/-! ## Writing -/

def ofText (s : String) : Tree := string (Quoted.encode s.toList)

def ofBool (b : Bool) : Tree := literal (if b then .true else .false)

def ofMembers (members : List (String × Tree)) : Tree :=
  object (members.map fun (key, value) => (Quoted.encode key.toList, value))

mutual

def tokens : Tree → List Token
  | literal l => [.literal l]
  | number text => [.number text]
  | string body => [.string body]
  | array items => .openArray :: tokensOfItems items
  | object members => .openObject :: tokensOfMembers members

def tokensOfItems : List Tree → List Token
  | [] => [.closeArray]
  | item :: items => item.tokens ++ tokensOfMoreItems items

def tokensOfMoreItems : List Tree → List Token
  | [] => [.closeArray]
  | item :: items => .comma :: item.tokens ++ tokensOfMoreItems items

def tokensOfMembers : List (List Char × Tree) → List Token
  | [] => [.closeObject]
  | (key, value) :: members =>
    .string key :: .colon :: value.tokens ++ tokensOfMoreMembers members

def tokensOfMoreMembers : List (List Char × Tree) → List Token
  | [] => [.closeObject]
  | (key, value) :: members =>
    .comma :: .string key :: .colon :: value.tokens ++ tokensOfMoreMembers members

end

/-- The text of a tree without blanks. -/
def render (tree : Tree) : String := String.ofList (tree.tokens.flatMap Token.text)

/-! ## Reading -/

/-- An array or object that is still open; what it holds so far is in reverse. -/
inductive Frame where
  | items (before : List Tree)
  | members (before : List (List Char × Tree))
  | member (before : List (List Char × Tree)) (key : List Char)

inductive Mode where
  | value (closable : Bool)
  | key (closable : Bool)
  | colon
  | after (tree : Tree)

structure Builder where
  mode : Mode
  stack : List Frame

namespace Builder

def beginValue (stack : List Frame) : Token → Option Builder
  | .literal l => some ⟨.after (.literal l), stack⟩
  | .number text => some ⟨.after (.number text), stack⟩
  | .string body => some ⟨.after (.string body), stack⟩
  | .openArray => some ⟨.value true, .items [] :: stack⟩
  | .openObject => some ⟨.key true, .members [] :: stack⟩
  | _ => none

def step (builder : Builder) (token : Token) : Option Builder :=
  match builder.mode, token, builder.stack with
  | .value true, .closeArray, .items before :: stack => some ⟨.after (.array before.reverse), stack⟩
  | .value _, _, stack => beginValue stack token
  | .key true, .closeObject, .members before :: stack =>
    some ⟨.after (.object before.reverse), stack⟩
  | .key _, .string key, .members before :: stack => some ⟨.colon, .member before key :: stack⟩
  | .colon, .colon, stack => some ⟨.value false, stack⟩
  | .after tree, .comma, .items before :: stack =>
    some ⟨.value false, .items (tree :: before) :: stack⟩
  | .after tree, .closeArray, .items before :: stack =>
    some ⟨.after (.array (tree :: before).reverse), stack⟩
  | .after tree, .comma, .member before key :: stack =>
    some ⟨.key false, .members ((key, tree) :: before) :: stack⟩
  | .after tree, .closeObject, .member before key :: stack =>
    some ⟨.after (.object ((key, tree) :: before).reverse), stack⟩
  | _, _, _ => none

def finish : Builder → Option Tree
  | ⟨.after tree, []⟩ => some tree
  | _ => none

def run (builder : Builder) : List Token → Option Tree
  | [] => builder.finish
  | token :: tokens => (builder.step token).bind (·.run tokens)

end Builder

def ofTokens? (tokens : List Token) : Option Tree := Builder.run ⟨.value false, []⟩ tokens

def parse? (s : String) : Option Tree := (Token.scan? s.toList).bind ofTokens?

/-! ## Limits -/

/-- How deep a value that is evaluated as a whole may be nested. -/
def nestingLimit : Nat := 127

mutual

/-- Whether every string can be decoded, no number overflows, and arrays and objects are nested at
most `depth` deep. -/
def isStorable (depth : Nat) : Tree → Bool
  | literal _ => true
  | number text => (numeral? text).any fun n => !(Scientific.ofNumeral n).overflows
  | string body => (Quoted.decode body).isSome
  | array items =>
    match depth with
    | 0 => false
    | depth + 1 => areStorable depth items
  | object members =>
    match depth with
    | 0 => false
    | depth + 1 => areStorableMembers depth members

def areStorable (depth : Nat) : List Tree → Bool
  | [] => true
  | item :: items => item.isStorable depth && areStorable depth items

def areStorableMembers (depth : Nat) : List (List Char × Tree) → Bool
  | [] => true
  | (key, value) :: members =>
    (Quoted.decode key).isSome && value.isStorable depth && areStorableMembers depth members

end

end Tree

end CallCoordination.Json
