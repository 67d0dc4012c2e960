import CallCoordination.Toml.Scalar
import CallCoordination.Toml.Table
import CallCoordination.Toml.Token

/-!
# TOML documents

A machine reads tokens into statements. Its stack holds the arrays and inline tables that are still
open, above the assignment that they are the value of; what is on top decides whether line breaks
and comments may stand between values.
-/

namespace CallCoordination.Toml

/-- How many parts a key has, and how deep values are nested, stays below this. -/
def nestingLimit : Nat := 80

def isBareKey (cs : List Char) : Bool :=
  !cs.isEmpty && cs.all fun c => c.isAlphanum || c = '_' || c = '-'

def Path.ofReverse? : List String → Option Path
  | [] => none
  | last :: before =>
    if before.length + 1 < nestingLimit then some ⟨before.reverse, last⟩ else none

/-- What a value is part of, where values before it are in reverse. -/
inductive Frame where
  | assignment (path : Path)
  | array (before : List Datum)
  | table (before : List (Path × Datum))
  | member (before : List (Path × Datum)) (path : Path)

inductive Purpose where
  | assignment
  | table
  | element
  | member
  deriving DecidableEq

/-- What can come next. Parts of keys are in reverse. -/
inductive Mode where
  | lineStart
  | lineEnd
  /-- Behind the first bracket of a header. -/
  | header
  | key (purpose : Purpose) (before : List String)
  | keyEnd (purpose : Purpose) (parts : List String)
  /-- Before the second bracket that closes the header of an array of tables. -/
  | elementEnd (path : Path)
  | value
  | word (text : List Char)
  /-- Behind a date and a single space, where a time may follow. -/
  | dateGap (date : List Char)
  | item
  | itemEnd
  | memberStart
  | memberEnd

structure Reader where
  mode : Mode := .lineStart
  stack : List Frame := []
  /-- The statements so far, in reverse. -/
  statements : List Statement := []

namespace Reader

def state (statement : Statement) (reader : Reader) : Reader :=
  { reader with statements := statement :: reader.statements }

def push (frame : Frame) (mode : Mode) (reader : Reader) : Option Reader :=
  if reader.stack.length < nestingLimit then
    some { reader with mode := mode, stack := frame :: reader.stack }
  else none

/-- A value is complete: hand it to what it is part of. -/
def complete (d : Datum) (reader : Reader) : Option Reader :=
  match reader.stack with
  | .assignment path :: stack =>
    some ({ reader with mode := .lineEnd, stack := stack }.state (.assign path d))
  | .array before :: stack =>
    some { reader with mode := .itemEnd, stack := .array (d :: before) :: stack }
  | .member before path :: stack =>
    some { reader with mode := .memberEnd, stack := .table ((path, d) :: before) :: stack }
  | _ => none

def close (reader : Reader) : Option Reader :=
  match reader.stack with
  | .array before :: stack => { reader with stack := stack }.complete (.list before.reverse)
  | .table before :: stack => do
    let d ← ofAssignments? before.reverse
    { reader with stack := stack }.complete d
  | _ => none

def beginValue (reader : Reader) : Token → Option Reader
  | .line text | .block text => reader.complete (.text (String.ofList text))
  | .word text => some { reader with mode := .word text }
  | .dot => some { reader with mode := .word ['.'] }
  | .openBracket => reader.push (.array []) .item
  | .openBrace => reader.push (.table []) .memberStart
  | _ => none

def keyStep (reader : Reader) (purpose : Purpose) (before : List String) : Token → Option Reader
  | .blank _ => some { reader with mode := .key purpose before }
  | .line text => some { reader with mode := .keyEnd purpose (String.ofList text :: before) }
  | .word text =>
    if isBareKey text then
      some { reader with mode := .keyEnd purpose (String.ofList text :: before) }
    else none
  | _ => none

def keyEndStep (reader : Reader) (purpose : Purpose) (parts : List String) (token : Token) :
    Option Reader :=
  match purpose, token with
  | _, .blank _ => some reader
  | _, .dot => some { reader with mode := .key purpose parts }
  | .assignment, .equals => do
    let path ← Path.ofReverse? parts
    some { reader with mode := .value, stack := [.assignment path] }
  | .member, .equals => do
    let path ← Path.ofReverse? parts
    match reader.stack with
    | .table before :: stack =>
      some { reader with mode := .value, stack := .member before path :: stack }
    | _ => none
  | .table, .closeBracket => do
    let path ← Path.ofReverse? parts
    some ({ reader with mode := .lineEnd }.state (.table path))
  | .element, .closeBracket => do
    let path ← Path.ofReverse? parts
    some { reader with mode := .elementEnd path }
  | _, _ => none

def plainStep (reader : Reader) (token : Token) : Option Reader :=
  match reader.mode, token with
  | .lineStart, .blank _ => some reader
  | .lineStart, .newline => some reader
  | .lineStart, .comment => some { reader with mode := .lineEnd }
  | .lineStart, .openBracket => some { reader with mode := .header }
  | .lineStart, token => reader.keyStep .assignment [] token
  | .lineEnd, .blank _ => some reader
  | .lineEnd, .comment => some reader
  | .lineEnd, .newline => some { reader with mode := .lineStart }
  | .header, .openBracket => some { reader with mode := .key .element [] }
  | .header, token => reader.keyStep .table [] token
  | .key purpose before, token => reader.keyStep purpose before token
  | .keyEnd purpose parts, token => reader.keyEndStep purpose parts token
  | .elementEnd path, .closeBracket =>
    some ({ reader with mode := .lineEnd }.state (.element path))
  | .value, .blank _ => some reader
  | .value, token => reader.beginValue token
  | .item, .blank _ | .item, .newline | .item, .comment => some reader
  | .item, .closeBracket => reader.close
  | .item, token => reader.beginValue token
  | .itemEnd, .blank _ | .itemEnd, .newline | .itemEnd, .comment => some reader
  | .itemEnd, .comma => some { reader with mode := .item }
  | .itemEnd, .closeBracket => reader.close
  | .memberStart, .blank _ => some reader
  | .memberStart, .closeBrace => reader.close
  | .memberStart, token => reader.keyStep .member [] token
  | .memberEnd, .blank _ => some reader
  | .memberEnd, .comma => some { reader with mode := .key .member [] }
  | .memberEnd, .closeBrace => reader.close
  | _, _ => none

def endWord (reader : Reader) : Option Reader :=
  match reader.mode with
  | .word text | .dateGap text => (Scalar.ofWord? text).bind reader.complete
  | _ => some reader

def step (reader : Reader) (token : Token) : Option Reader :=
  match reader.mode, token with
  | .word text, .word more => some { reader with mode := .word (text ++ more) }
  | .word text, .dot => some { reader with mode := .word (text ++ ['.']) }
  | .word text, .blank [' '] =>
    if Scalar.isDate text then some { reader with mode := .dateGap text }
    else reader.endWord
  | .dateGap date, .word more => some { reader with mode := .word (date ++ ' ' :: more) }
  | _, _ => reader.endWord.bind (·.plainStep token)

def finish (reader : Reader) : Option (List Statement) := do
  let reader ← reader.endWord
  match reader.mode with
  | .lineStart | .lineEnd => some reader.statements.reverse
  | _ => none

end Reader

def Statement.ofTokens? (tokens : List Token) : Option (List Statement) :=
  (tokens.foldlM Reader.step {}).bind Reader.finish

def parse? (s : String) : Option Datum := do
  let tokens ← Token.scan? s
  ofStatements? (← Statement.ofTokens? tokens)

/-- A record that is written as an array may have more items than fields. -/
def dialect : Datum.Dialect := ⟨true⟩

end CallCoordination.Toml
