import CallCoordination.Text.Decimal
import CallCoordination.Text.Hex

/-!
# JSON tokens

A text is scanned in one pass over its characters. Strings and numbers are checked for their form
and kept as they were written, so that values nobody asks for are never evaluated.
-/

namespace CallCoordination.Json

inductive Literal where
  | null
  | true
  | false
  deriving DecidableEq

def Literal.name : Literal → List Char
  | null => ['n', 'u', 'l', 'l']
  | true => ['t', 'r', 'u', 'e']
  | false => ['f', 'a', 'l', 's', 'e']

inductive Token where
  | openArray
  | closeArray
  | openObject
  | closeObject
  | comma
  | colon
  | literal (l : Literal)
  | number (text : List Char)
  /-- The text between the quotes. -/
  | string (body : List Char)
  deriving DecidableEq

namespace Token

def text : Token → List Char
  | openArray => ['[']
  | closeArray => [']']
  | openObject => ['{']
  | closeObject => ['}']
  | comma => [',']
  | colon => [':']
  | literal l => l.name
  | number text => text
  | string body => '\x22' :: body ++ ['\x22']

def isBlank (c : Char) : Bool := c = ' ' || c = '\t' || c = '\n' || c = '\r'

def ofMark? : Char → Option Token
  | '[' => some openArray
  | ']' => some closeArray
  | '{' => some openObject
  | '}' => some closeObject
  | ',' => some comma
  | ':' => some colon
  | _ => none

def isWordChar (c : Char) : Bool :=
  c.isAlphanum || c = '-' || c = '+' || c = '.'

end Token

/-! ## Numbers -/

/-- Digits before the point: a zero alone, or digits that start with another one. -/
def isWhole : List Char → Bool
  | ['0'] => true
  | c :: cs => c ≠ '0' && (c :: cs).all Char.isDigit
  | [] => false

/-- The exponent of a number, where its letter stands in front. -/
def exponent? : List Char → Option Int
  | [] => some 0
  | letter :: cs =>
    if letter = 'e' ∨ letter = 'E' then
      let (negative, ds) :=
        match cs with
        | '-' :: ds => (true, ds)
        | '+' :: ds => (false, ds)
        | ds => (false, ds)
      if ds.isEmpty || !ds.all Char.isDigit then none
      else some (if negative then -(Text.decimal ds : Int) else Text.decimal ds)
    else none

def unsigned? (cs : List Char) : Option Text.Numeral :=
  let whole := cs.takeWhile Char.isDigit
  if isWhole whole then
    match cs.dropWhile Char.isDigit with
    | '.' :: rest =>
      let fraction := rest.takeWhile Char.isDigit
      if fraction.isEmpty then none
      else (exponent? (rest.dropWhile Char.isDigit)).map fun e => ⟨whole, fraction, e⟩
    | rest => (exponent? rest).map fun e => ⟨whole, [], e⟩
  else none

def numeral? : List Char → Option Text.Numeral
  | '-' :: cs => unsigned? cs
  | cs => unsigned? cs

def Token.ofWord? (word : List Char) : Option Token :=
  match [Literal.null, .true, .false].find? (·.name = word) with
  | some l => some (.literal l)
  | none => if (numeral? word).isSome then some (.number word) else none

/-! ## Scanning -/

/-- How far an escape inside a string has been read. -/
inductive Escape where
  | none
  | backslash
  | digits (left : Nat)
  deriving DecidableEq

/-- What the scanner is in the middle of. Texts are held in reverse. -/
inductive Scanner where
  | between
  | word (before : List Char)
  | string (before : List Char) (escape : Escape)
  deriving DecidableEq

namespace Scanner

/-- The state of an escape after one more character of a string that does not end there. -/
def escapeStep (escape : Escape) (c : Char) : Option Escape :=
  match escape with
  | .none =>
    if c = '\x5c' then some .backslash
    else if c.toNat < 32 then Option.none
    else some .none
  | .backslash =>
    if c = 'u' then some (.digits 3)
    else if c ∈ ['\x22', '\x5c', '/', 'b', 'f', 'n', 'r', 't'] then some .none
    else Option.none
  | .digits left =>
    if (Text.Hex.value c).isSome then
      match left with
      | 0 => some .none
      | left + 1 => some (.digits left)
    else Option.none

def start (c : Char) : Option (Scanner × List Token) :=
  if Token.isBlank c then some (between, [])
  else if c = '\x22' then some (string [] .none, [])
  else if Token.isWordChar c then some (word [c], [])
  else (Token.ofMark? c).map fun token => (between, [token])

def step (scanner : Scanner) (c : Char) : Option (Scanner × List Token) :=
  match scanner with
  | between => start c
  | word before =>
    if Token.isWordChar c then some (word (c :: before), [])
    else do
      let token ← Token.ofWord? before.reverse
      let (next, tokens) ← start c
      some (next, token :: tokens)
  | string before escape =>
    if escape = .none ∧ c = '\x22' then some (between, [.string before.reverse])
    else (escapeStep escape c).map fun escape => (string (c :: before) escape, [])

/-- The tokens that the end of the text completes. -/
def finish : Scanner → Option (List Token)
  | between => some []
  | word before => (Token.ofWord? before.reverse).map ([·])
  | string .. => none

def run (scanner : Scanner) : List Char → Option (List Token)
  | [] => scanner.finish
  | c :: cs => do
    let (next, tokens) ← scanner.step c
    let rest ← next.run cs
    some (tokens ++ rest)

end Scanner

def Token.scan? (cs : List Char) : Option (List Token) := Scanner.between.run cs

end CallCoordination.Json
