import CallCoordination.Text.Hex

/-!
# TOML tokens

Lines end with a line feed, or with a carriage return in front of it; a carriage return anywhere
else is an error, so `newlines?` drops them before the scan. The scan evaluates strings, because
where one ends depends on its escapes, and leaves all other words as they were written.
-/

namespace CallCoordination.Toml

/-- Read every line ending as a line feed. -/
def newlines? : List Char → Option (List Char)
  | [] => some []
  | '\r' :: '\n' :: cs => (newlines? cs).map ('\n' :: ·)
  | c :: cs => if c = '\r' then none else (newlines? cs).map (c :: ·)

inductive Quote where
  | basic
  | literal
  deriving DecidableEq

def Quote.mark : Quote → Char
  | basic => '\x22'
  | literal => '\x27'

def Quote.ofMark? (c : Char) : Option Quote :=
  [basic, literal].find? (·.mark = c)

inductive Token where
  | openBracket
  | closeBracket
  | openBrace
  | closeBrace
  | comma
  | equals
  | dot
  | blank (text : List Char)
  | newline
  | comment
  /-- A string on one line, the only kind that can be a key. -/
  | line (text : List Char)
  | block (text : List Char)
  | word (text : List Char)
  deriving DecidableEq

namespace Token

def ofMark? : Char → Option Token
  | '[' => some openBracket
  | ']' => some closeBracket
  | '{' => some openBrace
  | '}' => some closeBrace
  | ',' => some comma
  | '=' => some equals
  | '.' => some dot
  | '\n' => some newline
  | _ => none

def isBlank (c : Char) : Bool := c = ' ' || c = '\t'

/-- What may stand in comments and strings without an escape. -/
def isPlain (c : Char) : Bool := c = '\t' || (32 ≤ c.toNat && c.toNat ≠ 127)

end Token

inductive Escape where
  | backslash
  | digits (left : Nat) (value : Nat)
  deriving DecidableEq

namespace Escape

def letters : List (Char × Char) :=
  [('\x22', '\x22'), ('\x5c', '\x5c'), ('b', '\x08'), ('f', '\x0c'), ('n', '\n'), ('r', '\r'),
    ('t', '\t')]

/-- One more character: the escape goes on, or it is a character now. -/
def step (escape : Escape) (c : Char) : Option (Escape ⊕ Char) :=
  match escape with
  | backslash =>
    if c = 'u' then some (.inl (digits 3 0))
    else if c = 'U' then some (.inl (digits 7 0))
    else (letters.lookup c).map .inr
  | digits left value => do
    let digit ← Text.Hex.value c
    let value := 16 * value + digit
    match left with
    | left + 1 => some (.inl (digits left value))
    | 0 => if value.isValidChar then some (.inr (Char.ofNat value)) else none

end Escape

/-- Where the scan of a block string stands. -/
inductive Spot where
  /-- Behind the opening quotes, where a line break does not count. -/
  | fresh
  | inside
  /-- Behind that many quotes, which may close the string or belong to it. -/
  | quotes (count : Nat)
  | escape (e : Escape)
  /-- Behind a backslash that joins lines; a line break must come before anything else. -/
  | gap (broken : Bool)
  deriving DecidableEq

/-- What the scanner is in the middle of. Texts are held in reverse. -/
inductive Scanner where
  | between
  | blank (before : List Char)
  | comment
  | word (before : List Char)
  /-- Behind one quote, or behind two, which are a string or open a block. -/
  | opening (quote : Quote) (two : Bool)
  | line (quote : Quote) (before : List Char) (escape : Option Escape)
  | block (quote : Quote) (before : List Char) (spot : Spot)
  deriving DecidableEq

namespace Scanner

def start (c : Char) : Scanner × List Token :=
  match Token.ofMark? c, Quote.ofMark? c with
  | some token, _ => (between, [token])
  | none, some quote => (opening quote false, [])
  | none, none =>
    if c = '#' then (comment, [])
    else if Token.isBlank c then (blank [c], [])
    else (word [c], [])

def startAfter (token : Token) (c : Char) : Scanner × List Token :=
  let (next, tokens) := start c
  (next, token :: tokens)

def lineStep (quote : Quote) (before : List Char) (c : Char) : Option (Scanner × List Token) :=
  if c = quote.mark then some (between, [.line before.reverse])
  else if quote = .basic ∧ c = '\x5c' then some (line quote before (some .backslash), [])
  else if Token.isPlain c then some (line quote (c :: before) none, [])
  else none

/-- A character inside a block that is no line break to be dropped. -/
def blockStep (quote : Quote) (before : List Char) (c : Char) : Option (Scanner × List Token) :=
  if c = quote.mark then some (block quote before (.quotes 1), [])
  else if quote = .basic ∧ c = '\x5c' then some (block quote before (.escape .backslash), [])
  else if Token.isPlain c ∨ c = '\n' then some (block quote (c :: before) .inside, [])
  else none

/-- The block whose closing quotes may follow up to two quotes of its own. -/
def closeBlock (quote : Quote) (before : List Char) (count : Nat) : Token :=
  .block (before.reverse ++ List.replicate (count - 3) quote.mark)

def step (scanner : Scanner) (c : Char) : Option (Scanner × List Token) :=
  match scanner with
  | between => some (start c)
  | blank before =>
    if Token.isBlank c then some (blank (c :: before), [])
    else some (startAfter (.blank before.reverse) c)
  | comment =>
    if c = '\n' then some (startAfter .comment c)
    else if Token.isPlain c then some (comment, [])
    else none
  | word before =>
    match start c with
    | (word _, _) => some (word (c :: before), [])
    | _ => some (startAfter (.word before.reverse) c)
  | opening quote false =>
    if c = quote.mark then some (opening quote true, []) else lineStep quote [] c
  | opening quote true =>
    if c = quote.mark then some (block quote [] .fresh, []) else some (startAfter (.line []) c)
  | line quote before none => lineStep quote before c
  | line quote before (some e) =>
    (e.step c).map fun
      | .inl e => (line quote before (some e), [])
      | .inr d => (line quote (d :: before) none, [])
  | block quote before .fresh =>
    if c = '\n' then some (block quote before .inside, []) else blockStep quote before c
  | block quote before .inside => blockStep quote before c
  | block quote before (.quotes count) =>
    if c = quote.mark then
      if count = 4 then some (between, [closeBlock quote before 5])
      else some (block quote before (.quotes (count + 1)), [])
    else if 3 ≤ count then some (startAfter (closeBlock quote before count) c)
    else blockStep quote (List.replicate count quote.mark ++ before) c
  | block quote before (.escape e) =>
    if e = .backslash ∧ (Token.isBlank c ∨ c = '\n') then
      some (block quote before (.gap (c = '\n')), [])
    else
      (e.step c).map fun
        | .inl e => (block quote before (.escape e), [])
        | .inr d => (block quote (d :: before) .inside, [])
  | block quote before (.gap broken) =>
    if Token.isBlank c then some (block quote before (.gap broken), [])
    else if c = '\n' then some (block quote before (.gap true), [])
    else if broken then blockStep quote before c
    else none

/-- The tokens that the end of the text completes. -/
def finish : Scanner → Option (List Token)
  | between => some []
  | blank before => some [.blank before.reverse]
  | comment => some [.comment]
  | word before => some [.word before.reverse]
  | opening _ true => some [.line []]
  | block quote before (.quotes count) =>
    if 3 ≤ count then some [closeBlock quote before count] else none
  | _ => none

def run (scanner : Scanner) : List Char → Option (List Token)
  | [] => scanner.finish
  | c :: cs => do
    let (next, tokens) ← scanner.step c
    let rest ← next.run cs
    some (tokens ++ rest)

end Scanner

/-- The tokens of a document, which may start with a byte order mark. -/
def Token.scan? (s : String) : Option (List Token) := do
  let cs :=
    match s.toList with
    | '\ufeff' :: cs => cs
    | cs => cs
  Scanner.between.run (← newlines? cs)

end CallCoordination.Toml
