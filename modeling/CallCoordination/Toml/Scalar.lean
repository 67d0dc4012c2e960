import CallCoordination.Datum
import CallCoordination.Text.Decimal
import CallCoordination.Text.Hex

/-!
# TOML scalars

Booleans, integers, floats, dates and times. Only booleans are evaluated; of all others it is
checked that they are well formed and in range.
-/

namespace CallCoordination.Toml.Scalar

/-- The digits of a number whose digits may be separated by single underscores. -/
def ungroup? (isDigit : Char → Bool) : List Char → Option (List Char)
  | [] => none
  | [c] => if isDigit c then some [c] else none
  | c :: '_' :: cs => if isDigit c then (ungroup? isDigit cs).map (c :: ·) else none
  | c :: cs => if isDigit c then (ungroup? isDigit cs).map (c :: ·) else none

def sign : List Char → Bool × List Char
  | '-' :: cs => (true, cs)
  | '+' :: cs => (false, cs)
  | cs => (false, cs)

def whole? (cs : List Char) : Option (List Char) := do
  let ds ← ungroup? Char.isDigit cs
  if ds.head? = some '0' ∧ ds.length ≠ 1 then none else some ds

/-! ## Integers -/

def isBased (base : Nat) (cs : List Char) : Bool :=
  let isDigit (c : Char) := (Text.Hex.value c).any (· < base)
  let value (ds : List Char) :=
    ds.foldl (fun n c => base * n + (Text.Hex.value c).getD 0) 0
  (ungroup? isDigit cs).any fun ds => value ds < 1 <<< 63

/-- Integers of 64 bits, in four bases. -/
def isInteger : List Char → Bool
  | '0' :: 'x' :: cs => isBased 16 cs
  | '0' :: 'o' :: cs => isBased 8 cs
  | '0' :: 'b' :: cs => isBased 2 cs
  | cs =>
    let (negative, cs) := sign cs
    (whole? cs).any fun ds =>
      if negative then Text.decimal ds ≤ 1 <<< 63 else Text.decimal ds < 1 <<< 63

/-! ## Floats -/

def isGrouped (c : Char) : Bool := c.isDigit || c = '_'

def exponent? (cs : List Char) : Option Int := do
  let (negative, cs) := sign cs
  let ds ← ungroup? Char.isDigit cs
  some (if negative then -(Text.decimal ds : Int) else Text.decimal ds)

def isExponentLetter (c : Char) : Bool := c = 'e' || c = 'E'

def numeral? (cs : List Char) : Option Text.Numeral := do
  let whole ← whole? (cs.takeWhile isGrouped)
  match cs.dropWhile isGrouped with
  | '.' :: cs =>
    let fraction ← ungroup? Char.isDigit (cs.takeWhile isGrouped)
    match cs.dropWhile isGrouped with
    | [] => some ⟨whole, fraction, 0⟩
    | letter :: cs =>
      if isExponentLetter letter then (exponent? cs).map (⟨whole, fraction, ·⟩) else none
  | letter :: cs =>
    if isExponentLetter letter then (exponent? cs).map (⟨whole, [], ·⟩) else none
  | [] => none

/-- A float may be infinite by name, or by being too low, but not by being too high. -/
def isFloat (cs : List Char) : Bool :=
  let (negative, cs) := sign cs
  cs = ['i', 'n', 'f'] || cs = ['n', 'a', 'n'] ||
    (numeral? cs).any fun n => negative || !n.exceedsDouble

/-! ## Dates and times -/

/-- A number of exactly that many digits within bounds, and the rest behind it. -/
def field? (width : Nat) (low high : Nat) (cs : List Char) : Option (Nat × List Char) :=
  let ds := cs.take width
  let n := Text.decimal ds
  if ds.length = width ∧ ds.all Char.isDigit ∧ low ≤ n ∧ n ≤ high then some (n, cs.drop width)
  else none

def mark? (mark : Char) : List Char → Option (List Char)
  | c :: cs => if c = mark then some cs else none
  | [] => none

def isLeap (year : Nat) : Bool := year % 4 = 0 && (year % 100 ≠ 0 || year % 400 = 0)

def daysIn (year month : Nat) : Nat :=
  if month = 2 then if isLeap year then 29 else 28
  else if month ∈ [4, 6, 9, 11] then 30
  else 31

def date? (cs : List Char) : Option (List Char) := do
  let (year, cs) ← field? 4 0 9999 cs
  let (month, cs) ← field? 2 1 12 (← mark? '-' cs)
  let (_, cs) ← field? 2 1 (daysIn year month) (← mark? '-' cs)
  some cs

/-- The rest behind a time, which has seconds and may have a fraction of one. -/
def time? (cs : List Char) : Option (List Char) := do
  let (_, cs) ← field? 2 0 23 cs
  let (_, cs) ← field? 2 0 59 (← mark? ':' cs)
  let (_, cs) ← field? 2 0 60 (← mark? ':' cs)
  match cs with
  | '.' :: c :: cs => if c.isDigit then some (cs.dropWhile Char.isDigit) else none
  | '.' :: [] => none
  | cs => some cs

def offset? (cs : List Char) : Option (List Char) := do
  let (_, cs) ← field? 2 0 23 cs
  let (_, cs) ← field? 2 0 59 (← mark? ':' cs)
  some cs

def isOffset : List Char → Bool
  | [] => true
  | [c] => c = 'Z' || c = 'z'
  | c :: cs => (c = '+' || c = '-') && (offset? cs).any (·.isEmpty)

def isDate (cs : List Char) : Bool := (date? cs).any (·.isEmpty)

def isDateTime (cs : List Char) : Bool :=
  match date? cs with
  | some [] => true
  | some (c :: cs) => (c = 'T' || c = 't' || c = ' ') && (time? cs).any isOffset
  | none => (time? cs).any (·.isEmpty)

/-- What a word stands for. A date or time can only be asked for fields that it does not have. -/
def ofWord? (cs : List Char) : Option Datum :=
  if cs = ['t', 'r', 'u', 'e'] then some (.bool true)
  else if cs = ['f', 'a', 'l', 's', 'e'] then some (.bool false)
  else if isInteger cs || isFloat cs then some .other
  else if isDateTime cs then some (.table [])
  else none

end CallCoordination.Toml.Scalar
