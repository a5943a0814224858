import LayerLoops.Text.Blank
import LayerLoops.Text.DecimalDigit

/-! # Decimal integers

Integers are unbounded, but a numeral of more than 4300 digits is neither written nor read. -/

namespace LayerLoops.Decimal

def digitLimit : Nat := 4300

def numeralBound : Nat := Nat.pow 10 digitLimit

/-- The numeral of an integer is short enough to be written. -/
def Fits (n : Int) : Prop := n.natAbs < numeralBound

instance (n : Int) : Decidable (Fits n) := inferInstanceAs (Decidable (_ < _))

def isDigit (c : Char) : Bool := '0' ≤ c && c ≤ '9'

/-- The value of a digit string, most significant digit first. -/
def digitsValue (cs : List Char) : Nat :=
  cs.foldl (fun n c => 10 * n + (c.toNat - '0'.toNat)) 0

/-- Splits off the values of digits of any script, where one underscore may stand between two digits. -/
def looseDigits : List Char → Option (List Nat)
  | [] => none
  | [c] => (Text.digitValue? c).map ([·])
  | c :: '_' :: rest => do
    let d ← Text.digitValue? c
    let ds ← looseDigits rest
    pure (d :: ds)
  | c :: rest => do
    let d ← Text.digitValue? c
    let ds ← looseDigits rest
    pure (d :: ds)

/-- A blank that may stand beside a numeral: any but the information separators. -/
def isMargin (c : Char) : Bool := Text.isBlank c && !(28 ≤ c.toNat && c.toNat ≤ 31)

def trimMargins (cs : List Char) : List Char :=
  ((cs.dropWhile isMargin).reverse.dropWhile isMargin).reverse

/-- Splits off a sign; the first result says whether it is a minus sign. -/
def splitSign (cs : List Char) : Bool × List Char :=
  match cs with
  | '-' :: rest => (true, rest)
  | '+' :: rest => (false, rest)
  | _ => (false, cs)

/-- Reads an integer: blanks around it, at most one sign, digits of any script. -/
def readInt? (s : String) : Option Int := do
  let (negative, body) := splitSign (trimMargins s.toList)
  let ds ← looseDigits body
  if ds.length > digitLimit then none
  else
    let n : Nat := ds.foldl (fun n d => 10 * n + d) 0
    pure (if negative then -(n : Int) else (n : Int))

/-- The value of a digit to a base up to sixteen: a decimal digit of any script, or a letter. -/
def baseDigit? (base : Nat) (c : Char) : Option Nat :=
  let value :=
    if 'a' ≤ c ∧ c ≤ 'z' then some (c.toNat - 'a'.toNat + 10)
    else if 'A' ≤ c ∧ c ≤ 'Z' then some (c.toNat - 'A'.toNat + 10)
    else Text.digitValue? c
  value.filter (· < base)

def baseMarks : Nat → List Char
  | 2 => ['b', 'B']
  | 8 => ['o', 'O']
  | 16 => ['x', 'X']
  | _ => []

/-- Why a text is no numeral: it is malformed, or it has too many decimal digits. -/
inductive NumeralFault
  | malformed
  | tooLong (digits : Nat)
  deriving DecidableEq, Repr

/-- Reads a numeral to a base: blanks around it, at most one sign, then perhaps a zero with the mark of the
base, and digits. -/
def readNumeral (base : Nat) (cs : List Char) : Except NumeralFault Int :=
  let (negative, body) := splitSign (trimMargins cs)
  let body := match body with
    | '0' :: mark :: rest => if (baseMarks base).contains mark then rest else body
    | _ => body
  let digits := (body.takeWhile fun c => (baseDigit? base c).isSome).filterMap (baseDigit? base)
  if base = 10 ∧ digits.length > digitLimit then .error (.tooLong digits.length)
  else if digits.isEmpty ∨ digits.length < body.length then .error .malformed
  else
    let n : Nat := digits.foldl (fun n d => base * n + d) 0
    .ok (if negative then -(n : Int) else n)

end LayerLoops.Decimal
