import LayerLoops.Decimal.Integer
import LayerLoops.Text.Half

/-! # Layouts

A layout says how a value is written at a place in a text: which character fills up the width and on which side
the value stands, and for integers also their sign, their base and the groups of their digits. A layout that does
not fit a kind of value gives no text for it. -/

namespace LayerLoops.Text

/-- How a value is laid out: the character that fills up, the side the value is on, the sign before numbers that
are not negative, whether the base of a number is marked, the width, the character between groups of digits, the
number of characters that are kept, and the letter for the kind of value. -/
structure Layout where
  fill : Option (List Char) := none
  side : Option Char := none
  sign : Option Char := none
  marked : Bool := false
  /-- Zeros fill up the width, unless another character is named. -/
  zeros : Bool := false
  width : Nat := 0
  group : Option Char := none
  kept : Option Nat := none
  kind : Option Char := none
  deriving DecidableEq, Repr

namespace Layout

def isSide (c : Char) : Bool := c = '<' || c = '>' || c = '^' || c = '='

def take (cs : List Char) (those : List Char) : Option Char × List Char :=
  match cs with
  | c :: rest => if those.contains c then (some c, rest) else (none, cs)
  | [] => (none, cs)

def ofTail (l : Layout) (cs : List Char) : Option Layout :=
  let (sign, cs) := take cs ['+', '-', ' ']
  let (mark, cs) := take cs ['#']
  let (zero, cs) := if l.fill.isNone then take cs ['0'] else (none, cs)
  let width := cs.takeWhile Decimal.isDigit
  let (group, cs) := take (cs.drop width.length) [',', '_']
  let l := { l with
    sign, marked := mark.isSome, zeros := zero.isSome, width := Decimal.digitsValue width, group }
  let (point, cs) := take cs ['.']
  let digits := if point.isSome then cs.takeWhile Decimal.isDigit else []
  if point.isSome && digits.isEmpty then none
  else
    let l := if point.isSome then { l with kept := some (Decimal.digitsValue digits) } else l
    match cs.drop digits.length with
    | [] => some l
    | [kind] => some { l with kind := some kind }
    | _ => none

def ofUnfilled? (cs : List Char) : Option Layout :=
  match cs with
  | side :: rest => if isSide side then ofTail { side := some side } rest else ofTail {} cs
  | [] => some {}

def ofChars? (cs : List Char) : Option Layout :=
  match splitFirst cs with
  | (fill, side :: rest) =>
    if isSide side then ofTail { fill := some fill, side := some side } rest else ofUnfilled? cs
  | (_, []) => ofUnfilled? cs

def fitsText (l : Layout) : Bool :=
  l.sign.isNone && !l.marked && l.group.isNone && l.side ≠ some '=' && (l.kind.isNone || l.kind = some 's')

def filling (l : Layout) : List Char := l.fill.getD (if l.zeros then ['0'] else [' '])

/-- Fills up a text; `side` is where it stands if the layout does not say. -/
def filled (l : Layout) (side : Char) (cs : List Char) : String :=
  let gap := l.width - Text.width cs
  let left := match l.side.getD side with
    | '>' => gap
    | '^' => gap / 2
    | _ => 0
  let fill := l.filling
  String.ofList ((List.replicate left fill).flatten ++ cs ++ (List.replicate (gap - left) fill).flatten)

def text? (l : Layout) (s : String) : Option String :=
  if !l.fitsText then none
  else some (l.filled '<' (match l.kept with
    | some n => ofCodes ((codes s.toList).take n)
    | none => s.toList))

/-- The base of the letter for a kind of integers, and the size of its groups of digits. -/
def base? : Option Char → Option (Nat × Nat)
  | none | some 'd' | some 'n' => some (10, 3)
  | some 'b' => some (2, 4)
  | some 'o' => some (8, 4)
  | some 'x' | some 'X' => some (16, 4)
  | _ => none

def grouped (group : Option Char) (size : Nat) (digits : List Char) : List Char :=
  match group with
  | none => digits
  | some g =>
    (digits.reverse.zipIdx.flatMap fun (c, i) => if i ≠ 0 ∧ i % size = 0 then [g, c] else [c]).reverse

def groupedTo (group : Option Char) (size width : Nat) (fuel : Nat) (digits : List Char) : List Char :=
  let text := grouped group size digits
  match fuel with
  | 0 => text
  | fuel + 1 => if width ≤ text.length then text else groupedTo group size width fuel ('0' :: digits)

def number? (l : Layout) (n : Int) : Option String := do
  let (base, size) ← base? l.kind
  if l.kept.isSome || (l.group = some ',' && base ≠ 10) || (l.group.isSome && l.kind = some 'n') then none
  else
    let digits := Nat.toDigits base n.natAbs
    let digits := if l.kind = some 'X' then digits.map Char.toUpper else digits
    let sign := if n < 0 then ['-'] else match l.sign with
      | some '+' => ['+']
      | some ' ' => [' ']
      | _ => []
    let mark := if l.marked && base ≠ 10 then ['0', l.kind.getD 'd'] else []
    let front := sign ++ mark
    let inside := l.side = some '=' || (l.zeros && l.side.isNone)
    if !inside then pure (l.filled '>' (front ++ grouped l.group size digits))
    else
      let width := l.width - front.length
      let fill := l.filling
      let body := if fill = ['0'] then groupedTo l.group size width width digits else grouped l.group size digits
      pure (String.ofList (front ++ (List.replicate (width - body.length) fill).flatten ++ body))

end Layout

end LayerLoops.Text
