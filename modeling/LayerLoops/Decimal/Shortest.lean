import LayerLoops.Decimal.Binary

/-! # Shortest decimal text

A finite number is written with the fewest digits that read back to it, and of those the nearest. Numbers
from `10 ^ (-4)` up to `10 ^ 16` are written positionally with at least one digit after the point, all others
with an exponent of at least two digits. -/

namespace LayerLoops.Decimal

/-- A positive dyadic number `m * 2 ^ q`. -/
structure Dyadic where
  m : Nat
  q : Int

namespace Dyadic

private def up (base : Nat) (e : Int) : Nat := Nat.pow base e.toNat
private def down (base : Nat) (e : Int) : Nat := Nat.pow base (-e).toNat

/-- `d * 10 ^ k ≤ x`. -/
def decimalLe (d : Nat) (k : Int) (x : Dyadic) : Bool :=
  d * up 10 k * down 2 x.q ≤ x.m * up 2 x.q * down 10 k

/-- `x ≤ d * 10 ^ k`. -/
def leDecimal (x : Dyadic) (d : Nat) (k : Int) : Bool :=
  x.m * up 2 x.q * down 10 k ≤ d * up 10 k * down 2 x.q

/-- The integer part of `x / 10 ^ k`. -/
def floorAt (x : Dyadic) (k : Int) : Nat :=
  x.m * up 2 x.q * down 10 k / (up 10 k * down 2 x.q)

/-- The exponent `e` with `10 ^ e ≤ x < 10 ^ (e + 1)`. -/
def decimalExponent (x : Dyadic) : Int :=
  let guess := Int.fdiv (((x.m.log2 : Int) + x.q) * 30103) 100000
  if !decimalLe 1 guess x then guess - 1
  else if decimalLe 1 (guess + 1) x then guess + 1
  else guess

/-- The dyadic numbers halfway to the neighbours of a double-precision number, lower first. -/
def halfway (x : Dyadic) : Dyadic × Dyadic :=
  let below := if x.m = Nat.pow 2 52 ∧ x.q > Binary.leastExponent then 4 * x.m - 1 else 4 * x.m - 2
  (⟨below, x.q - 2⟩, ⟨4 * x.m + 2, x.q - 2⟩)

/-- `d * 10 ^ k` reads back as `x`: it is nearer to `x` than to any other double-precision number. -/
def readsBack (x : Dyadic) (d : Nat) (k : Int) : Bool :=
  let (lo, hi) := x.halfway
  if x.m % 2 = 0 then lo.leDecimal d k && decimalLe d k hi
  else !decimalLe d k lo && !hi.leDecimal d k

/-- Twice `x`, in the same units as `decimalLe` compares. -/
def lowerIsNearer (x : Dyadic) (d : Nat) (k : Int) : Bool :=
  -- `x - d ≤ (d + 1) - x`, a tie going to the even digit
  let twice : Dyadic := ⟨2 * x.m, x.q⟩
  if twice.leDecimal (2 * d + 1) k then
    if decimalLe (2 * d + 1) k twice then d % 2 = 0 else true
  else false

/-- The first grid of at least `17 - fuel` digits that holds a number reading back as `x`. -/
def shortestFrom (x : Dyadic) (e : Int) : Nat → Nat × Int
  | 0 => (x.floorAt (e - 16), e - 16)
  | fuel + 1 =>
    let k := e - (16 - fuel : Nat)
    let d := x.floorAt k
    match x.readsBack d k, x.readsBack (d + 1) k with
    | true, true => (if x.lowerIsNearer d k then d else d + 1, k)
    | true, false => (d, k)
    | false, true => (d + 1, k)
    | false, false => shortestFrom x e fuel

/-- The digits and the power of ten of the shortest decimal that reads back as `x`. -/
def shortest (x : Dyadic) : Nat × Int :=
  shortestFrom x x.decimalExponent 17

end Dyadic

/-- Writes `digits * 10 ^ k`, where `digits` is positive. -/
def layOut (digits : Nat) (k : Int) : String :=
  let all := (toString digits).toList
  let trimmed := (all.reverse.dropWhile (· == '0')).reverse
  let e : Int := (all.length : Int) - 1 + k
  if -4 ≤ e ∧ e < 16 then
    if e < 0 then
      String.ofList ("0.".toList ++ List.replicate (-e - 1).toNat '0' ++ trimmed)
    else
      let whole := (trimmed ++ List.replicate (e.toNat + 1 - trimmed.length) '0').take (e.toNat + 1)
      let part := trimmed.drop (e.toNat + 1)
      String.ofList (whole ++ '.' :: (if part.isEmpty then ['0'] else part))
  else
    let mantissa := match trimmed with
      | [] => []
      | [d] => [d]
      | d :: ds => d :: '.' :: ds
    let size := toString e.natAbs
    let size := if e.natAbs < 10 then "0" ++ size else size
    String.ofList mantissa ++ "e" ++ (if e < 0 then "-" else "+") ++ size

def Binary.text : Binary → String
  | .finite negative m q =>
    let body := if m = 0 then "0.0" else
      let (d, k) := Dyadic.shortest ⟨m, q⟩
      layOut d k
    if negative then "-" ++ body else body
  | .infinite negative => if negative then "-inf" else "inf"
  | .undefined => "nan"

end LayerLoops.Decimal
