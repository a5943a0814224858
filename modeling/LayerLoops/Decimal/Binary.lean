/-! # Binary floating-point numbers

A double-precision number is kept as a sign, an integer below `2 ^ 53` and a power of two. A decimal fraction
becomes the nearest such number, the even one of two that are equally near. -/

namespace LayerLoops.Decimal

inductive Binary
  /-- `m * 2 ^ q`, negated if `negative` is set. -/
  | finite (negative : Bool) (m : Nat) (q : Int)
  | infinite (negative : Bool)
  | undefined
  deriving DecidableEq, Repr

namespace Binary

def leastExponent : Int := -1074

/-- The quotient rounded to the nearest integer, a half to the even neighbour. -/
def roundDiv (num den : Nat) : Nat :=
  let d := num / den
  let r := num % den
  if 2 * r < den then d
  else if den < 2 * r then d + 1
  else if d % 2 = 0 then d else d + 1

/-- `num / den` scaled by `2 ^ (-q)` and rounded. -/
def scaled (num den : Nat) (q : Int) : Nat :=
  if 0 ≤ q then roundDiv num (den * Nat.pow 2 q.toNat) else roundDiv (num * Nat.pow 2 (-q).toNat) den

/-- `num / den` is less than `2 ^ 52` units of `2 ^ q`. -/
def isSmall (num den : Nat) (q : Int) : Bool :=
  if 0 ≤ q then num < Nat.pow 2 52 * den * Nat.pow 2 q.toNat
  else num * Nat.pow 2 (-q).toNat < Nat.pow 2 52 * den

def ofFraction (negative : Bool) (num den : Nat) : Binary :=
  let guess : Int := (num.log2 : Int) - den.log2 - 52
  -- the quotient is less than `2 ^ 53` units of `guess`, and more than `2 ^ 51` of them
  let q := if isSmall num den guess then guess - 1 else guess
  let q := if q < leastExponent then leastExponent else q
  let m := scaled num den q
  let (m, q) := if m = Nat.pow 2 53 then (Nat.pow 2 52, q + 1) else (m, q)
  if q > 971 then .infinite negative else .finite negative m q

/-- The number nearest to `digits * 10 ^ exponent`. -/
def ofDecimal (negative : Bool) (digits : Nat) (exponent : Int) : Binary :=
  let size : Int := exponent + (digits.log2 * 30103 / 100000 : Nat)
  if digits = 0 then .finite negative 0 leastExponent
  else if size > 400 then .infinite negative
  else if size < -400 then .finite negative 0 leastExponent
  else if 0 ≤ exponent then ofFraction negative (digits * Nat.pow 10 exponent.toNat) 1
  else ofFraction negative digits (Nat.pow 10 (-exponent).toNat)

/-- The number nearest to `n * 2 ^ q`; `negative` is the sign of a zero. -/
def ofDyadic (negative : Bool) (n q : Int) : Binary :=
  if n = 0 then .finite negative 0 leastExponent
  else if 0 ≤ q then ofFraction (n < 0) (n.natAbs * Nat.pow 2 q.toNat) 1
  else ofFraction (n < 0) n.natAbs (Nat.pow 2 (-q).toNat)

def signed (negative : Bool) (m : Nat) : Int := if negative then -(m : Int) else m

def add : Binary → Binary → Binary
  | finite s m p, finite t n q =>
    let low := min p q
    ofDyadic (s && t) (signed s m * Nat.pow 2 (p - low).toNat + signed t n * Nat.pow 2 (q - low).toNat) low
  | undefined, _ | _, undefined => undefined
  | infinite s, infinite t => if s = t then infinite s else undefined
  | infinite s, _ | _, infinite s => infinite s

def mul : Binary → Binary → Binary
  | finite s m p, finite t n q => ofDyadic (s != t) (signed (s != t) (m * n)) (p + q)
  | undefined, _ | _, undefined => undefined
  | infinite s, infinite t => infinite (s != t)
  | infinite s, finite t m _ | finite t m _, infinite s => if m = 0 then undefined else infinite (s != t)

def neg : Binary → Binary
  | finite s m q => finite (!s) m q
  | infinite s => infinite (!s)
  | undefined => undefined

def ofNat (n : Nat) : Binary := ofDyadic false n 0

def isTrue : Binary → Bool
  | finite _ m _ => m != 0
  | _ => true

end Binary
end LayerLoops.Decimal
