import LayerLoops.Decimal.Binary
import LayerLoops.Decimal.Integer

/-! # Reading decimal fractions

A decimal fraction has blanks around it, at most one sign, digits of any script with at most one point among
them, and perhaps an exponent. There are also words for infinity and for no number. -/

namespace LayerLoops.Decimal

def plainDigit (c : Char) : Char :=
  match Text.digitValue? c with
  | some d => Char.ofNat (48 + d)
  | none => c

def exponent? : List Char → Option Int
  | [] => some 0
  | e :: rest =>
    let (negative, digits) := splitSign rest
    if (e = 'e' || e = 'E') && !digits.isEmpty && digits.all isDigit then
      let n : Int := digitsValue digits
      some (if negative then -n else n)
    else none

def unsignedFraction? (negative : Bool) (cs : List Char) : Option Binary :=
  let word := (String.ofList cs).map Char.toLower
  if word = "inf" ∨ word = "infinity" then some (.infinite negative)
  else if word = "nan" then some .undefined
  else
    let whole := cs.takeWhile isDigit
    let rest := cs.drop whole.length
    let (part, rest) := match rest with
      | '.' :: more => (more.takeWhile isDigit, more.dropWhile isDigit)
      | _ => ([], rest)
    if whole.isEmpty && part.isEmpty then none
    else (exponent? rest).map fun e =>
      .ofDecimal negative (digitsValue (whole ++ part)) (e - part.length)

def readFraction? (cs : List Char) : Option Binary :=
  let (negative, body) := splitSign ((trimMargins cs).map plainDigit)
  unsignedFraction? negative body

end LayerLoops.Decimal
