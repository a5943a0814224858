import LayerLoops.Decimal.Reading
import LayerLoops.Options.Value
import LayerLoops.Options.Yaml.Tag
import LayerLoops.Text.Lowercase

/-! # Values of scalars

The value that a text has as a scalar of a kind. A plain scalar is spelled like its kind, but a tag may give a
kind to any text, and then the text may turn out not to be one. -/

namespace LayerLoops.Options.Yaml

def colonParts : List Char → List (List Char)
  | [] => [[]]
  | c :: cs => match colonParts cs with
    | first :: rest => if c = ':' then [] :: first :: rest else (c :: first) :: rest
    | [] => [[c]]

def numeral (base : Nat) (cs : List Char) : Except Fault Int :=
  match Decimal.readNumeral base cs with
  | .ok n => .ok n
  | .error .malformed => .error (.notNumeral base (String.ofList cs))
  | .error (.tooLong digits) => .error (.numeralUnreadable digits)

def magnitude (cs : List Char) : Except Fault Int :=
  match cs with
  | [] => .error .emptyNumeral
  | ['0'] => .ok 0
  | '0' :: 'b' :: rest => numeral 2 rest
  | '0' :: 'x' :: rest => numeral 16 rest
  | '0' :: _ => numeral 8 cs
  | _ =>
    if cs.contains ':' then do
      let groups ← (colonParts cs).mapM (numeral 10)
      pure (groups.foldl (fun n g => 60 * n + g) 0)
    else numeral 10 cs

def integerValue (s : String) : Except Fault Value := do
  match s.toList.filter (· != '_') with
  | [] => .error .emptyNumeral
  | cs =>
    let (negative, unsigned) := Decimal.splitSign cs
    let n ← magnitude unsigned
    pure (.integer (if negative then -n else n))

def fraction (cs : List Char) : Except Fault Decimal.Binary :=
  match Decimal.readFraction? cs with
  | some r => .ok r
  | none => .error (.notDecimal (String.ofList cs))

/-- The sum of groups, last group first, each counting sixty of the one after it. Every step is rounded. -/
def sumSixties (groups : List Decimal.Binary) : Decimal.Binary :=
  (groups.reverse.foldl (fun (sum, unit) g =>
    (Decimal.Binary.add sum (Decimal.Binary.mul g (.ofNat unit)), 60 * unit))
    (Decimal.Binary.ofNat 0, 1)).1

def realValue (s : String) : Except Fault Value := do
  match (Text.lower (String.ofList (s.toList.filter (· != '_')))).toList with
  | [] => .error .emptyNumeral
  | cs =>
    let (negative, unsigned) := Decimal.splitSign cs
    let r ←
      if unsigned = ".inf".toList then pure (.infinite false)
      else if unsigned = ".nan".toList then pure .undefined
      else if unsigned.contains ':' then do pure (sumSixties (← (colonParts unsigned).mapM fraction))
      else fraction unsigned
    pure (.real (if negative then r.neg else r))

def booleanValue (s : String) : Except Fault Value :=
  let word := Text.lower s
  if ["yes", "true", "on"].contains word then .ok (.boolean true)
  else if ["no", "false", "off"].contains word then .ok (.boolean false)
  else .error (.unknownWord word)

/-- A day or a time; both have to exist. -/
def timeValue (s : String) : Except Fault Value :=
  match spelled? (withoutLineFeed s.toList) with
  | none => .error .notTime
  | some t => match t.moment with
    | some m => match m.misfit? with
      | some reason => .error (.badDate reason)
      | none => .ok (.moment m)
    | none => match t.day.misfit? with
      | some reason => .error (.badDate reason)
      | none => .ok (.day t.day)

/-- The six bits that a character stands for where bytes are written in sixty-four characters. -/
def sextet? (c : Char) : Option Nat :=
  if 'A' ≤ c ∧ c ≤ 'Z' then some (c.toNat - 'A'.toNat)
  else if 'a' ≤ c ∧ c ≤ 'z' then some (c.toNat - 'a'.toNat + 26)
  else if Decimal.isDigit c then some (c.toNat - '0'.toNat + 52)
  else if c = '+' then some 62
  else if c = '/' then some 63
  else none

/-- Reads bytes that are written in groups of four characters. `pending` are the bits of the group so far,
`taken` is the number of its characters and `pads` that of the signs that fill it up; other characters do not
count. -/
def sextetBytes (pending taken pads : Nat) : List Char → Option (List Nat)
  | [] => if taken = 0 then some [] else none
  | '=' :: rest =>
    if 2 ≤ taken ∧ 4 ≤ taken + pads + 1 then some []
    else sextetBytes pending taken (if 2 ≤ taken then pads + 1 else pads) rest
  | c :: rest =>
    match sextet? c with
    | none => sextetBytes pending taken pads rest
    | some b => match taken with
      | 0 => sextetBytes b 1 0 rest
      | 1 => (sextetBytes (b % 16) 2 0 rest).map ((pending * 4 + b / 16) :: ·)
      | 2 => (sextetBytes (b % 4) 3 0 rest).map ((pending * 16 + b / 4) :: ·)
      | _ => (sextetBytes 0 0 0 rest).map ((pending * 64 + b) :: ·)

def bytesValue (s : String) : Except Refusal Value :=
  if s.toList.all (·.toNat < 128) then formed ((sextetBytes 0 0 0 s.toList).map .bytes) else .error .illFormed

def atom (t : Tag) (s : String) : Except Refusal Value :=
  match t with
  | .null => .ok .null
  | .boolean => sound (booleanValue s)
  | .integer => sound (integerValue s)
  | .real => sound (realValue s)
  | .time => sound (timeValue s)
  | .text => .ok (.text s)
  | .bytes => bytesValue s
  | _ => .error .illFormed

end LayerLoops.Options.Yaml
