import LayerLoops.Options.Calendar
import LayerLoops.Options.Yaml.Scalar

/-! # Kinds of values

A tag names the kind of value that a node has. A plain scalar has the kind that it is spelled like: nothing, a
truth value, a number, a day or a time; spelled like none of them it is a text. -/

namespace LayerLoops.Options.Yaml

inductive Tag
  | null | boolean | integer | real | time | text | bytes
  | sequence | mapping | set | orderedMap | pairs
  /-- A key that takes the entries of another mapping. -/
  | merge
  /-- A key whose value stands for the mapping where a scalar is needed. -/
  | value
  | unknown
  deriving DecidableEq, Repr

namespace Tag

def family : String := "tag:yaml.org,2002:"

def names : List (String × Tag) :=
  [("null", null), ("bool", boolean), ("int", integer), ("float", real), ("timestamp", time), ("str", text),
    ("binary", bytes), ("seq", sequence), ("map", mapping), ("set", set), ("omap", orderedMap),
    ("pairs", pairs), ("merge", merge), ("value", value)]

def ofName (s : String) : Tag :=
  match names.find? fun (name, _) => family ++ name == s with
  | some (_, t) => t
  | none => unknown

end Tag

def nullWords : List String := ["", "~", "null", "Null", "NULL"]

def truthWords : List String :=
  ["yes", "Yes", "YES", "no", "No", "NO", "true", "True", "TRUE", "false", "False", "FALSE",
    "on", "On", "ON", "off", "Off", "OFF"]

def digitOrLine (c : Char) : Bool := Decimal.isDigit c || c = '_'

def isSixties : List Char → Bool
  | [] => true
  | ':' :: a :: b :: rest =>
    if Decimal.isDigit a && Decimal.isDigit b then a ≤ '5' && isSixties rest
    else Decimal.isDigit a && b = ':' && isSixties (b :: rest)
  | [':', a] => Decimal.isDigit a
  | _ => false

/-- A text without a sign is spelled like an integer: to the base two, eight, ten or sixteen, or in groups of
sixties. -/
def isMagnitude : List Char → Bool
  | '0' :: 'b' :: rest => !rest.isEmpty && rest.all fun c => c = '0' || c = '1' || c = '_'
  | '0' :: 'x' :: rest => !rest.isEmpty && rest.all fun c => (hexValue? c).isSome || c = '_'
  | '0' :: rest => rest.all fun c => ('0' ≤ c && c ≤ '7') || c = '_'
  | c :: rest => Decimal.isDigit c && isSixties (rest.dropWhile digitOrLine)
  | [] => false

/-- The end of a fraction: nothing, or an exponent with a sign. -/
def isExponent : List Char → Bool
  | [] => true
  | e :: sign :: digits =>
    (e = 'e' || e = 'E') && (sign = '-' || sign = '+') && !digits.isEmpty && digits.all Decimal.isDigit
  | _ => false

def isFraction (cs : List Char) : Bool :=
  match cs with
  | d :: rest =>
    Decimal.isDigit d && match rest.dropWhile digitOrLine with
      | '.' :: part => isExponent (part.dropWhile digitOrLine)
      | groups =>
        !groups.isEmpty && isSixties (groups.takeWhile (· != '.')) &&
          match groups.dropWhile (· != '.') with
          | '.' :: part => part.all digitOrLine
          | _ => false
  | [] => false

def isRealSpelling (cs : List Char) : Bool :=
  let unsigned := (Decimal.splitSign cs).2
  let word := String.ofList unsigned
  [".inf", ".Inf", ".INF"].contains word || [".nan", ".NaN", ".NAN"].contains (String.ofList cs) ||
    isFraction unsigned ||
    match cs with
    | '.' :: d :: rest => Decimal.isDigit d && isExponent (rest.dropWhile digitOrLine)
    | _ => false

def isTimeSpelling (cs : List Char) : Bool :=
  match spelled? cs with
  | some s => s.full || s.moment.isSome
  | none => false

def withoutLineFeed (cs : List Char) : List Char :=
  if cs.getLast? = some '\n' then cs.dropLast else cs

/-- The kind of value that a text is spelled like. A line feed at its end does not count. -/
def Tag.ofSpelling (s : String) : Tag :=
  let cs := withoutLineFeed s.toList
  let word := String.ofList cs
  if s = "\n" then text
  else if nullWords.contains word then null
  else if truthWords.contains word then boolean
  else if isRealSpelling cs then real
  else if isMagnitude (Decimal.splitSign cs).2 then integer
  else if isTimeSpelling cs then time
  else if word = "<<" then merge
  else if word = "=" then value
  else if ["!", "&", "*"].contains word then unknown
  else text

end LayerLoops.Options.Yaml
