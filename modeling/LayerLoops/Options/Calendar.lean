import LayerLoops.Decimal.Integer

/-! # Days and times

A day of the calendar, and a time of a day down to a millionth of a second, which may have an offset from
universal time. Two times are the same if they are the same instant, but a time with an offset is never the
same as one without. -/

namespace LayerLoops.Options

def padded (width n : Nat) : String :=
  let digits := toString n
  "".pushn '0' (width - digits.length) ++ digits

def isLeap (year : Nat) : Bool := year % 4 == 0 && (year % 100 != 0 || year % 400 == 0)

def monthLength (year month : Nat) : Nat :=
  if month = 2 then (if isLeap year then 29 else 28)
  else if [4, 6, 9, 11].contains month then 30
  else 31

structure Day where
  year : Nat
  month : Nat
  day : Nat
  deriving DecidableEq, Repr

namespace Day

def misfit? (d : Day) : Option String :=
  if d.year = 0 then some "year 0 is out of range"
  else if d.month = 0 || 12 < d.month then some "month must be in 1..12"
  else if d.day = 0 || monthLength d.year d.month < d.day then some "day is out of range for month"
  else none

def text (d : Day) : String := padded 4 d.year ++ "-" ++ padded 2 d.month ++ "-" ++ padded 2 d.day

def shown (d : Day) : String := s!"datetime.date({d.year}, {d.month}, {d.day})"

/-- The number of days before a day, from the first day of the year 1 on. -/
def number (d : Day) : Nat :=
  let years := d.year - 1
  let months := (List.range (d.month - 1)).foldl (fun n m => n + monthLength d.year (m + 1)) 0
  365 * years + years / 4 - years / 100 + years / 400 + months + (d.day - 1)

def lt (d e : Day) : Bool := d.number < e.number

end Day

structure Moment where
  day : Day
  hour : Nat
  minute : Nat
  second : Nat
  /-- Millionths of a second. -/
  micro : Nat := 0
  /-- The minutes by which the clock is ahead of universal time. -/
  offset : Option Int := none
  deriving DecidableEq, Repr

namespace Moment

def offsetShown (minutes : Int) : String :=
  let seconds := 60 * minutes
  let days := Int.fdiv seconds 86400
  let rest := Int.fmod seconds 86400
  let parts := (if days = 0 then [] else [s!"days={days}"]) ++ (if rest = 0 then [] else [s!"seconds={rest}"])
  "datetime.timedelta(" ++ (if parts.isEmpty then "0" else ", ".intercalate parts) ++ ")"

def offsetMisfit? (minutes : Int) : Option String :=
  if minutes.natAbs < 1440 then none
  else some ("offset must be a timedelta strictly between -timedelta(hours=24) and timedelta(hours=24), not " ++
    offsetShown minutes ++ ".")

def misfit? (m : Moment) : Option String :=
  (m.offset.bind offsetMisfit?) <|> m.day.misfit? <|>
    if 23 < m.hour then some "hour must be in 0..23"
    else if 59 < m.minute then some "minute must be in 0..59"
    else if 59 < m.second then some "second must be in 0..59"
    else none

def offsetText (minutes : Int) : String :=
  (if minutes < 0 then "-" else "+") ++ padded 2 (minutes.natAbs / 60) ++ ":" ++ padded 2 (minutes.natAbs % 60)

def text (m : Moment) : String :=
  m.day.text ++ " " ++ padded 2 m.hour ++ ":" ++ padded 2 m.minute ++ ":" ++ padded 2 m.second ++
    (if m.micro = 0 then "" else "." ++ padded 6 m.micro) ++ (m.offset.map offsetText).getD ""

def shown (m : Moment) : String :=
  let clock :=
    if m.micro ≠ 0 then [m.hour, m.minute, m.second, m.micro]
    else if m.second ≠ 0 then [m.hour, m.minute, m.second]
    else [m.hour, m.minute]
  let zone := match m.offset with
    | none => ""
    | some 0 => ", tzinfo=datetime.timezone.utc"
    | some minutes => ", tzinfo=datetime.timezone(" ++ offsetShown minutes ++ ")"
  "datetime.datetime(" ++
    ", ".intercalate (([m.day.year, m.day.month, m.day.day] ++ clock).map toString) ++ zone ++ ")"

/-- Millionths of a second up to a time, its offset taken into account. -/
def instant (m : Moment) : Int :=
  let minutes : Int := (m.day.number * 24 + m.hour) * 60 + m.minute
  ((minutes - m.offset.getD 0) * 60 + m.second) * 1000000 + m.micro

def same (m n : Moment) : Bool := m.offset.isSome == n.offset.isSome && m.instant == n.instant

end Moment

/-- Splits off at most `most` digits. -/
def takeDigits (most : Nat) (cs : List Char) : List Char × List Char :=
  let digits := (cs.take most).takeWhile Decimal.isDigit
  (digits, cs.drop digits.length)

/-- Splits off between `least` and `most` digits, and gives their value. -/
def numeral? (least most : Nat) (cs : List Char) : Option (Nat × List Char) :=
  let (digits, rest) := takeDigits most cs
  if digits.length < least then none else some (Decimal.digitsValue digits, rest)

def passing (c : Char) : List Char → Option (List Char)
  | d :: rest => if d = c then some rest else none
  | [] => none

def isBlankChar (c : Char) : Bool := c = ' ' || c = '\t'

/-- The offset at the end of a time; a `Z` is universal time. -/
def offset? (cs : List Char) : Option (Option Int) :=
  match cs.dropWhile isBlankChar with
  | [] => if cs.isEmpty then some none else none
  | ['Z'] => some (some 0)
  | sign :: rest => do
    let (hours, rest) ← numeral? 1 2 rest
    let minutes ← match rest with
      | [] => some 0
      | _ => do
        let (minutes, rest) ← numeral? 2 2 (← passing ':' rest)
        if rest.isEmpty then some minutes else none
    let size : Int := hours * 60 + minutes
    if sign = '+' then some (some size) else if sign = '-' then some (some (-size)) else none

/-- The fraction of a second, in millionths, and what follows it. Digits beyond the sixth do not count. -/
def micros (cs : List Char) : Nat × List Char :=
  match cs with
  | '.' :: rest =>
    let digits := rest.takeWhile Decimal.isDigit
    let kept := digits.take 6
    (Decimal.digitsValue (kept ++ List.replicate (6 - kept.length) '0'), rest.drop digits.length)
  | _ => (0, cs)

def clock? (day : Day) (cs : List Char) : Option Moment := do
  let rest := match cs with
    | 'T' :: rest | 't' :: rest => rest
    | _ => cs.dropWhile isBlankChar
  if rest.length = cs.length then none
  else
    let (hour, rest) ← numeral? 1 2 rest
    let (minute, rest) ← numeral? 2 2 (← passing ':' rest)
    let (second, rest) ← numeral? 2 2 (← passing ':' rest)
    let (micro, rest) := micros rest
    pure { day, hour, minute, second, micro, offset := ← offset? rest }

/-- A text that is spelled like a day or a time, and whether its month and its day have two digits each. -/
structure Spelled where
  day : Day
  full : Bool
  moment : Option Moment

def spelled? (cs : List Char) : Option Spelled := do
  let (year, rest) ← numeral? 4 4 cs
  let start ← passing '-' rest
  let (month, rest) ← numeral? 1 2 start
  let next ← passing '-' rest
  let (day, rest') ← numeral? 1 2 next
  let full := start.length = rest.length + 2 && next.length = rest'.length + 2
  let d : Day := ⟨year, month, day⟩
  if rest'.isEmpty then pure ⟨d, full, none⟩ else do pure ⟨d, full, some (← clock? d rest')⟩

end LayerLoops.Options
