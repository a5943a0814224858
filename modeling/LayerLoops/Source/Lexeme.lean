import LayerLoops.Decimal.Integer
import LayerLoops.Source.Token

/-! # Lexemes of a statement

The text of a statement is cut into names, numbers, quoted texts and punctuation. Between them stand spaces,
tabs, form feeds, carriage returns, line feeds and comments; anything else that is no lexeme ends the cutting
with a `junk` lexeme at its place. Lines are counted by line feeds only. -/

namespace LayerLoops.Source

structure Position where
  line : Int := 1
  column : Int := 1
  deriving DecidableEq, Repr

namespace Position

def next (p : Position) (c : Char) : Position :=
  if c = '\n' then ⟨p.line + 1, 1⟩ else if c = Text.mark then p else ⟨p.line, p.column + 1⟩

def after (p : Position) (cs : List Char) : Position := cs.foldl next p

end Position

inductive Terminal
  | name (s : String)
  | integer (digits : List Char)
  | real (digits : List Char)
  | text (s : String)
  | dot | lpar | rpar | comma | equal | semicolon
  | junk
  deriving DecidableEq, Repr

structure Lexeme where
  terminal : Terminal
  start : Position
  stop : Position
  deriving DecidableEq, Repr

def isSpace (c : Char) : Bool := c = ' ' || c = '\t' || c = Char.ofNat 12 || c = '\r' || c = '\n'

def signLength : List Char → Nat
  | s :: _ => if s = '+' || s = '-' then 1 else 0
  | [] => 0

/-- The length of an exponent at the head of a text; zero if there is none. -/
def exponentLength : List Char → Nat
  | e :: tail =>
    let sign := signLength tail
    let n := run Decimal.isDigit (tail.drop sign)
    if (e = 'e' || e = 'E') && n != 0 then 1 + sign + n else 0
  | [] => 0

/-- The length of `.` and digits, with an exponent if one follows, at the head of a text; zero if there are
no digits after the point. -/
def fractionLength : List Char → Nat
  | '.' :: rest =>
    let n := run Decimal.isDigit rest
    if n = 0 then 0 else 1 + n + exponentLength (rest.drop n)
  | _ => 0

def Terminal.punctuation? : Char → Option Terminal
  | '.' => some dot
  | '(' => some lpar
  | ')' => some rpar
  | ',' => some comma
  | '=' => some equal
  | ';' => some semicolon
  | _ => none

/-- The terminal that starts with `c`, none for what is skipped, and how many of the characters after `c`
belong to it. -/
def cut (c : Char) (cs : List Char) : Option Terminal × Nat :=
  if isSpace c then (none, 0)
  else if c = '#' then (none, run (· != '\n') cs)
  else if isNameStart c then
    let n := run isNameChar cs
    (some (.name (String.ofList (c :: cs.take n))), n)
  else if Decimal.isDigit c then
    let n := run Decimal.isDigit cs
    let m := fractionLength (cs.drop n)
    if m = 0 then (some (.integer (c :: cs.take n)), n) else (some (.real (c :: cs.take (n + m))), n + m)
  else if (c = '\'' || c = '"') && cs.contains c then
    let n := run (· != c) cs
    (some (.text (String.ofList (cs.take n))), n + 1)
  else match Terminal.punctuation? c with
    | some t => (some t, 0)
    | none => (some .junk, 0)

def lexemesFrom (p : Position) : List Char → List Lexeme
  | [] => []
  | c :: cs =>
    let (terminal, n) := cut c cs
    let stop := p.after (c :: cs.take n)
    match terminal with
    | some .junk => [⟨.junk, p, stop⟩]
    | some t => ⟨t, p, stop⟩ :: lexemesFrom stop (cs.drop n)
    | none => lexemesFrom stop (cs.drop n)
termination_by cs => cs.length
decreasing_by all_goals exact Nat.lt_succ_of_le (List.length_drop ▸ Nat.sub_le _ _)

end LayerLoops.Source
