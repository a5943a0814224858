import LayerLoops.Decimal.Integer
import LayerLoops.Text.Blank
import LayerLoops.Text.Half

/-! # Tokens of a line

A line is cut at the delimiters `( ) ; + , . =`, at blanks and around quoted texts. A number sign outside a
quoted text starts a comment that runs to the end of the line. This coarse view is enough to see where a
statement begins and whether its parentheses are closed. -/

namespace LayerLoops.Source

inductive Delimiter
  | lpar | rpar | semicolon | plus | comma | dot | equal
  deriving DecidableEq, Repr

namespace Delimiter

def ofChar? : Char → Option Delimiter
  | '(' => some lpar
  | ')' => some rpar
  | ';' => some semicolon
  | '+' => some plus
  | ',' => some comma
  | '.' => some dot
  | '=' => some equal
  | _ => none

def label : Delimiter → String
  | lpar => "LPAR"
  | rpar => "RPAR"
  | semicolon => "SEMICOLON"
  | plus => "PLUS"
  | comma => "COMMA"
  | dot => "DOT"
  | equal => "EQUAL"

end Delimiter

inductive TokenKind
  | text | number | name | delimiter (d : Delimiter) | other
  deriving DecidableEq, Repr

def TokenKind.label : TokenKind → String
  | text => "STRING"
  | number => "NUMBER"
  | name => "NAME"
  | delimiter d => d.label
  | other => "OTHER"

structure Token where
  kind : TokenKind
  chars : List Char
  /-- The width of the line before the token. -/
  start : Nat
  deriving DecidableEq, Repr

/-- The place of a token in its line, counted from one. -/
def Token.column (t : Token) : Nat := t.start + 1

def isNameStart (c : Char) : Bool := c.isAlpha || c == '_'

def isNameChar (c : Char) : Bool := c.isAlphanum || c == '_'

def isOther (c : Char) : Bool :=
  !Text.isBlank c && (Delimiter.ofChar? c).isNone && c != '#'

def run (p : Char → Bool) (cs : List Char) : Nat := (cs.takeWhile p).length

/-- The kind of the token that starts with `c`, none for blanks, and how many of the characters after `c`
belong to it. A number does not end right before a letter: the last digit then goes with the letter. -/
def munch (c : Char) (cs : List Char) : Option TokenKind × Nat :=
  let digits := run Decimal.isDigit cs
  if (c = '\'' || c = '"') && cs.contains c then (some .text, run (· != c) cs + 1)
  else if Decimal.isDigit c && !(cs.drop digits).head?.any isNameStart then (some .number, digits)
  else if Decimal.isDigit c && digits != 0 then (some .number, digits - 1)
  else if isNameStart c then (some .name, run isNameChar cs)
  else match Delimiter.ofChar? c with
    | some d => (some (.delimiter d), 0)
    | none =>
      if Text.isBlank c then (none, run Text.isBlank cs) else (some .other, run isOther cs)

def tokensFrom (start : Nat) : List Char → List Token
  | [] => []
  | c :: cs =>
    if c = '#' then []
    else
      let (kind, n) := munch c cs
      let rest := tokensFrom (start + Text.width (c :: cs.take n)) (cs.drop n)
      match kind with
      | some kind => ⟨kind, c :: cs.take n, start⟩ :: rest
      | none => rest
termination_by cs => cs.length
decreasing_by exact Nat.lt_succ_of_le (List.length_drop ▸ Nat.sub_le _ _)

/-- The tokens of a line, blanks and the comment left out. -/
def tokens (line : String) : List Token := tokensFrom 0 line.toList

/-- The tokens that open a statement: `model.add(`. -/
def opening : List (TokenKind × List Char) :=
  [(.name, "model".toList), (.delimiter .dot, ['.']), (.name, "add".toList), (.delimiter .lpar, ['('])]

def opensStatement (ts : List Token) : Bool :=
  (ts.take 4).map (fun t => (t.kind, t.chars)) == opening

def Token.weight (t : Token) : Int :=
  match t.kind with
  | .delimiter .lpar => 1
  | .delimiter .rpar => -1
  | _ => 0

/-- The number of parentheses that the tokens leave open. -/
def balance (ts : List Token) : Int := ts.foldl (fun n t => n + t.weight) 0

end LayerLoops.Source
