import LayerLoops.Text.Half

/-! # Positions in a YAML text

A cursor is a place in a text: the characters after it, and the line and the column it stands in. The lines of
the text end in one character each. -/

namespace LayerLoops.Options.Yaml

def isBreak (c : Char) : Bool :=
  c = '\n' || c = Char.ofNat 0x85 || c = Char.ofNat 0x2028 || c = Char.ofNat 0x2029

/-- A space, a tab, a line break or the end of the text. -/
def isGap : Option Char → Bool
  | some c => c = ' ' || c = '\t' || isBreak c
  | none => true

def byteOrderMark : Char := Char.ofNat 0xFEFF

structure Cursor where
  rest : List Char
  /-- The number of characters after the cursor. -/
  left : Nat := rest.length
  line : Nat := 0
  column : Nat := 0
  /-- The width of what is before the cursor. -/
  index : Nat := 0
  deriving DecidableEq, Repr

namespace Cursor

def after (p : Nat × Nat) (c : Char) : Nat × Nat :=
  if isBreak c then (p.1 + 1, 0) else if c = byteOrderMark || c = Text.mark then p else (p.1, p.2 + 1)

def drop (c : Cursor) (n : Nat) : Cursor :=
  let passed := c.rest.take n
  let p := passed.foldl after (c.line, c.column)
  ⟨c.rest.drop n, c.left - passed.length, p.1, p.2, c.index + Text.width passed⟩

theorem rest_drop (c : Cursor) (n : Nat) : (c.drop n).rest = c.rest.drop n := rfl

def peek (c : Cursor) (n : Nat := 0) : Option Char := c.rest[n]?

def dropWhile (c : Cursor) (p : Char → Bool) : Cursor := c.drop (c.rest.takeWhile p).length

/-- Passes at most `limit` leading spaces. -/
def dropSpaces (c : Cursor) (limit : Nat) : Cursor :=
  c.drop ((c.rest.take limit).takeWhile (· == ' ')).length

def atBreak (c : Cursor) : Bool := c.peek.any isBreak

def atMarker (c : Cursor) : Bool :=
  (c.rest.take 3 == ['-', '-', '-'] || c.rest.take 3 == ['.', '.', '.']) && isGap (c.peek 3)

def breakChars (c : Cursor) : List Char :=
  match c.peek with
  | some b => if isBreak b then (if b = Char.ofNat 0x85 then ['\n'] else [b]) else []
  | none => []

def dropBreak (c : Cursor) : Cursor := if c.atBreak then c.drop 1 else c

end Cursor
end LayerLoops.Options.Yaml
