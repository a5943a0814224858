import LayerLoops.Options.Yaml.Cursor
import LayerLoops.Options.Yaml.Refusal

/-! # Scalars of a YAML text

Plain, quoted and block scalars. A line break inside a plain or a quoted scalar counts as a space, and blank
lines count as line breaks. -/

namespace LayerLoops.Options.Yaml

/-- A scalar that was read: its characters, the place after it, and whether its end crossed a line. -/
structure Scalar where
  chars : List Char
  stop : Cursor
  crossed : Bool := false

/-- A line break and the blank lines after it, as they count inside a folded text. -/
def folded (first blank : List Char) : List Char :=
  if first ≠ ['\n'] then first ++ blank else if blank.isEmpty then [' '] else blank

def plainRun (flow : Bool) : List Char → Nat
  | [] => 0
  | c :: cs =>
    let next := cs.head?
    let ends := c = ' ' || c = '\t' || isBreak c ||
      (c = ':' && (isGap next || (flow && next.any [',', '[', ']', '\x7b', '\x7d'].contains))) ||
      (flow && [',', '?', '[', ']', '\x7b', '\x7d'].contains c)
    if ends then 0 else plainRun flow cs + 1

/-- Passes spaces and line breaks; a marker stops the text. The result is the line breaks, unless stopped. -/
def plainBreaks (c : Cursor) : Option (List Char) × Cursor :=
  match _h : c.rest with
  | [] => (some [], c)
  | x :: _ =>
    if x = ' ' then plainBreaks (c.drop 1)
    else if isBreak x then
      let next := c.drop 1
      if next.atMarker then (none, next)
      else
        let (more, stop) := plainBreaks next
        (more.map (c.breakChars ++ ·), stop)
    else (some [], c)
termination_by c.rest.length
decreasing_by all_goals simp [Cursor.rest_drop, _h]

/-- What stands between two runs of a plain scalar; none at its end. -/
def plainGap (c : Cursor) : Scalar :=
  let spaces := c.rest.takeWhile (· == ' ')
  let next := c.drop spaces.length
  if !next.atBreak then ⟨spaces, next, false⟩
  else
    let first := next.breakChars
    let next := next.drop 1
    if next.atMarker then ⟨[], next, true⟩
    else match plainBreaks next with
      | (some blank, stop) => ⟨folded first blank, stop, true⟩
      | (none, stop) => ⟨[], stop, true⟩

def plainRuns (flow : Bool) (indent : Int) (gap : List Char) (crossed : Bool) (c : Cursor) : Scalar :=
  let n := plainRun flow c.rest
  if c.peek = some '#' || n = 0 then ⟨[], c, crossed⟩
  else
    let run := gap ++ c.rest.take n
    let g := plainGap (c.drop n)
    if _h : g.stop.left < c.left then
      if g.chars.isEmpty || g.stop.peek = some '#' || (!flow && (g.stop.column : Int) < indent) then
        ⟨run, g.stop, g.crossed⟩
      else
        let more := plainRuns flow indent g.chars g.crossed g.stop
        { more with chars := run ++ more.chars }
    else ⟨run, g.stop, g.crossed⟩
termination_by c.left

def plainScalar (flow : Bool) (indent : Int) (c : Cursor) : Scalar := plainRuns flow indent [] false c

def escapes : List (Char × Char) :=
  [('0', Char.ofNat 0), ('a', Char.ofNat 7), ('b', Char.ofNat 8), ('t', '\t'), ('\t', '\t'), ('n', '\n'),
    ('v', Char.ofNat 11), ('f', Char.ofNat 12), ('r', '\r'), ('e', Char.ofNat 27), (' ', ' '), ('"', '"'),
    ('\\', '\\'), ('/', '/'), ('N', Char.ofNat 0x85), ('_', Char.ofNat 0xA0), ('L', Char.ofNat 0x2028),
    ('P', Char.ofNat 0x2029)]

def codeLength : Char → Option Nat
  | 'x' => some 2
  | 'u' => some 4
  | 'U' => some 8
  | _ => none

def hexValue? (c : Char) : Option Nat :=
  if '0' ≤ c ∧ c ≤ '9' then some (c.toNat - '0'.toNat)
  else if 'a' ≤ c ∧ c ≤ 'f' then some (c.toNat - 'a'.toNat + 10)
  else if 'A' ≤ c ∧ c ≤ 'F' then some (c.toNat - 'A'.toNat + 10)
  else none

def hexNumber? (cs : List Char) : Option Nat :=
  cs.foldlM (fun n c => (hexValue? c).map (16 * n + ·)) 0

/-- The characters that hold a code in an escape. Codes beyond the last one are faults. -/
def codeChars (n : Nat) : Except Refusal (List Char) :=
  if n < Text.codeLimit then .ok (Text.ofCode n) else .error (.fault (.codeTooLarge (0x80000000 ≤ n)))

/-- Passes blanks and line breaks inside a quoted scalar; the result is the line breaks. -/
def quotedBreaks (c : Cursor) : Except Refusal (List Char × Cursor) :=
  if c.atMarker then .error .illFormed
  else
    let next := c.dropWhile fun x => x = ' ' || x = '\t'
    if !next.atBreak then .ok ([], next)
    else if _h : (next.drop 1).left < c.left then do
      let (more, stop) ← quotedBreaks (next.drop 1)
      pure (next.breakChars ++ more, stop)
    else .error .illFormed
termination_by c.left

/-- The escape after a backslash: its characters and the place after it. -/
def escaped (c : Cursor) : Except Refusal (List Char × Cursor) :=
  match c.rest with
  | [] => .error .illFormed
  | e :: digits =>
    match escapes.lookup e, codeLength e with
    | some r, _ => .ok ([r], c.drop 1)
    | none, some n => do
      if digits.length < n then .error .illFormed
      else
        let code ← formed (hexNumber? (digits.take n))
        pure (← codeChars code, c.drop (1 + n))
    | none, none => if isBreak e then quotedBreaks (c.drop 1) else .error .illFormed

/-- One piece of a quoted scalar: its characters and the place after it. -/
def quotedPiece (double : Bool) (c : Cursor) : Except Refusal (List Char × Cursor) :=
  match c.rest with
  | [] => .error .illFormed
  | x :: rest =>
    if x = ' ' || x = '\t' || isBreak x then do
      let blanks := c.rest.takeWhile fun x => x = ' ' || x = '\t'
      let next := c.drop blanks.length
      if next.rest.isEmpty then .error .illFormed
      else if !next.atBreak then pure (blanks, next)
      else
        let (blank, stop) ← quotedBreaks (next.drop 1)
        pure (folded next.breakChars blank, stop)
    else if !double && x = '\'' && rest.head? = some '\'' then .ok (['\''], c.drop 2)
    else if double && x = '\\' then escaped (c.drop 1)
    else .ok ([x], c.drop 1)

def quotedEnds (double : Bool) (c : Cursor) : Bool :=
  if double then c.peek = some '"' else c.peek = some '\'' && c.peek 1 ≠ some '\''

def quotedPieces (double : Bool) (c : Cursor) : Except Refusal (List Char × Cursor) :=
  if quotedEnds double c then .ok ([], c.drop 1)
  else do
    let (piece, next) ← quotedPiece double c
    if _h : next.left < c.left then
      let (more, stop) ← quotedPieces double next
      pure (piece ++ more, stop)
    else .error .illFormed
termination_by c.left

def quotedScalar (double : Bool) (c : Cursor) : Except Refusal Scalar := do
  let (chars, stop) ← quotedPieces double (c.drop 1)
  pure ⟨chars, stop, false⟩

/-- How the line breaks at the end of a block scalar count: all, one or none of them. -/
inductive Chomping
  | keep | clip | strip
  deriving DecidableEq, Repr

/-- The indicators after the mark of a block scalar: how it ends and how deep it stands. -/
structure BlockHeader where
  chomping : Chomping := .clip
  depth : Option Nat := none

def chomping? : Option Char → Option Chomping
  | some '+' => some .keep
  | some '-' => some .strip
  | _ => none

def depth? (c : Option Char) : Option Nat :=
  match c with
  | some d => if '1' ≤ d ∧ d ≤ '9' then some (d.toNat - '0'.toNat) else none
  | none => none

/-- The indicators, and the place after their line; none where they are malformed. -/
def blockHeader (c : Cursor) : Option (BlockHeader × Cursor) :=
  let (h, next) : BlockHeader × Cursor :=
    match chomping? c.peek, depth? c.peek with
    | some k, _ => match depth? (c.peek 1) with
      | some d => (⟨k, some d⟩, c.drop 2)
      | none => (⟨k, none⟩, c.drop 1)
    | none, some d => match chomping? (c.peek 1) with
      | some k => (⟨k, some d⟩, c.drop 2)
      | none => (⟨.clip, some d⟩, c.drop 1)
    | none, none => ({}, c)
  if !(next.peek.isNone || next.peek = some ' ' || next.atBreak) then none
  else
    let next := next.dropWhile (· == ' ')
    let next := if next.peek = some '#' then next.dropWhile (!isBreak ·) else next
    if next.peek.isNone || next.atBreak then some (h, next.dropBreak) else none

/-- Passes spaces and line breaks before a block scalar; the result is the line breaks and the greatest column
reached. -/
def leadingBreaks (deepest : Nat) (c : Cursor) : List Char × Nat × Cursor :=
  match _h : c.rest with
  | [] => ([], deepest, c)
  | x :: _ =>
    if x = ' ' then
      let next := c.drop 1
      leadingBreaks (max deepest next.column) next
    else if isBreak x then
      let (more, deepest, stop) := leadingBreaks deepest (c.drop 1)
      (c.breakChars ++ more, deepest, stop)
    else ([], deepest, c)
termination_by c.rest.length
decreasing_by all_goals simp [Cursor.rest_drop, _h]

/-- Passes the indentation and the blank lines of a block scalar; the result is the line breaks. -/
def blockBreaks (indent : Nat) (c : Cursor) : List Char × Cursor :=
  let next := c.dropSpaces (indent - c.column)
  if !next.atBreak then ([], next)
  else if _h : (next.drop 1).left < c.left then
    let (more, stop) := blockBreaks indent (next.drop 1)
    (next.breakChars ++ more, stop)
  else ([], next)
termination_by c.left

/-- The lines of a block scalar after the line breaks `pending`. The result is the text up to the end of the
last line, and the line breaks after it. -/
def blockLines (fold : Bool) (indent : Nat) (pending : List Char) (c : Cursor) :
    List Char × List Char × List Char × Cursor :=
  if c.column ≠ indent || c.rest.isEmpty then ([], [], pending, c)
  else
    let line := c.rest.takeWhile (!isBreak ·)
    let ended := c.drop line.length
    let lineBreak := ended.breakChars
    let (blank, next) := blockBreaks indent ended.dropBreak
    let indented (x : Option Char) : Bool := x = some ' ' || x = some '\t'
    if _h : next.left < c.left then
      if next.column = indent && !next.rest.isEmpty then
        let joint :=
          if fold && lineBreak = ['\n'] && !indented c.peek && !indented next.peek then
            (if blank.isEmpty then [' '] else [])
          else lineBreak
        let (text, lastBreak, trailing, stop) := blockLines fold indent blank next
        (pending ++ line ++ joint ++ text, lastBreak, trailing, stop)
      else (pending ++ line, lineBreak, blank, next)
    else (pending ++ line, lineBreak, blank, next)
termination_by c.left

def blockScalar (fold : Bool) (indent : Int) (c : Cursor) : Except Refusal Scalar := do
  let (h, next) ← formed (blockHeader (c.drop 1))
  let least := (max 1 (indent + 1)).toNat
  let (pending, depth, next) := match h.depth with
    | some d =>
      let depth := least + d - 1
      let (pending, next) := blockBreaks depth next
      (pending, depth, next)
    | none =>
      let (pending, deepest, next) := leadingBreaks 0 next
      (pending, max least deepest, next)
  let (text, lastBreak, trailing, stop) := blockLines fold depth pending next
  let tail := match h.chomping with
    | .strip => []
    | .clip => lastBreak
    | .keep => lastBreak ++ trailing
  pure ⟨text ++ tail, stop, true⟩

end LayerLoops.Options.Yaml
