import LayerLoops.Options.Yaml.Property

/-! # Tokens of a YAML text

Indentation opens and closes block collections, brackets flow collections. A scalar or a bracket may turn out
to be a key when a colon follows it on the same line, so the place of the last candidate at each bracket level
is remembered, and the tokens that make it a key are put in front of it. -/

namespace LayerLoops.Options.Yaml

inductive Token
  | documentStart | documentEnd
  | blockSequence | blockMapping | blockEnd
  | flowSequence | flowSequenceEnd | flowMapping | flowMappingEnd | comma
  | entry | key | value
  | scalar (s : String) (plain : Bool)
  | anchor (name : String)
  | alias (name : String)
  | tag (t : RawTag)
  | directive (d : Directive)
  deriving DecidableEq, Repr

/-- A place where a key may have started. -/
structure Candidate where
  /-- The number of tokens before it. -/
  position : Nat
  /-- Nothing but a key can stand here. -/
  required : Bool
  start : Cursor

structure Scanner where
  cursor : Cursor
  tokens : Array Token := #[]
  /-- The column of the innermost block collection, `-1` outside all of them. -/
  indent : Int := -1
  outer : List Int := []
  /-- The number of brackets that are open. -/
  flow : Nat := 0
  mayStartKey : Bool := true
  /-- The candidates of the bracket levels, innermost first. -/
  candidates : List (Option Candidate) := [none]

namespace Scanner

/-- Skips spaces, comments and line breaks. After a line break a key may start again. -/
def skipGaps (flow : Bool) (mayStartKey : Bool) (c : Cursor) : Bool × Cursor :=
  let next := c.dropWhile (· == ' ')
  let next := if next.peek = some '#' then next.dropWhile (!isBreak ·) else next
  if !next.atBreak then (mayStartKey, next)
  else if _h : (next.drop 1).left < c.left then
    skipGaps flow (mayStartKey || !flow) (next.drop 1)
  else (mayStartKey, next)
termination_by c.left

def inFlow (s : Scanner) : Bool := s.flow != 0

def push (s : Scanner) (t : Token) : Scanner := { s with tokens := s.tokens.push t }

def moveTo (s : Scanner) (c : Cursor) : Scanner := { s with cursor := c }

def keyLimit : Nat := 1024

/-- A candidate on an earlier line, or too far back, is no key any more. -/
def isStale (s : Scanner) (c : Candidate) : Bool :=
  c.start.line ≠ s.cursor.line || c.start.index + keyLimit < s.cursor.index

/-- Drops the candidates that are no keys any more; a required one must not be among them. -/
def dropStale (s : Scanner) : Except Refusal Scanner :=
  let stale := s.candidates.filterMap fun c => c.filter s.isStale
  if stale.any (·.required) then .error .illFormed
  else .ok { s with candidates := s.candidates.map fun c => c.filter fun c => !s.isStale c }

/-- Drops the candidate of the innermost level; a required one must not be dropped. -/
def dropCandidate (s : Scanner) : Except Refusal Scanner :=
  match s.candidates with
  | some c :: rest => if c.required then .error .illFormed else .ok { s with candidates := none :: rest }
  | _ => .ok s

def noteCandidate (s : Scanner) : Except Refusal Scanner := do
  if !s.mayStartKey then pure s
  else
    let s ← s.dropCandidate
    let c : Candidate := ⟨s.tokens.size, !s.inFlow && s.indent == s.cursor.column, s.cursor⟩
    pure { s with candidates := some c :: s.candidates.tail }

def unwindFrom (column : Int) (indent : Int) : List Int → Nat × Int × List Int
  | [] => (0, indent, [])
  | o :: os =>
    if indent > column then
      let (n, indent, outer) := unwindFrom column o os
      (n + 1, indent, outer)
    else (0, indent, o :: os)

def unwind (s : Scanner) (column : Int) : Scanner :=
  if s.inFlow then s
  else
    let (n, indent, outer) := unwindFrom column s.indent s.outer
    { s with indent, outer, tokens := s.tokens ++ Array.replicate n .blockEnd }

/-- Opens a block collection at a column that is deeper than the one around it; the token that opens it goes
to a position. -/
def openBlock (s : Scanner) (column position : Nat) (t : Token) : Scanner :=
  if s.indent < column then
    { s with indent := column, outer := s.indent :: s.outer, tokens := s.tokens.insertIdxIfInBounds position t }
  else s

def marker (s : Scanner) (t : Token) : Except Refusal Scanner := do
  let s ← (s.unwind (-1)).dropCandidate
  pure (({ s with mayStartKey := false }.push t).moveTo (s.cursor.drop 3))

def openFlow (s : Scanner) (t : Token) : Except Refusal Scanner := do
  let s ← s.noteCandidate
  pure (({ s with flow := s.flow + 1, mayStartKey := true, candidates := none :: s.candidates }.push t).moveTo
    (s.cursor.drop 1))

def closeFlow (s : Scanner) (t : Token) : Except Refusal Scanner := do
  let s ← s.dropCandidate
  if s.flow = 0 then .error .illFormed
  else
    pure (({ s with flow := s.flow - 1, mayStartKey := false, candidates := s.candidates.tail }.push t).moveTo
      (s.cursor.drop 1))

def nextFlow (s : Scanner) : Except Refusal Scanner := do
  let s ← s.dropCandidate
  pure (({ s with mayStartKey := true }.push .comma).moveTo (s.cursor.drop 1))

def blockEntry (s : Scanner) : Except Refusal Scanner := do
  if !s.inFlow && !s.mayStartKey then .error .illFormed
  else
    let s := if s.inFlow then s else s.openBlock s.cursor.column s.tokens.size .blockSequence
    let s ← s.dropCandidate
    pure (({ s with mayStartKey := true }.push .entry).moveTo (s.cursor.drop 1))

def explicitKey (s : Scanner) : Except Refusal Scanner := do
  if !s.inFlow && !s.mayStartKey then .error .illFormed
  else
    let s := if s.inFlow then s else s.openBlock s.cursor.column s.tokens.size .blockMapping
    let s ← s.dropCandidate
    pure (({ s with mayStartKey := !s.inFlow }.push .key).moveTo (s.cursor.drop 1))

/-- A colon before a value. It makes the candidate a key, if there is one. -/
def colon (s : Scanner) : Except Refusal Scanner := do
  match s.candidates with
  | some c :: rest =>
    let s := { s with candidates := none :: rest }
    let s := { s with tokens := s.tokens.insertIdxIfInBounds c.position .key }
    let s := if s.inFlow then s else s.openBlock c.start.column c.position .blockMapping
    pure (({ s with mayStartKey := false }.push .value).moveTo (s.cursor.drop 1))
  | _ =>
    if !s.inFlow && !s.mayStartKey then .error .illFormed
    else
      let s := if s.inFlow then s else s.openBlock s.cursor.column s.tokens.size .blockMapping
      let s ← s.dropCandidate
      pure (({ s with mayStartKey := !s.inFlow }.push .value).moveTo (s.cursor.drop 1))

def quoted (s : Scanner) (double : Bool) : Except Refusal Scanner := do
  let s ← s.noteCandidate
  let q ← quotedScalar double s.cursor
  pure (({ s with mayStartKey := false }.push (.scalar (String.ofList q.chars) false)).moveTo q.stop)

def plain (s : Scanner) : Except Refusal Scanner := do
  let s ← s.noteCandidate
  let p := plainScalar s.inFlow (s.indent + 1) s.cursor
  pure (({ s with mayStartKey := p.crossed }.push (.scalar (String.ofList p.chars) true)).moveTo p.stop)

def block (s : Scanner) (fold : Bool) : Except Refusal Scanner := do
  let s ← s.dropCandidate
  let b ← blockScalar fold s.indent s.cursor
  pure (({ s with mayStartKey := true }.push (.scalar (String.ofList b.chars) false)).moveTo b.stop)

def named (s : Scanner) (t : String → Token) : Except Refusal Scanner := do
  let s ← s.noteCandidate
  let (name, next) ← anchorName s.cursor
  pure (({ s with mayStartKey := false }.push (t name)).moveTo next)

def tagged (s : Scanner) : Except Refusal Scanner := do
  let s ← s.noteCandidate
  let (t, next) ← tag s.cursor
  pure (({ s with mayStartKey := false }.push (.tag t)).moveTo next)

def directed (s : Scanner) : Except Refusal Scanner := do
  let s ← (s.unwind (-1)).dropCandidate
  let (d, next) ← directive s.cursor
  pure (({ s with mayStartKey := false }.push (.directive d)).moveTo next)

def indicators : List Char :=
  ['-', '?', ':', ',', '[', ']', '\x7b', '\x7d', '#', '&', '*', '!', '|', '>', '\'', '"', '%', '@', '\x60']

def startsPlain (s : Scanner) (c : Char) : Bool :=
  (!isGap (some c) && !indicators.contains c) ||
    (!isGap (s.cursor.peek 1) && (c = '-' || (!s.inFlow && (c = '?' || c = ':'))))

def token (s : Scanner) (c : Char) : Except Refusal Scanner :=
  let gapNext := isGap (s.cursor.peek 1)
  if c = '%' && s.cursor.column = 0 then s.directed
  else if s.cursor.column = 0 && s.cursor.atMarker then
    s.marker (if c = '-' then .documentStart else .documentEnd)
  else if c = '[' then s.openFlow .flowSequence
  else if c = '\x7b' then s.openFlow .flowMapping
  else if c = ']' then s.closeFlow .flowSequenceEnd
  else if c = '\x7d' then s.closeFlow .flowMappingEnd
  else if c = ',' then s.nextFlow
  else if c = '-' && gapNext then s.blockEntry
  else if c = '?' && (s.inFlow || gapNext) then s.explicitKey
  else if c = ':' && (s.inFlow || gapNext) then s.colon
  else if c = '*' then s.named .alias
  else if c = '&' then s.named .anchor
  else if c = '!' then s.tagged
  else if c = '|' && !s.inFlow then s.block false
  else if c = '>' && !s.inFlow then s.block true
  else if c = '\'' then s.quoted false
  else if c = '"' then s.quoted true
  else if s.startsPlain c then s.plain
  else .error .illFormed

/-- Reads the next token, or several; the second result says whether the text ended. -/
def advance (s : Scanner) : Except Refusal (Scanner × Bool) := do
  let (mayStartKey, cursor) := skipGaps s.inFlow s.mayStartKey s.cursor
  let s ← ({ s with mayStartKey, cursor } : Scanner).dropStale
  let s := s.unwind s.cursor.column
  match s.cursor.peek with
  | none => do pure (← (s.unwind (-1)).dropCandidate, true)
  | some c => do pure (← s.token c, false)

/-- The number of tokens that are settled: those before the first that may still become a key. -/
def settled (s : Scanner) : Nat :=
  s.candidates.foldl (fun n c => match c with
    | some c => if s.isStale c then n else min n c.position
    | none => n) s.tokens.size

/-- Reads the tokens up to the end of the text, or those that are settled where it is refused. -/
def run (s : Scanner) : Array Token × Option Refusal :=
  match s.advance with
  | .error r => (s.tokens.take s.settled, some r)
  | .ok (next, true) => (next.tokens, none)
  | .ok (next, false) =>
    if _h : next.cursor.left < s.cursor.left then run next else (s.tokens, some .illFormed)
termination_by s.cursor.left

end Scanner

def tokens (text : List Char) : List Token × Option Refusal :=
  let text := if text.head? = some byteOrderMark then text.tail else text
  let (ts, refusal) := Scanner.run { cursor := { rest := text } }
  (ts.toList, refusal)

end LayerLoops.Options.Yaml
