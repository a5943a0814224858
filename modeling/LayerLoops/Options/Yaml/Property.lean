import LayerLoops.Decimal.Integer
import LayerLoops.Options.Yaml.Scalar

/-! # Anchors, tags and directives

An anchor names a node, and an alias stands for the node of that name. A tag says what kind of value a node
has; it may be shortened by a handle, and a directive at the start of a document says what a handle stands
for. -/

namespace LayerLoops.Options.Yaml

/-- A tag as it is written; without a handle it is written in full. -/
structure RawTag where
  handle : Option String
  suffix : String
  deriving DecidableEq, Repr

inductive Directive
  /-- The version of the format. -/
  | version (major : Nat)
  /-- A handle and what it stands for. -/
  | handle (name meaning : String)
  | other
  deriving DecidableEq, Repr

def isNameChar (c : Char) : Bool := c.isAlphanum || c = '-' || c = '_'

def endsWord : Option Char → Bool
  | some c => c = ' ' || isBreak c
  | none => true

def require (b : Bool) : Except Refusal Unit := if b then .ok () else .error .illFormed

def anchorName (c : Cursor) : Except Refusal (String × Cursor) := do
  let c := c.drop 1
  let name := c.rest.takeWhile isNameChar
  let next := c.drop name.length
  require (!name.isEmpty)
  require (isGap next.peek || next.peek.any ['?', ':', ',', ']', '\x7d', '%', '@', '\x60'].contains)
  pure (String.ofList name, next)

def isUriChar (c : Char) : Bool :=
  c.isAlphanum || "-;/?:@&=+$,_.!~*'()[]%".toList.contains c

def decodedBytes (bs : List Nat) : Option (List Char) := (Text.Utf8.decode bs).toOption.map String.toList

/-- Replaces bytes that are written with a percent sign and two digits; `pending` are those just read. -/
def unescapeUri (pending : List Nat) : List Char → Option (List Char)
  | [] => decodedBytes pending
  | '%' :: a :: b :: rest => do unescapeUri (pending ++ [← hexNumber? [a, b]]) rest
  | c :: rest => do
    if c = '%' then none else pure ((← decodedBytes pending) ++ c :: (← unescapeUri [] rest))

def tagUri (c : Cursor) : Except Refusal (String × Cursor) := do
  let raw := c.rest.takeWhile isUriChar
  require (!raw.isEmpty)
  pure (String.ofList (← formed (unescapeUri [] raw)), c.drop raw.length)

/-- The handle at the cursor: one mark, or a name between two marks. -/
def tagHandle (c : Cursor) : Except Refusal (String × Cursor) := do
  require (c.peek = some '!')
  if c.peek 1 = some ' ' then pure ("!", c.drop 1)
  else
    let name := (c.rest.drop 1).takeWhile isNameChar
    require (c.peek (name.length + 1) = some '!')
    pure (String.ofList ('!' :: name ++ ['!']), c.drop (name.length + 2))

/-- The tag at the cursor. A mark on its own is the tag of a node that is read like a plain one. -/
def tag (c : Cursor) : Except Refusal (RawTag × Cursor) := do
  let (t, next) ←
    if c.peek 1 = some '<' then do
      let (suffix, next) ← tagUri (c.drop 2)
      require (next.peek = some '>')
      pure ((⟨none, suffix⟩ : RawTag), next.drop 1)
    else if isGap (c.peek 1) then pure ((⟨none, "!"⟩ : RawTag), c.drop 1)
    else
      let word := (c.rest.drop 1).takeWhile fun x => !endsWord (some x)
      let (handle, next) ← if word.contains '!' then tagHandle c else pure ("!", c.drop 1)
      let (suffix, next) ← tagUri next
      pure ((⟨some handle, suffix⟩ : RawTag), next)
  require (endsWord next.peek)
  pure (t, next)

def versionNumber (c : Cursor) : Except Refusal (Nat × Cursor) := do
  let digits := c.rest.takeWhile Decimal.isDigit
  require (!digits.isEmpty)
  if digits.length > Decimal.digitLimit then .error (.fault (.numeralUnreadable digits.length))
  else pure (Decimal.digitsValue digits, c.drop digits.length)

def restOfLine (c : Cursor) : Except Refusal Cursor := do
  let c := c.dropWhile (· == ' ')
  let c := if c.peek = some '#' then c.dropWhile (!isBreak ·) else c
  require (c.peek.isNone || c.atBreak)
  pure c.dropBreak

def versionDirective (c : Cursor) : Except Refusal (Directive × Cursor) := do
  let (major, next) ← versionNumber (c.dropWhile (· == ' '))
  require (next.peek = some '.')
  let (_, next) ← versionNumber (next.drop 1)
  require (endsWord next.peek)
  pure (.version major, next)

def handleDirective (c : Cursor) : Except Refusal (Directive × Cursor) := do
  let (name, next) ← tagHandle (c.dropWhile (· == ' '))
  require (next.peek = some ' ')
  let (meaning, next) ← tagUri (next.dropWhile (· == ' '))
  require (endsWord next.peek)
  pure (.handle name meaning, next)

def directive (c : Cursor) : Except Refusal (Directive × Cursor) := do
  let c := c.drop 1
  let name := c.rest.takeWhile isNameChar
  let next := c.drop name.length
  require (!name.isEmpty && endsWord next.peek)
  let (d, next) ← match String.ofList name with
    | "YAML" => versionDirective next
    | "TAG" => handleDirective next
    | _ => pure (.other, next.dropWhile (!isBreak ·))
  pure (d, ← restOfLine next)

end LayerLoops.Options.Yaml
