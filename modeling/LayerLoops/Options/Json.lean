import LayerLoops.Options.KeyOrder

/-! # Values as JSON text

Values are written over several lines, two blanks deeper for each level, in ASCII characters only. Maps may
have their keys sorted, which only works where any two keys can be compared. -/

namespace LayerLoops.Options

def escapeUnit (n : Nat) : List Char := '\\' :: 'u' :: Text.hex 4 n

def escapeJson (n : Nat) : List Char :=
  let c := Char.ofNat n
  if c = '"' then ['\\', '"']
  else if c = '\\' then ['\\', '\\']
  else if c = '\n' then ['\\', 'n']
  else if c = '\r' then ['\\', 'r']
  else if c = '\t' then ['\\', 't']
  else if n = 8 then ['\\', 'b']
  else if n = 12 then ['\\', 'f']
  else if 32 ≤ n ∧ n < 127 then [c]
  else if n < 0x10000 then escapeUnit n
  else escapeUnit (0xD800 + (n - 0x10000) / 0x400) ++ escapeUnit (0xDC00 + (n - 0x10000) % 0x400)

def jsonString (s : String) : String := String.ofList ('"' :: (Text.codes s.toList).flatMap escapeJson ++ ['"'])

def jsonReal : Decimal.Binary → String
  | .infinite negative => if negative then "-Infinity" else "Infinity"
  | .undefined => "NaN"
  | r => r.text

namespace Value

def memberName : Value → Except Fault String
  | .text s => .ok s
  | .null => .ok "null"
  | .boolean b => .ok (if b then "true" else "false")
  | .integer n => (writable n).map toString
  | .real r => .ok (jsonReal r)
  | v => .error (.notKey v.shortTypeName)

end Value

def jsonBreak (level : Nat) : String := "\n" ++ "".pushn ' ' (2 * level)

def jsonBlock (opening closing : String) (level : Nat) (parts : List String) : String :=
  if parts.isEmpty then opening ++ closing
  else opening ++ jsonBreak (level + 1) ++ ("," ++ jsonBreak (level + 1)).intercalate parts ++
    jsonBreak level ++ closing

def jsonMembers (es : List (Value × Except Fault String)) : Except Fault (List String) :=
  es.mapM fun (k, text) => do
    let name ← k.memberName
    pure (jsonString name ++ ": " ++ (← text))

mutual

/-- The text of a value at a level, with the keys of maps sorted or as they stand. -/
def Value.jsonAt (sort : Bool) (level : Nat) : Value → Except Fault String
  | .null => .ok "null"
  | .boolean b => .ok (if b then "true" else "false")
  | .integer n => (writable n).map toString
  | .real r => .ok (jsonReal r)
  | .text s => .ok (jsonString s)
  | .bytes bs => .ok (jsonString (bytesShown bs))
  | .day d => .ok (jsonString d.text)
  | .moment m => .ok (jsonString m.text)
  | .set items => .ok (jsonString (Value.set items).shown)
  | .pair a b => do
    pure (jsonBlock "[" "]" level [← a.jsonAt sort (level + 1), ← b.jsonAt sort (level + 1)])
  | .list items => do
    pure (jsonBlock "[" "]" level (← (jsonItems sort (level + 1) items).mapM id))
  | .map entries => do
    let texts := jsonEntries sort (level + 1) entries
    let texts ← if sort then Keyed.sorted texts else pure texts
    pure (jsonBlock "\x7b" "\x7d" level (← jsonMembers texts))

def jsonItems (sort : Bool) (level : Nat) : List Value → List (Except Fault String)
  | [] => []
  | v :: vs => v.jsonAt sort level :: jsonItems sort level vs

def jsonEntries (sort : Bool) (level : Nat) : List (Value × Value) → List (Value × Except Fault String)
  | [] => []
  | (k, v) :: rest => (k, v.jsonAt sort level) :: jsonEntries sort level rest

end

def Value.json (v : Value) : Except Fault String := v.jsonAt false 0

def Value.sortedJson (v : Value) : Except Fault String := v.jsonAt true 0

end LayerLoops.Options
