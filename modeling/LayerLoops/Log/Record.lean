import LayerLoops.Journal
import LayerLoops.Text.Layout
import LayerLoops.Text.Template

/-! # Records of a log

A record is a message with the name and the number of its level. A template gives its text: the fields of the
template take their values from the record, and a layout after a colon aligns them. -/

namespace LayerLoops

structure Record where
  level : Int
  name : String
  message : String
  deriving DecidableEq, Repr

/-- The value of a field. -/
inductive FieldValue
  | text (s : String)
  | number (n : Int)
  /-- A value that is shown as it is, or under the name it has for layouts. -/
  | named (shown name : String)
  /-- A value that takes no layout. -/
  | fixed (s : String)
  deriving DecidableEq, Repr

namespace FieldValue

def shown : FieldValue → String
  | text s => Text.quoted s
  | number n => toString n
  | named s _ => s
  | fixed s => s

def plain : FieldValue → String
  | text s => s
  | v => v.shown

def converted (v : FieldValue) : Option (List Char) → Option FieldValue
  | none => some v
  | some ['s'] => some (text v.plain)
  | some ['r'] => some (text v.shown)
  | some ['a'] => some (text (Text.asciiOnly v.shown))
  | some _ => none

def at? (v : FieldValue) (index : List Char) : Option FieldValue :=
  match v, index.mapM Text.digitValue? with
  | text s, some ds =>
    ((Text.codes s.toList)[ds.foldl (fun n d => 10 * n + d) 0]?).map fun n => text (String.ofList (Text.ofCode n))
  | _, _ => none

def laidOut (v : FieldValue) (layout : List Char) : Option String :=
  match v with
  | text s | named _ s => (Text.Layout.ofChars? layout).bind (·.text? s)
  | number n => (Text.Layout.ofChars? layout).bind (·.number? n)
  | fixed s => if layout.isEmpty then some s else none

end FieldValue

namespace Record

def icon (r : Record) : String :=
  match Level.ofName? r.name with
  | some l => l.icon
  | none => " "

def plainValue? (r : Record) (name : List Char) : Option FieldValue :=
  match String.ofList name with
  | "message" => some (.text r.message)
  | "level" =>
    let shown := "(name=" ++ Text.quoted r.name ++ s!", no={r.level}, icon=" ++ Text.quoted r.icon ++ ")"
    some (.named shown r.name)
  | "level.name" => some (.text r.name)
  | "level.no" => some (.number r.level)
  | "level.icon" => some (.text r.icon)
  | "exception" => some (.text "")
  | "extra" => some (.fixed "\x7b\x7d")
  | _ => none

def value? (r : Record) (name : List Char) : Option FieldValue :=
  let first := name.takeWhile (· != '[')
  match name.drop first.length with
  | [] => r.plainValue? name
  | _ :: index =>
    if index.getLast? = some ']' ∧ index.length > 1 then (r.plainValue? first).bind (·.at? index.dropLast) else none

/-- The text that a template gives for a record, if it gives one. Layouts may hold fields up to a depth. -/
def fill (r : Record) : Nat → List Text.TemplatePart → Option String
  | _, [] => some ""
  | depth, .text cs :: rest => (r.fill depth rest).map (String.ofList cs ++ ·)
  | 0, .field _ :: _ => none
  | depth + 1, .field f :: rest => do
    let v ← (← r.value? f.name).converted f.conversion
    let layout := Text.Template.ofChars f.layout
    if layout.fault.isSome then none
    else
      let laid ← v.laidOut (← r.fill depth layout.parts).toList
      pure (laid ++ (← r.fill (depth + 1) rest))

end Record
end LayerLoops
