import LayerLoops.Files
import LayerLoops.Log.Markup
import LayerLoops.Log.Record
import LayerLoops.Text.Uppercase

/-! # Logging

Messages go to the console and, if there is one, to a log file, each from a level on. The passes over a network
have a channel of their own: until it is routed to the log, their warnings and errors appear on the console as
they are, and everything below that is dropped. -/

namespace LayerLoops

/-- Where a sink writes to. -/
inductive Target
  | console
  | file (place : FilePlace)
  /-- The console of the program around, before a log is set up. -/
  | elsewhere
  deriving DecidableEq, Repr

/-- Where messages go, from which level on, and how their text is made. -/
structure Sink where
  target : Target
  threshold : Nat
  template : List Text.TemplatePart := [.field { name := "message".toList }]
  deriving DecidableEq, Repr

structure Log where
  sinks : List Sink := [{ target := .elsewhere, threshold := Level.info.number }]
  /-- The passes are routed to the sinks, with this in front of their messages. -/
  routed : Option String := none
  /-- The least level of the passes; unset, it is that of warnings. -/
  passLevel : Option Nat := none
  console : String := ""
  files : Files := {}

def fieldDepth : Nat := 2

namespace Log

def bracketed (tag : String) : String := "[" ++ tag ++ "] "

def isShallow : Nat → List Text.TemplatePart → Bool
  | 0, parts => parts.all fun
    | .text _ => true
    | .field _ => false
  | depth + 1, parts => parts.all fun
    | .text _ => true
    | .field f =>
      let layout := Text.Template.ofChars f.layout
      layout.fault.isNone && isShallow depth layout.parts

/-- Removes the colour tags from the texts of a template, inside the tags `stack`. -/
def uncoloured (stack : List (List Char)) :
    List Text.TemplatePart → Option (List Text.TemplatePart × List (List Char))
  | [] => some ([], stack)
  | .text cs :: rest => do
    let (text, stack) ← Markup.strip stack 0 cs
    let (parts, stack) ← uncoloured stack rest
    pure (.text text :: parts, stack)
  | .field f :: rest => (uncoloured stack rest).map fun (parts, stack) => (.field f :: parts, stack)

/-- The template for messages with a tag in front. The tag is itself a template, and may have colour tags. It
stands inside the tag for the colour of the level, which has to be open after it. -/
def template (tag : String) : Except Fault (List Text.TemplatePart) :=
  let front := if tag.isEmpty then "" else bracketed tag
  let t := Text.Template.ofText (front ++ "\x7bmessage\x7d")
  let levelTag := "level".toList
  if t.fault.isSome || !isShallow fieldDepth t.parts then .error .badMarkup
  else match uncoloured [levelTag] t.parts with
    | some (parts, stack) => if stack = [levelTag] then .ok parts else .error .badMarkup
    | none => .error .badMarkup

/-- Whether the time has what a name asks for after the word for it. The only part it has is the moment. -/
def timePart : List Char → Except Fault Unit
  | '.' :: rest =>
    match rest.takeWhile fun c => c != '.' && c != '[' with
    | [] => .error (.badTemplate .attributeMissing)
    | name => if name = "datetime".toList then .ok () else .error (.noTimePart (String.ofList name))
  | '[' :: ']' :: _ => .error (.badTemplate .attributeMissing)
  | '[' :: rest =>
    if Text.isTooLarge (Text.leadingDigits (rest.takeWhile (· != ']'))) then
      .error (.badTemplate .positionTooLarge)
    else .error .timeNotIndexed
  | _ => .ok ()

def isTimeLetter (c : Char) : Bool := "%[HhmsSYMDZzAXxEQd".toList.contains c

/-- The text of the time. All that hangs on the clock is left out. -/
def timeText (f : Text.TemplateField) (layout : List Char) : List Char :=
  if f.conversion.isSome || !f.split.2.isEmpty || layout.any isTimeLetter then []
  else if layout.drop (layout.length - 4) = "!UTC".toList then layout.take (layout.length - 4)
  else layout

/-- The text of a path that is a template, in which only the time has a value. Layouts may hold fields up to a
depth. -/
def pathText : Nat → Text.Template → Except Fault (List Char)
  | 0, _ => .error (.badTemplate .tooDeep)
  | depth + 1, t => do
    let texts ← t.parts.mapM fun
      | .text cs => .ok cs
      | .field f => do
        if let some fault := f.position? then throw (.badTemplate fault)
        let (first, rest) := f.split
        if first ≠ "time".toList then throw (.unknownWord (String.ofList first))
        timePart rest
        if let some c := f.conversion then
          if !([['s'], ['r'], ['a']].contains c) then
            throw (.badTemplate (.unknownConversion ((Text.codes c).headD 0)))
        let layout ← if f.layout.contains '\x7b' then pathText depth (Text.Template.ofChars f.layout)
          else pure f.layout
        pure (timeText f layout)
    match t.fault with
    | some fault => .error (.badTemplate fault)
    | none => .ok texts.flatten

def filePlace (path : String) : Except Fault FilePlace := do
  let cs ← pathText fieldDepth (Text.Template.ofText path)
  pure (placeOf (String.ofList cs))

def line (s : Sink) (r : Record) : Option String :=
  (r.fill fieldDepth s.template).map fun body =>
    " " ++ "".pushn ' ' (7 - r.name.length) ++ r.name ++ " " ++ body ++ "\n"

def say (l : Log) (text : String) : Log := { l with console := l.console ++ text }

def writeTo (l : Log) (t : Target) (text : String) : Log :=
  match t with
  | .console => l.say text
  | .file place => { l with files := l.files.appendAt place text }
  | .elsewhere => l

def write (l : Log) (r : Record) : Log :=
  l.sinks.foldl (fun l s =>
    if (s.threshold : Int) ≤ r.level then l.writeTo s.target ((line s r).getD "") else l) l

/-- A message of a named level. Without any sink the name does not matter. -/
def writeNamed (l : Log) (name message : String) : Log × Except Fault Unit :=
  if l.sinks.isEmpty then (l, .ok ())
  else match Level.ofName? name with
    | some level => (l.write ⟨level.number, name, message⟩, .ok ())
    | none => (l, .error (.unknownLevel name))

/-- Why no log file can be at a place: a directory is there, or a file where a directory has to be. -/
def obstacle? (fs : Files) (place : FilePlace) : Option PathFault :=
  let isFile (p : FilePlace) : Bool := match fs.find? p with
    | some (.file _) => true
    | _ => false
  if fs.find? place = some .directory then some .directory
  else if isFile place.dropLast then some .occupied
  else if (List.range place.length).any fun n => isFile (place.take n) then some .notDirectory
  else none

def cleared (fs : Files) (path : String) (append : Bool) : Except Fault Files := do
  let present ← fs.exists? path
  if present && !append then fs.remove path else pure fs

/-- Makes the directory of a log file, and an empty file unless there is one to be added to. -/
def openFile (fs : Files) (path : String) (append : Bool) : Files × Except Fault FilePlace :=
  match fs.makeDirectory (parentPath path) with
  | .error f => (fs, .error f)
  | .ok fs => match cleared fs path append with
    | .error f => (fs, .error f)
    | .ok fs => match filePlace path with
      | .error f => (fs, .error f)
      | .ok place =>
        match fs.locate path, obstacle? fs place with
        | .error .nullInPath, _ => (fs, .error .nullInPath)
        | .error (.unencodable u), _ => (fs, .error (.unencodable u))
        | _, some fault => (fs, .error (.badPath path fault))
        | _, none => (fs.appendAt place "", .ok place)

/-- Replaces the sinks. An unknown level or a tag that makes no sense leaves none; a log file that cannot be
used leaves the console. -/
def setup (l : Log) (level : String) (file : Option String) (append : Bool) (tag : String := "") :
    Log × Except Fault Unit :=
  let name := Text.upper level
  let l := { l with sinks := [] }
  match Level.ofName? name, template tag with
  | none, _ => (l, .error (.unknownLevel name))
  | some _, .error f => (l, .error f)
  | some level, .ok template =>
    let sink : Sink := { target := .console, threshold := level.number, template }
    let l := { l with sinks := [sink] }
    match file with
    | none => (l, .ok ())
    | some path =>
      let (files, opened) := openFile l.files (plainPath path) append
      let l := { l with files }
      match opened with
      | .error f => (l, .error f)
      | .ok place => ({ l with sinks := [sink, { sink with target := .file place }] }, .ok ())

def passLevels : List (String × Option Nat) :=
  [("CRITICAL", some 50), ("FATAL", some 50), ("ERROR", some 40), ("WARN", some 30), ("WARNING", some 30),
    ("INFO", some 20), ("DEBUG", some 10), ("NOTSET", none)]

/-- Routes the passes to the sinks from a level on. An unknown level changes nothing but the route. -/
def route (l : Log) (level : String) (tag : Option String := none) : Log × Except Fault Unit :=
  let l := { l with routed := some ((tag.map bracketed).getD "") }
  match passLevels.lookup (Text.upper level) with
  | none => (l, .error (.unknownThreshold (Text.upper level)))
  | some passLevel => ({ l with passLevel }, .ok ())

def passName (level : Int) : String :=
  match [Level.debug, .info, .warning, .error, .critical].find? fun l => (l.number : Int) == level with
  | some l => l.name
  | none => s!"Level {level}"

def hears (l : Log) (level : Int) : Bool := ((l.passLevel.getD Level.warning.number : Nat) : Int) ≤ level

def pass (l : Log) (level : Int) (message : String) : Log :=
  if !l.hears level then l
  else match l.routed with
    | some tag => l.write ⟨level, passName level, tag ++ message⟩
    | none => l.say (message ++ "\n")

/-- Tells an entry of a journal. An event is put into words only if it is told. -/
def entry (l : Log) : Entry → Except Fault Log
  | .error d => .ok (l.pass Level.error.number d.text)
  | .warning w => .ok (l.pass Level.warning.number w.text)
  | .event e =>
    if e.direct then .ok (l.write ⟨e.level.number, e.level.name, e.text⟩)
    else if l.hears e.level.number then do pure (l.pass e.level.number (← e.told))
    else .ok l

end Log
end LayerLoops
