import LayerLoops.Fault

/-! # The journal of a run

Every step of a run appends to a journal: the errors and warnings it finds and the progress it makes. A step
is a computation that writes to the journal and may end in a fault; what was written before a fault stays. -/

namespace LayerLoops

/-- Progress worth telling. -/
inductive Event
  /-- An options file refers to an environment variable that is not set. -/
  | variableMissing (name : String)
  /-- The options after merging, as JSON text. -/
  | optionsRead (json : String)
  | compiling (name : String)
  | parsing (file : Option String)
  | parsed (statements skipped : Nat)
  | built (layers : Nat)
  | declared (layers : Nat)
  | inferred (number : Nat) (kind : Kind) (input output : Option Volume)
  | guessed (layers : Nat) (guess : String)
  | profiled
  | ordered (orders : List String)
  | validated (passed : Bool) (layers : Nat)
  | maskTrimmed (entries : Nat)
  | refused (errors : Nat)
  | failed (d : Diagnostic)
  | generating
  | generated (layers : Nat)
  | wrote (count : Nat) (directory : String)
  | wroteFile (path : String)
  deriving Repr

/-- The severity of a message. -/
inductive Level
  | trace | debug | info | success | warning | error | critical
  deriving DecidableEq, Repr

namespace Level

def number : Level → Nat
  | trace => 5
  | debug => 10
  | info => 20
  | success => 25
  | warning => 30
  | error => 40
  | critical => 50

def name : Level → String
  | trace => "TRACE"
  | debug => "DEBUG"
  | info => "INFO"
  | success => "SUCCESS"
  | warning => "WARNING"
  | error => "ERROR"
  | critical => "CRITICAL"

def icon : Level → String
  | trace => "\u270F\uFE0F"
  | debug => "🐞"
  | info => "\u2139\uFE0F"
  | success => "\u2705"
  | warning => "\u26A0\uFE0F"
  | error => "\u274C"
  | critical => "\u2620\uFE0F"

def all : List Level := [trace, debug, info, success, warning, error, critical]

def ofName? (s : String) : Option Level := all.find? (·.name == s)

theorem ofName?_name (l : Level) : ofName? l.name = some l := by cases l <;> decide

end Level

def volumeText : Option Volume → String
  | some v => v.text
  | none => "None"

namespace Event

def text : Event → String
  | variableMissing name => "Environment variable not found: " ++ name
  | optionsRead json => "options:\n" ++ json
  | compiling name => "Compiling: " ++ name
  | parsing none | parsing (some "") => "Parsing source"
  | parsing (some file) => "Parsing source from " ++ file
  | parsed statements skipped => s!"parsed {statements} statement(s), skipped {skipped} line(s)"
  | built layers => s!"built network with {layers} layer(s)"
  | declared layers => s!"Declared {layers} layer(s)"
  | inferred number kind input output =>
    s!"layer {number} {kind.label}: " ++ volumeText input ++ " -> " ++ volumeText output
  | guessed layers guess => s!"network guess for {layers} layer(s): '" ++ guess ++ "'"
  | profiled => "Network profile vgg-scalehls: biases disabled, fixed-point-single data types"
  | ordered orders => "loop orders: " ++ ", ".intercalate orders
  | validated passed layers =>
    "validation " ++ (if passed then "passed" else "failed") ++ s!" for {layers} layer(s)"
  | maskTrimmed entries => s!"ignoring {entries} extra multiplier mask entries"
  | refused errors => s!"Generation refused: {errors} error(s)"
  | failed d => "Compilation error: " ++ d.text
  | generating => "Generating forward pass"
  | generated layers => s!"generated forward() for {layers} layer(s)"
  | wrote count directory => s!"Wrote {count} file(s) to " ++ directory
  | wroteFile path => "  " ++ path

def level : Event → Level
  | variableMissing _ => .warning
  | refused _ | failed _ => .error
  | optionsRead _ | parsed .. | built _ | inferred .. | guessed .. | ordered _ | validated .. | maskTrimmed _
    | generated _ => .debug
  | compiling _ | parsing _ | declared _ | profiled | generating | wrote .. | wroteFile _ => .info

def told : Event → Except Fault String
  | inferred number kind input output =>
    if (input.toList ++ output.toList).all (decide ·.Fits) then .ok (inferred number kind input output).text
    else .error .numeralTooLong
  | e => .ok e.text

/-- The event is told by the program itself, and not by one of the passes over a network. -/
def direct : Event → Bool
  | parsed .. | built _ | inferred .. | guessed .. | ordered _ | validated .. | maskTrimmed _ | generated _ => false
  | _ => true

end Event

inductive Entry
  | error (d : Diagnostic)
  | warning (w : Warning)
  | event (e : Event)
  deriving Repr

abbrev Journal := List Entry

namespace Journal

def errors (j : Journal) : List Diagnostic :=
  j.filterMap fun | .error d => some d | _ => none

def warnings (j : Journal) : List Warning :=
  j.filterMap fun | .warning w => some w | _ => none

def messages (j : Journal) : List String :=
  (errors j).map Diagnostic.text ++ (warnings j).map Warning.text

theorem errors_append (i j : Journal) : errors (i ++ j) = errors i ++ errors j :=
  List.filterMap_append

theorem warnings_append (i j : Journal) : warnings (i ++ j) = warnings i ++ warnings j :=
  List.filterMap_append

end Journal

structure Step (α : Type) where
  journal : Journal
  outcome : Except Fault α

namespace Step

def ok {α : Type} (a : α) : Step α := ⟨[], .ok a⟩

def andThen {α β : Type} (s : Step α) (f : α → Step β) : Step β :=
  match s.outcome with
  | .ok a =>
    let next := f a
    ⟨s.journal ++ next.journal, next.outcome⟩
  | .error e => ⟨s.journal, .error e⟩

instance : Monad Step where
  pure := ok
  bind := andThen

def write (e : Entry) : Step Unit := ⟨[e], .ok ()⟩

def record (d : Diagnostic) : Step Unit := write (.error d)

def warn (w : Warning) : Step Unit := write (.warning w)

def tell (e : Event) : Step Unit := write (.event e)

def fail {α : Type} (f : Fault) : Step α := ⟨[], .error f⟩

def ofExcept {α : Type} (x : Except Fault α) : Step α := ⟨[], x⟩

def ofDiagnostic {α : Type} (x : Except Diagnostic α) : Step α := ⟨[], x.mapError .reported⟩

/-- Records the diagnostic that ends a check, and lets every other fault through. -/
def recover (x : Step Unit) : Step Unit :=
  match x.outcome with
  | .error (.reported d) => ⟨x.journal ++ [.error d], .ok ()⟩
  | _ => x

end Step
end LayerLoops
