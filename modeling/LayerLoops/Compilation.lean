import LayerLoops.Declaration
import LayerLoops.Emission.DataTypes
import LayerLoops.Emission.Forward
import LayerLoops.Emission.ParamList
import LayerLoops.Files
import LayerLoops.Inference
import LayerLoops.Options.Json
import LayerLoops.Source.Document

/-! # Compilation

Statements become a network, the network is completed and checked, and code is generated for it unless an
error was recorded. What was reached before an error stays in the result. -/

namespace LayerLoops

/-- The texts of the generated files. -/
structure Sources where
  main : String
  dataTypes : String
  paramList : String
  deriving DecidableEq, Repr

def Sources.files (s : Sources) : List (String × String) :=
  [("main.cpp", s.main), ("data-types.h", s.dataTypes), ("param-list.h", s.paramList)]

def dumpName : String := "DumpLayers.txt"

structure Compilation where
  file : Option String := none
  config : Config
  network : Option Network := none
  /-- One order for each layer, once they are known. -/
  orders : List LoopOrder := []
  profile : String := ""
  sources : Option Sources := none
  journal : Journal := []

namespace Compilation

def errors (r : Compilation) : List Diagnostic := r.journal.errors

def warnings (r : Compilation) : List Warning := r.journal.warnings

def success (r : Compilation) : Bool := r.errors.isEmpty

def write (r : Compilation) (j : Journal) : Compilation := { r with journal := r.journal ++ j }

def tell (r : Compilation) (e : Event) : Compilation := r.write [.event e]

def absorb {α : Type} (r : Compilation) (s : Step α) (next : Compilation → α → Except Fault Compilation) :
    Except Fault Compilation :=
  match s.outcome with
  | .ok a => next (r.write s.journal) a
  | .error (.reported d) => .ok (r.write (s.journal ++ [.event (.failed d), .error d]))
  | .error f => .error f

def generate (net : Network) (c : Config) (orders : List LoopOrder) (profile : String) : Step Sources := do
  let p ← Step.ofExcept (net.program c orders profile)
  Step.tell (.generated p.layerCount)
  let params ← Step.ofExcept (ParamList.text net c)
  pure ⟨p.text, DataTypes.text net c profile, params⟩

def profiled (r : Compilation) : Compilation :=
  if r.profile = Profile.vggScaled then
    { r.tell .profiled with config := { r.config with biases := false, dataMode := .fixedSingle } }
  else r

def orderChecked (r : Compilation) : Compilation :=
  if r.config.capture ∧ !r.orders.all LoopOrder.isCanonical then
    let w : Warning := {
      code := .optionDisabled, message := "store-analysis-data will be ignored since loop orders are customized" }
    { r.write [.warning w] with config := { r.config with capture := false } }
  else r

/-- Validates a completed network and, if nothing speaks against it, generates code. -/
def finish (r : Compilation) (net : Network) (emit : Bool) : Except Fault Compilation :=
  r.absorb (net.validate r.config (some r.orders)) fun r _ =>
    if !r.success then .ok (r.tell (.refused r.errors.length))
    else if !emit then .ok r
    else (r.tell .generating).absorb (generate net r.config r.orders r.profile) fun r s =>
      .ok { r with sources := some s }

def complete (r : Compilation) (net : Network) (emit : Bool) : Except Fault Compilation :=
  let r := { r with network := some net }.tell (.declared net.size)
  let (net, step) := net.infer
  { r with network := some net }.absorb step fun r inferred =>
    if !inferred then .ok r
    else r.absorb (net.profile r.config.networkName) fun r profile =>
      let r := { r with profile }.profiled
      r.absorb (LoopOrder.normalizeAll net r.config.loopOrders) fun r orders =>
        { r with orders }.orderChecked.finish net emit

def ofDocument (r : Compilation) (doc : Step Source.Document) (emit : Bool) : Except Fault Compilation :=
  (r.tell (.parsing r.file)).absorb doc fun r doc =>
    r.absorb (Network.ofStatements doc.statements) fun r net => r.complete net emit

def readDocument (fs : Files) (path : String) : Step Source.Document :=
  let path := plainPath path
  match fs.readText path with
  | .ok text => Source.Document.ofText (some path) text
  | .error f =>
    if f.isUnreadable then Step.fail (.reported {
      stage := .source, code := .unreadable
      message := "cannot read source file '" ++ path ++ "': " ++ f.message
      hint := "Check the keras-source-file option" })
    else Step.fail f

def whenWritten {α : Type} (w : Files × Except Fault Unit) (next : Files → Files × Except Fault α) :
    Files × Except Fault α :=
  match w with
  | (fs, .ok _) => next fs
  | (fs, .error f) => (fs, .error f)

def writeAll (fs : Files) (directory : String) :
    List (String × Except Fault String) → Files × Except Fault (List String)
  | [] => (fs, .ok [])
  | (_, .error f) :: _ => (fs, .error f)
  | (name, .ok text) :: rest =>
    let path := joinPath directory name
    whenWritten (fs.writeText path text) fun fs => (writeAll fs directory rest).map id (Except.map (path :: ·))

def outputs (r : Compilation) (s : Sources) (dump : Bool) : List (String × Except Fault String) :=
  s.files.map (fun (name, text) => (name, Except.ok text)) ++ match r.network with
    | some net => if dump then [(dumpName, net.dump)] else []
    | none => []

/-- Writes the generated files, and the table of layers if it is asked for; the result is their paths. -/
def writeFiles (r : Compilation) (fs : Files) (directory : String) (dump : Bool) :
    Files × Except Fault (List String) :=
  match r.sources with
  | none => (fs, .error .nothingToWrite)
  | some s => match fs.makeDirectory (plainPath directory) with
    | .error f => (fs, .error f)
    | .ok fs => writeAll fs directory (r.outputs s dump)

open Options (Value)

def optionalText : Option String → Value
  | some s => .text s
  | none => .null

def record (members : List (String × Value)) : Value := .map (members.map fun (k, v) => (.text k, v))

def volumeValue : Option Volume → Value
  | some v => .list [.integer v.x, .integer v.y, .integer v.z]
  | none => .null

def errorValue (d : Diagnostic) : Value :=
  record [("code", .text d.code.label), ("severity", .text "error"), ("message", .text d.message),
    ("location", optionalText (d.location.map Location.text)), ("hint", optionalText d.hint)]

def warningValue (w : Warning) : Value :=
  record [("code", .text w.code.label), ("severity", .text "warning"), ("message", .text w.message),
    ("location", optionalText (w.location.map Location.text))]

def layerValue (l : Layer) (number : Nat) (order : Option LoopOrder) : Value :=
  record [("index", .integer number), ("kind", .text l.kind.label), ("input", volumeValue l.input),
    ("output", volumeValue l.output), ("loop_order", optionalText (order.map LoopOrder.text))]

def orderedLayers (r : Compilation) : List ((Layer × Nat) × Option LoopOrder) :=
  match r.network with
  | none => []
  | some net =>
    if r.orders.isEmpty then net.numbered.map (·, none) else net.numbered.zip (r.orders.map some)

def report (r : Compilation) : Value :=
  record [("success", .boolean r.success), ("source_file", optionalText r.file),
    ("network_guess", .text r.profile),
    ("layers", .list (r.orderedLayers.map fun ((l, n), o) => layerValue l n o)),
    ("errors", .list (r.errors.map errorValue)), ("warnings", .list (r.warnings.map warningValue))]

def volumeNote : Option Volume → Except Fault String
  | some v => v.writable.map Volume.text
  | none => .ok "None"

def layerLine (l : Layer) (number : Nat) (o : LoopOrder) : Except Fault String := do
  let _ ← writableDim (if l.kind = .conv then l.stride else none)
  let input ← volumeNote l.input
  let output ← volumeNote l.output
  pure (s!"    {number}: " ++ l.describe ++ " " ++ input ++ " -> " ++ output ++ " [" ++ o.text ++ "]")

def layerLines (r : Compilation) : Except Fault (List String) :=
  match r.network with
  | none => .ok []
  | some net => do
    let counts := ", ".intercalate (net.kindCounts.map fun (k, n) => s!"{n} {k.label}")
    let lines ← (net.numbered.zip r.orders).mapM fun ((l, n), o) => layerLine l n o
    pure (s!"  Layers: {net.size} ({counts})" :: lines)

def summaryLines (r : Compilation) : Except Fault (List String) := do
  let layers ← r.layerLines
  let listed (title : String) (texts : List String) : List String :=
    if texts.isEmpty then [] else s!"  {title}: {texts.length}" :: texts.map ("    " ++ ·)
  pure ([if r.success then "Compilation succeeded" else "Compilation failed"] ++ layers ++
    (if r.profile = "" then [] else ["  Network: " ++ r.profile]) ++
    listed "Warnings" (r.warnings.map Warning.text) ++ listed "Errors" (r.errors.map Diagnostic.text))

def summary (r : Compilation) : Except Fault String := do
  pure (String.join ((← r.summaryLines).map (· ++ "\n")))

end Compilation

/-- Compiles a document under settings; `prior` is what was recorded before. -/
def compile (c : Config) (file : Option String) (doc : Step Source.Document) (emit : Bool)
    (prior : Journal := []) : Except Fault Compilation :=
  Compilation.ofDocument { file, config := c, journal := prior } doc emit

end LayerLoops
