import LayerLoops.Arguments
import LayerLoops.Compilation
import LayerLoops.Options.Load
import LayerLoops.Run

/-! # The command

The program has one command, which compiles a source under the options of a file and of the command line. A run
is a function from the arguments, the environment and the files to what is printed, logged and written, also where it
ends in a fault. -/

namespace LayerLoops

open Options (Value Entries)

namespace Command

def programName : String := "hlsforge"

def commandName : String := "compile"

def outputWords : List String := ["summary", "json", "code"]

def helpSpec : OptionSpec := { names := ["-h", "--help"], key := "help", domain := .flag, isLast := true }

def programSpecs : List OptionSpec := [helpSpec, { names := ["--version"], key := "version", domain := .flag, isLast := true }]

def generationSpecs : List OptionSpec :=
  let spec (key : String) (domain : Domain) : OptionSpec := { names := ["--" ++ key], key, domain }
  [spec "network-name" .text, spec "layer-data-location" .text,
    spec "data-type-mode" (.choice (DataMode.values.map DataMode.label)), spec "data-type-mode-detail" .text,
    spec "loop-orders" .text, spec "loop-hierarchy-labels" (.choice ["names", "numbers"]),
    spec "single-layer" .integer, spec "pooling-seed" .integer,
    spec "approximate-multipliers-configuration" .text, spec "approximate-multipliers-type" .text,
    spec "approximate-multipliers" .flag, spec "store-analysis-data" .flag, spec "disable-biases" .flag,
    spec "add-main-function" .flag, spec "fault-simulation" .flag, spec "dump-layers" .flag,
    spec "log-level" .text, spec "log-location" .text]

def commandSpecs : List OptionSpec :=
  let spec (names : List String) (key : String) (domain : Domain) : OptionSpec := { names, key, domain }
  [helpSpec, spec ["--options", "-c"] "options" .text, spec ["--text"] "text" .text,
    spec ["--output-dir", "-d"] "output-directory" .text, spec ["--output", "-o"] "output" (.choice outputWords),
    spec ["--validate-only", "-v"] "validate-only" .flag, spec ["--show-warnings", "-w"] "show-warnings" .flag] ++
    generationSpecs

/-- What arguments ask for. -/
inductive Request
  /-- A description of the program, and the exit code after it. -/
  | describe (exit : Nat)
  | compile (p : Parsed)

/-- Arguments that make no sense to a program of this name. -/
structure UsageError where
  program : String
  misusage : Misusage

def UsageError.text (e : UsageError) : String := e.program ++ ": error: " ++ e.misusage.text

/-- Reads the program's own options, the command, and the arguments of the command. Options that the program
does not know are left over. -/
def requestFrom (leftOver : List String) : List String → Except UsageError Request
  | [] => if leftOver.isEmpty then .ok (.describe 1) else .error ⟨programName, .leftOver leftOver⟩
  | "--" :: rest =>
    if rest.isEmpty then .error ⟨programName, .leftOver (leftOver ++ ["--"])⟩
    else .error ⟨programName, .badChoice ["<command>"] "--" [commandName]⟩
  | arg :: rest => do
    match ← (classify programSpecs arg).mapError (⟨programName, ·⟩) with
    | .unknown => requestFrom (leftOver ++ [arg]) rest
    | .option s name (some value) =>
      let taken := Parsed.takeRun programSpecs {} s (name.startsWith "--") value.toList
      discard (taken.mapError (⟨programName, ·⟩))
      pure (.describe 0)
    | .option _ _ none => pure (.describe 0)
    | .operand | .separator =>
      if arg ≠ commandName then throw ⟨programName, .badChoice ["<command>"] arg [commandName]⟩
      let p ← (parseArguments commandSpecs rest).mapError (⟨programName ++ " " ++ commandName, ·⟩)
      if (p.get "help").isSet then pure (.describe 0)
      else if !(leftOver ++ p.leftOver).isEmpty then
        throw ⟨programName, .leftOver (leftOver ++ p.leftOver)⟩
      else pure (.compile p)

/-- Reads the arguments of the program. The program looks at all of them for its own options first, also at
those that are meant for the command. -/
def request (args : List String) : Except UsageError Request := do
  discard ((classifyAll programSpecs args).mapError (⟨programName, ·⟩))
  requestFrom [] args

/-- The options that the command line sets. -/
def overrides (p : Parsed) : Entries :=
  let text : Value := match p.get "text" with
    | .text s => if s.isEmpty then .null else .text (s.map fun c => if c = '#' then '\n' else c)
    | _ => .null
  let file : Value := match p.operand with
    | some (some s) => .text s
    | _ => .null
  [(Value.text "keras-source-file", file), (.text "keras-source-text", text),
    (.text "output-directory", p.get "output-directory")] ++
    generationSpecs.map fun s => (Value.text s.key, p.get s.key)

/-- How a run ends. -/
structure Ending where
  exit : Nat
  printed : String := ""

/-- The document that a value holds: a text, or the lines that a collection gives. -/
def documentOf (name : String) : Value → Except Fault (Step Source.Document)
  | .text s => .ok (Source.Document.ofText (some name) s)
  | .bytes bs => lines (bs.map (.integer ∘ Int.ofNat))
  | .pair a b => lines [a, b]
  | .list items | .set items => lines items
  | .map entries => lines (entries.map (·.1))
  | v => .error (.notIterable v.typeName)
where
  lines (items : List Value) : Except Fault (Step Source.Document) := do
    let lines ← items.mapM fun
      | .text s => .ok s
      | v => .error (.notLine v.typeName)
    pure (Source.Document.ofLines (some name) lines)

/-- A compilation that is asked for: its settings, the name and the document of its source, and what was recorded
before it. -/
structure Job where
  config : Config
  name : String
  document : Step Source.Document
  prior : Journal

def Job.run (j : Job) (emit : Bool) : Except Fault Compilation :=
  compile j.config (some j.name) j.document emit j.prior

/-- The compilation that a source asks for under settings; `journal` is what was recorded while they were loaded. -/
def jobOf (fs : Files) (journal : Journal) (s : Options.Source) (c : Config) : Except Fault Job := do
  let (source, name) ← s.read fs
  let document ← documentOf name source
  pure { config := c, name, document, prior := journal.filter fun e => e matches .error _ | .warning _ }

def validate (p : Parsed) (j : Job) : Run Ending := do
  let r ← Run.ofExcept (j.run false)
  Run.tell (r.journal.drop j.prior.length)
  let heading := "Validating: " ++ j.name ++ "\n"
  if r.success then
    let warnings := if (p.get "show-warnings").isSet then r.warnings.map fun w => "  " ++ w.text ++ "\n" else []
    pure { exit := 0, printed := heading ++ "✓ Validation successful\n" ++ String.join warnings }
  else
    Run.say "✗ Validation failed\n"
    Run.say (String.join (r.journal.messages.map fun m => "  " ++ m ++ "\n"))
    pure { exit := 1, printed := heading }

def table (s : Options.Source) (r : Compilation) : Except Fault String :=
  match r.network with
  | some net => if s.dump then net.dump.map (· ++ "\n") else .ok ""
  | none => .ok ""

def result (p : Parsed) (r : Compilation) : Except Fault String :=
  match p.get "output", r.sources with
  | .text "json", _ => r.report.json.map (· ++ "\n")
  | .text "code", some sources => .ok (sources.main ++ "\n")
  | _, _ => r.summary

def printed (p : Parsed) (s : Options.Source) (r : Compilation) : Except Fault String := do
  let table ← table s r
  pure (table ++ (← result p r))

def build (p : Parsed) (s : Options.Source) (j : Job) : Run Ending := do
  Run.tell [.event (.compiling j.name)]
  let r ← Run.ofExcept (j.run true)
  Run.tell (r.journal.drop j.prior.length)
  let text ← Run.ofExcept (printed p s r)
  if !r.success then pure { exit := 1, printed := text }
  else
    let directory ← Run.ofExcept (Options.pathOf s.directory)
    let paths ← Run.change fun fs => r.writeFiles fs directory s.dump
    Run.tell (.event (.wrote paths.length (plainPath directory)) :: paths.map fun path => .event (.wroteFile path))
    pure { exit := 0, printed := text }

def optionalPath : Value → Except Fault (Option String)
  | .null => .ok none
  | v => (Options.pathOf v).map some

def refuse (what : String) (d : Diagnostic) : Run Ending := do
  Run.say (what ++ ": " ++ d.text ++ "\n")
  pure { exit := 1 }

/-- The path of the options file, if one is given. -/
def optionsPath (p : Parsed) : Option String :=
  match p.get "options" with
  | .text s => some s
  | _ => none

/-- The options of a run. -/
def loaded (p : Parsed) (fs : Files) (env : Options.Environment) : Step (Options.Source × Config) :=
  Options.loadConfig fs env (optionsPath p) (overrides p)

/-- The level that the log has until the options are loaded. -/
def startLevel (p : Parsed) : String := ((p.get "log-level").orElse (.text "info")).toText

/-- Sets up the log as the command line asks for it. The level is checked before the place of the log file is
looked at. -/
def start (p : Parsed) : Run Unit := do
  Run.setup (startLevel p) none false
  Run.setup (startLevel p) (← Run.ofExcept (optionalPath (p.get "log-location"))) false

/-- Sets up the log as the settings ask for it, and routes the passes to it. -/
def resume (s : Options.Source) : Run Unit := do
  Run.setup s.logLevel (← Run.ofExcept (optionalPath s.logFile)) true
  Run.route s.logLevel

def proceed (p : Parsed) (journal : Journal) (s : Options.Source) (c : Config) : Run Ending := do
  resume s
  if !s.isGiven then
    Run.say "No DSL source given: pass a file, --text or keras-source-file in --options\n"
    pure { exit := 1 }
  else match jobOf (← Run.files) journal s c with
    | .error (.reported d) => refuse "Cannot read source" d
    | .error f => Run.ofExcept (.error f)
    | .ok j => if (p.get "validate-only").isSet then validate p j else build p s j

/-- Tells how loading the options went, and compiles under them unless they are refused. -/
def withOptions (p : Parsed) (x : Step (Options.Source × Config)) : Run Ending := do
  Run.tell x.journal
  match x.outcome with
  | .error (.reported d) => refuse "Invalid options" d
  | .error f => Run.ofExcept (.error f)
  | .ok (s, c) => proceed p x.journal s c

def compiling (p : Parsed) (env : Options.Environment) : Run Ending := do
  start p
  withOptions p (loaded p (← Run.files) env)

/-- Runs the program from the log of a run that has just begun. -/
def main (args : List String) (env : Options.Environment) : Run Ending :=
  match request args with
  | .error e => do
    Run.say (e.text ++ "\n")
    pure { exit := 2 }
  | .ok (.describe exit) => pure { exit }
  | .ok (.compile p) => compiling p env

/-- The result of a run that ends without a fault. -/
structure Outcome where
  exit : Nat
  printed : String := ""
  log : Log

def run (args : List String) (fs : Files) (env : Options.Environment) : Except Fault Outcome :=
  let (log, result) := main args env { files := fs }
  result.map fun e => { exit := e.exit, printed := e.printed, log }

end Command
end LayerLoops
