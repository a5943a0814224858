import LayerLoops.Files
import LayerLoops.Journal
import LayerLoops.Options.Json
import LayerLoops.Options.Settings
import LayerLoops.Options.Yaml.Meaning

/-! # Loading options

Options come from a file and from overrides, which win. References to environment variables are replaced in
the values of the file; a reference to a variable that is not set stays as it is. -/

namespace LayerLoops.Options

abbrev Environment := List (String × String)

/-- The name in a reference that starts after a dollar sign, and how many characters the reference has from
there on. -/
def reference? : List Char → Option (List Char × Nat)
  | '\x7b' :: rest =>
    let name := rest.takeWhile (· != '\x7d')
    if name.isEmpty || name.length = rest.length then none else some (name, name.length + 2)
  | _ => none

/-- Replaces references from the left; `skip` characters belong to the reference replaced last. The second
result is the names of variables that are not set. -/
def expandFrom (env : Environment) (skip : Nat) : List Char → List Char × List String
  | [] => ([], [])
  | c :: cs =>
    match skip with
    | skip + 1 => expandFrom env skip cs
    | 0 =>
      match if c = '$' then reference? cs else none with
      | some (name, n) =>
        let (rest, missing) := expandFrom env n cs
        match env.lookup (String.ofList name) with
        | some value => (value.toList ++ rest, missing)
        | none => (c :: cs.take n ++ rest, String.ofList name :: missing)
      | none =>
        let (rest, missing) := expandFrom env 0 cs
        (c :: rest, missing)

/-- Replaces the references in a text. A name that cannot be encoded is no name of a variable. -/
def expandText (env : Environment) (s : String) : Step String := do
  let (cs, missing) := expandFrom env 0 s.toList
  discard (missing.mapM fun name => match Text.Utf8.unencodablePath? name with
    | some u => Step.ofExcept (.error (.unencodable u))
    | none => Step.tell (.variableMissing name))
  pure (String.ofList cs)

mutual

/-- Replaces references in all texts of a value; the keys of maps stay as they are. -/
def expand (env : Environment) : Value → Step Value
  | .text s => do pure (.text (← expandText env s))
  | .list items => do pure (.list (← expandItems env items))
  | .map entries => do pure (.map (← expandEntries env entries))
  | v => pure v

def expandItems (env : Environment) : List Value → Step (List Value)
  | [] => pure []
  | v :: vs => do
    let first ← expand env v
    pure (first :: (← expandItems env vs))

def expandEntries (env : Environment) : List (Value × Value) → Step (List (Value × Value))
  | [] => pure []
  | (k, v) :: rest => do
    let value ← expand env v
    pure ((k, value) :: (← expandEntries env rest))

end

def pieceSize : Nat := 8192

def inPieces (fs : Files) (path : String) (f : Fault) : Fault :=
  match f, fs.read path with
  | .undecodable u, .ok (.bytes bs) => .undecodable (u.inPieces pieceSize bs)
  | f, _ => f

/-- The entries of an options file. A file without a value has no entries. -/
def readFile (fs : Files) (path : String) : Except Fault Entries := do
  let refused (reason : String) : Fault := .reported (optionError reason)
  let text ← match fs.readText path with
    | .ok s => pure s
    | .error (.badPath q f) =>
      throw (refused ("cannot read options file '" ++ path ++ "': " ++ (Fault.badPath q f).message))
    | .error f => throw (inPieces fs path f)
  match Yaml.read text.toList with
  | .ok .empty => pure []
  | .ok (.entries es) => pure es
  | .ok .other => throw (refused ("options file '" ++ path ++ "' must contain a mapping"))
  | .error .illFormed => throw (refused ("options file '" ++ path ++ "' is not valid YAML/JSON"))
  | .error (.fault f) => throw f

/-- Sets the overrides that have a value. -/
def merge (base overrides : Entries) : Entries :=
  overrides.foldl (fun es (k, v) => match v with
    | .null => es
    | v => es.insert k v) base

/-- The entries of an options file, if a path is given. -/
def fileEntries (fs : Files) : Option String → Except Fault Entries
  | none | some "" => .ok []
  | some path => readFile fs path

/-- The entries that have a value. -/
def given (es : Entries) : Entries :=
  es.filter fun (_, v) => match v with
    | .null => false
    | _ => true

/-- The options of a file, if a path is given, with overrides. -/
def load (fs : Files) (env : Environment) (path : Option String) (overrides : Entries) :
    Step Entries := do
  let base ← Step.ofExcept (fileEntries fs path)
  let base ← expandEntries env base
  let merged := merge base overrides
  Step.tell (.optionsRead (← Step.ofExcept (Value.map (given merged)).sortedJson))
  pure merged

/-- The source and the settings that options give. -/
def settle (o : Entries) : Step (Source × Config) := do
  let s ← Step.ofDiagnostic (source o)
  let c ← config o
  pure (s, c)

/-- The source and the settings that a file and overrides give. -/
def loadConfig (fs : Files) (env : Environment) (path : Option String) (overrides : Entries) :
    Step (Source × Config) := do
  settle (← load fs env path overrides)

def pathOf : Value → Except Fault String
  | .text s => .ok s
  | .bytes _ => .error .bytesPath
  | v => .error (.notPath v.shortTypeName)

def Source.read (s : Source) (fs : Files) : Except Fault (Value × String) := do
  if s.text.isSet then pure (s.text, inlineName)
  else if !s.file.isSet then
    throw (.reported (optionError "no DSL source given" (some "Set keras-source-file or keras-source-text")))
  else
    let path ← pathOf s.file
    match fs.readText (plainPath path) with
    | .ok text => pure (.text text, path)
    | .error f =>
      if f.isUnreadable then
        throw (.reported {
          stage := .source, code := .unreadable
          message := "cannot read '" ++ path ++ "': " ++ f.message })
      else throw f

end LayerLoops.Options
