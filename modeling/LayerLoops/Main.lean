import LayerLoops.Command

/-! # The program

Reads the files that a run needs, runs the command on them, prints what it printed and writes the files that
it changed. -/

namespace LayerLoops

def probeOne (fs : Files) (path : String) : IO Files := do
  match ← (IO.FS.readBinFile (Text.toPlain path)).toBaseIO with
  | .ok bytes => pure (fs.put (placeOf path) (.file (.bytes (bytes.toList.map UInt8.toNat))))
  | .error (.inappropriateType ..) => pure (fs.put (placeOf path) .directory)
  | .error _ => pure fs

def probe (fs : Files) (path : String) : IO Files :=
  let names := pathNames path
  (List.range names.length).foldlM (fun fs n =>
    probeOne fs (pathRoot path ++ "/".intercalate (names.take (n + 1)))) fs

def environmentFor (text : String) : IO Options.Environment := do
  let names := (Options.expandFrom [] 0 text.toList).2
  let found ← names.mapM fun name => do
    pure ((← IO.getEnv (Text.toPlain name)).map fun value => (name, Text.ofPlain value))
  pure (found.filterMap id)

def pathIn (v : Options.Value) : List String :=
  match v with
  | .text s => if s.isEmpty then [] else [s]
  | _ => []

def gather (p : Parsed) : IO (Files × Options.Environment) := do
  let options := pathIn (p.get "options")
  let fs ← options.foldlM probe {}
  let env ← match options with
    | [path] => environmentFor ((fs.readText path).toOption.getD "")
    | _ => pure []
  let fs ← (pathIn (p.get "log-location")).foldlM probe fs
  match (Options.loadConfig fs env options.head? (Command.overrides p)).outcome with
  | .ok (s, _) =>
    let fs ← (pathIn s.file ++ pathIn s.directory ++ pathIn s.logFile).foldlM probe fs
    pure (fs, env)
  | .error _ => pure (fs, env)

def commit (before after : Files) : IO Unit :=
  for (place, entry) in after.entries do
    if before.entries.lookup place ≠ some entry then
      let path := match place with
        | "/" :: names => "/" ++ "/".intercalate names
        | names => "/".intercalate names
      let path := Text.toPlain path
      match entry with
      | .directory => IO.FS.createDirAll path
      | .file (.text s) => IO.FS.writeFile path (Text.toPlain s)
      | .file (.bytes bs) => IO.FS.writeBinFile path ⟨(bs.map Nat.toUInt8).toArray⟩

end LayerLoops

open LayerLoops in
def main (args : List String) : IO UInt32 := do
  let args := args.map Text.ofPlain
  let (fs, env) ← match Command.request args with
    | .ok (.compile p) => gather p
    | _ => pure ({}, [])
  let (log, result) := Command.main args env { files := fs }
  commit fs log.files
  match result with
  | .error f =>
    IO.eprint (Text.toPlain log.console)
    IO.eprintln (Text.toPlain f.message)
    pure 1
  | .ok ending =>
    IO.print (Text.toPlain ending.printed)
    IO.eprint (Text.toPlain log.console)
    pure ending.exit.toUInt32
