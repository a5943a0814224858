import LayerLoops.Fault
import LayerLoops.Text.Lines

/-! # A tree of files

Files as a value: what a directory holds, and how reading and writing there succeeds or fails. A path is
followed name by name, and every place on the way has to be a directory. Reading a text turns every kind of
line break into a line feed. -/

namespace LayerLoops

inductive Content
  | text (s : String)
  | bytes (bs : List Nat)
  deriving DecidableEq, Repr

inductive FileEntry
  | file (c : Content)
  | directory
  deriving DecidableEq, Repr

/-- The names on the way to a place below the directory. -/
abbrev FilePlace := List String

def slashed : List Char → List (List Char)
  | [] => [[]]
  | '/' :: cs => [] :: slashed cs
  | c :: cs => match slashed cs with
    | first :: rest => (c :: first) :: rest
    | [] => [[c]]

/-- The names in a path; empty ones and single dots do not count. -/
def pathNames (path : String) : List String :=
  ((slashed path.toList).map String.ofList).filter fun s => s ≠ "" ∧ s ≠ "."

def pathRoot (path : String) : String :=
  if path.startsWith "//" ∧ ¬ path.startsWith "///" then "//" else if path.startsWith "/" then "/" else ""

/-- A path without what does not count; the empty path is a single dot. -/
def plainPath (path : String) : String :=
  let text := pathRoot path ++ "/".intercalate (pathNames path)
  if text.isEmpty then "." else text

def joinPath (directory name : String) : String :=
  let d := plainPath directory
  if d = "." then name else if d.endsWith '/' then d ++ name else d ++ "/" ++ name

def parentPath (path : String) : String :=
  let p := plainPath path
  let root := if p.startsWith "/" then "/" else ""
  plainPath (root ++ "/".intercalate (pathNames p).dropLast)

/-- The place above a place. Above the directory itself nothing is known but that there are directories. -/
def placeAbove (p : FilePlace) : FilePlace :=
  if p = ["/"] then p else if p.all (· == "..") then p ++ [".."] else p.dropLast

/-- The place of a path, with every double dot carried out on the names alone. A path from the root starts with
the root. -/
def placeOf (path : String) : FilePlace :=
  let start : FilePlace := if path.startsWith "/" then ["/"] else []
  (pathNames path).foldl (fun p name => if name = ".." then placeAbove p else p ++ [name]) start

def nameLimit : Nat := 255

def pathLimit : Nat := 4095

structure Files where
  entries : List (FilePlace × FileEntry) := []
  deriving DecidableEq, Repr

namespace Files

/-- What is at a place. Every place on the way to an entry is a directory. -/
def find? (fs : Files) (p : FilePlace) : Option FileEntry :=
  if p = ["/"] ∨ p.all (· == "..") then some .directory
  else match fs.entries.lookup p with
    | some e => some e
    | none => if fs.entries.any fun (q, _) => p.isPrefixOf q then some .directory else none

def step (fs : Files) (p : FilePlace) (name : String) : Except PathFault FilePlace :=
  match fs.find? p with
  | none => .error .missing
  | some (.file _) => .error .notDirectory
  | some .directory =>
    if name = "" ∨ name = "." then .ok p
    else if name = ".." then .ok (placeAbove p)
    else if (Text.Utf8.encode name).length > nameLimit then .error .tooLong
    else .ok (p ++ [name])

/-- The place that names lead to from a place. It need not be there itself. -/
def walk (fs : Files) (p : FilePlace) (names : List String) : Except PathFault FilePlace :=
  names.foldlM fs.step p

def locate (fs : Files) (path : String) : Except Fault FilePlace :=
  match Text.Utf8.unencodablePath? path with
  | some u => .error (.unencodable u)
  | none =>
    if path.toList.contains (Char.ofNat 0) then .error .nullInPath
    else if path.isEmpty then .error (.badPath path .missing)
    else if (Text.Utf8.encode path).length > pathLimit then .error (.badPath path .tooLong)
    else
      let start : FilePlace := if path.startsWith "/" then ["/"] else []
      (fs.walk start ((slashed path.toList).map String.ofList)).mapError (.badPath path)

def resolve (fs : Files) (path : String) : Except Fault FileEntry := do
  match fs.find? (← fs.locate path) with
  | some e => .ok e
  | none => .error (.badPath path .missing)

def read (fs : Files) (path : String) : Except Fault Content := do
  match ← fs.resolve path with
  | .file c => .ok c
  | .directory => .error (.badPath path .directory)

def decoded : Content → Except Text.Utf8.Fault String
  | .text s => .ok s
  | .bytes bs => Text.Utf8.decode bs

def readText (fs : Files) (path : String) : Except Fault String := do
  match decoded (← fs.read path) with
  | .error f => .error (.undecodable f)
  | .ok s => .ok (String.ofList (Text.unifyBreaks s.toList))

def put (fs : Files) (p : FilePlace) (e : FileEntry) : Files :=
  if fs.entries.any (·.1 == p) then
    ⟨fs.entries.map fun (q, old) => if q = p then (q, e) else (q, old)⟩
  else ⟨fs.entries ++ [(p, e)]⟩

/-- Replaces the text of a file, or makes the file. A text that cannot be encoded leaves an empty file. -/
def writeText (fs : Files) (path text : String) : Files × Except Fault Unit :=
  match fs.locate path with
  | .error f => (fs, .error f)
  | .ok p =>
    if fs.find? p = some .directory then (fs, .error (.badPath path .directory))
    else match Text.Utf8.unencodable? text with
      | some u => (fs.put p (.file (.text "")), .error (.unencodable u))
      | none => (fs.put p (.file (.text text)), .ok ())

def appendAt (fs : Files) (p : FilePlace) (text : String) : Files :=
  match fs.find? p with
  | some (.file (.text old)) => fs.put p (.file (.text (old ++ text)))
  | some (.file (.bytes bs)) => fs.put p (.file (.bytes (bs ++ Text.Utf8.encode text)))
  | _ => fs.put p (.file (.text text))

def isDirectory (fs : Files) (path : String) : Bool :=
  match fs.resolve path with
  | .ok .directory => true
  | _ => false

def makeOne (fs : Files) (path : String) : Except Fault Files := do
  let p ← fs.locate path
  if (fs.find? p).isSome then .error (.badPath path .occupied) else .ok (fs.put p .directory)

/-- Makes the directory of a path from a root and the names on the way, last name first. Directories on the way
that are missing are made before it; it may be there already. -/
def makeNamed (fs : Files) (root : String) : List String → Except Fault Files
  | [] => tolerant fs root (fs.makeOne (plainPath root))
  | name :: above =>
    let path := root ++ "/".intercalate (name :: above).reverse
    match fs.makeOne path with
    | .error (.badPath _ .missing) => do
      let fs ← fs.makeNamed root above
      tolerant fs path (fs.makeOne path)
    | made => tolerant fs path made
where
  /-- An obstacle other than a missing place is none if the directory is there. -/
  tolerant (fs : Files) (path : String) (made : Except Fault Files) : Except Fault Files :=
    match made with
    | .error (.badPath q .missing) => .error (.badPath q .missing)
    | .error (.badPath q f) => if fs.isDirectory (plainPath path) then .ok fs else .error (.badPath q f)
    | made => made

/-- Makes a directory with all directories on the way to it; it may be there already. -/
def makeDirectory (fs : Files) (path : String) : Except Fault Files :=
  fs.makeNamed (pathRoot path) (pathNames path).reverse

def remove (fs : Files) (path : String) : Except Fault Files := do
  let p ← fs.locate path
  match ← fs.resolve path with
  | .directory => .error (.badPath path .directory)
  | .file _ => .ok ⟨fs.entries.filter (·.1 ≠ p)⟩

/-- Whether anything is at a path. A path that is too long is an error, and nothing is at other bad ones. -/
def exists? (fs : Files) (path : String) : Except Fault Bool :=
  match fs.resolve path with
  | .ok _ => .ok true
  | .error (.badPath q .tooLong) => .error (.badPath q .tooLong)
  | .error _ => .ok false

end Files
end LayerLoops
