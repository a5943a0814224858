import LayerLoops.Journal
import LayerLoops.Source.Reader
import LayerLoops.Text.Lines

/-! # Documents

A document is a list of lines. A line that opens a statement starts one, and the statement takes further
lines while parentheses are open. Every other line is skipped. Statements that cannot be read are recorded as
errors, and reading goes on after them. -/

namespace LayerLoops.Source

/-- The lines of one statement; `first` is the number of the first of them. -/
structure Chunk where
  first : Nat
  lines : List String
  deriving DecidableEq, Repr

def Chunk.text (c : Chunk) : String := "\n".intercalate c.lines

/-- A statement in progress: its chunk with the lines latest first, and the parentheses it leaves open. -/
structure Pending where
  first : Nat
  lines : List String
  depth : Int

def Pending.chunk (p : Pending) : Chunk := ⟨p.first, p.lines.reverse⟩

/-- The result of scanning lines. -/
structure Scan where
  chunks : List Chunk := []
  skipped : Nat := 0
  deriving DecidableEq, Repr

/-- Scans the lines from number `number` on. -/
def scanFrom (number : Nat) : Option Pending → List String → Scan
  | none, [] => {}
  | some p, [] => { chunks := [p.chunk] }
  | pending, line :: rest =>
    let ts := tokens line
    let started := match pending with
      | some p => some p
      | none => if opensStatement ts then some ⟨number, [], 0⟩ else none
    match started with
    | none =>
      let s := scanFrom (number + 1) none rest
      { s with skipped := s.skipped + 1 }
    | some p =>
      let p : Pending := ⟨p.first, line :: p.lines, p.depth + balance ts⟩
      if p.depth ≤ 0 then
        let s := scanFrom (number + 1) none rest
        { s with chunks := p.chunk :: s.chunks }
      else scanFrom (number + 1) (some p) rest

def scan (lines : List String) : Scan := scanFrom 1 none lines

structure Document where
  file : Option String := none
  statements : List Statement := []
  skipped : Nat := 0
  deriving Repr

/-- The statements of a chunk, each with the text of the chunk. -/
def Chunk.read (file : Option String) (c : Chunk) : Except Fault (List Statement) := do
  let ss ← readStatements file ((c.first : Int) - 1) c.text
  pure (ss.map fun s => { s with text := Text.strip c.text })

def readChunks (file : Option String) : List Chunk → Step (List Statement)
  | [] => pure []
  | c :: cs =>
    match c.read file with
    | .ok ss => do
      let rest ← readChunks file cs
      pure (ss ++ rest)
    | .error (.reported d) => do
      Step.record d
      readChunks file cs
    | .error f => Step.fail f

namespace Document

def ofLines (file : Option String) (lines : List String) : Step Document := do
  let s := scan lines
  let statements ← readChunks file s.chunks
  Step.tell (.parsed statements.length s.skipped)
  pure { file, statements, skipped := s.skipped }

def ofText (file : Option String) (text : String) : Step Document :=
  ofLines file (Text.lines text)

end Document
end LayerLoops.Source
