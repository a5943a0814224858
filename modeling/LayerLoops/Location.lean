/-! # Places in a source

Lines and columns count from one. A place without a file name is named by its line and column alone. -/

namespace LayerLoops

structure Location where
  file : Option String := none
  line : Int
  column : Int
  endLine : Option Int := none
  endColumn : Option Int := none
  deriving DecidableEq, Repr

namespace Location

def text (l : Location) : String :=
  match l.file with
  | some file =>
    if file.isEmpty then s!"line {l.line}, column {l.column}" else s!"{file}:{l.line}:{l.column}"
  | none => s!"line {l.line}, column {l.column}"

end Location
end LayerLoops
