import LayerLoops.Emission.Conv

/-! # Pooling, flattening and dense layers

These layers have one loop nest each, whatever the loop orders say. -/

namespace LayerLoops.Site

open Code

def poolingNest (s : Site) (shape : Shape) (seed : Int) : List Tree :=
  let cell : Element := ⟨.cell, []⟩
  let maximum : Element := ⟨.maximum, []⟩
  let source : Element := ⟨s.input, [.add (s.strided .outputX) (.index .kernelX),
    .add (s.strided .outputY) (.index .kernelY), .index .outputZ]⟩
  let window := [Tree.stmt (.assign cell (.element source)), .stmt .keepMaximum]
  let stored := if s.config.capture then
    [Stmt.store s.number "LayerOutput" maximum (.index .outputX) (.index .outputY) (.index .outputZ)] else []
  let body :=
    [Tree.stmt (.declareCells s.outputType), .blank, .stmt (.assign maximum (.number seed))] ++
    nest [s.loop shape .kx] [.loop (s.loop shape .ky) .braced window] ++
    [Tree.stmt (.assign ⟨s.output, outputSubscripts⟩ (.element maximum))] ++ Tree.ofStmts stored
  nest [s.loop shape .ox, s.loop shape .oy] [.loop (s.loop shape .oz) .braced body]

def pooling (s : Site) : Except Fault (List Tree) := do
  let seed ← (poolingSeed s.net s.number s.layer.location s.config).mapError .reported
  let shape ← s.shape
  let seed ← writable seed
  pure (s.header shape ++ s.declarations [shape.output.x, shape.output.y, shape.output.z] ++
    s.poolingNest shape seed)

/-- The position of an input element in the flattened vector: rows first, then columns, then channels. -/
def flatPosition (v : Volume) : Expr :=
  .add (.add (.mul (.mul (.index .inputX) (.number (some v.y))) (.number (some v.z)))
    (.mul (.index .inputY) (.number (some v.z)))) (.index .inputZ)

def flattenNest (s : Site) (shape : Shape) : List Tree :=
  let position := flatPosition shape.input
  let target : Element := ⟨s.output, [position]⟩
  let source : Element := ⟨s.input, [.index .inputX, .index .inputY, .index .inputZ]⟩
  let stored := if s.config.capture then
    [Stmt.store s.number "LayerOutput" target position nowhere nowhere] else []
  nest [s.loop shape .ox, s.loop shape .oy]
    [innermost (s.loop shape .oz) (.assign target (.element source)) stored]

def flatten (s : Site) : Except Fault (List Tree) := do
  discard (s.layer.inputFor "y")
  let shape ← s.shape
  pure (s.header shape ++ s.declarations [shape.output.x] ++ s.flattenNest shape)

def denseNest (s : Site) (shape : Shape) : List Tree :=
  let sum : Element := ⟨.sum s.number, []⟩
  let x := Expr.index .outputX
  let weight : Element := ⟨.weights s.number, [.index .inputX, x]⟩
  let body :=
    Tree.ofStmts ([Stmt.declare ⟨.sum s.number, .sum s.number, []⟩ true, .assign sum (s.initial .outputX)] ++
      s.storeBias .outputX x nowhere) ++
    [innermost (s.loop shape .ix)
      (.accumulate sum (s.product ⟨s.input, [.index .inputX]⟩ weight)) (s.storeWeight weight)] ++
    Tree.ofStmts ([Stmt.assign ⟨s.base, [x]⟩ (s.activate (.element sum))] ++
      s.requantize [x] .outputX ++ s.storeOutput [x] x nowhere nowhere)
  [.loop (s.loop shape .ox) .braced body]

def dense (s : Site) : Except Fault (List Tree) := do
  let shape ← s.shape
  pure (s.header shape ++ s.declarations [shape.output.x] ++ s.denseNest shape)

def code (s : Site) : Except Fault (List Tree) :=
  match s.layer.kind with
  | .conv => s.conv
  | .pooling => s.pooling
  | .flatten => s.flatten
  | .dense => s.dense

end LayerLoops.Site
