import LayerLoops.Code.Tree
import LayerLoops.Placement
import LayerLoops.Validation

/-! # Emission sites

A site is a layer in its network, with the settings and the loop order it is emitted under. It knows the names
of what the layer reads and writes, and the pieces of code that all kinds of layers share. -/

namespace LayerLoops

open Code

def writableDim (d : Option Int) : Except Fault (Option Int) :=
  match d with
  | some n => (writable n).map some
  | none => .ok none

namespace Layer

/-- The input volume, of which `axis` is needed first. -/
def inputFor (l : Layer) (axis : String) : Except Fault Volume :=
  match l.input with
  | some v => .ok v
  | none => .error (.unsetVolume axis)

/-- The output volume, of which `axis` is needed first. -/
def outputFor (l : Layer) (axis : String) : Except Fault Volume :=
  match l.output with
  | some v => .ok v
  | none => .error (.unsetVolume axis)

def inputDims (l : Layer) : Except Fault (List (Option Int)) := do
  let v ← l.inputFor "x"
  (if l.kind = .dense then [v.x] else [v.x, v.y, v.z]).mapM fun n => writableDim (some n)

def outputDims (l : Layer) : Except Fault (List (Option Int)) := do
  let v ← l.outputFor "x"
  (match l.kind with
    | .flatten | .dense => [v.x]
    | .conv | .pooling => [v.x, v.y, v.z]).mapM fun n => writableDim (some n)

def weightDims (l : Layer) : Except Fault (List (Option Int)) := do
  let dims ← match l.kind with
    | .conv => do
      let i ← l.inputFor "z"
      let o ← l.outputFor "z"
      pure [l.form.kernel.rows, l.form.kernel.cols, some i.z, some o.z]
    | _ => do
      let i ← l.inputFor "x"
      let o ← l.outputFor "x"
      pure [some i.x, some o.x]
  dims.mapM writableDim

/-- The number of output channels, each with a bias and a weight scale of its own. -/
def channelDim (l : Layer) : Except Fault (Option Int) := do
  match l.kind with
  | .conv => writableDim (some (← l.outputFor "z").z)
  | _ => writableDim (some (← l.outputFor "x").x)

end Layer

structure Site where
  net : Network
  number : Nat
  layer : Layer
  config : Config
  order : LoopOrder
  isLocal : Bool := true

/-- The volumes that a layer reads and writes. -/
structure Shape where
  input : Volume
  output : Volume
  deriving DecidableEq, Repr

namespace Site

def isLast (s : Site) : Bool := s.net.isLast s.number

/-- The layer writes the output of the generated function. -/
def writesOutput (s : Site) : Bool := s.isLast || s.config.isolated

def input (s : Site) : Buffer :=
  if s.number = 1 ∨ s.config.isolated then .inputs else .between (s.number - 1)

def output (s : Site) : Buffer := if s.writesOutput then .outputs else .between s.number

/-- The result is computed wide and then scaled into a narrow buffer. -/
def rescales (s : Site) : Bool := s.config.quantized && s.layer.weighted

/-- The buffer that receives results before they are scaled. -/
def base (s : Site) : Buffer :=
  if !s.rescales then s.output
  else if s.writesOutput then .outputsBase
  else .betweenBase s.number

def place (s : Site) : Place := if s.isLast then .final else .inner s.number

def type (s : Site) : TypeName := .result s.place

def narrowType (s : Site) : TypeName := .narrowResult s.place

def outputType (s : Site) : TypeName := if s.config.quantized then s.narrowType else s.type

def activate (s : Site) (t : Term) : Term :=
  .activated (s.net.emitted s.number s.layer.activation) t

def product (s : Site) (a b : Element) : Term :=
  if s.config.approximate then .layerProduct s.number a b else .product a b

/-- What a sum over the channel `i` starts from. -/
def initial (s : Site) (i : Index) : Term :=
  if s.config.biases then .element ⟨.biases s.number, [.index i]⟩ else .number 0

/-- The volumes of the layer, once every number that its code shows can be written. -/
def shape (s : Site) : Except Fault Shape := do
  if s.layer.kind = .conv ∨ s.layer.kind = .pooling then
    discard (writableDim s.layer.stride)
  let i ← s.layer.inputFor "x"
  let i ← i.writable
  let o ← s.layer.outputFor "x"
  let o ← o.writable
  discard (writableDim s.layer.form.kernel.rows)
  discard (writableDim s.layer.form.kernel.cols)
  pure ⟨i, o⟩

def header (s : Site) (shape : Shape) : List Tree :=
  let extents (v : Volume) : String := s!"X:{v.x}, Y: {v.y}, Z: {v.z}"
  [.stmt (.comment (s!"Layer {s.number}: " ++ s.layer.describe)),
    .stmt (.comment ("Input: " ++ extents shape.input)),
    .stmt (.comment ("Output: " ++ extents shape.output))]

/-- Declarations of the buffers that the layer writes. A buffer that is kept elsewhere is a parameter, and its
declaration a comment; the wide buffer is always local. -/
def declarations (s : Site) (dims : List Int) : List Tree :=
  let dims := dims.map some
  let wide := if s.rescales then [Stmt.declare ⟨s.type, s.base, dims⟩ true] else []
  let own := if s.writesOutput then [] else [Stmt.declare ⟨s.outputType, s.output, dims⟩ s.isLocal]
  Tree.ofStmts (wide ++ own)

def bound (s : Site) (shape : Shape) (a : Axis) : Option Int :=
  let target := if s.layer.kind = .flatten then shape.input else shape.output
  match a with
  | .oz => some target.z
  | .oy => some target.y
  | .ox => some target.x
  | .iz => some shape.input.z
  | .ix => some shape.input.x
  | .kx => s.layer.form.kernel.rows
  | .ky => s.layer.form.kernel.cols

def loop (s : Site) (shape : Shape) (a : Axis) : Head :=
  let suffix := match a.suffix? s.layer.kind with
    | some (named, numbered) => if s.config.numberedLabels then numbered else named
    | none => ""
  { label := some ⟨s.number, suffix⟩, index := a.index s.layer.kind, bound := s.bound shape a }

def shortLoop (s : Site) (shape : Shape) (a : Axis) (mark : String) : Head :=
  { label := some ⟨s.number, a.capitalized ++ mark⟩, spaced := false
    index := a.index s.layer.kind, bound := s.bound shape a }

/-- An index times the stride; a stride of one is left out. -/
def strided (s : Site) (i : Index) : Expr :=
  if s.layer.stride = some 1 then .index i else .mul (.index i) (.number s.layer.stride)

def nowhere : Expr := .number (some (-1))

/-- Scales the result at these subscripts into the output, by the factor of channel `i`. -/
def requantize (s : Site) (subscripts : List Expr) (i : Index) : List Stmt :=
  if s.config.quantized then
    [.requantize ⟨s.output, subscripts⟩ ⟨s.base, subscripts⟩ s.narrowType (s.net.ordinal s.number)
      ⟨.weightScales s.number, [.index i]⟩]
  else []

def storeOutput (s : Site) (subscripts : List Expr) (x y z : Expr) : List Stmt :=
  if !s.config.capture then []
  else
    let wide := if s.rescales then [Stmt.store s.number "LayerOutputBase" ⟨s.base, subscripts⟩ x y z] else []
    wide ++ [Stmt.store s.number "LayerOutput" ⟨s.output, subscripts⟩ x y z]

def storeWeight (s : Site) (weight : Element) : List Stmt :=
  if !s.config.capture then []
  else
    [.store s.number "weights" weight nowhere nowhere nowhere,
      .store s.number "temp_element" ⟨.sum s.number, []⟩ nowhere nowhere nowhere]

/-- Stores the bias of channel `i` for analysis. -/
def storeBias (s : Site) (i : Index) (x z : Expr) : List Stmt :=
  if s.config.capture && s.config.biases then
    [.store s.number "biases" ⟨.biases s.number, [.index i]⟩ x nowhere z]
  else []

def innermost (h : Head) (body : Stmt) (stored : List Stmt) : Tree :=
  if stored.isEmpty then .loop h .deeper [.stmt body] else .loop h .flush [.watched body stored]

/-- Loops around a body, outermost first, each one level deeper. -/
def nest (heads : List Head) (body : List Tree) : List Tree :=
  heads.foldr (fun h body => [.loop h .deeper body]) body

end Site
end LayerLoops
