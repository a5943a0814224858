import LayerLoops.Emission.Site

/-! # Convolutions

The loop order of a convolution decides what is kept while it sums: one number per output element, one number
per element of the spatial axis inside the channel loop, or one number per spatial output element. All three
sum the same products over the input channels and the kernel; only the first supports quantization and
stored values. -/

namespace LayerLoops.Site

open Code

def outputSubscripts : List Expr := [.index .outputX, .index .outputY, .index .outputZ]

/-- The input element, the weight and, under padding, how the input position is found. -/
structure Operands where
  input : Element
  weight : Element
  padded : Option (List Stmt × Bounds) := none

def padding (s : Site) : Padding :=
  match s.layer.form with
  | .conv _ _ p => p
  | _ => .none

def convOperands (s : Site) (shape : Shape) : Except Fault Operands :=
  let row := Expr.add (s.strided .outputX) (.index .kernelX)
  let column := Expr.add (s.strided .outputY) (.index .kernelY)
  let weight : Element :=
    ⟨.weights s.number, [.index .kernelX, .index .kernelY, .index .inputZ, .index .outputZ]⟩
  if s.padding ≠ .same then .ok { input := ⟨s.input, [row, column, .index .inputZ]⟩, weight }
  else match s.layer.form.kernel.rows, s.layer.form.kernel.cols with
    | some rows, some cols =>
      let margin (n : Int) : Expr := .number (some ((n - 1).fdiv 2))
      .ok {
        input := ⟨s.input, [.index .row, .index .column, .index .inputZ]⟩, weight
        padded := some (
          [.define .row (.sub row (margin rows)), .define .column (.sub column (margin cols))],
          ⟨shape.input.x, shape.input.y⟩) }
    | _, _ => .error .unsetKernel

/-- The innermost loop of the sum. Outside the input a quantized sum takes the zero point of the input. -/
def multiplyAdd (s : Site) (h : Head) (sum : Element) (o : Operands) : Tree :=
  let body := Stmt.accumulate sum (s.product o.input o.weight)
  let stored := s.storeWeight o.weight
  match o.padded with
  | none => innermost h body stored
  | some (defs, bounds) =>
    let zero : Element := ⟨.inputZeroPoints, [.number (some (s.net.ordinal s.number))]⟩
    let outside :=
      if s.config.quantized then some (Stmt.accumulate sum (.product zero o.weight)) else none
    .loop h .braced (Tree.ofStmts defs ++ [Tree.choose bounds body outside] ++
      if stored.isEmpty then [] else [Tree.simulated (Tree.ofStmts stored)])

def reduction (s : Site) (heads : List Head) (last : Head) (sum : Element) (o : Operands) : List Tree :=
  nest heads [s.multiplyAdd last sum o]

/-- The six loops of a convolution, outermost first. -/
structure ConvLoops where
  (l0 l1 l2 l3 l4 l5 : Axis)
  deriving DecidableEq, Repr

def convScalar (s : Site) (shape : Shape) (c : ConvLoops) (o : Operands) : List Tree :=
  let sum : Element := ⟨.sum s.number, []⟩
  let z := Expr.index .outputZ
  let body :=
    Tree.ofStmts (s.storeBias .outputZ nowhere z ++
      [Stmt.declare ⟨.sum s.number, .sum s.number, []⟩ true, .assign sum (s.initial .outputZ)]) ++
    s.reduction [s.loop shape c.l3, s.loop shape c.l4] (s.loop shape c.l5) sum o ++
    Tree.ofStmts ([Stmt.assign ⟨s.base, outputSubscripts⟩ (s.activate (.element sum))] ++
      s.requantize outputSubscripts .outputZ ++
      s.storeOutput outputSubscripts (.index .outputX) (.index .outputY) z)
  nest [s.loop shape c.l0, s.loop shape c.l1] [.loop (s.loop shape c.l2) .braced body]

def convVector (s : Site) (shape : Shape) (c : ConvLoops) (o : Operands) : List Tree :=
  let inner := s.loop shape c.l3
  let sum : Element := ⟨.sum s.number, [.index inner.index]⟩
  let body :=
    [Tree.stmt (.declare ⟨.sum s.number, .sum s.number, [inner.bound]⟩ true), .blank,
      .loop (s.shortLoop shape c.l3 "I") .sameLine [.stmt (.assign sum (s.initial .outputZ))], .blank] ++
    s.reduction [s.loop shape c.l2, inner, s.loop shape c.l4] (s.loop shape c.l5) sum o ++
    [Tree.blank, .loop (s.shortLoop shape c.l3 "O") .sameLine
      [.stmt (.assign ⟨s.output, outputSubscripts⟩ (s.activate (.element sum)))]]
  nest [s.loop shape c.l0] [.loop (s.loop shape c.l1) .braced body]

def convTile (s : Site) (shape : Shape) (c : ConvLoops) (o : Operands) : List Tree :=
  let sum : Element := ⟨.sum s.number, [.index .outputX, .index .outputY]⟩
  let short (mark : String) : List Head := [s.shortLoop shape .ox mark, s.shortLoop shape .oy mark]
  let dims := [some shape.output.x, some shape.output.y]
  let body :=
    [Tree.stmt (.declare ⟨.sum s.number, .sum s.number, dims⟩ true), .blank] ++
    nest (short "I") [.stmt (.assign sum (s.initial .outputZ))] ++ [Tree.blank] ++
    s.reduction [s.loop shape c.l1, s.loop shape c.l2, s.loop shape c.l3, s.loop shape c.l4]
      (s.loop shape c.l5) sum o ++ [Tree.blank] ++
    nest (short "O") [.stmt (.assign ⟨s.output, outputSubscripts⟩ (s.activate (.element sum)))]
  [.loop (s.loop shape c.l0) .braced body]

def scalarOnly (s : Site) : List String :=
  (if s.config.quantized then ["quantization"] else []) ++
    (if s.config.capture then ["analysis-data capture"] else [])

def convAccumulator (s : Site) : Except Diagnostic Accumulator := do
  let a ← s.order.accumulator (some (s.number, s.layer.location))
  if a ≠ .scalar ∧ s.scalarOnly ≠ [] then
    throw {
      stage := .generation, code := .badCombination
      message := " and ".intercalate s.scalarOnly ++ " not supported with loop order '" ++ s.order.text ++
        s!"' of layer {s.number}"
      location := s.layer.location
      hint := "Use oz-oy-ox-iz-kx-ky or oz-ox-oy-iz-kx-ky" }
  pure a

def convAxis (name : String) : Except Fault Axis :=
  match Axis.ofName? name with
  | some a => if (a.suffix? .conv).isSome then .ok a else .error (.unknownAxis name)
  | none => .error (.unknownAxis name)

def convLoops (s : Site) : Except Fault ConvLoops := do
  match ← s.order.axes.mapM convAxis with
  | [l0, l1, l2, l3, l4, l5] => pure ⟨l0, l1, l2, l3, l4, l5⟩
  | _ => throw (.reported (s.order.unsupported (some (s.number, s.layer.location))))

def conv (s : Site) : Except Fault (List Tree) := do
  let a ← s.convAccumulator.mapError .reported
  let shape ← s.shape
  let c ← s.convLoops
  let o ← s.convOperands shape
  let code := match a with
    | .scalar => s.convScalar shape c o
    | .vector => s.convVector shape c o
    | .tile => s.convTile shape c o
  pure (s.header shape ++ s.declarations [shape.output.x, shape.output.y, shape.output.z] ++ code)

end LayerLoops.Site
