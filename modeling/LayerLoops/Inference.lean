import LayerLoops.Extent
import LayerLoops.Journal
import LayerLoops.Network

/-! # Shape inference

The geometry of a network is completed from front to back. A layer first settles its stride, padding and
kernel; it then takes its input from its predecessor unless it has one; last comes its output. Inference stops
at the first layer that cannot be completed, and that layer keeps what was settled of it. -/

namespace LayerLoops

/-- Why the geometry of a layer cannot be completed. -/
inductive Obstacle
  | noInput (k : Kind)
  | noUnits (number : Nat)
  | oblong (number : Nat) (k : Kernel)
  | noFilters (number : Nat)
  | evenKernel (number : Nat) (rows : Int)
  | empty (number : Nat) (k : Kind) (output input : Volume)

namespace Obstacle

def code : Obstacle → ErrorCode
  | noInput _ => .noInputShape
  | noUnits _ => .noGeometry
  | oblong .. => .oblongKernel
  | noFilters _ => .noFilters
  | evenKernel .. => .evenKernel
  | empty .. => .emptyVolume

def message : Obstacle → String
  | noInput k => "first layer (" ++ k.label ++ ") has no input shape"
  | noUnits number => s!"cannot infer the output of layer {number} (Dense): no unit count"
  | oblong number k =>
    s!"layer {number} has a non-square kernel ({dimText k.rows}, {dimText k.cols})"
  | noFilters number => s!"Conv2D layer {number} has no filter count"
  | evenKernel number rows => s!"SAME padding needs an odd kernel, layer {number} has {rows}"
  | empty number k output input =>
    s!"layer {number} ({k.label}) has non-positive output volume {output.text} for input {input.text}"

def hint : Obstacle → Option String
  | noInput _ => "Add input_shape=(x, y, z) to the first layer"
  | noUnits _ => "Give Dense a unit count, e.g. Dense(10)"
  | noFilters _ => "Add filters=<n>"
  | _ => none

def volumes : Obstacle → List Volume
  | empty _ _ output input => [output, input]
  | _ => []

def fault (o : Obstacle) (l : Option Location) : Fault :=
  if ∀ v ∈ o.volumes, v.Fits then
    .reported { stage := .shape, code := o.code, message := o.message, location := l, hint := o.hint }
  else .numeralTooLong

end Obstacle

namespace Layer

/-- The stride, unless it is given: the window of a pooling layer, otherwise one. -/
def settledStride (l : Layer) : Int :=
  l.stride.getD (match l.form with
    | .pooling _ _ k => k.rows.getD 1
    | _ => 1)

def settleKernel (stride : Int) (k : Kernel) : Kernel :=
  if k.rows.isSome then k else ⟨some stride, some stride⟩

def settle (l : Layer) : Layer :=
  let stride := l.settledStride
  let form := match l.form with
    | .conv filters k padding =>
      .conv filters (settleKernel stride k) (if padding = .none then .valid else padding)
    | .pooling type channels k => .pooling type channels (settleKernel stride k)
    | form => form
  { l with stride := some stride, form }

/-- Takes an input volume, which settles the channels of a pooling layer and the size of a flattened vector. -/
def receive (l : Layer) (input : Volume) : Layer :=
  let form := match l.form with
    | .pooling type channels k => .pooling type (some (channels.getD input.z)) k
    | .flatten _ => .flatten (some input.size)
    | form => form
  { l with input := some input, form }

end Layer

def warnUnaligned (number : Nat) (l : Layer) (axis : String) (size kernel stride : Int) : Step Unit := do
  if ← Step.ofExcept (Extent.unaligned? size kernel stride) then
    let size ← Step.ofExcept (writable size)
    Step.warn {
      code := .unalignedStride
      message := s!"unaligned stride {stride} on axis {axis} of layer {number} " ++
        s!"(input {size}, kernel {kernel})"
      location := l.location }

/-- The output volume of a windowed layer with `channels` channels. -/
def windowed (number : Nat) (l : Layer) (k : Kernel) (padded : Bool) (channels : Step Int)
    (input : Volume) : Step Volume := do
  let stride := l.settledStride
  match k.rows with
  | none => Step.fail ((Obstacle.oblong number k).fault l.location)
  | some rows =>
    if k.cols ≠ some rows then Step.fail ((Obstacle.oblong number k).fault l.location)
    let channels ← channels
    if padded then
      if rows.fmod 2 = 0 then Step.fail ((Obstacle.evenKernel number rows).fault l.location)
      warnUnaligned number l "X" input.x rows stride
      warnUnaligned number l "Y" input.y rows stride
      pure ⟨Extent.same input.x rows stride, Extent.same input.y rows stride, channels⟩
    else
      let x ← Step.ofExcept (Extent.valid? input.x rows stride)
      let y ← Step.ofExcept (Extent.valid? input.y rows stride)
      pure ⟨x, y, channels⟩

def Layer.computeOutput (number : Nat) (l : Layer) (input : Volume) : Step Volume :=
  match l.form with
  | .conv filters k padding =>
    let channels := match filters with
      | some n => pure n
      | none => Step.fail ((Obstacle.noFilters number).fault l.location)
    windowed number l k (padding = .same) channels input
  | .pooling _ channels k => windowed number l k false (pure (channels.getD input.z)) input
  | .flatten nodes => pure (.flat (nodes.getD input.size))
  | .dense nodes =>
    match nodes with
    | some n => pure (.flat n)
    | none => Step.fail ((Obstacle.noUnits number).fault l.location)

/-- Completes a layer as far as possible. -/
def Layer.infer (number : Nat) (predecessor : Option Layer) (l : Layer) : Layer × Step Unit :=
  let settled := l.settle
  match settled.input <|> predecessor.bind Layer.output with
  | none => (settled, Step.fail ((Obstacle.noInput l.kind).fault l.location))
  | some input =>
    let received := settled.receive input
    let output := received.computeOutput number input
    match output.outcome with
    | .error f => (received, ⟨output.journal, .error f⟩)
    | .ok v =>
      let done := { received with output := some v }
      if v.Positive then (done, ⟨output.journal, .ok ()⟩)
      else (done, ⟨output.journal, .error ((Obstacle.empty number l.kind v input).fault l.location)⟩)

/-- Completes the layers from number `number` on; the result is whether all of them were completed. -/
def inferFrom (number : Nat) (predecessor : Option Layer) : List Layer → List Layer × Step Bool
  | [] => ([], pure true)
  | l :: ls =>
    let (l, step) := l.infer number predecessor
    match step.outcome with
    | .ok () =>
      let (ls, rest) := inferFrom (number + 1) (some l) ls
      let told := Entry.event (.inferred number l.kind l.input l.output)
      (l :: ls, ⟨step.journal ++ told :: rest.journal, rest.outcome⟩)
    | .error (.reported d) => (l :: ls, ⟨step.journal ++ [.error d], .ok false⟩)
    | .error f => (l :: ls, ⟨step.journal, .error f⟩)

def Network.infer (net : Network) : Network × Step Bool :=
  let (layers, step) := inferFrom 1 none net.layers
  (⟨layers⟩, step)

end LayerLoops
