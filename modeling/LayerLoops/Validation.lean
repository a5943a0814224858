import LayerLoops.Config
import LayerLoops.LoopOrder

/-! # Validation

The checks that a network with complete geometry has to pass before code is generated for it. Every violation
is recorded, at most one of each group of checks for a layer. -/

namespace LayerLoops

/-- Why code cannot be generated for a network. -/
inductive Violation
  | noLayers
  | flattenFollowedBy (number : Nat) (k : Kind)
  | notFlat (number : Nat) (v : Volume)
  | earlySoftmax (number : Nat)
  | poolType (number : Nat) (t : PoolType)
  | overlapping (number : Nat) (stride window : Option Int)
  | noSeed (number : Nat) (producer : Option (Nat × Activation))
  | unquantizable (number : Nat) (o : LoopOrder) (a : Accumulator)
  | singleLayer (number : Int) (count : Nat)

namespace Violation

def code : Violation → ErrorCode
  | noLayers => .noGeometry
  | flattenFollowedBy .. | notFlat .. => .badSequence
  | earlySoftmax _ => .earlySoftmax
  | poolType .. => .badPooling
  | overlapping .. => .overlappingPooling
  | noSeed .. => .noSeed
  | unquantizable .. => .badCombination
  | singleLayer .. => .badOption

def message : Violation → String
  | noLayers => "the source declares no layers"
  | flattenFollowedBy number k => s!"Flatten layer {number} must be followed by Dense, found {k.label}"
  | notFlat number v => s!"Dense layer {number} needs a flat input, got {v.text}"
  | earlySoftmax number => s!"softmax is only supported on the final layer, found on layer {number}"
  | poolType number t => t.label ++ s!" pooling (layer {number}) is not supported"
  | overlapping number stride window =>
    s!"pooling layer {number} has stride {dimText stride} but window {dimText window}; " ++
      "only non-overlapping windows are supported"
  | noSeed number producer =>
    let source := match producer with
      | some (n, a) => s!"layer {n} ({a.label})"
      | none => "the network input"
    s!"cannot derive the max-pooling seed of layer {number} from {source}"
  | unquantizable number o a =>
    s!"quantization of layer {number} needs a scalar accumulator, " ++
      s!"loop order '{o.text}' selects strategy {a.rank}"
  | singleLayer number count => s!"single-layer {number} is out of range 1..{count}"

def hint : Violation → Option String
  | noLayers => "Add model.add(...) statements"
  | notFlat .. => "Insert model.add(Flatten()) before the Dense layer"
  | poolType .. => "Use MaxPool2D"
  | noSeed .. => "Set the pooling-seed option to the lowest value the input can take"
  | unquantizable .. => "Use oz-oy-ox-iz-kx-ky or oz-ox-oy-iz-kx-ky"
  | _ => none

def diagnostic (v : Violation) (l : Option Location := none) : Diagnostic :=
  { stage := .validation, code := v.code, message := v.message, location := l, hint := v.hint }

end Violation

/-- The least value that a signed eight-bit activation can take. -/
def int8Min : Int := -128

/-- The value that a running maximum starts from: the least value that the predecessor of a pooling layer can
give. It is zero after a relu and `int8Min` after a quantized linear layer; otherwise it has to be set. -/
def poolingSeed (net : Network) (number : Nat) (l : Option Location) (c : Config) :
    Except Diagnostic Int :=
  let producer := (net.predecessor? number).map fun p =>
    (number - 1, net.emitted (number - 1) p.activation)
  let activation := (producer.map (·.2)).getD .none
  if activation = .relu then .ok 0
  else if activation = .linear ∧ c.quantized then .ok int8Min
  else match c.poolingSeed with
    | some n => .ok n
    | none => .error ((Violation.noSeed number producer).diagnostic l)

/-- One digit for each weighted layer; missing digits are zeros. -/
def multiplierMask (net : Network) (c : Config) : List Char :=
  let count := net.weighted.length
  (c.mask.toList ++ List.replicate count '0').take count

def refuse (v : Violation) (l : Option Location := none) : Step Unit :=
  Step.fail (.reported (v.diagnostic l))

def checkSequence (net : Network) (number : Nat) (l : Layer) : Step Unit := do
  match l.kind, net.successor? number with
  | .flatten, some s =>
    if s.kind ≠ .dense then refuse (.flattenFollowedBy number s.kind) (s.location <|> l.location)
  | _, _ => pure ()
  match l.kind, l.input with
  | .dense, some v =>
    if ¬ v.IsFlat then
      let v ← Step.ofExcept v.writable
      refuse (.notFlat number v) l.location
  | _, _ => pure ()

def checkActivation (net : Network) (number : Nat) (l : Layer) : Step Unit :=
  if l.activation = .softmax ∧ !net.isLast number then refuse (.earlySoftmax number) l.location
  else pure ()

def checkPooling (net : Network) (number : Nat) (l : Layer) (c : Config) : Step Unit :=
  match l.form with
  | .pooling type _ k =>
    if type ≠ .max then refuse (.poolType number type) l.location
    else if l.stride ≠ k.rows then refuse (.overlapping number l.stride k.rows) l.location
    else match poolingSeed net number l.location c with
      | .ok _ => pure ()
      | .error d => Step.fail (.reported d)
  | _ => pure ()

def checkOrder (number : Nat) (l : Layer) (o : LoopOrder) (c : Config) : Step Unit :=
  match o.accumulator (some (number, l.location)) with
  | .error d => Step.fail (.reported d)
  | .ok a =>
    if c.quantized ∧ a ≠ .scalar then refuse (.unquantizable number o a) l.location else pure ()

def checkSettings (net : Network) (c : Config) : Step Unit := do
  if c.singleLayer > net.size then refuse (.singleLayer c.singleLayer net.size)
  if c.approximate then
    let expected := net.weighted.length
    let given := c.mask.length
    if given < expected then
      Step.warn {
        code := .maskShort
        message := s!"approximate-multipliers-configuration has {given} entries " ++
          s!"for {expected} Conv2D/Dense layer(s); missing entries select the exact multiplier" }
    else if given > expected then Step.tell (.maskTrimmed (given - expected))

def checkLayer (net : Network) (c : Config) (number : Nat) (l : Layer) : Step Unit := do
  (checkSequence net number l).recover
  (checkActivation net number l).recover
  (checkPooling net number l c).recover

def forEach {α : Type} (f : α → Step Unit) : List α → Step Unit
  | [] => pure ()
  | a :: as => do
    f a
    forEach f as

def Network.checks (net : Network) (c : Config) (orders : Option (List LoopOrder)) : Step Unit := do
  forEach (fun (l, n) => checkLayer net c n l) net.numbered
  match orders with
  | some orders =>
    forEach (fun ((l, n), o) => if l.kind = .conv then (checkOrder n l o c).recover else pure ())
      (net.numbered.zip orders)
  | none => pure ()
  (checkSettings net c).recover

/-- Records every violation; the result is whether there was none. -/
def Network.validate (net : Network) (c : Config) (orders : Option (List LoopOrder)) : Step Bool :=
  if net.layers.isEmpty then do
    Step.record (Violation.noLayers.diagnostic)
    pure false
  else
    let s := net.checks c orders
    let passed := (Journal.errors s.journal).isEmpty
    match s.outcome with
    | .ok () => ⟨s.journal ++ [.event (.validated passed net.size)], .ok passed⟩
    | .error f => ⟨s.journal, .error f⟩

end LayerLoops
