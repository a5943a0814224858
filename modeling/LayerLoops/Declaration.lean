import LayerLoops.Journal
import LayerLoops.Network
import LayerLoops.Source.Statement
import LayerLoops.Text.Lowercase

/-! # Layer declarations

A statement declares a layer by the constructor it calls. Positional arguments are bound to keywords by their
place, and then every argument is applied to the layer in turn. An argument that makes no sense records one
error and leaves the layer as it was, so that one run reports every problem of a source. -/

namespace LayerLoops

open Source

/-- What the arguments of a layer can be called. -/
inductive Parameter
  | filters | units | kernelSize | poolSize | strides | activation | padding | inputShape
  deriving DecidableEq, Repr

namespace Parameter

def label : Parameter → String
  | filters => "filters"
  | units => "units"
  | kernelSize => "kernel_size"
  | poolSize => "pool_size"
  | strides => "strides"
  | activation => "activation"
  | padding => "padding"
  | inputShape => "input_shape"

def all : List Parameter :=
  [filters, units, kernelSize, poolSize, strides, activation, padding, inputShape]

def ofLabel? (s : String) : Option Parameter := all.find? (·.label == s)

end Parameter

def Kind.positional : Kind → List Parameter
  | conv => [.filters, .kernelSize]
  | pooling => [.poolSize, .strides]
  | flatten => []
  | dense => [.units]

/-- The layer that a constructor makes before any argument is applied. -/
def Form.ofConstructor? : String → Option Form
  | "Conv2D" | "Convolution2D" => some (.conv none {} .none)
  | "MaxPool2D" | "MaxPooling2D" => some (.pooling .max none {})
  | "AveragePooling2D" | "AvgPool2D" => some (.pooling .average none {})
  | "Flatten" => some (.flatten none)
  | "Dense" => some (.dense none)
  | _ => none

def constructors : List String :=
  ["AveragePooling2D", "AvgPool2D", "Conv2D", "Convolution2D", "Dense", "Flatten", "MaxPool2D",
    "MaxPooling2D"]

/-- Why an argument or a constructor is refused. -/
inductive Misuse
  | unknownConstructor (name : String)
  | tooManyPositional (constructor : String) (limit : Nat)
  | unknownKeyword (name : String)
  | misplaced (p : Parameter) (k : Kind)
  | notPositive (p : Parameter) (n : Nat)
  | notInteger (p : Parameter) (v : Value)
  | empty (p : Parameter)
  | notWord (p : Parameter) (v : Value)
  | notPair (p : Parameter) (count : Nat)
  | unequalStrides (a b : Nat)
  | unknownActivation (word : String)
  | unknownPadding (word : String)
  | pooledPadding
  | convShape (count : Nat)
  | denseShape (count : Nat)
  | deepShape (count : Nat)

namespace Misuse

def code : Misuse → ErrorCode
  | unknownConstructor _ => .unknownLayer
  | unknownKeyword _ => .unknownKeyword
  | misplaced .. => .misplacedKeyword
  | unequalStrides .. => .unequalStrides
  | _ => .badValue

def message : Misuse → String
  | unknownConstructor name => "unknown layer constructor '" ++ name ++ "'"
  | tooManyPositional name limit => name ++ s!" takes at most {limit} positional argument(s)"
  | unknownKeyword name => "unknown keyword '" ++ name ++ "'"
  | misplaced p k => "keyword '" ++ p.label ++ "' is not valid for " ++ k.label
  | notPositive p n => "'" ++ p.label ++ s!"' must be a positive integer, got {n}"
  | notInteger p v => "'" ++ p.label ++ "' expects an integer, got " ++ v.shown
  | empty p => "'" ++ p.label ++ "' must not be empty"
  | notWord p v => "'" ++ p.label ++ "' expects a string, got " ++ v.shown
  | notPair p count => "'" ++ p.label ++ s!"' expects one or two integers, got {count}"
  | unequalStrides a b => s!"strides ({a}, {b}) differ; only symmetric strides are supported"
  | unknownActivation word => "unknown activation '" ++ word ++ "'"
  | unknownPadding word => "unknown padding '" ++ word ++ "'"
  | pooledPadding => "pooling layers support only 'valid' padding"
  | convShape count => s!"Conv2D input_shape needs 3 dimensions, got {count}"
  | denseShape count => s!"Dense input_shape needs 1 or 3 dimensions, got {count}"
  | deepShape count => s!"input_shape has {count} dimensions; at most 3 are supported"

def hint : Misuse → Option String
  | unknownConstructor _ => "Supported constructors: " ++ ", ".intercalate constructors
  | unknownActivation _ => "Supported activations: relu, softmax, linear"
  | unknownPadding _ => "Use 'same' or 'valid'"
  | _ => none

def diagnostic (m : Misuse) (l : Location) : Diagnostic :=
  { stage := .declaration, code := m.code, message := m.message, location := l, hint := m.hint }

end Misuse

def positive (p : Parameter) : Value → Except Misuse Nat
  | .integer n _ => if n = 0 then .error (.notPositive p n) else .ok n
  | v => .error (.notInteger p v)

def positives (p : Parameter) (v : Value) : Except Misuse (List Nat) :=
  let items := match v with
    | .tuple items _ => items
    | v => [v]
  if items.isEmpty then .error (.empty p) else items.mapM (positive p)

/-- A quoted text or a bare name, in lower case. -/
def word (p : Parameter) : Value → Except Misuse String
  | .text s _ | .name s _ => .ok (Text.lower s)
  | v => .error (.notWord p v)

def squarePair (p : Parameter) (v : Value) : Except Misuse Kernel := do
  match ← positives p v with
  | [n] => pure ⟨some n, some n⟩
  | [a, b] => pure ⟨some a, some b⟩
  | dims => throw (.notPair p dims.length)

def stridesOf (v : Value) : Except Misuse Nat := do
  match ← positives .strides v with
  | [n] => pure n
  | [a, b] => if a = b then pure a else throw (.unequalStrides a b)
  | dims => throw (.notPair .strides dims.length)

def activationOf (v : Value) : Except Misuse Activation := do
  match ← word .activation v with
  | "relu" => pure .relu
  | "softmax" => pure .softmax
  | "linear" => pure .linear
  | w => throw (.unknownActivation w)

def paddingOf (v : Value) : Except Misuse Padding := do
  match ← word .padding v with
  | "valid" => pure .valid
  | "same" => pure .same
  | w => throw (.unknownPadding w)

/-- The input volume of a layer. A vector or a volume reaches a dense layer as one vector. -/
def inputVolume (k : Kind) (v : Value) : Except Misuse Volume := do
  let dims ← positives .inputShape v
  match k, dims with
  | .dense, [n] => pure (.flat n)
  | .dense, [a, b, c] => pure (.flat (a * b * c : Nat))
  | .dense, _ => throw (.denseShape dims.length)
  | _, [a, b, c] => pure ⟨a, b, c⟩
  | .conv, _ => throw (.convShape dims.length)
  | _, [a] => pure ⟨a, 1, 1⟩
  | _, [a, b] => pure ⟨a, b, 1⟩
  | _, _ => throw (.deepShape dims.length)

def Layer.set (l : Layer) (p : Parameter) (v : Value) : Except Misuse Layer :=
  match p, l.form with
  | .filters, .conv _ k pad => do
    let n ← positive p v
    pure { l with form := .conv (some (n : Int)) k pad }
  | .units, .dense _ => do
    let n ← positive p v
    pure { l with form := .dense (some (n : Int)) }
  | .kernelSize, .conv f _ pad => do
    let k ← squarePair p v
    pure { l with form := .conv f k pad }
  | .poolSize, .pooling t c _ => do
    let k ← squarePair p v
    pure { l with form := .pooling t c k }
  | .strides, .conv .. | .strides, .pooling .. => do
    let n ← stridesOf v
    pure { l with stride := some (n : Int) }
  | .activation, .conv .. | .activation, .dense _ => do
    let a ← activationOf v
    pure { l with activation := a }
  | .padding, .conv f k _ => do
    let pad ← paddingOf v
    pure { l with form := .conv f k pad }
  | .padding, .pooling .. => do
    let pad ← paddingOf v
    if pad = .valid then pure l else throw .pooledPadding
  | .inputShape, .conv .. | .inputShape, .flatten _ | .inputShape, .dense _ => do
    let volume ← inputVolume l.kind v
    pure { l with input := some volume }
  | _, _ => throw (.misplaced p l.kind)

/-- An argument bound to the name of a parameter. -/
structure Binding where
  name : String
  value : Value
  location : Location

def Layer.bind (l : Layer) (b : Binding) : Except Misuse Layer :=
  match Parameter.ofLabel? b.name with
  | none => .error (.unknownKeyword b.name)
  | some p => l.set p b.value

/-- Binds the positional arguments in order; those beyond the parameters are refused. -/
def bindPositional (name : String) (limit : Nat) :
    List Parameter → List Value → Step (List Binding)
  | _, [] => pure []
  | [], v :: vs => do
    Step.record ((Misuse.tooManyPositional name limit).diagnostic v.location)
    bindPositional name limit [] vs
  | p :: ps, v :: vs => do
    let rest ← bindPositional name limit ps vs
    pure (⟨p.label, v, v.location⟩ :: rest)

def bindings (k : Kind) (c : Call) : Step (List Binding) := do
  let positional ← bindPositional c.name k.positional.length k.positional c.args
  pure (positional ++ c.kwargs.map fun w => ⟨w.name, w.value, w.location⟩)

/-- Applies bindings in order. `seen` holds the names bound before. -/
def Layer.bindAll (number : Nat) (l : Layer) (seen : List String) : List Binding → Step Layer
  | [] => pure l
  | b :: bs => do
    if seen.contains b.name then
      Step.warn {
        code := .repeatedKeyword
        message := "keyword '" ++ b.name ++
          s!"' given more than once for layer {number}; the last value is used"
        location := b.location }
    match l.bind b with
    | .ok l => l.bindAll number (b.name :: seen) bs
    | .error m => do
      Step.record (m.diagnostic b.location)
      l.bindAll number (b.name :: seen) bs

def Network.declare (net : Network) (s : Statement) : Step Network :=
  match Form.ofConstructor? s.call.name with
  | none => do
    Step.record ((Misuse.unknownConstructor s.call.qualifiedName).diagnostic s.call.location)
    pure net
  | some form => do
    let start : Layer := { form, location := some s.call.location }
    let bs ← bindings form.kind s.call
    let l ← start.bindAll (net.size + 1) [] bs
    pure (net.append l)

def Network.declareAll (net : Network) : List Statement → Step Network
  | [] => pure net
  | s :: ss => do
    let net ← net.declare s
    net.declareAll ss

def Network.ofStatements (ss : List Statement) : Step Network := do
  let net ← Network.declareAll {} ss
  Step.tell (.built net.size)
  pure net

end LayerLoops
