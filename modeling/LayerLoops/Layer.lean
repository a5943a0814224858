import LayerLoops.Location
import LayerLoops.Decimal.Integer

/-! # Layers

A layer is one of four kinds, each with fields of its own beside those that all layers share. Geometry that a
declaration leaves open is unset until shape inference completes it. -/

namespace LayerLoops

/-- The extent of a tensor. A vector of `n` entries is `n` by one by one. -/
structure Volume where
  x : Int
  y : Int
  z : Int
  deriving DecidableEq, Repr

namespace Volume

def flat (n : Int) : Volume := ⟨n, 1, 1⟩

def size (v : Volume) : Int := v.x * v.y * v.z

def IsFlat (v : Volume) : Prop := v.y = 1 ∧ v.z = 1

instance (v : Volume) : Decidable v.IsFlat := inferInstanceAs (Decidable (_ ∧ _))

def Positive (v : Volume) : Prop := 0 < v.x ∧ 0 < v.y ∧ 0 < v.z

instance (v : Volume) : Decidable v.Positive := inferInstanceAs (Decidable (_ ∧ _ ∧ _))

def text (v : Volume) : String := s!"({v.x}, {v.y}, {v.z})"

/-- Each of the three numerals is short enough to be written. -/
def Fits (v : Volume) : Prop := Decimal.Fits v.x ∧ Decimal.Fits v.y ∧ Decimal.Fits v.z

instance (v : Volume) : Decidable v.Fits := inferInstanceAs (Decidable (_ ∧ _ ∧ _))

end Volume

inductive Kind
  | conv | pooling | flatten | dense
  deriving DecidableEq, Repr

namespace Kind

def label : Kind → String
  | conv => "Conv2D"
  | pooling => "Pooling2D"
  | flatten => "Flatten"
  | dense => "Dense"

def weighted : Kind → Bool
  | conv | dense => true
  | pooling | flatten => false

end Kind

inductive Activation
  | none | relu | softmax | linear
  deriving DecidableEq, Repr

def Activation.label : Activation → String
  | none => "none"
  | relu => "relu"
  | softmax => "softmax"
  | linear => "linear"

inductive Padding
  | none | valid | same
  deriving DecidableEq, Repr

def Padding.label : Padding → String
  | none => "none"
  | valid => "valid"
  | same => "same"

inductive PoolType
  | max | average
  deriving DecidableEq, Repr

namespace PoolType

def label : PoolType → String
  | max => "max"
  | average => "average"

def short : PoolType → String
  | max => "MAX"
  | average => "AVG"

end PoolType

structure Kernel where
  rows : Option Int := none
  cols : Option Int := none
  deriving DecidableEq, Repr

/-- What a layer computes, with the fields that only its kind has. -/
inductive Form
  | conv (filters : Option Int) (kernel : Kernel) (padding : Padding)
  | pooling (type : PoolType) (channels : Option Int) (kernel : Kernel)
  | flatten (nodes : Option Int)
  | dense (nodes : Option Int)
  deriving DecidableEq, Repr

namespace Form

def kind : Form → Kind
  | conv .. => .conv
  | pooling .. => .pooling
  | flatten _ => .flatten
  | dense _ => .dense

def kernel : Form → Kernel
  | conv _ k _ | pooling _ _ k => k
  | flatten _ | dense _ => {}

end Form

structure Layer where
  form : Form
  input : Option Volume := none
  output : Option Volume := none
  stride : Option Int := none
  activation : Activation := .none
  location : Option Location := none
  deriving DecidableEq, Repr

/-- A number that may be unset, as it is written. -/
def dimText : Option Int → String
  | some n => toString n
  | none => "None"

namespace Layer

def kind (l : Layer) : Kind := l.form.kind

def weighted (l : Layer) : Bool := l.kind.weighted

def describe (l : Layer) : String :=
  match l.form with
  | .conv _ _ padding => "Conv2D(Padding: " ++ padding.label ++ ", Stride: " ++ dimText l.stride ++ ")"
  | .pooling type _ _ => type.short ++ " Pooling"
  | .flatten _ => "Flatten"
  | .dense _ => "Dense(Fully connected)"

end Layer
end LayerLoops
