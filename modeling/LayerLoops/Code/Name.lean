import LayerLoops.Layer

/-! # Names in generated code

The generated code names its types, buffers, loop variables and loop labels after the layers they belong to. -/

namespace LayerLoops.Code

/-- The place of a result: the end of the network, or the end of a layer inside it. -/
inductive Place
  | final
  | inner (number : Nat)
  deriving DecidableEq, Repr

def Place.text : Place → String
  | final => "output"
  | inner n => s!"Layer{n}"

/-- The types that the generated header defines. -/
inductive TypeName
  | wide
  | narrow
  | relu | input | weights | biases
  | result (p : Place)
  | narrowResult (p : Place)
  | sum (number : Nat)
  | inputZeroPoint | outputZeroPoint | inputScale | outputScale | weightScale
  deriving DecidableEq, Repr

def TypeName.text : TypeName → String
  | wide => "DataType"
  | narrow => "DataType_short"
  | relu => "DataType_relu"
  | input => "DataType_input"
  | weights => "DataType_weights"
  | biases => "DataType_biases"
  | result p => "DataType_" ++ p.text
  | narrowResult p => "DataType_" ++ p.text ++ "_short"
  | sum n => s!"DataType_temp_element{n}"
  | inputZeroPoint => "DataType_IZP"
  | outputZeroPoint => "DataType_OZP"
  | inputScale => "DataType_ISF"
  | outputScale => "DataType_OSF"
  | weightScale => "DataType_WSF"

/-- Arrays and scalars that hold numbers of the network. -/
inductive Buffer
  | inputs | outputs
  | between (number : Nat)
  | outputsBase
  | betweenBase (number : Nat)
  | weights (number : Nat)
  | biases (number : Nat)
  | weightScales (number : Nat)
  | inputZeroPoints | outputZeroPoints | inputScales | outputScales
  | sum (number : Nat)
  | cell | maximum
  deriving DecidableEq, Repr

def Buffer.text : Buffer → String
  | inputs => "inputs"
  | outputs => "outputs"
  | between n => s!"l{n}"
  | outputsBase => "outputs_base"
  | betweenBase n => s!"l{n}_base"
  | weights n => s!"weights_{n}"
  | biases n => s!"biases_{n}"
  | weightScales n => s!"weight_scales_{n}"
  | inputZeroPoints => "input_zero_points"
  | outputZeroPoints => "output_zero_points"
  | inputScales => "input_scale_factors"
  | outputScales => "output_scale_factors"
  | sum n => s!"temp_element{n}"
  | cell => "current_cell"
  | maximum => "max_value"

/-- Loop variables, and the two positions that a padded window computes. -/
inductive Index
  | outputX | outputY | outputZ | inputX | inputY | inputZ | kernelX | kernelY | row | column
  deriving DecidableEq, Repr

def Index.text : Index → String
  | outputX => "output_x"
  | outputY => "output_y"
  | outputZ => "output_z"
  | inputX => "input_x"
  | inputY => "input_y"
  | inputZ => "input_z"
  | kernelX => "kernel_x"
  | kernelY => "kernel_y"
  | row => "row_index"
  | column => "col_index"

/-- The axes that a layer is iterated over. -/
inductive Axis
  | oz | oy | ox | iz | ix | kx | ky
  deriving DecidableEq, Repr

namespace Axis

def name : Axis → String
  | oz => "oz"
  | oy => "oy"
  | ox => "ox"
  | iz => "iz"
  | ix => "ix"
  | kx => "kx"
  | ky => "ky"

def all : List Axis := [oz, oy, ox, iz, ix, kx, ky]

def ofName? (s : String) : Option Axis := all.find? (·.name == s)

theorem ofName?_name (a : Axis) : ofName? a.name = some a := by cases a <;> decide

/-- The loop variable of an axis; a flatten layer iterates over its input. -/
def index (k : Kind) : Axis → Index
  | oz => if k = .flatten then .inputZ else .outputZ
  | oy => if k = .flatten then .inputY else .outputY
  | ox => if k = .flatten then .inputX else .outputX
  | iz => .inputZ
  | ix => .inputX
  | kx => .kernelX
  | ky => .kernelY

def capitalized : Axis → String
  | oz => "Oz"
  | oy => "Oy"
  | ox => "Ox"
  | iz => "Iz"
  | ix => "Ix"
  | kx => "Kx"
  | ky => "Ky"

def suffix? : Kind → Axis → Option (String × String)
  | .conv, oz => some ("Oz", "")
  | .conv, oy => some ("Oy", "1")
  | .conv, ox => some ("Ox", "2")
  | .conv, iz => some ("Iz", "3")
  | .conv, kx => some ("Kx", "4")
  | .conv, ky => some ("Ky", "5")
  | .pooling, ox => some ("", "")
  | .pooling, oy => some ("1", "1")
  | .pooling, oz => some ("2", "2")
  | .pooling, kx => some ("3", "3")
  | .pooling, ky => some ("4", "4")
  | .flatten, ox => some ("Ix", "")
  | .flatten, oy => some ("Iy", "1")
  | .flatten, oz => some ("Iz", "2")
  | .dense, ox => some ("Ox", "")
  | .dense, ix => some ("Ix", "1")
  | _, _ => none

end Axis

/-- The label of a loop: the layer it belongs to and an end that tells its loops apart. -/
structure Label where
  number : Nat
  suffix : String
  deriving DecidableEq, Repr

/-- From the tenth layer on a letter separates the number from a numbered end. -/
def Label.text (l : Label) : String :=
  s!"for{l.number}" ++ (if l.number ≥ 10 then "t" else "") ++ l.suffix

end LayerLoops.Code
