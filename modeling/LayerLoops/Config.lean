import LayerLoops.Fault
import LayerLoops.Text.Blank

/-! # Generation settings

The settings that shape the generated code. Quantization to eight bits is selected by the detail of a mode
that includes single fixed-point types. -/

namespace LayerLoops

inductive DataMode
  | floating | fixedSingle | fixedMulti | all
  deriving DecidableEq, Repr

namespace DataMode

def label : DataMode → String
  | floating => "floating-point"
  | fixedSingle => "fixed-point-single"
  | fixedMulti => "fixed-point-multi"
  | all => "all-modes"

def values : List DataMode := [floating, fixedSingle, fixedMulti, all]

def ofLabel? (s : String) : Option DataMode := values.find? (·.label == s)

end DataMode

structure Config where
  dataMode : DataMode := .all
  dataDetail : String := ""
  biases : Bool := true
  /-- Products go through the multiplier that is chosen for each layer. -/
  approximate : Bool := false
  /-- One digit for each weighted layer: one selects the approximate multiplier. -/
  mask : String := ""
  multiplier : String := "base"
  faultSimulation : Bool := false
  /-- Calls that store intermediate values for analysis are emitted. -/
  capture : Bool := false
  /-- The only layer to emit, or zero for the whole network. -/
  singleLayer : Int := 0
  numberedLabels : Bool := false
  /-- The prologue for simulation is emitted. -/
  mainFunction : Bool := false
  networkName : String := ""
  /-- Where all buffers between layers are kept. -/
  bufferLocation : Option String := none
  loopOrders : List String := []
  poolingSeed : Option Int := none
  deriving DecidableEq, Repr

def optionError (message : String) (hint : Option String := none) : Diagnostic :=
  { stage := .option, code := .badOption, message, hint }

namespace Config

def floating (c : Config) : Bool := c.dataMode = .floating || c.dataMode = .all

def fixedSingle (c : Config) : Bool := c.dataMode = .fixedSingle || c.dataMode = .all

def fixedMulti (c : Config) : Bool := c.dataMode = .fixedMulti || c.dataMode = .all

def allModes (c : Config) : Bool := c.dataMode = .all

def quantized (c : Config) : Bool :=
  c.fixedSingle && ["eight-bit-int", "default_int8_t"].contains c.dataDetail

/-- Only one layer is emitted. -/
def isolated (c : Config) : Bool := c.singleLayer != 0

/-- The settings themselves if they make sense. -/
def checked (c : Config) : Except Diagnostic Config :=
  if c.singleLayer < 0 then
    .error (optionError s!"single-layer must be 0 or a 1-based layer index, got {c.singleLayer}")
  else if c.mask.toList.any fun d => d != '0' && d != '1' then
    .error (optionError ("approximate-multipliers-configuration may only contain '0' and '1', got " ++
      Text.quoted c.mask))
  else if c.bufferLocation.any fun s => (Text.strip s).isEmpty then
    .error (optionError "layer-data-location must not be empty")
  else .ok c

end Config
end LayerLoops
