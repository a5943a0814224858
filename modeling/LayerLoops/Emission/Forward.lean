import LayerLoops.Code.Piece
import LayerLoops.Emission.Pooling

/-! # The generated program

The main file has a prologue, the functions and macros that the network needs, the types of its input and
output, and the function that runs the network. -/

namespace LayerLoops

open Code

namespace Forward

def simulation : Guard := { name := "_HLS_RUN" }

def simulationNamed : Guard := { name := "_HLS_RUN", endNamed := true }

def lineIf (present : Bool) (text : String) : List Piece :=
  if present then plainLines [text] else []

def prologue (c : Config) : List Piece :=
  if !c.mainFunction then
    plainLines ["#define _HLS_RUN"] ++ [Piece.blank 1] ++ plainLines ["#include \"param-list.h\""] ++ [Piece.blank 2]
  else
    plainLines ["//#define _HLS_RUN"] ++ [Piece.blank 1,
      .guarded simulationNamed (plainLines ["#include \"stdlib.h\"", "#include \"stdio.h\"",
        "#include \"time.h\"", "#include <typeinfo>", "#include <thread>"]), .blank 1] ++
    plainLines ["#include \"param-list.h\""] ++
    [Piece.guardedElse simulation
      (plainLines ["#include \"fixed-point-analysis.h\""] ++
        lineIf c.faultSimulation "#include \"fault_simulation.h\"" ++
        lineIf c.quantized "#include \"quantization.h\"" ++
        lineIf c.capture "int RunCounter = 0;" ++
        lineIf c.capture ("#define STORE_DATA(p1, p2, p3, p4, p5, p6) " ++
          "\x7bStoreData(p1, p2, p3, RunCounter < 1, p4, p5, p6);\x7d") ++
        plainLines ["extern map<string, string> arguments;"])
      (lineIf c.capture "#define STORE_DATA(p1, p2, p3, p4, p5, p6)" ++
        lineIf c.quantized ("void quantize_layer_output(void *layer_data_base, " ++
          "void *layer_data_quantized, int size, int config = 0) \x7b\x7d;") ++
        lineIf c.faultSimulation ("void fault_injection(void *activation, int current_layer, " ++
          "int faulty_layer, int faulty_fmap, int faulty_bit) \x7b\x7d;")),
      .blank 1,
      .guarded simulationNamed (plainLines ["#include \"datainterface.h\"", "#include \"paraminterface.h\""] ++
        [Piece.guarded { name := "__linux__", endNamed := true }
          (plainLines ["#pragma warning(disable: 4102) //To suppress unused label warnings"])]),
      .blank 2]

def activationFunction : Activation → List Piece
  | .relu => [.function "DataType_relu relu(DataType_relu x)" "return x > 0 ? x : (DataType_relu)0;"]
  | .linear => [.function "DataType_relu linear(DataType_relu x)" "return x;"]
  | .none | .softmax => []

def activationFunctions (net : Network) : List Piece :=
  let used := net.emittedActivations
  if used.isEmpty then [] else [Piece.blank 1].intercalate (used.map activationFunction) ++ [Piece.blank 1]

def quantizationMacros (c : Config) : List Piece :=
  if c.quantized then
    plainLines ["#define Q_MAX(x, y) (x>y?x:y)", "#define Q_MIN(x, y) (x>y?y:x)",
      "#define Q_MIN_MAX(x) ( Q_MIN(Q_MAX(x, -128), 127) )"] ++ [Piece.blank 1]
  else []

def multiplierName (type : String) : String :=
  if type = "base" then "MULTIPLIER_BASE"
  else if type = "exact" then "MULTIPLIER_EXACT"
  else type

/-- The multiplier of each weighted layer. Outside synthesis it is looked up when the program runs; under
synthesis the mask picks the approximate or the exact one. -/
def multipliers (net : Network) (c : Config) : List Piece :=
  if !c.approximate then []
  else
    let numbers := net.weighted.map (·.2)
    let chosen := (multiplierMask net c).zip numbers
    plainLines ["#include \"multipliers.h\""] ++ [Piece.blank 1] ++
    plainLines ["#define MULTIPLIER_BASE mul_base", "#define MULTIPLIER_EXACT mul8s_1KV6"] ++ [Piece.blank 1] ++
    plainLines ["#define MULTIPLIER_NAME " ++ multiplierName c.multiplier] ++ [Piece.blank 1] ++
    [Piece.guardedElse { name := "_HLS_RUN", elseNamed := true, endNamed := true }
      (plainLines ["#define MUL_LAYER(a, b, layer_id) (mul_general<int16_t>(a, b, layer_id, " ++
          "arguments[\"mul-name\"], arguments[\"mul-layers-config\"]))"] ++
        numbers.map fun n => Piece.line (.multiplierCall n))
      (chosen.map (fun (bit, n) => Piece.line (.multiplierChoice n false (bit == '1'))) ++
        chosen.map (fun (bit, n) => Piece.line (.multiplierChoice n true (bit != '1')))),
      .blank 1]

/-- The layers that are emitted, with their numbers. -/
def emittedLayers (net : Network) (c : Config) : Except Fault (List (Layer × Nat)) :=
  if c.isolated then do
    let l ← net.layer c.singleLayer
    pure [(l, c.singleLayer.toNat)]
  else .ok net.numbered

def interfaceTypes (c : Config) (first last : Layer) : Except Fault (List Line) := do
  let i ← first.inputDims
  let o ← last.outputDims
  let result := if c.quantized then TypeName.narrowResult .final else .result .final
  pure [.arrayTypedef .input "InputType" i, .arrayTypedef result "OutputType" o]

def factorGroups (net : Network) : Except Fault (List Group) := do
  let count := [some (Int.ofNat net.weighted.length)]
  let scales ← net.weighted.mapM fun (l, n) => do
    pure (Declaration.mk .weightScale (.weightScales n) [← l.channelDim])
  pure [.declared [⟨.inputZeroPoint, .inputZeroPoints, count⟩, ⟨.outputZeroPoint, .outputZeroPoints, count⟩,
    ⟨.inputScale, .inputScales, count⟩, ⟨.outputScale, .outputScales, count⟩] true, .declared scales true]

/-- The parameters that hold the weights and biases of a layer. Those of a layer that is not emitted stand in
a comment. -/
def weightGroup (c : Config) (l : Layer) (n : Nat) : Except Fault Group := do
  let weights ← l.weightDims
  let biases ← if c.biases then do
      pure [Declaration.mk .biases (.biases n) [← l.channelDim]]
    else pure []
  pure (.declared (⟨.weights, .weights n, weights⟩ :: biases) (!c.isolated || c.singleLayer == n))

def site (net : Network) (c : Config) (orders : List LoopOrder) (profile : String) (l : Layer) (n : Nat) :
    Except Fault Site := do
  let placement ← bufferPlacement n profile c.bufferLocation
  pure { net, number := n, layer := l, config := c
         order := orders[n - 1]?.getD (.canonical l.kind), isLocal := placement == localPlacement }

/-- The parameter for the buffer behind a layer. A buffer that is local stands in a comment. -/
def bufferGroup (s : Site) : Except Fault Group := do
  pure (.declared [⟨s.outputType, .between s.number, ← s.layer.outputDims⟩] (!s.isLocal))

def groups (net : Network) (c : Config) (orders : List LoopOrder) (profile : String) :
    Except Fault (List Group) := do
  let faults := if c.faultSimulation then [Group.faults] else []
  let factors ← if c.quantized && !net.weighted.isEmpty then factorGroups net else pure []
  let weights ← net.weighted.mapM fun (l, n) => weightGroup c l n
  let buffers ← if c.isolated then pure [] else
    net.numbered.dropLast.mapM fun (l, n) => do bufferGroup (← site net c orders profile l n)
  pure (faults ++ factors ++ weights ++ buffers)

/-- The loops that store the input for analysis. -/
def inputCapture (c : Config) (l : Layer) (n : Nat) : Except Fault (List Tree) := do
  if !c.capture then pure []
  else
    let v ← l.inputFor "x"
    let x : Head := { index := .inputX, bound := ← writableDim (some v.x) }
    let nowhere := Site.nowhere
    let loops ← if l.kind = .dense then
        pure (Site.nest [x] [.stmt (.store n "inputs" ⟨.inputs, [.index .inputX]⟩ (.index .inputX) nowhere nowhere)])
      else do
        let y : Head := { index := .inputY, bound := ← writableDim (some v.y) }
        let z : Head := { index := .inputZ, bound := ← writableDim (some v.z) }
        pure (Site.nest [x, y, z] [.stmt (.store n "inputs"
          ⟨.inputs, [.index .inputX, .index .inputY, .index .inputZ]⟩
          (.index .inputX) (.index .inputY) (.index .inputZ))])
    pure [.simulated loops, .blank, .blank]

def separator (c : Config) (n : Nat) : List Tree :=
  if c.faultSimulation then [.blank, .stmt (.injectFault n), .blank] else [.blank, .blank]

def layersCode (net : Network) (c : Config) (orders : List LoopOrder) (profile : String) :
    List (Layer × Nat) → Except Fault (List Tree)
  | [] => .ok []
  | (l, n) :: rest => do
    let s ← site net c orders profile l n
    let code ← s.code
    let more ← layersCode net c orders profile rest
    pure (code ++ (if rest.isEmpty then [] else separator c n) ++ more)

end Forward

/-- The parts of the main file. -/
structure Program where
  prologue : List Piece
  macros : List Piece
  types : List Line
  parameters : List Group
  body : List Tree
  /-- The number of layers in the body. -/
  layerCount : Nat

namespace Program

def instrs (p : Program) : List Instr :=
  piecesInstrs (p.prologue ++ p.macros) ++ p.types.map (fun l => Instr.line l.text) ++ [Instr.blank 1] ++
    [Instr.line "void forward(InputType inputs, OutputType &outputs", .extend (p.parameters.map Group.text),
      .line ")", .block "" (instrsAll p.body)]

def text (p : Program) : String := render p.instrs

end Program

open Forward in
/-- The program of a network, with one loop order for each layer. -/
def Network.program (net : Network) (c : Config) (orders : List LoopOrder) (profile : String) :
    Except Fault Program := do
  if orders.length ≠ net.size then throw (.orderCount orders.length net.size)
  let layers ← emittedLayers net c
  match layers.head?, layers.getLast? with
  | some (first, n), some (last, _) =>
    let types ← interfaceTypes c first last
    let parameters ← groups net c orders profile
    let capture ← inputCapture c first n
    let code ← layersCode net c orders profile layers
    pure {
      prologue := prologue c
      macros := activationFunctions net ++ quantizationMacros c ++ multipliers net c
      types, parameters, body := capture ++ code, layerCount := layers.length }
  | _, _ => throw .noSuchPosition

end LayerLoops
