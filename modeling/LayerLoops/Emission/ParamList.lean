import LayerLoops.Code.Piece
import LayerLoops.Emission.Site

/-! # The header of parameters

Declares the buffers of the host from which weights and quantization factors are taken. -/

namespace LayerLoops

open Code

namespace ParamList

/-- The source buffers of a layer; a layer without weights has untyped ones. -/
def sources (l : Layer) (n : Nat) (quantized : Bool) : Except Fault (List Line) := do
  if l.weighted then
    let weights ← l.weightDims
    let channels ← l.channelDim
    pure ([Line.source ⟨.weights, .weights n, weights⟩, .source ⟨.biases, .biases n, [channels]⟩] ++
      if quantized then [Line.source ⟨.weightScale, .weightScales n, [channels]⟩] else [])
  else
    pure ([Line.voidSource (.weights n), .voidSource (.biases n)] ++
      if quantized then [Line.voidSource (.weightScales n)] else [])

def layerPieces (l : Layer) (n : Nat) (quantized : Bool) : Except Fault (List Piece) := do
  let lines ← sources l n quantized
  pure (plainLines ["//" ++ l.kind.label] ++ lines.map .line ++ [Piece.blank 1])

def factors (net : Network) : List Piece :=
  let count := some (Int.ofNat net.weighted.length)
  [.line (.source ⟨.inputZeroPoint, .inputZeroPoints, [count]⟩),
    .line (.source ⟨.outputZeroPoint, .outputZeroPoints, [count]⟩),
    .line (.source ⟨.inputScale, .inputScales, [count]⟩),
    .line (.source ⟨.outputScale, .outputScales, [count]⟩), .blank 1]

def pieces (net : Network) (c : Config) : Except Fault (List Piece) := do
  let simulated ← if c.mainFunction then do
      let layers ← net.numbered.mapM fun (l, n) => layerPieces l n c.quantized
      let shared := if c.quantized then factors net else []
      pure [Piece.guarded { name := "_HLS_RUN", endNamed := true } (shared ++ layers.flatten), .blank 1]
    else pure []
  pure [.guarded { name := "_PARAM_LIST_H", endNamed := true }
    (plainLines ["#define _PARAM_LIST_H"] ++ [Piece.blank 1] ++ plainLines ["#include \"data-types.h\""] ++
      [Piece.blank 1] ++ simulated)]

def text (net : Network) (c : Config) : Except Fault String := do
  pure (render (piecesInstrs (← pieces net c)))

end ParamList
end LayerLoops
