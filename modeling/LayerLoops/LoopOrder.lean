import LayerLoops.Journal
import LayerLoops.Network
import LayerLoops.Text.Blank
import LayerLoops.Text.Lines
import LayerLoops.Text.Lowercase

/-! # Loop orders

A loop order lists the axes of a layer, outermost first, with dashes between them. Each kind of layer has a
canonical order; `default`, `*` and the empty text select it. An order that does not fit its layer is replaced
by the canonical one with a warning, so that normalizing never fails. -/

namespace LayerLoops

def Kind.canonicalAxes : Kind → List String
  | conv => ["oz", "oy", "ox", "iz", "kx", "ky"]
  | pooling => ["oz", "oy", "ox", "kx", "ky"]
  | flatten => ["oz", "oy", "ox"]
  | dense => ["ox", "ix"]

structure LoopOrder where
  kind : Kind
  axes : List String
  deriving DecidableEq, Repr

def splitAtChar (sep : Char) : List Char → List (List Char)
  | [] => [[]]
  | c :: cs =>
    if c = sep then [] :: splitAtChar sep cs
    else match splitAtChar sep cs with
      | first :: rest => (c :: first) :: rest
      | [] => [[c]]

def dashed (text : String) : List String :=
  (splitAtChar '-' text.toList).map String.ofList

namespace LoopOrder

def canonical (k : Kind) : LoopOrder := ⟨k, k.canonicalAxes⟩

def ofText (k : Kind) (text : String) : LoopOrder := ⟨k, dashed text⟩

def text (o : LoopOrder) : String := "-".intercalate o.axes

def isCanonical (o : LoopOrder) : Bool := o.axes == o.kind.canonicalAxes

def middle (o : LoopOrder) : List String := (o.axes.drop 1).take (o.axes.length - 3)

def axesOf (text : String) : List String :=
  (dashed (Text.lower (Text.strip text))).map Text.strip

def isMarker (text : String) : Bool :=
  ["default", "*", ""].contains (Text.lower (Text.strip text))

/-- Why an order does not fit a kind of layer. -/
inductive Misfit
  | count (expected given : Nat)
  | unknown (axes : List String)
  | repeated
  | outermost
  | innermost
  | reduction
  deriving DecidableEq, Repr

def Misfit.text : Misfit → String
  | count expected given => s!"expected {expected} axes, got {given}"
  | unknown axes => "unknown axes " ++ ", ".intercalate axes
  | repeated => "axes repeat"
  | outermost => "only oz is supported as the outermost loop"
  | innermost => "the order must end with kx-ky"
  | reduction => "Dense has a single reduction axis and supports only ox-ix"

/-- The first reason why axes do not fit a kind of layer. -/
def misfit? (k : Kind) (axes : List String) : Option Misfit :=
  let canonical := k.canonicalAxes
  let unknown := axes.filter (!canonical.contains ·)
  if axes.length ≠ canonical.length then some (.count canonical.length axes.length)
  else if !unknown.isEmpty then some (.unknown unknown)
  else if ¬ axes.Nodup then some .repeated
  else if k = .conv ∧ axes.head? ≠ some "oz" then some .outermost
  else if (k = .conv ∨ k = .pooling) ∧ axes.drop (axes.length - 2) ≠ ["kx", "ky"] then some .innermost
  else if k = .dense ∧ axes ≠ canonical then some .reduction
  else none

def check (k : Kind) (text : String) : Option Misfit := misfit? k (axesOf text)

def normalize (number : Nat) (k : Kind) (l : Option Location) (text : Option String) :
    Step LoopOrder :=
  match text with
  | none => pure (canonical k)
  | some text =>
    if isMarker text then pure (canonical k)
    else match check k text with
      | none => pure ⟨k, axesOf text⟩
      | some reason => do
        Step.warn {
          code := .orderReplaced
          message := "loop order '" ++ text ++ s!"' of layer {number} ({k.label}) ignored: " ++
            reason.text ++ "; using '" ++ (canonical k).text ++ "'"
          location := l }
        pure (canonical k)

/-- The orders of layers from number `number` on, for as many texts. -/
def normalizeFrom (number : Nat) : List Layer → List (Option String) → Step (List LoopOrder)
  | [], _ => pure []
  | l :: ls, texts => do
    let o ← normalize number l.kind l.location (texts.head?.join)
    let os ← normalizeFrom (number + 1) ls texts.tail
    pure (o :: os)

/-- One order for each layer. A list of texts of another length is ignored as a whole. -/
def normalizeAll (net : Network) (texts : List String) : Step (List LoopOrder) := do
  let ignored := !texts.isEmpty && texts.length != net.size
  if ignored then
    Step.warn {
      code := .ordersIgnored
      message := s!"loop-orders ignored: {texts.length} order(s) given for {net.size} layer(s)" }
  let os ← normalizeFrom 1 net.layers (if ignored then [] else texts.map some)
  Step.tell (.ordered (os.map LoopOrder.text))
  pure os

/-- Splits texts joined by number signs or line breaks, and drops the empty ones. -/
def splitTexts (s : String) : List String :=
  let cs := s.toList.map fun c => if c = '#' then '\n' else c
  ((Text.lineChars cs).map Text.stripChars).filter (!·.isEmpty) |>.map String.ofList

end LoopOrder

/-- What the order of a convolution asks to be kept while it sums: one number, one number per element of the
spatial axis inside the channel loop, or one number per element of both spatial axes. -/
inductive Accumulator
  | scalar | vector | tile
  deriving DecidableEq, Repr

namespace Accumulator

def rank : Accumulator → Nat
  | scalar => 1
  | vector => 2
  | tile => 3

def label : Accumulator → String
  | scalar => "SCALAR"
  | vector => "VECTOR"
  | tile => "TILE"

/-- The accumulators for the axes between the outermost one and the two innermost ones. -/
def table : List (List String × Accumulator) :=
  [(["oy", "ox", "iz"], scalar), (["ox", "oy", "iz"], scalar), (["ox", "iz", "oy"], vector),
    (["oy", "iz", "ox"], vector), (["iz", "ox", "oy"], tile), (["iz", "oy", "ox"], tile)]

end Accumulator

def LoopOrder.accumulator? (o : LoopOrder) : Option Accumulator :=
  if o.kind = .conv then Accumulator.table.lookup o.middle else none

def LoopOrder.unsupported (o : LoopOrder) (layer : Option (Nat × Option Location)) : Diagnostic :=
  let place := match layer with
    | some (number, _) => s!" of layer {number}"
    | none => ""
  let orders := Accumulator.table.map fun (middle, _) => "oz-" ++ "-".intercalate middle ++ "-kx-ky"
  { stage := .generation, code := .badLoopOrder
    message := "unsupported loop order '" ++ o.text ++ "'" ++ place
    location := layer.bind (·.2)
    hint := "Supported Conv2D orders: " ++ ", ".intercalate orders }

def LoopOrder.accumulator (o : LoopOrder) (layer : Option (Nat × Option Location)) :
    Except Diagnostic Accumulator :=
  match o.accumulator? with
  | some a => .ok a
  | none => .error (o.unsupported layer)

end LayerLoops
