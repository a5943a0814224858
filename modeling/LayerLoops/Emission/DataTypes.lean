import LayerLoops.Code.Piece
import LayerLoops.Config
import LayerLoops.Placement

/-! # The header of data types

Defines every type that the generated function refers to, once for each enabled mode. -/

namespace LayerLoops

open Code

namespace DataTypes

def place (net : Network) (number : Nat) : Place :=
  if net.isLast number then .final else .inner number

/-- The header of fixed-point types, with warnings off around it where the compiler may have them. -/
def fixedInclude (c : Config) : List Piece :=
  let around (pragma : String) : List Piece :=
    if c.mainFunction then [.guarded { name := "__linux__" } (plainLines [pragma])] else []
  around "#pragma warning(push, 0)" ++ plainLines ["#include <ap_fixed.h>"] ++
    around "#pragma warning(pop)" ++ [Piece.blank 1]

def sizes (profile : String) : List Piece :=
  let (width, integer) := Profile.fixedPointSize profile
  [.line (.size "FX_SIZE_W" width), .line (.size "FX_SIZE_I" integer)]

def typedef (m : Meaning) (t : TypeName) : Piece := .line (.typedef m t)

/-- The types of one meaning for each layer: of its sum if it has one, and of its result. -/
def uniform (net : Network) (m : Meaning) : List Piece :=
  net.numbered.flatMap fun (l, n) =>
    (if l.weighted then [Piece.blank 1, typedef m (.sum n)] else []) ++ [typedef m (.result (place net n))]

def floating (net : Network) : List Piece :=
  [typedef .float .relu, .blank 1, typedef .float .input, typedef .float .biases,
    typedef .float .weights] ++ uniform net .float

def singleLayer (net : Network) (c : Config) (l : Layer) (n : Nat) : List Piece :=
  let p := place net n
  let wide := Meaning.named .wide
  let narrow := Meaning.named .narrow
  [Piece.blank 1] ++
    (if l.weighted then [typedef wide (.sum n), typedef wide (.result p)]
      else if c.quantized then [typedef narrow (.result p)]
      else [typedef wide (.result p)]) ++
    (if c.quantized then [typedef narrow (.narrowResult p)] else [])

def fixedSingle (net : Network) (c : Config) (profile : String) : List Piece :=
  let wide := Meaning.named .wide
  let narrow := Meaning.named .narrow
  let head := if c.quantized then
      let full := if profile = Profile.alexnet ∧ c.dataDetail = "eight-bit-int" then Meaning.int32 else .int64
      plainLines ["#include <stdint.h>"] ++ [Piece.blank 1, typedef .int8 .narrow, typedef full .wide]
    else fixedInclude c ++ sizes profile ++ [Piece.blank 1,
      .line (.typedef (.fixed false) .wide " //Total: FX_SIZE_W bits, integer: FX_SIZE_I bits")]
  let small := if c.quantized then narrow else wide
  let tail := if c.quantized then
      [Piece.blank 1] ++ plainLines ["#define QUANTIZATION_FACTORS"] ++
        [typedef narrow .inputZeroPoint, typedef narrow .outputZeroPoint, typedef .float .inputScale,
          typedef .float .outputScale, typedef .float .weightScale]
    else []
  head ++ [Piece.blank 1, typedef wide .relu, .blank 1, typedef small .input, typedef small .weights,
    typedef wide .biases] ++ net.numbered.flatMap (fun (l, n) => singleLayer net c l n) ++ tail

def fixedMulti (net : Network) (c : Config) (profile : String) : List Piece :=
  let fixed := Meaning.fixed true
  fixedInclude c ++ sizes profile ++ [Piece.blank 1, typedef fixed .relu, .blank 1, typedef fixed .input,
    typedef fixed .weights, typedef fixed .biases] ++ uniform net fixed

/-- The enabled modes with the names that select them. -/
def modes (net : Network) (c : Config) (profile : String) : List (String × List Piece) :=
  (if c.floating then [("FLOAT_DATATYPE", floating net)] else []) ++
    (if c.fixedSingle then [("FIXEDPOINT_DATATYPE_SINGLE", fixedSingle net c profile)] else []) ++
    (if c.fixedMulti then [("FIXEDPOINT_DATATYPE_MULTI", fixedMulti net c profile)] else [])

def pieces (net : Network) (c : Config) (profile : String) : List Piece :=
  let selectors := if c.allModes then
      plainLines ["#define FLOAT_DATATYPE", "//#define FIXEDPOINT_DATATYPE_SINGLE",
        "//#define FIXEDPOINT_DATATYPE_MULTI"] ++ [Piece.blank 1]
    else []
  let algorithm := if c.mainFunction && (c.fixedSingle || c.fixedMulti) && !c.quantized then
      [Piece.guarded { name := "_MSC_VER", defined := true } (plainLines ["#include <algorithm>"]), .blank 1]
    else []
  let sections := (modes net c profile).flatMap fun (selector, body) =>
    (if c.allModes then [Piece.guarded { name := selector, defined := true } body] else body) ++ [Piece.blank 1]
  [.guarded { name := "_DATA_TYPES_H", endNamed := true }
    (plainLines ["#define _DATA_TYPES_H"] ++ [Piece.blank 1] ++ selectors ++ algorithm ++ sections)]

def text (net : Network) (c : Config) (profile : String) : String :=
  render (piecesInstrs (pieces net c profile))

end DataTypes
end LayerLoops
