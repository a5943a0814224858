import LayerLoops.Fault

/-! # Extents of windowed layers

How many positions a window of `kernel` cells takes along an axis of `size` cells when it moves by `stride`
cells: inside the axis only, or over a margin that centres an odd window on every cell. Divisions round down,
and a stride of zero divides nothing. -/

namespace LayerLoops.Extent

/-- Positions of a window that stays inside the axis. -/
def valid (size kernel stride : Int) : Int := (size - kernel).fdiv stride + 1

/-- The margin on each side of the axis. -/
def margin (kernel : Int) : Int := (kernel - 1).fdiv 2

/-- What the window leaves of the axis with both margins. -/
def slack (size kernel : Int) : Int := size + 2 * margin kernel - kernel

/-- Positions of a window that may reach into the margins. -/
def same (size kernel stride : Int) : Int :=
  if stride = 1 then size else (slack size kernel).fdiv stride + 1

/-- The last window ends before the end of the axis with its margin. -/
def unaligned (size kernel stride : Int) : Bool :=
  stride != 1 && (slack size kernel).fmod stride != 0

def valid? (size kernel stride : Int) : Except Fault Int :=
  if stride = 0 then .error .divisionByZero else .ok (valid size kernel stride)

def same? (size kernel stride : Int) : Except Fault Int :=
  if stride = 0 then .error .divisionByZero else .ok (same size kernel stride)

def unaligned? (size kernel stride : Int) : Except Fault Bool :=
  if stride = 0 then .error .remainderByZero else .ok (unaligned size kernel stride)

end LayerLoops.Extent
