import LayerLoops.Journal
import LayerLoops.Network

/-! # Network profiles and buffer placement

Some networks are known by name, or are recognised by their size. A profile sets the widths of fixed-point
types and where the buffers between layers are kept. -/

namespace LayerLoops

namespace Profile

def lenet : String := "lenet"

def alexnet : String := "alexnet"

def vgg : String := "vgg"

def vggScaled : String := "vgg-scalehls"

def fixedPointSize (profile : String) : Nat × Nat :=
  if profile = lenet then (16, 7)
  else if profile = vgg then (26, 16)
  else if profile = vggScaled then (8, 8)
  else (16, 16)

end Profile

/-- The profile that a network of `count` layers with an input of width `width` looks like. -/
def Profile.ofSize (count : Nat) (width : Option Int) : String :=
  if count < 10 then Profile.lenet
  else if width = some 32 ∧ count > 14 then Profile.vggScaled
  else if width = some 32 ∧ count = 13 then Profile.alexnet
  else if count > 14 then Profile.vgg
  else ""

/-- The profile of a network; a name that is given wins. -/
def Network.profile (net : Network) (name : String) : Step String :=
  if name ≠ "" then pure name
  else do
    let guess := Profile.ofSize net.size ((net.layers.head?.bind Layer.input).map Volume.x)
    Step.tell (.guessed net.size guess)
    pure guess

def localPlacement : String := "local"

def portPlacement : String := "port"

def bufferPlacement (number : Int) (profile : String) (override : Option String) :
    Except Fault String :=
  if number < 0 then .error (.negativeNumber number)
  else match override with
    | some "" | none => .ok (if profile = Profile.vgg then portPlacement else localPlacement)
    | some place => .ok place

end LayerLoops
