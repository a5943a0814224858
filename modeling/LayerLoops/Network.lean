import LayerLoops.Fault

/-! # Networks

A network is a sequence of layers, and a layer is named by its number, counting from one. Number zero stands
for a layer outside the network. -/

namespace LayerLoops

structure Network where
  layers : List Layer := []
  deriving DecidableEq, Repr

namespace Network

def append (net : Network) (l : Layer) : Network := ⟨net.layers ++ [l]⟩

def size (net : Network) : Nat := net.layers.length

def numbered (net : Network) : List (Layer × Nat) := net.layers.zipIdx 1

def layer? (net : Network) (number : Int) : Option Layer :=
  if 1 ≤ number then net.layers[number.toNat - 1]? else none

def layer (net : Network) (number : Int) : Except Fault Layer :=
  match net.layer? number with
  | some l => .ok l
  | none => .error (.noSuchLayer number net.size)

/-- The layer at a position counted from zero, or from the end if it is negative. -/
def item (net : Network) (position : Int) : Except Fault Layer :=
  let p := if position < 0 then position + net.size else position
  match (if p < 0 then none else net.layers[p.toNat]?) with
  | some l => .ok l
  | none => .error .noSuchPosition

def predecessor? (net : Network) (number : Nat) : Option Layer :=
  if number ≤ 1 then none else net.layers[number - 2]?

def successor? (net : Network) (number : Nat) : Option Layer := net.layers[number]?

def isLast (net : Network) (number : Nat) : Bool := number == net.size

def weighted (net : Network) : List (Layer × Nat) := net.numbered.filter (·.1.weighted)

/-- The number of weighted layers before a layer. -/
def ordinal (net : Network) (number : Nat) : Nat :=
  ((net.layers.take (number - 1)).filter Layer.weighted).length

/-- The position of a layer among the weighted layers. -/
def weightIndex (net : Network) (number : Nat) (kind : Kind) : Except Fault Nat :=
  if 1 ≤ number ∧ kind.weighted then .ok (net.ordinal number) else .error (.noWeights number kind)

/-- The activation that the generated code applies: a final softmax is computed as a relu. -/
def emitted (net : Network) (number : Nat) (a : Activation) : Activation :=
  if a = .softmax ∧ net.isLast number then .relu else a

def emittedActivations (net : Network) : List Activation :=
  let used := net.numbered.map fun (l, n) => net.emitted n l.activation
  [.relu, .linear].filter used.contains

/-- How many layers there are of each kind, kinds in the order in which they first appear. -/
def kindCounts (net : Network) : List (Kind × Nat) :=
  let kinds := net.layers.map Layer.kind
  kinds.eraseDups.map fun k => (k, kinds.count k)

def columns : List String :=
  ["type", "", "padding", "filters", "k(rows)", "k(cols)", "activ", "nodes",
    "stride", "in_x", "in_y", "in_z", "out_x", "out_y", "out_z"]

end Network

def countCell : Option Int → Except Fault String
  | some n => if n = 0 then .ok "" else (writable n).map toString
  | none => .ok ""

def volumeCells : Option Volume → Except Fault (List String)
  | some v => v.writable.map fun v => [v.x, v.y, v.z].map toString
  | none => .ok ["", "", ""]

def Layer.cells (l : Layer) : Except Fault (List String) := do
  let kind := match l.form with
    | .pooling type _ _ => l.kind.label ++ "(" ++ type.short ++ ")"
    | _ => l.kind.label
  let padding := match l.form with
    | .conv _ _ p => if p = .none then "" else p.label
    | _ => ""
  let filters := match l.form with
    | .conv n _ _ | .pooling _ n _ => n
    | _ => none
  let nodes := match l.form with
    | .flatten n | .dense n => n
    | _ => none
  let activation := if l.activation = .none then "" else l.activation.label
  let filters ← countCell filters
  let rows ← countCell l.form.kernel.rows
  let cols ← countCell l.form.kernel.cols
  let nodes ← countCell nodes
  let stride ← countCell l.stride
  let input ← volumeCells l.input
  let output ← volumeCells l.output
  pure ([kind, "", padding, filters, rows, cols, activation, nodes, stride] ++ input ++ output)

def Network.dump (net : Network) : Except Fault String := do
  let rows ← net.layers.mapM Layer.cells
  let lines := "\t".intercalate columns :: "" :: rows.map "\t".intercalate
  pure ("\n".intercalate lines ++ "\n")

end LayerLoops
