import LayerLoops.Options.MemberOrder
import LayerLoops.Options.Yaml.Atom
import LayerLoops.Options.Yaml.Graph

/-! # What a YAML document means

The values of the nodes of a document are made from the outside inwards: first the collections of one depth are
filled, in the order in which they stand, and then those that are part of them. Of two entries with the same
key the last one counts, and entries that are taken from another mapping count less than a mapping's own. -/

namespace LayerLoops.Options.Yaml

/-- What a node stands for. The parts of a collection are given by the numbers of their nodes. -/
inductive Object
  | atom (v : Value)
  | list (items : List Nat)
  | pairs (items : List (Nat × Nat))
  | set (items : List Value)
  | map (entries : List (Value × Nat))
  deriving Repr

structure Builder where
  nodes : Array Node
  objects : Array (Option Object)
  /-- The collections that are still to be filled. -/
  pending : List Nat := []

abbrev Build := StateT Builder (Except Refusal)

namespace Build

def illFormed {α : Type} : Build α := throw .illFormed

def endless {α : Type} : Build α := throw (.fault .endless)

def node (number : Nat) : Build Node := do
  match (← get).nodes[number]? with
  | some n => pure n
  | none => illFormed

def setObject (number : Nat) (o : Object) : Build Unit :=
  modify fun b => { b with objects := b.objects.set! number (some o) }

def setShape (number : Nat) (shape : Shape) : Build Unit :=
  modify fun b => { b with nodes := b.nodes.modify number ({ · with shape }) }

def setTag (number : Nat) (tag : Tag) : Build Unit :=
  modify fun b => { b with nodes := b.nodes.modify number ({ · with tag }) }

def entries (number : Nat) : Build (List (Nat × Nat)) := do
  match (← node number).shape with
  | .mapping es => pure es
  | _ => illFormed

/-- The text of a scalar. A mapping may have an entry that stands for it. -/
def scalarText (fuel number : Nat) : Build String := do
  match fuel with
  | 0 => endless
  | fuel + 1 =>
    match (← node number).shape with
    | .scalar s => pure s
    | .sequence _ => illFormed
    | .mapping es =>
      let tagged ← es.mapM fun (k, v) => do pure ((← node k).tag, v)
      match tagged.lookup .value with
      | some v => scalarText fuel v
      | none => illFormed

def atomOf (number : Nat) (n : Node) : Build Value := do
  let text ← scalarText ((← get).nodes.size + 1) number
  match n.tag, n.shape with
  | .time, .mapping _ => throw (.fault (.notLine "list"))
  | _, _ => atom n.tag text

/-- Makes what a node stands for, if that is not made yet. A collection is empty at first. -/
def make (number : Nat) : Build Unit := do
  match (← get).objects[number]? with
  | some none =>
    let n ← node number
    let collection (empty : Object) : Build Unit := do
      setObject number empty
      modify fun b => { b with pending := b.pending ++ [number] }
    match n.tag with
    | .sequence => collection (.list [])
    | .mapping => collection (.map [])
    | .set => collection (.set [])
    | .orderedMap | .pairs => collection (.pairs [])
    | .merge | .value | .unknown => illFormed
    | _ => setObject number (.atom (← atomOf number n))
  | _ => pure ()

/-- The value of a node that is a key. Collections cannot be keys. -/
def keyOf (number : Nat) : Build Value := do
  make number
  match (← get).objects[number]? with
  | some (some (.atom v)) => pure v
  | _ => illFormed

mutual

/-- Puts the entries that a mapping takes from others in front of its own, from an entry on. `taken` are those
that were found before. -/
def flattenFrom (fuel number index : Nat) (taken : List (Nat × Nat)) : Build (List (Nat × Nat)) :=
  match fuel with
  | 0 => endless
  | fuel + 1 => do
    let es ← entries number
    match es[index]? with
    | none => pure taken
    | some (k, v) =>
      match (← node k).tag with
      | .merge =>
        setShape number (.mapping (es.eraseIdx index))
        let found ← mergedFrom fuel v
        flattenFrom fuel number index (taken ++ found)
      | .value =>
        setTag k .text
        flattenFrom fuel number (index + 1) taken
      | _ => flattenFrom fuel number (index + 1) taken

def flatten (fuel number : Nat) : Build Unit :=
  match fuel with
  | 0 => endless
  | fuel + 1 => do
    let taken ← flattenFrom fuel number 0 []
    if !taken.isEmpty then setShape number (.mapping (taken ++ (← entries number)))

/-- The entries that a merge takes from a mapping, or from several of which the first counts most. -/
def mergedFrom (fuel number : Nat) : Build (List (Nat × Nat)) :=
  match fuel with
  | 0 => endless
  | fuel + 1 => do
    match (← node number).shape with
    | .mapping _ => flattened fuel number
    | .sequence items => do
      let parts ← mergedParts fuel items
      pure parts.reverse.flatten
    | .scalar _ => illFormed

def mergedParts (fuel : Nat) : List Nat → Build (List (List (Nat × Nat)))
  | [] => pure []
  | item :: rest => do
    match fuel, (← node item).shape with
    | fuel + 1, .mapping _ => do
      let part ← flattened fuel item
      pure (part :: (← mergedParts fuel rest))
    | _, _ => illFormed

def flattened (fuel number : Nat) : Build (List (Nat × Nat)) :=
  match fuel with
  | 0 => endless
  | fuel + 1 => do
    flatten fuel number
    entries number

end

/-- Every step of a merge passes an entry, or takes one away and goes to another node. -/
def flattenFuel (nodes : Array Node) : Nat :=
  let size := nodes.foldl (fun n node => match node.shape with
    | .mapping es => n + es.length + 1
    | .sequence items => n + items.length + 1
    | .scalar _ => n + 1) 1
  5 * (size + 1) * (size + 1)

def mapEntries (number : Nat) : Build (List (Value × Nat)) := do
  match (← node number).shape with
  | .mapping _ =>
    flatten (flattenFuel (← get).nodes) number
    (← entries number).foldlM (fun done (k, v) => do
      let key ← keyOf k
      make v
      pure (insertKey key v done)) []
  | _ => illFormed
where
  insertKey (key : Value) (v : Nat) : List (Value × Nat) → List (Value × Nat)
    | [] => [(key, v)]
    | (k, w) :: rest => if k.sameKey key then (k, v) :: rest else (k, w) :: insertKey key v rest

/-- The pair in an entry of a sequence: a mapping with one entry. -/
def pairOf (number : Nat) : Build (Nat × Nat) := do
  match (← node number).shape with
  | .mapping [(k, v)] =>
    make k
    make v
    pure (k, v)
  | _ => illFormed

def fill (number : Nat) : Build Unit := do
  let n ← node number
  match n.tag, n.shape with
  | .sequence, .sequence items =>
    discard (items.mapM make)
    setObject number (.list items)
  | .mapping, _ => setObject number (.map (← mapEntries number))
  | .set, _ => setObject number (.set (memberOrder ((← mapEntries number).map (·.1))))
  | .orderedMap, .sequence items | .pairs, .sequence items =>
    setObject number (.pairs (← items.mapM pairOf))
  | _, _ => illFormed

def fillAll : (fuel : Nat) → Build Unit
  | 0 => pure ()
  | fuel + 1 => do
    let batch := (← get).pending
    if batch.isEmpty then pure ()
    else
      modify fun b => { b with pending := [] }
      discard (batch.mapM fill)
      fillAll fuel

end Build

/-- A document: nothing that counts as a value, the entries of a mapping, or any other value. -/
inductive Document
  | empty
  | entries (es : Entries)
  | other

namespace Object

mutual

/-- The value that a node stands for. A collection that contains itself is deeper than any number. -/
def value (objects : Array (Option Object)) (fuel number : Nat) : Except Refusal Value :=
  match fuel with
  | 0 => .error (.fault .endless)
  | fuel + 1 => match objects[number]? with
    | some (some (.atom v)) => .ok v
    | some (some (.list items)) => do pure (.list (← values objects fuel items))
    | some (some (.pairs items)) => do pure (.list (← pairValues objects fuel items))
    | some (some (.set items)) => .ok (.set items)
    | some (some (.map es)) => do pure (.map (← entryValues objects fuel es))
    | _ => .error .illFormed

def values (objects : Array (Option Object)) (fuel : Nat) : List Nat → Except Refusal (List Value)
  | [] => .ok []
  | n :: ns => match fuel with
    | 0 => .error (.fault .endless)
    | fuel + 1 => do
      let v ← value objects fuel n
      pure (v :: (← values objects (fuel + 1) ns))

def pairValues (objects : Array (Option Object)) (fuel : Nat) : List (Nat × Nat) → Except Refusal (List Value)
  | [] => .ok []
  | (a, b) :: rest => match fuel with
    | 0 => .error (.fault .endless)
    | fuel + 1 => do
      let first ← value objects fuel a
      let second ← value objects fuel b
      pure (.pair first second :: (← pairValues objects (fuel + 1) rest))

def entryValues (objects : Array (Option Object)) (fuel : Nat) : List (Value × Nat) → Except Refusal Entries
  | [] => .ok []
  | (k, n) :: rest => match fuel with
    | 0 => .error (.fault .endless)
    | fuel + 1 => do
      let v ← value objects fuel n
      pure ((k, v) :: (← entryValues objects (fuel + 1) rest))

end

def document (objects : Array (Option Object)) : Object → Except Refusal Document
  | atom v => .ok (if v.isSet then .other else .empty)
  | list items => .ok (if items.isEmpty then .empty else .other)
  | pairs items => .ok (if items.isEmpty then .empty else .other)
  | set items => .ok (if items.isEmpty then .empty else .other)
  | map [] => .ok .empty
  | map es => do pure (.entries (← entryValues objects (2 * objects.size + 2) es))

end Object

def isAllowed (n : Nat) : Bool :=
  n = 9 || n = 10 || n = 13 || (32 ≤ n && n ≤ 126) || n = 0x85 ||
    (0xA0 ≤ n && n ≤ 0xFFFD && !Text.isHalf n) || 0x10000 ≤ n

def meaning (nodes : Array Node) (root : Nat) : Except Refusal Document := do
  let build : Build Unit := do
    Build.make root
    Build.fillAll (nodes.size + 1)
  let (_, b) ← build.run { nodes, objects := Array.replicate nodes.size none }
  match b.objects[root]? with
  | some (some o) => o.document b.objects
  | _ => .error .illFormed

def read (text : List Char) : Except Refusal Document := do
  if !(Text.codes text).all isAllowed then .error .illFormed
  else
    let (tokens, refusal) := tokens text
    let (root, d) ← document.run { tokens, refusal }
    match root with
    | none => pure .empty
    | some root => meaning d.nodes root

end LayerLoops.Options.Yaml
