import LayerLoops.Options.Value

/-! # The order of the members of a set

A set of numbers has its members in the order of their places in a table, whose size is a power of two and more
than enough for them. A number goes to the place that its residue names, or to the first free place on a walk
that starts there. A set with other members has them in the order they are given in. -/

namespace LayerLoops.Options

/-- The modulus of residues, the prime `2 ^ 61 - 1`. -/
def residueModulus : Nat := 2305843009213693951

/-- The residue of a number. Equal numbers have the same one, and none is `-1`. Modulo `2 ^ 61 - 1`, only the
remainder of an exponent by 61 counts. -/
def Value.residue? : Value → Option Int
  | .real (.infinite negative) => some (if negative then -314159 else 314159)
  | v => v.dyadic?.map fun (m, exponent) =>
    let r := m.natAbs * Nat.pow 2 (exponent % 61).toNat % residueModulus
    if 0 ≤ m then r else if r = 1 then -2 else -(r : Int)

namespace MemberTable

def sizeFor (count : Nat) : Nat := if count < 5 then 8 else Nat.pow 2 ((2 * count).log2 + 1)

/-- How many places after the first one are looked at before the walk jumps, unless the table ends before. -/
def stride : Nat := 9

/-- The first free place on the walk from `start`. Jumps hang on `rest` too, of which each jump drops the lowest
five bits. -/
def free? (table : Array (Option Value)) : Nat → Nat → Nat → Option Nat
  | 0, _, _ => none
  | fuel + 1, start, rest =>
    let more := if start + stride < table.size then stride else 0
    match (List.range (more + 1)).find? fun k => table[start + k]? matches some none with
    | some k => some (start + k)
    | none => free? table fuel ((5 * start + 1 + rest / 32) % table.size) (rest / 32)

/-- Puts a member with a residue into a table. Once nothing is left of the residue, the walk comes to every
place. -/
def insert (table : Array (Option Value)) (residue : Int) (v : Value) : Array (Option Value) :=
  let bits := (residue % (Nat.pow 2 64 : Nat)).toNat
  match free? table (table.size + 16) (bits % table.size) bits with
  | some place => table.setIfInBounds place (some v)
  | none => table

end MemberTable

def memberOrder (members : List Value) : List Value :=
  match members.mapM Value.residue? with
  | none => members
  | some residues =>
    let empty : Array (Option Value) := Array.replicate (MemberTable.sizeFor members.length) none
    let table := (residues.zip members).foldl (fun t (r, v) => MemberTable.insert t r v) empty
    table.toList.filterMap id

end LayerLoops.Options
