import LayerLoops.Text.CaseTable

/-! # Lower case

Every letter goes to its lower-case form. Two letters need more than a table: a dotted capital I becomes an
i and a combining dot, and a capital sigma becomes the final form when a cased character comes before it
and none comes after it, accents and the like being skipped. -/

namespace LayerLoops.Text

def CaseRange.has (r : CaseRange) (n : Nat) : Bool :=
  r.first ≤ n && n ≤ r.last && (n - r.first) % r.step == 0

def lowerChar (c : Char) : Char :=
  match caseRanges.find? (·.has c.toNat) with
  | some r => Char.ofNat (c.toNat + r.shift).toNat
  | none => c

def meetsCased (cs : List Char) : Bool :=
  match cs.dropWhile (inRanges skippedRanges) with
  | c :: _ => inRanges casedRanges c
  | [] => false

/-- Lower-cases `rest`, where `before` holds the characters read so far, nearest first. -/
def lowerFrom (before : List Char) : List Char → List Char
  | [] => []
  | c :: rest =>
    let here :=
      if c.toNat < 128 then [c.toLower]
      else if c = 'İ' then ['i', Char.ofNat 0x307]
      else if c = 'Σ' then [if meetsCased before && !meetsCased rest then 'ς' else 'σ']
      else [lowerChar c]
    here ++ lowerFrom (c :: before) rest

def lower (s : String) : String :=
  String.ofList (lowerFrom [] s.toList)

end LayerLoops.Text
