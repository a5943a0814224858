import LayerLoops.Fault
import LayerLoops.Options.Value

/-! # Entries in the order of their keys

Keys can be compared only with keys of their own sort, so sorting may fail, and which two keys it fails at depends
on the order of comparisons. Entries are sorted run by run: a run is taken as far as it is in order, short runs are
filled up by inserting, and neighbouring runs are merged where the halving of the whole separates them last. -/

namespace LayerLoops.Options

namespace Value

def isNumber : Value → Bool
  | boolean _ | integer _ | real _ => true
  | _ => false

def keyLt (v w : Value) : Except Fault Bool :=
  match v, w with
  | .text s, .text t => .ok (Text.codes s.toList < Text.codes t.toList)
  | .bytes a, .bytes b => .ok (a < b)
  | .day d, .day e => .ok (d.lt e)
  | .moment m, .moment n =>
    if m.offset.isSome = n.offset.isSome then .ok (m.instant < n.instant) else .error .mixedOffsets
  | .day _, .moment _ | .moment _, .day _ => .error .dayWithTime
  | .real .undefined, _ => if w.isNumber then .ok false else incomparable
  | _, .real .undefined => if v.isNumber then .ok false else incomparable
  | .real (.infinite a), .real (.infinite b) => .ok (a && !b)
  | .real (.infinite a), _ => if w.dyadic?.isSome then .ok a else incomparable
  | _, .real (.infinite b) => if v.dyadic?.isSome then .ok (!b) else incomparable
  | _, _ => match v.dyadic?, w.dyadic? with
    | some x, some y => .ok (dyadicLt x y)
    | _, _ => incomparable
where
  incomparable : Except Fault Bool := .error (.notComparable v.typeName w.typeName)

end Value

namespace Keyed

variable {α : Type}

/-- Puts an entry into sorted ones by halving the part it belongs to, after the entries of equal keys. -/
def place (e : Value × α) (sorted : Array (Value × α)) (low high : Nat) :
    Except Fault (Array (Value × α)) :=
  if low < high then
    let middle := low + (high - low) / 2
    match sorted[middle]? with
    | none => .ok (sorted.push e)
    | some m => do
      if ← e.1.keyLt m.1 then place e sorted low middle else place e sorted (middle + 1) high
  else .ok ((sorted.toList.take low ++ e :: sorted.toList.drop low).toArray)
termination_by high - low

/-- The entries at the front that keep ascending after `last`, and the rest. -/
def ascending : Value × α → List (Value × α) → Except Fault (List (Value × α) × List (Value × α))
  | _, [] => .ok ([], [])
  | last, e :: rest => do
    if ← e.1.keyLt last.1 then pure ([], e :: rest)
    else
      let (run, rest) ← ascending e rest
      pure (e :: run, rest)

/-- The entries at the front that keep descending after `last`, and the rest. -/
def descending : Value × α → List (Value × α) → Except Fault (List (Value × α) × List (Value × α))
  | _, [] => .ok ([], [])
  | last, e :: rest => do
    if ← e.1.keyLt last.1 then
      let (run, rest) ← descending e rest
      pure (e :: run, rest)
    else pure ([], e :: rest)

def firstRun : List (Value × α) → Except Fault (List (Value × α) × List (Value × α))
  | [] => .ok ([], [])
  | [e] => .ok ([e], [])
  | a :: b :: rest => do
    if ← b.1.keyLt a.1 then
      let (run, rest) ← descending b rest
      pure ((a :: b :: run).reverse, rest)
    else
      let (run, rest) ← ascending b rest
      pure (a :: b :: run, rest)

/-- The length that runs are filled up to: the whole if it is short, else its leading bits, rounded up. -/
def leastRun (n : Nat) : Nat :=
  if n < 64 then n else n / Nat.pow 2 (n.log2 - 5) + if n % Nat.pow 2 (n.log2 - 5) = 0 then 0 else 1

/-- A run and where it starts. -/
structure Run (α : Type) where
  start : Nat
  entries : List (Value × α)
  /-- How often the whole is halved before a cut falls between the middle of this run and that of the next. -/
  power : Nat := 0

/-- The halvings of `n` that leave `a` and `b` on one side; the two are the doubled middles of runs. -/
def cutAfter (fuel a b n : Nat) : Nat :=
  match fuel with
  | 0 => 1
  | fuel + 1 =>
    if n ≤ a then cutAfter fuel (2 * (a - n)) (2 * (b - n)) n + 1
    else if n ≤ b then 1
    else cutAfter fuel (2 * a) (2 * b) n + 1

def Run.powerBefore (r : Run α) (length n : Nat) : Nat :=
  let middle := 2 * r.start + r.entries.length
  cutAfter (n.log2 + 2) middle (middle + r.entries.length + length) n

/-- Merges two runs; of equal keys those of the first run come first. -/
def merge : List (Value × α) → List (Value × α) → Except Fault (List (Value × α))
  | [], bs => .ok bs
  | as, [] => .ok as
  | a :: as, b :: bs => do
    if ← b.1.keyLt a.1 then pure (b :: (← merge (a :: as) bs)) else pure (a :: (← merge as (b :: bs)))
termination_by as bs => as.length + bs.length

def Run.merge (r s : Run α) : Except Fault (Run α) := do
  pure { r with entries := ← Keyed.merge r.entries s.entries, power := s.power }

/-- Merges the last runs while the cut between them is deeper than a power. The last run stands first. -/
def collapse (power : Nat) : List (Run α) → Except Fault (List (Run α))
  | s :: r :: rest =>
    if r.power > power then do collapse power ((← r.merge s) :: rest) else .ok (s :: r :: rest)
  | runs => .ok runs
termination_by runs => runs.length

/-- Adds a run of the entries from `start` on to the runs before it. -/
def push (n start : Nat) (entries : List (Value × α)) (runs : List (Run α)) : Except Fault (List (Run α)) := do
  match runs with
  | [] => pure [{ start, entries }]
  | last :: _ =>
    let power := last.powerBefore entries.length n
    match ← collapse power runs with
    | last :: rest => pure ({ start, entries } :: { last with power } :: rest)
    | [] => pure [{ start, entries }]

/-- Merges all runs, the shorter neighbour of the run before the last one first. -/
def mergeRuns (fuel : Nat) (runs : List (Run α)) : Except Fault (List (Value × α)) :=
  match fuel, runs with
  | fuel + 1, t :: s :: r :: rest => do
    if r.entries.length < t.entries.length then mergeRuns fuel (t :: (← r.merge s) :: rest)
    else mergeRuns fuel ((← s.merge t) :: r :: rest)
  | _, [s, r] => do pure (← r.merge s).entries
  | _, [r] => .ok r.entries
  | _, _ => .ok []

def runsOf (fuel n start : Nat) (es : List (Value × α)) (runs : List (Run α)) : Except Fault (List (Run α)) :=
  match fuel, es with
  | fuel + 1, e :: es => do
    let (run, rest) ← firstRun (e :: es)
    let missing := leastRun n - run.length
    let filled ← (rest.take missing).foldlM (fun done e => place e done 0 done.size) run.toArray
    let runs ← push n start filled.toList runs
    runsOf fuel n (start + filled.size) (rest.drop missing) runs
  | _, _ => .ok runs

def sorted (es : List (Value × α)) : Except Fault (List (Value × α)) := do
  let runs ← runsOf es.length es.length 0 es []
  mergeRuns runs.length runs

end Keyed
end LayerLoops.Options
