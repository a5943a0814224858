import LayerLoops.Decimal.Shortest
import LayerLoops.Options.Calendar
import LayerLoops.Text.Quoted

/-! # Option values

The values that options may have before they are checked: what an options file or a command line can hold. The
entries of a map keep the order in which their keys first appeared. -/

namespace LayerLoops.Options

inductive Value
  | null
  | boolean (b : Bool)
  | integer (n : Int)
  | real (r : Decimal.Binary)
  | text (s : String)
  | bytes (bs : List Nat)
  | day (d : Day)
  | moment (m : Moment)
  | pair (first second : Value)
  | list (items : List Value)
  | set (items : List Value)
  | map (entries : List (Value × Value))
  deriving Repr

def bytesShown (bs : List Nat) : String :=
  let cs := bs.map Char.ofNat
  let q := Text.quoteFor cs
  let escaped := cs.flatMap fun c =>
    if c.toNat < 128 then Text.escapeChar q c else '\\' :: 'x' :: Text.hex 2 c.toNat
  String.ofList ('b' :: q :: escaped ++ [q])

namespace Value

def typeName : Value → String
  | null => "NoneType"
  | boolean _ => "bool"
  | integer _ => "int"
  | real _ => "float"
  | text _ => "str"
  | bytes _ => "bytes"
  | day _ => "datetime.date"
  | moment _ => "datetime.datetime"
  | pair .. => "tuple"
  | list _ => "list"
  | set _ => "set"
  | map _ => "DictDefault"

def shortTypeName : Value → String
  | day _ => "date"
  | moment _ => "datetime"
  | v => v.typeName

/-- An unset, zero or empty value counts as missing where a default stands in for it. -/
def isSet : Value → Bool
  | null => false
  | boolean b => b
  | integer n => n != 0
  | real r => r.isTrue
  | text s => !s.isEmpty
  | bytes bs => !bs.isEmpty
  | day _ | moment _ | pair .. => true
  | list items | set items => !items.isEmpty
  | map entries => !entries.isEmpty

def orElse (v w : Value) : Value := if v.isSet then v else w

mutual

def shown : Value → String
  | null => "None"
  | boolean b => if b then "True" else "False"
  | integer n => toString n
  | real r => r.text
  | text s => Text.quoted s
  | bytes bs => bytesShown bs
  | day d => d.shown
  | moment m => m.shown
  | pair a b => "(" ++ a.shown ++ ", " ++ b.shown ++ ")"
  | list items => "[" ++ ", ".intercalate (shownItems items) ++ "]"
  | set items =>
    if items.isEmpty then "set()" else "\x7b" ++ ", ".intercalate (shownItems items) ++ "\x7d"
  | map entries => "\x7b" ++ ", ".intercalate (shownEntries entries) ++ "\x7d"

def shownItems : List Value → List String
  | [] => []
  | v :: vs => v.shown :: shownItems vs

def shownEntries : List (Value × Value) → List String
  | [] => []
  | (k, v) :: rest => (k.shown ++ ": " ++ v.shown) :: shownEntries rest

end

/-- A value as text; a text is taken as it is. -/
def toText : Value → String
  | text s => s
  | day d => d.text
  | moment m => m.text
  | v => v.shown

/-- The number that a truth value, an integer or a fraction stands for, as an integer times a power of two. -/
def dyadic? : Value → Option (Int × Int)
  | boolean b => some (if b then 1 else 0, 0)
  | integer n => some (n, 0)
  | real (.finite negative m q) => some (if negative then -(m : Int) else m, q)
  | _ => none

/-- `a * 2 ^ p < b * 2 ^ q`. -/
def dyadicLt (x y : Int × Int) : Bool :=
  let low := min x.2 y.2
  x.1 * Nat.pow 2 (x.2 - low).toNat < y.1 * Nat.pow 2 (y.2 - low).toNat

def dyadicEq (x y : Int × Int) : Bool := !dyadicLt x y && !dyadicLt y x

/-- Two keys of a map are the same key; numbers are compared by value. -/
def sameKey (v w : Value) : Bool :=
  match v, w with
  | null, null => true
  | text s, text t => s == t
  | bytes a, bytes b => a == b
  | day d, day e => d == e
  | moment m, moment n => m.same n
  | real (.infinite a), real (.infinite b) => a == b
  | real .undefined, real .undefined => true
  | _, _ => match v.dyadic?, w.dyadic? with
    | some x, some y => dyadicEq x y
    | _, _ => false

def isKey : Value → Bool
  | list _ | set _ | map _ => false
  | _ => true

end Value

abbrev Entries := List (Value × Value)

namespace Entries

/-- Sets the value of a key; a key that is new comes last. -/
def insert (key value : Value) : Entries → Entries
  | [] => [(key, value)]
  | (k, v) :: rest => if k.sameKey key then (k, value) :: rest else (k, v) :: insert key value rest

/-- The value of a key, unset if there is none. -/
def get (es : Entries) (key : String) : Value :=
  match es.find? fun (k, _) => k.sameKey (.text key) with
  | some (_, v) => v
  | none => .null

theorem get_insert_self (es : Entries) (key : String) (v : Value) :
    get (insert (.text key) v es) key = v := by
  induction es with
  | nil => simp [insert, get, Value.sameKey]
  | cons e es ih =>
    obtain ⟨k, w⟩ := e
    by_cases h : k.sameKey (.text key) = true
    · simp [insert, get, h]
    · simp only [insert, h, get, Bool.false_eq_true, if_false, List.find?_cons] at ih ⊢
      exact ih

end Entries
end LayerLoops.Options
