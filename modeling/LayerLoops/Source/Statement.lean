import LayerLoops.Decimal.Shortest
import LayerLoops.Diagnostic
import LayerLoops.Text.Quoted

/-! # Statements

A statement `model.add(Layer(...))` adds one layer. It calls the constructor of the layer, which may be
qualified, with positional values and then keyword arguments. Values are integers, decimal fractions, quoted
texts, bare names and tuples of values. Every part knows the place it was read from. -/

namespace LayerLoops.Source

inductive Value
  | integer (n : Nat) (place : Location)
  | real (r : Decimal.Binary) (place : Location)
  | text (s : String) (place : Location)
  | name (s : String) (place : Location)
  | tuple (items : List Value) (place : Location)
  deriving Repr

namespace Value

def location : Value → Location
  | integer _ l | real _ l | text _ l | name _ l | tuple _ l => l

mutual

/-- A value as messages show it; a bare name is shown like a text. -/
def shown : Value → String
  | integer n _ => toString n
  | real r _ => r.text
  | text s _ | name s _ => Text.quoted s
  | tuple items _ => match items with
    | [v] => "(" ++ v.shown ++ ",)"
    | vs => "(" ++ ", ".intercalate (shownItems vs) ++ ")"

def shownItems : List Value → List String
  | [] => []
  | v :: vs => v.shown :: shownItems vs

end

end Value

structure Keyword where
  name : String
  value : Value
  location : Location
  deriving Repr

structure Call where
  /-- The constructor's name, qualifiers first. -/
  path : List String
  args : List Value
  kwargs : List Keyword
  location : Location
  deriving Repr

namespace Call

def name (c : Call) : String := c.path.getLastD ""

def qualifiedName (c : Call) : String := ".".intercalate c.path

end Call

structure Statement where
  call : Call
  location : Location
  /-- The text that the statement was read from, without the blanks around it. -/
  text : String := ""
  deriving Repr

end LayerLoops.Source
