import LayerLoops.Code.Name
import LayerLoops.Listing

/-! # Generated code as a tree

The body of the generated function is a tree of loops, choices and statements, and its text is what
`Tree.instrs` writes. Facts about the generated program are facts about these trees. -/

namespace LayerLoops.Code

/-- Integer expressions in subscripts. -/
inductive Expr
  | index (i : Index)
  | number (n : Option Int)
  | add (a b : Expr)
  | sub (a b : Expr)
  | mul (a b : Expr)
  deriving DecidableEq, Repr

def Expr.text : Expr → String
  | index i => i.text
  | number n => dimText n
  | add a b => a.text ++ " + " ++ b.text
  | sub a b => a.text ++ " - " ++ b.text
  | mul a b => a.text ++ " * " ++ b.text

/-- An element of a buffer; a scalar has no subscripts. -/
structure Element where
  buffer : Buffer
  subscripts : List Expr := []
  deriving DecidableEq, Repr

def subscriptText (es : List Expr) : String := String.join (es.map fun e => "[" ++ e.text ++ "]")

def Element.text (e : Element) : String := e.buffer.text ++ subscriptText e.subscripts

def dimsText (dims : List (Option Int)) : String :=
  String.join (dims.map fun d => "[" ++ dimText d ++ "]")

/-- The numbers that statements compute. -/
inductive Term
  | element (e : Element)
  | number (n : Int)
  | product (a b : Element)
  /-- A product by the multiplier of a layer. -/
  | layerProduct (number : Nat) (a b : Element)
  | activated (a : Activation) (t : Term)
  deriving DecidableEq, Repr

def Term.text : Term → String
  | element e => e.text
  | number n => toString n
  | product a b => a.text ++ " * " ++ b.text
  | layerProduct n a b => s!"MUL_LAYER_{n}({a.text}, {b.text})"
  | activated a t =>
    match a with
    | .relu | .linear => a.label ++ "(" ++ t.text ++ ")"
    | .none | .softmax => t.text

/-- A declaration of an array or a scalar. -/
structure Declaration where
  type : TypeName
  buffer : Buffer
  dims : List (Option Int) := []
  deriving DecidableEq, Repr

def Declaration.text (d : Declaration) : String :=
  d.type.text ++ " " ++ d.buffer.text ++ dimsText d.dims

inductive Stmt
  | comment (text : String)
  /-- An inactive declaration stands in a comment. -/
  | declare (d : Declaration) (active : Bool)
  | declareCells (type : TypeName)
  | define (i : Index) (e : Expr)
  | assign (target : Element) (t : Term)
  | accumulate (target : Element) (t : Term)
  | keepMaximum
  /-- Scales a wide result into the narrow output. -/
  | requantize (target wide : Element) (type : TypeName) (ordinal : Nat) (scale : Element)
  | store (number : Nat) (what : String) (value : Element) (x y z : Expr)
  | injectFault (number : Nat)
  deriving DecidableEq, Repr

def Stmt.text : Stmt → String
  | comment s => "//" ++ s
  | declare d active => (if active then "" else "//") ++ d.text ++ ";"
  | declareCells type => type.text ++ " " ++ Buffer.cell.text ++ ", " ++ Buffer.maximum.text ++ ";"
  | define i e => "int " ++ i.text ++ " = " ++ e.text ++ ";"
  | assign target t => target.text ++ " = " ++ t.text ++ ";"
  | accumulate target t => target.text ++ " += " ++ t.text ++ ";"
  | keepMaximum => "if (current_cell > max_value) max_value = current_cell;"
  | requantize target wide type q scale =>
    target.text ++ " = " ++ type.text ++ "(Q_MIN_MAX(" ++ wide.text ++ s!"*input_scale_factors[{q}]*" ++
      scale.text ++ s!"/output_scale_factors[{q}] + output_zero_points[{q}]));"
  | store n what value x y z =>
    s!"STORE_DATA({n}, \"" ++ what ++ "\", (float)" ++ value.text ++ ", " ++ x.text ++ ", " ++ y.text ++
      ", " ++ z.text ++ ");"
  | injectFault n => s!"fault_injection(&l{n}, {n}, faulty_layer, faulty_fmap, faulty_bit);"

/-- A loop from zero up to a bound. Short loops are written without a space after the keyword. -/
structure Head where
  label : Option Label := none
  spaced : Bool := true
  index : Index
  bound : Option Int
  deriving DecidableEq, Repr

def Head.text (h : Head) : String :=
  let i := h.index.text
  let label := match h.label with
    | some l => l.text ++ ": "
    | none => ""
  label ++ (if h.spaced then "for (" else "for(") ++ "int " ++ i ++ " = 0; " ++ i ++ " < " ++
    dimText h.bound ++ "; " ++ i ++ "++)"

/-- How the body of a loop is set: after the header on its line, one level deeper, between braces, or by
itself at the level of the header. -/
inductive Layout
  | sameLine | deeper | braced | flush
  deriving DecidableEq, Repr

/-- A position of the input lies inside it. -/
structure Bounds where
  rows : Int
  columns : Int
  deriving DecidableEq, Repr

def Bounds.text (b : Bounds) : String :=
  s!"if (row_index >= 0 && row_index < {b.rows} && col_index >= 0 && col_index < {b.columns})"

inductive Tree
  | stmt (s : Stmt)
  | blank
  | loop (h : Head) (layout : Layout) (body : List Tree)
  | choose (b : Bounds) (inside : Stmt) (outside : Option Stmt)
  /-- Left out under synthesis. -/
  | simulated (body : List Tree)
  /-- A statement and what is stored after it, braced except under synthesis. -/
  | watched (s : Stmt) (stored : List Stmt)

def Tree.ofStmts (ss : List Stmt) : List Tree := ss.map .stmt

def beginSimulated : String := "#ifndef _HLS_RUN"

def endSimulated : String := "#endif"

mutual

def Tree.instrs : Tree → List Instr
  | .stmt s => [.line s.text]
  | .blank => [.blank 1]
  | .loop h layout body =>
    match layout with
    | .sameLine => [.line (h.text ++ " " ++ String.join (inlineTexts body))]
    | .deeper => [.line h.text, .indented 1 (instrsAll body)]
    | .braced => [.block h.text (instrsAll body)]
    | .flush => .line h.text :: instrsAll body
  | .choose b inside outside =>
    [.line b.text, .indented 1 [.line inside.text]] ++
      match outside with
      | some s => [.line "else", .indented 1 [.line s.text]]
      | none => []
  | .simulated body => .line beginSimulated :: instrsAll body ++ [.line endSimulated]
  | .watched s stored =>
    [.extend [beginSimulated, "\x7b", endSimulated],
      .indented 1 [.line s.text, .line beginSimulated, .extend (stored.map Stmt.text)],
      .extend ["\x7d", endSimulated]]

def instrsAll : List Tree → List Instr
  | [] => []
  | t :: ts => t.instrs ++ instrsAll ts

def inlineTexts : List Tree → List String
  | [] => []
  | t :: ts =>
    match t with
    | .stmt s => s.text :: inlineTexts ts
    | _ => inlineTexts ts

end

end LayerLoops.Code
