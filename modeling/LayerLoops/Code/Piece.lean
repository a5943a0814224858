import LayerLoops.Code.Tree

/-! # Declarations and directives of generated files

Outside the body of the generated function a file is made of lines and of parts that are compiled only under
a condition. -/

namespace LayerLoops.Code

/-- What a defined type stands for. -/
inductive Meaning
  | float | int8 | int32 | int64
  /-- A fixed-point type of the two size macros, written with or without a space between them. -/
  | fixed (spaced : Bool)
  | named (t : TypeName)
  deriving DecidableEq, Repr

def Meaning.text : Meaning → String
  | float => "float"
  | int8 => "int8_t"
  | int32 => "int32_t"
  | int64 => "int64_t"
  | fixed spaced => if spaced then "ap_fixed<FX_SIZE_W, FX_SIZE_I>" else "ap_fixed<FX_SIZE_W,FX_SIZE_I>"
  | named t => t.text

inductive Line
  | plain (text : String)
  | typedef (m : Meaning) (t : TypeName) (remark : String := "")
  | arrayTypedef (t : TypeName) (name : String) (dims : List (Option Int))
  | size (name : String) (value : Nat)
  /-- The multiplier of a layer is looked up when the program runs. -/
  | multiplierCall (number : Nat)
  /-- The multiplier of a layer is fixed; an inactive choice stands in a comment. -/
  | multiplierChoice (number : Nat) (exact active : Bool)
  | source (d : Declaration)
  | voidSource (b : Buffer)
  deriving DecidableEq, Repr

def Line.text : Line → String
  | plain s => s
  | typedef m t remark => "typedef " ++ m.text ++ " " ++ t.text ++ ";" ++ remark
  | arrayTypedef t name dims => "typedef " ++ t.text ++ " " ++ name ++ dimsText dims ++ ";"
  | size name value => "#define " ++ name ++ s!" {value}"
  | multiplierCall n => s!"#define MUL_LAYER_{n}(a, b) MUL_LAYER(a, b, {n})"
  | multiplierChoice n exact active =>
    (if active then "" else "//") ++ s!"#define MUL_LAYER_{n} " ++
      (if exact then "MULTIPLIER_EXACT" else "MULTIPLIER_NAME")
  | source d => d.type.text ++ " " ++ d.buffer.text ++ "_src" ++ dimsText d.dims ++ ";"
  | voidSource b => "void *" ++ b.text ++ "_src;"

/-- The condition of a part, and whether its `#else` and `#endif` repeat the name. -/
structure Guard where
  name : String
  /-- The part is compiled when the name is defined. -/
  defined : Bool := false
  elseNamed : Bool := false
  endNamed : Bool := false
  deriving DecidableEq, Repr

namespace Guard

def opening (g : Guard) : String := (if g.defined then "#ifdef " else "#ifndef ") ++ g.name

def middle (g : Guard) : String := if g.elseNamed then "#else //" ++ g.name else "#else"

def closing (g : Guard) : String := if g.endNamed then "#endif //" ++ g.name else "#endif"

end Guard

inductive Piece
  | line (l : Line)
  | blank (count : Nat)
  /-- A function with the given first line and body. -/
  | function (header body : String)
  | guarded (g : Guard) (body : List Piece)
  | guardedElse (g : Guard) (body otherwise : List Piece)

mutual

def Piece.instrs : Piece → List Instr
  | .line l => [.line l.text]
  | .blank count => [.blank count]
  | .function header body => [.block header [.line body]]
  | .guarded g body => .line g.opening :: piecesInstrs body ++ [.line g.closing]
  | .guardedElse g body otherwise =>
    .line g.opening :: piecesInstrs body ++ .line g.middle :: piecesInstrs otherwise ++
      [.line g.closing]

def piecesInstrs : List Piece → List Instr
  | [] => []
  | p :: ps => p.instrs ++ piecesInstrs ps

end

def plainLines (texts : List String) : List Piece := texts.map fun s => .line (.plain s)

/-- A group of parameters of the generated function. -/
inductive Group
  /-- The parameters that select a fault. -/
  | faults
  /-- An inactive group stands in a comment. -/
  | declared (ds : List Declaration) (active : Bool)
  deriving DecidableEq, Repr

def Group.text : Group → String
  | faults => "\t\t\t, int faulty_layer, int faulty_fmap, int faulty_bit"
  | declared ds active =>
    let body := ", ".intercalate (ds.map Declaration.text)
    if active then "\t\t\t, " ++ body else "\t\t\t /*, " ++ body ++ "*/"

end LayerLoops.Code
