import LayerLoops.Fault
import LayerLoops.Source.Lexeme
import LayerLoops.Source.Statement

/-! # Reading statements

Statements are read from lexemes by a machine that takes one lexeme at a time. Its state holds what has been
read of the statement in progress; a lexeme that no statement could have at that place has no step. The first
such lexeme is where a syntax error is reported. A text can also be well-formed and still be refused: when a
literal is too long, when a positional argument follows a keyword argument, or when the receiver is not
`model.add`; the part that ends first gives the error. -/

namespace LayerLoops.Source

inductive Argument
  | positional (v : Value)
  | keyword (k : Keyword)
  deriving Repr

/-- The part `receiver.method(` of a statement. -/
structure Opened where
  receiver : String
  method : String
  start : Position

/-- A call in progress: the names of its constructor and its arguments, latest first. -/
structure OpenCall where
  opened : Opened
  path : List String
  start : Position
  args : List Argument := []

/-- A tuple in progress, its items latest first. -/
structure OpenTuple where
  start : Position
  items : List Value := []

/-- Where a value is expected: an argument, perhaps of a keyword, or an item of the innermost open tuple. -/
structure Slot where
  call : OpenCall
  keyword : Option (String × Position) := none
  tuples : List OpenTuple := []

inductive State
  | start
  | receiver (name : String) (start : Position)
  | member (receiver : String) (start : Position)
  | method (o : Opened)
  | callee (o : Opened)
  | path (c : OpenCall)
  | qualified (c : OpenCall)
  | argument (c : OpenCall)
  | word (c : OpenCall) (name : String) (start stop : Position)
  | value (s : Slot)
  | item (s : Slot)
  | itemEnd (s : Slot)
  | argumentEnd (c : OpenCall)
  | callEnd (o : Opened) (call : Call)
  | statementEnd (s : Statement)
  | between

/-- A reader has the statements finished so far, latest first, and the first reason to refuse them. -/
structure Reader where
  file : Option String
  finished : List Statement := []
  state : State := .start
  refusal : Option Fault := none

def place (file : Option String) (start stop : Position) : Location :=
  { file, line := start.line, column := start.column
    endLine := some stop.line, endColumn := some stop.column }

/-- The number written as digits, a point, digits and perhaps an exponent. -/
def realOf (cs : List Char) : Decimal.Binary :=
  let whole := cs.takeWhile Decimal.isDigit
  let rest := (cs.dropWhile Decimal.isDigit).drop 1
  let part := rest.takeWhile Decimal.isDigit
  let size : Int := match rest.dropWhile Decimal.isDigit with
    | _ :: '-' :: ds => -(Decimal.digitsValue ds : Int)
    | _ :: '+' :: ds => Decimal.digitsValue ds
    | _ :: ds => Decimal.digitsValue ds
    | [] => 0
  Decimal.Binary.ofDecimal false (Decimal.digitsValue (whole ++ part)) (size - part.length)

def literal? (file : Option String) (t : Lexeme) : Option Value :=
  let l := place file t.start t.stop
  match t.terminal with
  | .integer ds => some (.integer (Decimal.digitsValue ds) l)
  | .real ds => some (.real (realOf ds) l)
  | .text s => some (.text s l)
  | _ => none

def Lexeme.refusal (t : Lexeme) : Option Fault :=
  match t.terminal with
  | .integer ds => if ds.length > Decimal.digitLimit then some (.literalTooLong ds.length) else none
  | _ => none

namespace Slot

/-- Puts a value that ends at `stop` into its slot. -/
def fill (s : Slot) (file : Option String) (v : Value) (stop : Position) : State :=
  match s.tuples with
  | t :: ts => .itemEnd { s with tuples := { t with items := v :: t.items } :: ts }
  | [] =>
    let arg := match s.keyword with
      | some (name, start) => .keyword ⟨name, v, place file start stop⟩
      | none => .positional v
    .argumentEnd { s.call with args := arg :: s.call.args }

def close? (s : Slot) (file : Option String) (stop : Position) : Option State :=
  match s.tuples with
  | t :: ts =>
    some (fill { s with tuples := ts } file (.tuple t.items.reverse (place file t.start stop)) stop)
  | [] => none

def enter (s : Slot) (start : Position) : Slot := { s with tuples := { start } :: s.tuples }

end Slot

def strayPositional (keywordSeen : Bool) : List Argument → Option Value
  | [] => none
  | .keyword _ :: rest => strayPositional true rest
  | .positional v :: rest => if keywordSeen then some v else strayPositional false rest

namespace OpenCall

def finish (c : OpenCall) (file : Option String) (stop : Position) : Call where
  path := c.path.reverse
  args := c.args.reverse.filterMap fun | .positional v => some v | .keyword _ => none
  kwargs := c.args.reverse.filterMap fun | .keyword k => some k | .positional _ => none
  location := place file c.start stop

def refusal (c : OpenCall) : Option Fault :=
  (strayPositional false c.args.reverse).map fun v =>
    .reported {
      stage := .statement, code := .badStatement
      message := "positional argument follows keyword argument"
      location := v.location }

end OpenCall

def Opened.refusal (o : Opened) (l : Location) : Option Fault :=
  if o.receiver = "model" ∧ o.method = "add" then none
  else some (.reported {
    stage := .statement, code := .badStatement
    message := "expected 'model.add(...)', found '" ++ o.receiver ++ "." ++ o.method ++ "(...)'"
    location := l
    hint := "Write one model.add(...) statement per line" })

namespace Reader

def goTo (r : Reader) (s : State) : Reader := { r with state := s }

def blame (r : Reader) (f : Option Fault) : Reader := { r with refusal := r.refusal <|> f }

/-- A value may stand here; `closes` says whether the innermost tuple may end here. -/
def takeValue (r : Reader) (s : Slot) (t : Lexeme) (closes : Bool) : Option Reader :=
  match literal? r.file t with
  | some v => some ((r.blame t.refusal).goTo (s.fill r.file v t.stop))
  | none =>
    match t.terminal with
    | .name n => some (r.goTo (s.fill r.file (.name n (place r.file t.start t.stop)) t.stop))
    | .lpar => some (r.goTo (.item (s.enter t.start)))
    | .rpar => if closes then (s.close? r.file t.stop).map r.goTo else none
    | _ => none

def endCall (r : Reader) (c : OpenCall) (stop : Position) : Reader :=
  (r.blame c.refusal).goTo (.callEnd c.opened (c.finish r.file stop))

def begin? (r : Reader) (t : Lexeme) : Option Reader :=
  match t.terminal with
  | .name n => some (r.goTo (.receiver n t.start))
  | _ => none

def keep (r : Reader) (s : Statement) : Reader := { r with finished := s :: r.finished }

def step (r : Reader) (t : Lexeme) : Option Reader :=
  match r.state, t.terminal with
  | .start, _ => r.begin? t
  | .receiver n p, .dot => some (r.goTo (.member n p))
  | .member n p, .name m => some (r.goTo (.method ⟨n, m, p⟩))
  | .method o, .lpar => some (r.goTo (.callee o))
  | .callee o, .name n => some (r.goTo (.path { opened := o, path := [n], start := t.start }))
  | .path c, .dot => some (r.goTo (.qualified c))
  | .path c, .lpar => some (r.goTo (.argument c))
  | .qualified c, .name n => some (r.goTo (.path { c with path := n :: c.path }))
  | .argument c, .name n => some (r.goTo (.word c n t.start t.stop))
  | .argument c, .rpar => some (r.endCall c t.stop)
  | .argument c, _ => r.takeValue { call := c } t false
  | .word c n p _, .equal => some (r.goTo (.value { call := c, keyword := some (n, p) }))
  | .word c n p q, .comma =>
    some (r.goTo (.argument { c with args := .positional (.name n (place r.file p q)) :: c.args }))
  | .word c n p q, .rpar =>
    some (r.endCall { c with args := .positional (.name n (place r.file p q)) :: c.args } t.stop)
  | .value s, _ => r.takeValue s t false
  | .item s, _ => r.takeValue s t true
  | .itemEnd s, .comma => some (r.goTo (.item s))
  | .itemEnd s, .rpar => (s.close? r.file t.stop).map r.goTo
  | .argumentEnd c, .comma => some (r.goTo (.argument c))
  | .argumentEnd c, .rpar => some (r.endCall c t.stop)
  | .callEnd o call, .rpar =>
    let l := place r.file o.start t.stop
    some ((r.blame (o.refusal l)).goTo (.statementEnd { call, location := l }))
  | .statementEnd s, .semicolon =>
    let l := { s.location with endLine := some t.stop.line, endColumn := some t.stop.column }
    some ((r.keep { s with location := l }).goTo .between)
  | .statementEnd s, _ => (r.keep s).begin? t
  | .between, _ => r.begin? t
  | _, _ => none

/-- Reads lexemes until one has no step; that one is the error. -/
def run (r : Reader) : List Lexeme → Except Lexeme Reader
  | [] => .ok r
  | t :: ts =>
    match r.step t with
    | some r => r.run ts
    | none => .error t

def statements? (r : Reader) : Option (List Statement) :=
  match r.state with
  | .statementEnd s => some (s :: r.finished).reverse
  | .between => some r.finished.reverse
  | _ => none

end Reader

def syntaxFault (file : Option String) (text : String) (p : Position) : Fault :=
  .reported {
    stage := .statement, code := .badStatement
    message := "cannot parse statement '" ++ Text.strip text ++ "'"
    location := some { file, line := p.line, column := p.column }
    hint := "Expected model.add(<Layer>(<name>=<value>, ...))" }

/-- Reads the statements of a text whose first line has the number `offset + 1`. At the end of the text an
error is reported at the last lexeme. -/
def readStatements (file : Option String) (offset : Int) (text : String) :
    Except Fault (List Statement) :=
  let origin : Position := ⟨1 + offset, 1⟩
  let ts := lexemesFrom origin text.toList
  match Reader.run { file } ts with
  | .error t => .error (syntaxFault file text t.start)
  | .ok r =>
    match r.statements? with
    | none => .error (syntaxFault file text ((ts.getLast?.map Lexeme.start).getD origin))
    | some ss =>
      match r.refusal with
      | some f => .error f
      | none => .ok ss

end LayerLoops.Source
