import LayerLoops.Proofs.Literals

/-! # Statements further down

A text that stands some lines further down in a document is read in the same way: the statements and the errors
are those of the text where it was, and every place in them is moved down by as many lines. -/

namespace LayerLoops

def Location.down (n : Int) (l : Location) : Location :=
  { l with line := l.line + n, endLine := l.endLine.map (· + n) }

def Diagnostic.down (n : Int) (d : Diagnostic) : Diagnostic := { d with location := d.location.map (Location.down n) }

def Fault.down (n : Int) : Fault → Fault
  | .reported d => .reported (d.down n)
  | f => f

namespace Source

mutual

def Value.down (n : Int) : Value → Value
  | .integer k l => .integer k (l.down n)
  | .real r l => .real r (l.down n)
  | .text s l => .text s (l.down n)
  | .name s l => .name s (l.down n)
  | .tuple items l => .tuple (downItems n items) (l.down n)

def downItems (n : Int) : List Value → List Value
  | [] => []
  | v :: vs => v.down n :: downItems n vs

end

theorem downItems_eq (n : Int) (vs : List Value) : downItems n vs = vs.map (Value.down n) := by
  induction vs with
  | nil => rfl
  | cons v vs ih => rw [downItems, ih, List.map_cons]

theorem Value.location_down (n : Int) (v : Value) : (v.down n).location = v.location.down n := by
  cases v <;> rfl

def Keyword.down (n : Int) (k : Keyword) : Keyword :=
  { k with value := k.value.down n, location := k.location.down n }

def Call.down (n : Int) (c : Call) : Call :=
  { c with args := c.args.map (Value.down n), kwargs := c.kwargs.map (Keyword.down n), location := c.location.down n }

def Statement.down (n : Int) (s : Statement) : Statement :=
  { s with call := s.call.down n, location := s.location.down n }

/-! ## Lexemes -/

def Position.down (n : Int) (p : Position) : Position := { p with line := p.line + n }

def Lexeme.down (n : Int) (t : Lexeme) : Lexeme := { t with start := t.start.down n, stop := t.stop.down n }

theorem Position.next_down (n : Int) (p : Position) (c : Char) : (p.down n).next c = (p.next c).down n := by
  unfold Position.next
  split
  · simp only [down, Position.mk.injEq, and_true]
    omega
  · split <;> rfl

theorem Position.after_down (n : Int) (p : Position) (cs : List Char) : (p.down n).after cs = (p.after cs).down n := by
  induction cs generalizing p with
  | nil => rfl
  | cons c cs ih =>
    simp only [after, List.foldl_cons] at ih ⊢
    rw [next_down, ih]

theorem lexemesFrom_down (n : Int) (p : Position) (cs : List Char) :
    lexemesFrom (p.down n) cs = (lexemesFrom p cs).map (Lexeme.down n) := by
  fun_induction lexemesFrom p cs with
  | case1 p => simp [lexemesFrom]
  | case2 p c cs k stop hcut =>
    rw [lexemesFrom, hcut]
    simp only [Position.after_down]
    rfl
  | case3 p c cs k stop t hne hcut ih =>
    rw [lexemesFrom, hcut]
    simp only [Position.after_down]
    exact congrArg (Lexeme.down n ⟨t, p, stop⟩ :: ·) ih
  | case4 p c cs k stop hcut ih =>
    rw [lexemesFrom, hcut]
    simp only [Position.after_down]
    exact ih

/-! ## Reading -/

def Argument.down (n : Int) : Argument → Argument
  | .positional v => .positional (v.down n)
  | .keyword k => .keyword (k.down n)

def Opened.down (n : Int) (o : Opened) : Opened := { o with start := o.start.down n }

def OpenCall.down (n : Int) (c : OpenCall) : OpenCall :=
  { c with opened := c.opened.down n, start := c.start.down n, args := c.args.map (Argument.down n) }

def OpenTuple.down (n : Int) (t : OpenTuple) : OpenTuple :=
  { t with start := t.start.down n, items := t.items.map (Value.down n) }

def Slot.down (n : Int) (s : Slot) : Slot where
  call := s.call.down n
  keyword := s.keyword.map fun (name, start) => (name, start.down n)
  tuples := s.tuples.map (OpenTuple.down n)

def State.down (n : Int) : State → State
  | .start => .start
  | .receiver s p => .receiver s (p.down n)
  | .member s p => .member s (p.down n)
  | .method o => .method (o.down n)
  | .callee o => .callee (o.down n)
  | .path c => .path (c.down n)
  | .qualified c => .qualified (c.down n)
  | .argument c => .argument (c.down n)
  | .word c s p q => .word (c.down n) s (p.down n) (q.down n)
  | .value s => .value (s.down n)
  | .item s => .item (s.down n)
  | .itemEnd s => .itemEnd (s.down n)
  | .argumentEnd c => .argumentEnd (c.down n)
  | .callEnd o call => .callEnd (o.down n) (call.down n)
  | .statementEnd s => .statementEnd (s.down n)
  | .between => .between

def Reader.down (n : Int) (r : Reader) : Reader :=
  { r with
    finished := r.finished.map (Statement.down n), state := r.state.down n, refusal := r.refusal.map (Fault.down n) }

theorem literal?_down (n : Int) (file : Option String) (t : Lexeme) :
    literal? file (t.down n) = (literal? file t).map (Value.down n) := by
  obtain ⟨terminal, start, stop⟩ := t
  cases terminal <;> rfl

theorem Lexeme.refusal_down (n : Int) (t : Lexeme) : (t.down n).refusal = t.refusal.map (Fault.down n) := by
  obtain ⟨terminal, start, stop⟩ := t
  cases terminal with
  | integer ds => simp only [down, refusal]; split <;> rfl
  | _ => rfl

namespace Slot

variable (n : Int) (s : Slot) (file : Option String) (stop : Position)

theorem fill_down (v : Value) : (s.down n).fill file (v.down n) (stop.down n) = (s.fill file v stop).down n := by
  obtain ⟨call, keyword, tuples⟩ := s
  cases tuples with
  | cons t ts => rfl
  | nil => cases keyword <;> rfl

theorem close?_down : (s.down n).close? file (stop.down n) = (s.close? file stop).map (State.down n) := by
  obtain ⟨call, keyword, tuples⟩ := s
  cases tuples with
  | nil => rfl
  | cons t ts =>
    have hitems : Value.tuple (t.down n).items.reverse (place file (t.down n).start (stop.down n)) =
        (Value.tuple t.items.reverse (place file t.start stop)).down n := by
      rw [Value.down, downItems_eq, List.map_reverse]
      rfl
    simp only [close?, down, List.map_cons, hitems, Option.map_some]
    exact congrArg some (fill_down n ⟨call, keyword, ts⟩ file stop _)

end Slot

namespace OpenCall

variable (n : Int) (c : OpenCall)

theorem finish_down (file : Option String) (stop : Position) :
    (c.down n).finish file (stop.down n) = (c.finish file stop).down n := by
  simp only [finish, Call.down, down, ← List.map_reverse, List.filterMap_map, List.map_filterMap, Call.mk.injEq,
    true_and]
  refine ⟨?_, ?_, rfl⟩ <;> refine congrArg (List.filterMap · _) (funext fun a => ?_) <;> cases a <;> rfl

theorem strayPositional_down (seen : Bool) (as : List Argument) :
    strayPositional seen (as.map (Argument.down n)) = (strayPositional seen as).map (Value.down n) := by
  induction as generalizing seen with
  | nil => rfl
  | cons a as ih =>
    cases a with
    | keyword k => exact ih true
    | positional v =>
      cases seen with
      | true => rfl
      | false => exact ih false

theorem refusal_down : (c.down n).refusal = c.refusal.map (Fault.down n) := by
  unfold refusal
  simp only [down, ← List.map_reverse, strayPositional_down, Option.map_map]
  refine congrArg (Option.map · _) (funext fun v => ?_)
  simp only [Function.comp_apply, Value.location_down]
  rfl

end OpenCall

theorem Opened.refusal_down (n : Int) (o : Opened) (l : Location) :
    (o.down n).refusal (l.down n) = (o.refusal l).map (Fault.down n) := by
  by_cases h : o.receiver = "model" ∧ o.method = "add"
  · simp [refusal, down, h]
  · simp [refusal, down, h, Fault.down, Diagnostic.down]

namespace Reader

variable (n : Int) (r : Reader)

theorem blame_down (f : Option Fault) : (r.blame f).down n = (r.down n).blame (f.map (Fault.down n)) := by
  simp only [blame, down, Reader.mk.injEq, true_and]
  cases r.refusal <;> rfl

theorem begin?_down (t : Lexeme) : (r.down n).begin? (t.down n) = (r.begin? t).map (Reader.down n) := by
  obtain ⟨terminal, start, stop⟩ := t
  cases terminal <;> rfl

theorem endCall_down (c : OpenCall) (stop : Position) :
    (r.down n).endCall (c.down n) (stop.down n) = (r.endCall c stop).down n := by
  rw [endCall, c.refusal_down n, ← blame_down, c.finish_down n]
  rfl

theorem takeValue_down (s : Slot) (t : Lexeme) (closes : Bool) :
    (r.down n).takeValue (s.down n) (t.down n) closes = (r.takeValue s t closes).map (Reader.down n) := by
  unfold takeValue
  have hlit : literal? (r.down n).file (t.down n) = (literal? r.file t).map (Value.down n) := literal?_down n r.file t
  rw [hlit]
  cases literal? r.file t with
  | some v =>
    simp only [Option.map_some, t.refusal_down n, ← blame_down]
    exact congrArg (fun q => some (((r.blame t.refusal).down n).goTo q)) (s.fill_down n r.file t.stop v)
  | none =>
    obtain ⟨terminal, start, stop⟩ := t
    cases terminal with
    | name m =>
      have h := s.fill_down n r.file stop (.name m (place r.file start stop))
      exact congrArg (fun q => some ((r.down n).goTo q)) h
    | rpar =>
      cases closes with
      | false => rfl
      | true =>
        change ((s.down n).close? r.file (stop.down n)).map (r.down n).goTo = _
        rw [s.close?_down, Option.map_map]
        change _ = ((s.close? r.file stop).map r.goTo).map (Reader.down n)
        rw [Option.map_map]
        rfl
    | _ => rfl

theorem step_down (t : Lexeme) : (r.down n).step (t.down n) = (r.step t).map (Reader.down n) := by
  obtain ⟨file, finished, state, refusal⟩ := r
  have hvalue := fun q s closes => takeValue_down n ⟨file, finished, q, refusal⟩ s t closes
  have hbegin := fun q ss => begin?_down n ⟨file, ss, q, refusal⟩ t
  obtain ⟨terminal, start, stop⟩ := t
  cases state with
  | start => exact hbegin .start finished
  | between => exact hbegin .between finished
  | value s => exact hvalue (.value s) s false
  | item s => exact hvalue (.item s) s true
  | argument c =>
    cases terminal with
    | name m => rfl
    | rpar => exact congrArg some (endCall_down n ⟨file, finished, .argument c, refusal⟩ c stop)
    | _ => exact hvalue (.argument c) { call := c } false
  | word c m p q =>
    cases terminal with
    | rpar =>
      let c' : OpenCall := { c with args := .positional (.name m (place file p q)) :: c.args }
      exact congrArg some (endCall_down n ⟨file, finished, .word c m p q, refusal⟩ c' stop)
    | _ => rfl
  | itemEnd s =>
    cases terminal with
    | rpar =>
      change ((s.down n).close? file (stop.down n)).map _ = ((s.close? file stop).map _).map _
      rw [s.close?_down, Option.map_map, Option.map_map]
      rfl
    | _ => rfl
  | argumentEnd c =>
    cases terminal with
    | rpar => exact congrArg some (endCall_down n ⟨file, finished, .argumentEnd c, refusal⟩ c stop)
    | _ => rfl
  | callEnd o call =>
    cases terminal with
    | rpar =>
      change some (((Reader.down n ⟨file, finished, .callEnd o call, refusal⟩).blame
        ((o.down n).refusal ((place file o.start stop).down n))).goTo _) = _
      rw [o.refusal_down n, ← blame_down]
      rfl
    | _ => rfl
  | statementEnd s =>
    cases terminal with
    | semicolon => rfl
    | _ => exact hbegin (.statementEnd s) (s :: finished)
  | _ => cases terminal <;> rfl

theorem run_down (ts : List Lexeme) :
    (r.down n).run (ts.map (Lexeme.down n)) = ((r.run ts).map (Reader.down n)).mapError (Lexeme.down n) := by
  induction ts generalizing r with
  | nil => rfl
  | cons t ts ih =>
    rw [List.map_cons, run, run, step_down]
    cases r.step t with
    | none => rfl
    | some q => exact ih q

theorem statements?_down : (r.down n).statements? = r.statements?.map (List.map (Statement.down n)) := by
  obtain ⟨file, finished, state, refusal⟩ := r
  cases state with
  | statementEnd s => simp [statements?, down, State.down, List.map_reverse]
  | between => simp [statements?, down, State.down, List.map_reverse]
  | _ => rfl

end Reader

/-- What is read from a text that stands `n` lines further down. -/
def moved (n : Int) (x : Except Fault (List Statement)) : Except Fault (List Statement) :=
  (x.map (List.map (Statement.down n))).mapError (Fault.down n)

theorem readStatements_down (n : Int) (file : Option String) (offset : Int) (text : String) :
    readStatements file (offset + n) text = moved n (readStatements file offset text) := by
  have horigin : (⟨1 + (offset + n), 1⟩ : Position) = Position.down n ⟨1 + offset, 1⟩ := by
    simp only [Position.down, Position.mk.injEq, and_true]
    omega
  unfold readStatements
  simp only [horigin, lexemesFrom_down]
  have hrun := Reader.run_down n { file } (lexemesFrom ⟨1 + offset, 1⟩ text.toList)
  change Reader.run { file } _ = _ at hrun
  rw [hrun]
  cases Reader.run { file } (lexemesFrom ⟨1 + offset, 1⟩ text.toList) with
  | error t => rfl
  | ok r =>
    simp only [Except.map, Except.mapError, Reader.statements?_down]
    cases r.statements? with
    | none =>
      simp only [Option.map_none, List.getLast?_map]
      cases (lexemesFrom ⟨1 + offset, 1⟩ text.toList).getLast? <;> rfl
    | some ss =>
      simp only [Option.map_some, Reader.down]
      cases r.refusal <;> rfl

end Source
end LayerLoops
