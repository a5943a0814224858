import LayerLoops.Proofs.Parsing

/-! # What a reader has read

At every point of a text, a reader's state says which rules of the grammar have been begun and how far each has come.
A step that finds the next lexeme keeps that true, so a text that is read to its end is derived. -/

namespace LayerLoops.Source

variable {c : OpenCall} {file : Option String} {s : Slot} {u : List Terminal}

/-! ## Rules in progress -/

/-- Elements of a list that are derived already, with a comma behind the last. -/
def Trails {α : Type} (rule : List α → Phrase) (w : List Terminal) (xs : List α) : Prop :=
  (w = [] ∧ xs = []) ∨ ∃ u, w = u ++ [Terminal.comma] ∧ Derives u (rule xs)

theorem Trails.value {w : List Terminal} {ds : List Datum} {d : Datum} (h : Trails .values w ds)
    (hu : Derives u (.value d)) : Derives (w ++ u) (.values (ds ++ [d])) := by
  rcases h with ⟨rfl, rfl⟩ | ⟨v, rfl, hv⟩
  · exact .oneValue hu
  · rw [List.append_assoc]
    exact .moreValues hv hu

theorem Trails.argument {w : List Terminal} {as : List Given} {a : Given} (h : Trails .arguments w as)
    (hu : Derives u (.argument a)) : Derives (w ++ u) (.arguments (as ++ [a])) := by
  rcases h with ⟨rfl, rfl⟩ | ⟨v, rfl, hv⟩
  · exact .oneArgument hu
  · rw [List.append_assoc]
    exact .moreArguments hv hu

theorem Trails.tuple {w : List Terminal} {ds : List Datum} (h : Trails .values w ds) :
    Derives (.lpar :: (w ++ [Terminal.rpar])) (.value (.tuple ds)) := by
  rcases h with ⟨rfl, rfl⟩ | ⟨v, rfl, hv⟩
  · exact .unit
  · exact .tuple hv (.inr rfl)

theorem Derives.tuple_bare {w : List Terminal} {ds : List Datum} (h : Derives w (.values ds)) :
    Derives (.lpar :: (w ++ [Terminal.rpar])) (.value (.tuple ds)) := by
  have htuple := Derives.tuple h (.inl rfl)
  rwa [List.append_nil] at htuple

theorem Trails.call {p w : List Terminal} {ns : List String} {as : List Given} (h : Trails .arguments w as)
    (hp : Derives p (.path ns)) : Derives (p ++ Terminal.lpar :: (w ++ [Terminal.rpar])) (.call ns as) := by
  rcases h with ⟨rfl, rfl⟩ | ⟨v, rfl, hv⟩
  · exact .bareCall hp
  · exact .call hp hv (.inr rfl)

theorem Derives.call_bare {p w : List Terminal} {ns : List String} {as : List Given} (hp : Derives p (.path ns))
    (h : Derives w (.arguments as)) : Derives (p ++ Terminal.lpar :: (w ++ [Terminal.rpar])) (.call ns as) := by
  have hcall := Derives.call hp h (.inl rfl)
  rwa [List.append_nil] at hcall

/-- The tuples that stand open, each with its items. -/
inductive Nested : List Terminal → List OpenTuple → Prop
  | nil : Nested [] []
  | cons {w u : List Terminal} {t : OpenTuple} {ts : List OpenTuple} : Nested w ts →
    Trails .values u (dataOf t.items.reverse) → Nested (w ++ .lpar :: u) (t :: ts)

def Opened.terminals (o : Opened) : List Terminal := [.name o.receiver, .dot, .name o.method, .lpar]

/-- The call has been read up to a place where an argument may stand. -/
def OpenCall.Awaits (c : OpenCall) (w : List Terminal) : Prop :=
  ∃ p u, Derives p (.path c.path.reverse) ∧ Trails .arguments u (c.args.reverse.map Argument.given) ∧
    w = c.opened.terminals ++ (p ++ .lpar :: u)

/-- The call has been read up to the end of an argument. -/
def OpenCall.Holds (c : OpenCall) (w : List Terminal) : Prop :=
  ∃ p u, Derives p (.path c.path.reverse) ∧ Derives u (.arguments (c.args.reverse.map Argument.given)) ∧
    w = c.opened.terminals ++ (p ++ .lpar :: u)

namespace Slot

def terminals (s : Slot) : List Terminal :=
  match s.keyword with
  | some (k, _) => [.name k, .equal]
  | none => []

/-- The text has been read up to a place where a value may stand. -/
def Awaits (s : Slot) (w : List Terminal) : Prop :=
  ∃ a b, s.call.Awaits a ∧ Nested b s.tuples ∧ w = a ++ (s.terminals ++ b)

/-- The text has been read up to the end of an item. -/
def Holds (s : Slot) (w : List Terminal) : Prop :=
  ∃ t ts a u, s.tuples = t :: ts ∧ Awaits { s with tuples := ts } a ∧ Derives u (.values (dataOf t.items.reverse)) ∧
    w = a ++ .lpar :: u

end Slot

/-- What has been read of a statement when the reader is in the state. -/
def State.Reads : State → List Terminal → Prop
  | .start, w | .between, w => w = []
  | .receiver n _, w => w = [.name n]
  | .member n _, w => w = [.name n, .dot]
  | .method o, w => w = [.name o.receiver, .dot, .name o.method]
  | .callee o, w => w = o.terminals
  | .path c, w => c.args = [] ∧ ∃ p, Derives p (.path c.path.reverse) ∧ w = c.opened.terminals ++ p
  | .qualified c, w => c.args = [] ∧ ∃ p, Derives p (.path c.path.reverse) ∧ w = c.opened.terminals ++ (p ++ [.dot])
  | .argument c, w => c.Awaits w
  | .word c n _ _, w => ∃ a, c.Awaits a ∧ w = a ++ [Terminal.name n]
  | .value s, w | .item s, w => s.Awaits w
  | .itemEnd s, w => s.Holds w
  | .argumentEnd c, w => c.Holds w
  | .callEnd o call, w => ∃ u ns as, Derives u (.call ns as) ∧ Sentence.Ordered as ∧ call.addition = .of ns as ∧
      w = o.terminals ++ u
  | .statementEnd s, w => ∃ sentence : Sentence, sentence.Accepted ∧ s.addition = sentence.addition ∧
      ∀ o, o = [] ∨ o = [.semicolon] → Derives (w ++ o) (.statement sentence)

/-! ## Steps -/

theorem OpenCall.Awaits.put {w : List Terminal} (h : c.Awaits w) (arg : Argument)
    (hu : Derives u (.argument arg.given)) : OpenCall.Holds { c with args := arg :: c.args } (w ++ u) := by
  obtain ⟨p, v, hp, hv, rfl⟩ := h
  refine ⟨p, v ++ u, hp, ?_, ?_⟩
  · rw [List.reverse_cons, List.map_append]
    exact hv.argument hu
  · rw [List.append_assoc, List.append_assoc, List.cons_append]

theorem OpenCall.Holds.comma {w : List Terminal} (h : c.Holds w) : c.Awaits (w ++ [Terminal.comma]) := by
  obtain ⟨p, u, hp, hu, rfl⟩ := h
  refine ⟨p, u ++ [Terminal.comma], hp, .inr ⟨u, rfl, hu⟩, ?_⟩
  rw [List.append_assoc, List.append_assoc, List.cons_append]

theorem OpenCall.Holds.close {w : List Terminal} (h : c.Holds w) (hc : c.refusal = none) (file : Option String)
    (stop : Position) : (State.callEnd c.opened (c.finish file stop)).Reads (w ++ [Terminal.rpar]) := by
  obtain ⟨p, u, hp, hu, rfl⟩ := h
  refine ⟨_, _, _, hp.call_bare hu, c.refusal_eq_none.mp hc, c.finish_addition file stop, ?_⟩
  rw [List.append_assoc, List.append_assoc, List.cons_append]

theorem OpenCall.Awaits.close {w : List Terminal} (h : c.Awaits w) (hc : c.refusal = none) (file : Option String)
    (stop : Position) : (State.callEnd c.opened (c.finish file stop)).Reads (w ++ [Terminal.rpar]) := by
  obtain ⟨p, u, hp, hu, rfl⟩ := h
  refine ⟨_, _, _, hu.call hp, c.refusal_eq_none.mp hc, c.finish_addition file stop, ?_⟩
  rw [List.append_assoc, List.append_assoc, List.cons_append]

theorem Slot.Awaits.fill {w : List Terminal} (h : s.Awaits w) {v : Value} (hu : Derives u (.value v.datum))
    (file : Option String) (stop : Position) : (s.fill file v stop).Reads (w ++ u) := by
  obtain ⟨c, k, ts⟩ := s
  obtain ⟨a, b, ha, hb, rfl⟩ := h
  -- Outside of all tuples the value is an argument, inside it is an item of the innermost one.
  cases hb with
  | nil =>
    rw [List.append_nil]
    cases k with
    | none =>
      rw [Slot.terminals, List.append_nil]
      exact ha.put (.positional v) (.positional hu)
    | some k =>
      rw [Slot.terminals, List.append_assoc]
      exact ha.put (.keyword ⟨k.1, v, place file k.2 stop⟩) (.keyword k.1 hu)
  | @cons b z t ts hb hz =>
    refine ⟨_, ts, _, z ++ u, rfl, ⟨a, b, ha, hb, rfl⟩, ?_, ?_⟩
    · have hdata : dataOf (v :: t.items).reverse = dataOf t.items.reverse ++ [v.datum] := by
        rw [dataOf_eq_map, dataOf_eq_map, List.reverse_cons, List.map_append, List.map_singleton]
      rw [hdata]
      exact hz.value hu
    · simp only [Slot.terminals, List.append_assoc, List.cons_append]

theorem Slot.Awaits.enter {w : List Terminal} (h : s.Awaits w) (start : Position) :
    (s.enter start).Awaits (w ++ [Terminal.lpar]) := by
  obtain ⟨a, b, ha, hb, rfl⟩ := h
  refine ⟨a, b ++ [Terminal.lpar], ha, .cons hb (.inl ⟨rfl, rfl⟩), ?_⟩
  rw [List.append_assoc, List.append_assoc]
  rfl

theorem Slot.Holds.comma {w : List Terminal} (h : s.Holds w) : s.Awaits (w ++ [Terminal.comma]) := by
  obtain ⟨t, ts, a, u, hts, ⟨b, z, hb, hz, rfl⟩, hu, rfl⟩ := h
  refine ⟨b, z ++ Terminal.lpar :: (u ++ [Terminal.comma]), hb, ?_, ?_⟩
  · rw [hts]
    exact .cons hz (.inr ⟨u, rfl, hu⟩)
  · simp only [Slot.terminals, List.append_assoc, List.cons_append]

theorem Slot.Holds.close {w : List Terminal} (h : s.Holds w) {stop : Position} {st : State}
    (hst : s.close? file stop = some st) : st.Reads (w ++ [Terminal.rpar]) := by
  obtain ⟨t, ts, a, u, hts, ha, hu, rfl⟩ := h
  rw [Slot.close?, hts] at hst
  obtain rfl := Option.some.inj hst
  rw [List.append_assoc]
  exact ha.fill (v := .tuple t.items.reverse (place file t.start stop)) hu.tuple_bare file stop

theorem Slot.Awaits.close {w : List Terminal} (h : s.Awaits w) {stop : Position} {st : State}
    (hst : s.close? file stop = some st) : st.Reads (w ++ [Terminal.rpar]) := by
  obtain ⟨c, k, ts⟩ := s
  obtain ⟨a, b, ha, hb, rfl⟩ := h
  cases hb with
  | nil => cases hst
  | @cons b z t ts hb hz =>
    obtain rfl := Option.some.inj hst
    have hrest : Slot.Awaits ⟨c, k, ts⟩ (a ++ (Slot.terminals ⟨c, k, ts⟩ ++ b)) := ⟨a, b, ha, hb, rfl⟩
    have hclosed := hrest.fill (v := .tuple t.items.reverse (place file t.start stop)) hz.tuple file stop
    have hword : a ++ (Slot.terminals ⟨c, k, t :: ts⟩ ++ (b ++ Terminal.lpar :: z)) ++ [Terminal.rpar] =
        a ++ (Slot.terminals ⟨c, k, ts⟩ ++ b) ++ Terminal.lpar :: (z ++ [Terminal.rpar]) := by
      simp only [Slot.terminals, List.append_assoc, List.cons_append]
    rw [hword]
    exact hclosed

theorem literal_derives {l : Lexeme} {v : Value} (h : literal? file l = some v) :
    Derives [l.terminal] (.value v.datum) := by
  rw [literal?] at h
  split at h
  next ds heq =>
    obtain rfl := Option.some.inj h
    exact heq ▸ .integer ds
  next ds heq =>
    obtain rfl := Option.some.inj h
    exact heq ▸ .real ds
  next s heq =>
    obtain rfl := Option.some.inj h
    exact heq ▸ .text s
  next => cases h

theorem Slot.awaits_take {r q : Reader} {l : Lexeme} {closes : Bool} (hl : l.refusal = none)
    (hq : r.takeValue s l closes = some q) :
    ∃ st : State, q = r.goTo st ∧ ∀ w, s.Awaits w → st.Reads (w ++ [l.terminal]) := by
  rw [Reader.takeValue] at hq
  split at hq
  next v hv =>
    rw [hl, Reader.blame_none] at hq
    exact ⟨_, (Option.some.inj hq).symm, fun w h => h.fill (literal_derives hv) r.file l.stop⟩
  next =>
    split at hq
    next n hn =>
      refine ⟨_, (Option.some.inj hq).symm, fun w h => ?_⟩
      rw [hn]
      exact h.fill (v := .name n (place r.file l.start l.stop)) (.name n) r.file l.stop
    next hlpar =>
      refine ⟨_, (Option.some.inj hq).symm, fun w h => ?_⟩
      rw [hlpar]
      exact h.enter l.start
    next hrpar =>
      split_ifs at hq
      obtain ⟨st, hst, rfl⟩ := Option.map_eq_some_iff.mp hq
      refine ⟨st, rfl, fun w h => ?_⟩
      rw [hrpar]
      exact h.close hst
    next => cases hq

theorem awaits_slot {w : List Terminal} (h : c.Awaits w) : Slot.Awaits { call := c } w :=
  ⟨w, [], h, .nil, (List.append_nil w).symm⟩

theorem reads_argument {w : List Terminal} (h : (State.path c).Reads w) : c.Awaits (w ++ [Terminal.lpar]) := by
  obtain ⟨hargs, p, hp, rfl⟩ := h
  refine ⟨p, [], hp, .inl ⟨rfl, ?_⟩, List.append_assoc _ p [.lpar]⟩
  rw [hargs]
  rfl

theorem reads_path {w : List Terminal} (h : (State.qualified c).Reads w) (n : String) :
    (State.path { c with path := n :: c.path }).Reads (w ++ [Terminal.name n]) := by
  obtain ⟨hargs, p, hp, rfl⟩ := h
  refine ⟨hargs, p ++ [Terminal.dot, .name n], ?_, ?_⟩
  · rw [List.reverse_cons]
    exact .moreNames n hp
  · rw [List.append_assoc, List.append_assoc]
    rfl

theorem reads_word {n : String} {p q : Position} {w : List Terminal} (h : (State.word c n p q).Reads w)
    (file : Option String) : OpenCall.Holds { c with args := .positional (.name n (place file p q)) :: c.args } w := by
  obtain ⟨a, ha, rfl⟩ := h
  exact ha.put (.positional (.name n (place file p q))) (.positional (.name n))

theorem reads_value {n : String} {p q : Position} {w : List Terminal} (h : (State.word c n p q).Reads w) :
    Slot.Awaits { call := c, keyword := some (n, p) } (w ++ [Terminal.equal]) := by
  obtain ⟨a, ha, rfl⟩ := h
  exact ⟨a, [], ha, .nil, List.append_assoc a [.name n] [.equal]⟩

theorem reads_statement {o : Opened} {call : Call} {w : List Terminal} (h : (State.callEnd o call).Reads w)
    {l : Location}
    (ho : o.refusal l = none) : (State.statementEnd { call, location := l }).Reads (w ++ [Terminal.rpar]) := by
  obtain ⟨u, ns, as, hu, has, hcall, rfl⟩ := h
  obtain ⟨hreceiver, hmethod⟩ := (o.refusal_eq_none l).mp ho
  refine ⟨⟨o.receiver, o.method, ns, as⟩, ⟨hreceiver, hmethod, has⟩, hcall, fun e he => ?_⟩
  rw [List.append_assoc, List.append_assoc]
  exact .statement o.receiver o.method hu he

/-! ## Runs -/

/-- The statements that are finished are derived and accepted. -/
def Finished (w : List Terminal) (sts : List Statement) : Prop :=
  (w = [] ∧ sts = []) ∨ ∃ ss : List Sentence, Derives w (.statements ss) ∧ (∀ s ∈ ss, s.Accepted) ∧
    sts.reverse.map Statement.addition = ss.map Sentence.addition

theorem Finished.keep {w : List Terminal} {sts : List Statement} (h : Finished w sts) {st : Statement} {s : Sentence}
    (hu : Derives u (.statement s)) (hs : s.Accepted) (hst : st.addition = s.addition) :
    Finished (w ++ u) (st :: sts) := by
  right
  rcases h with ⟨rfl, rfl⟩ | ⟨ss, hw, hss, hsts⟩
  · exact ⟨[s], .oneStatement hu, List.forall_mem_singleton.mpr hs, congrArg (· :: []) hst⟩
  · refine ⟨ss ++ [s], .moreStatements hw hu, List.forall_mem_append.mpr ⟨hss, List.forall_mem_singleton.mpr hs⟩, ?_⟩
    rw [List.reverse_cons, List.map_append, List.map_append, hsts, List.map_singleton, hst, List.map_singleton]

def OfStatement (f : Fault) : Prop := ∃ d : Diagnostic, f = .reported d ∧ d.code = .badStatement

theorem OpenCall.refusal_ofStatement {f : Fault} (h : c.refusal = some f) : OfStatement f := by
  obtain ⟨v, -, rfl⟩ := Option.map_eq_some_iff.mp h
  exact ⟨_, rfl, rfl⟩

theorem Opened.refusal_ofStatement {o : Opened} {l : Location} {f : Fault} (h : o.refusal l = some f) :
    OfStatement f := by
  rw [Opened.refusal] at h
  split_ifs at h
  exact ⟨_, (Option.some.inj h).symm, rfl⟩

/-- What the reader holds is true of the terminals it has gone through, unless it has a reason to refuse them. -/
structure Sound (r : Reader) (w : List Terminal) : Prop where
  reads : r.refusal = none → ∃ a b, w = a ++ b ∧ Finished a r.finished ∧ r.state.Reads b
  blames : ∀ f, r.refusal = some f → OfStatement f

namespace Sound

variable {r q : Reader} {w : List Terminal}

theorem goTo (h : Sound r w) {t : Terminal} {st : State} (hq : some (r.goTo st) = some q)
    (hst : ∀ b, r.state.Reads b → st.Reads (b ++ [t])) : Sound q (w ++ [t]) := by
  obtain rfl := Option.some.inj hq
  refine ⟨fun hr => ?_, h.blames⟩
  obtain ⟨a, b, rfl, ha, hb⟩ := h.reads hr
  exact ⟨a, b ++ [t], List.append_assoc a b [t], ha, hst b hb⟩

theorem blame (h : Sound r w) {t : Terminal} {st : State} {f : Option Fault}
    (hq : some ((r.blame f).goTo st) = some q) (hf : ∀ x, f = some x → OfStatement x)
    (hst : f = none → ∀ b, r.state.Reads b → st.Reads (b ++ [t])) : Sound q (w ++ [t]) := by
  cases f with
  | none =>
    rw [Reader.blame_none] at hq
    exact h.goTo hq (hst rfl)
  | some x =>
    obtain rfl := Option.some.inj hq
    obtain ⟨file, finished, state, refusal⟩ := r
    cases refusal with
    | none => exact ⟨fun hr => (Option.some_ne_none x hr).elim, hf⟩
    | some y => exact ⟨fun hr => (Option.some_ne_none y hr).elim, h.blames⟩

theorem endCall (h : Sound r w) {c : OpenCall} {stop : Position} (hq : some (r.endCall c stop) = some q)
    (hc : c.refusal = none → ∀ b, r.state.Reads b →
      (State.callEnd c.opened (c.finish r.file stop)).Reads (b ++ [Terminal.rpar])) : Sound q (w ++ [Terminal.rpar]) :=
  h.blame hq (fun _ => c.refusal_ofStatement) hc

theorem take (h : Sound r w) {s : Slot} {l : Lexeme} (closes : Bool) (hs : ∀ b, r.state.Reads b → s.Awaits b)
    (hl : l.refusal = none) (hq : r.takeValue s l closes = some q) : Sound q (w ++ [l.terminal]) := by
  obtain ⟨st, rfl, hst⟩ := Slot.awaits_take hl hq
  exact h.goTo rfl fun b hb => hst b (hs b hb)

theorem begins {l : Lexeme} (h : r.refusal = none → Finished w r.finished)
    (hb : ∀ f, r.refusal = some f → OfStatement f) (hq : r.begin? l = some q) : Sound q (w ++ [l.terminal]) := by
  rw [Reader.begin?] at hq
  split at hq
  next n hn =>
    obtain rfl := Option.some.inj hq
    exact ⟨fun hr => ⟨w, [.name n], by rw [hn], h hr, rfl⟩, hb⟩
  next => cases hq

theorem finished (h : Sound r w) (hr : r.refusal = none) (hempty : ∀ b, r.state.Reads b → b = []) :
    Finished w r.finished := by
  obtain ⟨a, b, rfl, ha, hb⟩ := h.reads hr
  rwa [hempty b hb, List.append_nil]

theorem kept (h : Sound r w) (hr : r.refusal = none) {s : Statement} (hs : r.state = .statementEnd s) (st : Statement)
    (hst : st.addition = s.addition) {o : List Terminal} (ho : o = [] ∨ o = [.semicolon]) :
    Finished (w ++ o) (st :: r.finished) := by
  obtain ⟨a, b, rfl, ha, hb⟩ := h.reads hr
  rw [hs] at hb
  obtain ⟨sentence, haccepted, hadd, hderives⟩ := hb
  rw [List.append_assoc]
  exact ha.keep (hderives o ho) haccepted (hst.trans hadd)

theorem step (h : Sound r w) {l : Lexeme} (hl : l.refusal = none) (hq : r.step l = some q) :
    Sound q (w ++ [l.terminal]) := by
  obtain ⟨file, finished, state, refusal⟩ := r
  obtain ⟨t, start, stop⟩ := l
  cases state with
  | start => exact begins (fun hr => h.finished hr fun b hb => hb) h.blames hq
  | receiver n p =>
    cases t with
    | dot =>
      apply h.goTo hq
      rintro b rfl
      rfl
    | _ => cases hq
  | member n p =>
    cases t with
    | name m =>
      apply h.goTo hq
      rintro b rfl
      rfl
    | _ => cases hq
  | method o =>
    cases t with
    | lpar =>
      apply h.goTo hq
      rintro b rfl
      rfl
    | _ => cases hq
  | callee o =>
    cases t with
    | name n => exact h.goTo hq fun b hb => ⟨rfl, [.name n], .oneName n, congrArg (· ++ [Terminal.name n]) hb⟩
    | _ => cases hq
  | path c =>
    cases t with
    | dot =>
      refine h.goTo hq ?_
      rintro b ⟨hargs, p, hp, rfl⟩
      exact ⟨hargs, p, hp, List.append_assoc _ p [.dot]⟩
    | lpar => exact h.goTo hq fun b hb => reads_argument hb
    | _ => cases hq
  | qualified c =>
    cases t with
    | name n => exact h.goTo hq fun b hb => reads_path hb n
    | _ => cases hq
  | argument c =>
    cases t with
    | name n => exact h.goTo hq fun b hb => ⟨b, hb, rfl⟩
    | rpar => exact h.endCall hq fun hc b hb => OpenCall.Awaits.close hb hc file stop
    | _ => exact h.take false (fun b hb => awaits_slot hb) hl hq
  | word c n p p' =>
    cases t with
    | equal => exact h.goTo hq fun b hb => reads_value hb
    | comma => exact h.goTo hq fun b hb => (reads_word hb file).comma
    | rpar => exact h.endCall hq fun hc b hb => (reads_word hb file).close hc file stop
    | _ => cases hq
  | value s => exact h.take false (fun b hb => hb) hl hq
  | item s => exact h.take true (fun b hb => hb) hl hq
  | itemEnd s =>
    cases t with
    | comma => exact h.goTo hq fun b hb => Slot.Holds.comma hb
    | rpar =>
      obtain ⟨st, hst, heq⟩ := Option.map_eq_some_iff.mp hq
      exact h.goTo (congrArg some heq) fun b hb => Slot.Holds.close hb hst
    | _ => cases hq
  | argumentEnd c =>
    cases t with
    | comma => exact h.goTo hq fun b hb => OpenCall.Holds.comma hb
    | rpar => exact h.endCall hq fun hc b hb => OpenCall.Holds.close hb hc file stop
    | _ => cases hq
  | callEnd o call =>
    cases t with
    | rpar => exact h.blame hq (fun _ => o.refusal_ofStatement) fun ho b hb => reads_statement hb ho
    | _ => cases hq
  | statementEnd s =>
    cases t with
    | semicolon =>
      obtain rfl := Option.some.inj hq
      let l := { s.location with endLine := some stop.line, endColumn := some stop.column }
      refine ⟨fun hr => ?_, h.blames⟩
      exact ⟨_, [], (List.append_nil _).symm, h.kept hr rfl { s with location := l } rfl (.inr rfl), rfl⟩
    | _ =>
      refine begins (r := Reader.keep ⟨file, finished, .statementEnd s, refusal⟩ s) (fun hr => ?_) h.blames hq
      have hkept := h.kept hr rfl s rfl (.inl rfl)
      rwa [List.append_nil] at hkept
  | between => exact begins (fun hr => h.finished hr fun b hb => hb) h.blames hq

theorem run (h : Sound r w) {ls : List Lexeme} (hs : Short ls) (hq : r.run ls = .ok q) :
    Sound q (w ++ ls.map Lexeme.terminal) := by
  induction ls generalizing r w with
  | nil =>
    obtain rfl := Except.ok.inj hq
    rwa [List.map_nil, List.append_nil]
  | cons l ls ih =>
    obtain ⟨hl, hls⟩ := short_cons.mp hs
    rw [Reader.run] at hq
    split at hq
    next r' hr' =>
      have hrest := ih (h.step hl hr') hls hq
      rwa [List.append_assoc] at hrest
    next => cases hq

theorem statements (h : Sound r w) (hw : w ≠ []) (hr : r.refusal = none) {sts : List Statement}
    (hsts : r.statements? = some sts) :
    ∃ ss : List Sentence, Derives w (.statements ss) ∧ (∀ s ∈ ss, s.Accepted) ∧
      sts.map Statement.addition = ss.map Sentence.addition := by
  have hfinished : Finished w sts.reverse := by
    rw [Reader.statements?] at hsts
    split at hsts
    next s hs =>
      have hkept := h.kept hr hs s rfl (.inl rfl)
      rw [← Option.some.inj hsts, List.reverse_reverse]
      rwa [List.append_nil] at hkept
    next hs =>
      rw [← Option.some.inj hsts, List.reverse_reverse]
      exact h.finished hr fun b hb => by rwa [hs] at hb
    next => cases hsts
  rcases hfinished with ⟨hnil, -⟩ | ⟨ss, hderives, haccepted, hadd⟩
  · exact absurd hnil hw
  · rw [List.reverse_reverse] at hadd
    exact ⟨ss, hderives, haccepted, hadd⟩

end Sound

/-! ## Texts -/

theorem step_junk (r : Reader) {l : Lexeme} (hl : l.terminal = .junk) : r.step l = none := by
  obtain ⟨file, finished, state, refusal⟩ := r
  obtain ⟨t, start, stop⟩ := l
  subst hl
  cases state <;> rfl

theorem junk_not_mem_of_run {r q : Reader} {ls : List Lexeme} (h : r.run ls = .ok q) :
    .junk ∉ ls.map Lexeme.terminal := by
  induction ls generalizing r with
  | nil => exact List.not_mem_nil
  | cons l ls ih =>
    rw [Reader.run] at h
    split at h
    next r' hr' =>
      rw [List.map_cons, List.mem_cons, not_or]
      refine ⟨fun hjunk => ?_, ih h⟩
      rw [step_junk r hjunk.symm] at hr'
      cases hr'
    next => cases h

theorem sound_start (file : Option String) : Sound { file } [] :=
  ⟨fun _ => ⟨[], [], rfl, .inl ⟨rfl, rfl⟩, rfl⟩, fun _ hf => nomatch hf⟩

theorem readStatements_sound {text : String} (hshort : ∀ ts, Lexes text.toList ts →
      ∀ ds, Terminal.integer ds ∈ ts → ds.length ≤ Decimal.digitLimit) (file : Option String) (offset : Int) :
    (∃ sts ts ss, readStatements file offset text = .ok sts ∧ Lexes text.toList ts ∧ Derives ts (.statements ss) ∧
      (∀ s ∈ ss, s.Accepted) ∧ sts.map Statement.addition = ss.map Sentence.addition) ∨
    ∃ f, readStatements file offset text = .error f ∧ OfStatement f := by
  rw [readStatements]
  generalize hls : lexemesFrom ⟨1 + offset, 1⟩ text.toList = ls
  cases hrun : Reader.run { file } ls with
  | error l => exact .inr ⟨_, rfl, _, rfl, rfl⟩
  | ok r =>
    dsimp only
    have hlex : Lexes text.toList (ls.map Lexeme.terminal) :=
      lexes_iff.mpr ⟨congrArg _ hls, junk_not_mem_of_run hrun⟩
    have hsound := (sound_start file).run (short_of_terminals (hshort _ hlex)) hrun
    cases hsts : r.statements? with
    | none => exact .inr ⟨_, rfl, _, rfl, rfl⟩
    | some sts =>
      cases hr : r.refusal with
      | some f => exact .inr ⟨f, rfl, hsound.blames f hr⟩
      | none =>
        -- A reader that has read nothing is at the start, where no text may end.
        have hne : ls.map Lexeme.terminal ≠ [] := by
          intro hnil
          rw [List.map_eq_nil_iff.mp hnil] at hrun
          obtain rfl := Except.ok.inj hrun
          cases hsts
        obtain ⟨ss, hderives, haccepted, hadd⟩ := hsound.statements hne hr hsts
        exact .inl ⟨sts, _, ss, rfl, hlex, hderives, haccepted, hadd⟩

/-! ## Accepted texts -/

section Refusals

variable {r q : Reader} {l : Lexeme}

theorem refusal_of_blame {f : Option Fault} {st : State} (h : some ((r.blame f).goTo st) = some q)
    (hq : q.refusal = none) : r.refusal = none ∧ f = none := by
  obtain rfl := Option.some.inj h
  have hor : (r.refusal <|> f) = none := hq
  cases hr : r.refusal with
  | none => exact ⟨rfl, by rwa [hr] at hor⟩
  | some x => cases hr ▸ hor

theorem refusal_of_goTo {st : State} (h : some (r.goTo st) = some q) (hq : q.refusal = none) : r.refusal = none := by
  obtain rfl := Option.some.inj h
  exact hq

theorem refusal_of_begin? (h : r.begin? l = some q) (hq : q.refusal = none) :
    r.refusal = none ∧ l.refusal = none := by
  rw [Reader.begin?] at h
  split at h
  next n hn => exact ⟨refusal_of_goTo h hq, by rw [Lexeme.refusal, hn]⟩
  next => cases h

theorem refusal_of_takeValue {s : Slot} (closes : Bool) (h : r.takeValue s l closes = some q) (hq : q.refusal = none) :
    r.refusal = none ∧ l.refusal = none := by
  rw [Reader.takeValue] at h
  split at h
  next => exact refusal_of_blame h hq
  next =>
    split at h
    next n hn => exact ⟨refusal_of_goTo h hq, by rw [Lexeme.refusal, hn]⟩
    next hn => exact ⟨refusal_of_goTo h hq, by rw [Lexeme.refusal, hn]⟩
    next hn =>
      split at h
      · obtain ⟨st, -, heq⟩ := Option.map_eq_some_iff.mp h
        exact ⟨refusal_of_goTo (congrArg some heq) hq, by rw [Lexeme.refusal, hn]⟩
      · cases h
    next => cases h

theorem refusal_of_step (h : r.step l = some q) (hq : q.refusal = none) : r.refusal = none ∧ l.refusal = none := by
  obtain ⟨file, finished, state, refusal⟩ := r
  obtain ⟨t, start, stop⟩ := l
  cases state with
  | start | between => exact refusal_of_begin? h hq
  | value s => exact refusal_of_takeValue false h hq
  | item s => exact refusal_of_takeValue true h hq
  | argument c =>
    cases t with
    | name n => exact ⟨refusal_of_goTo h hq, rfl⟩
    | rpar => exact ⟨(refusal_of_blame h hq).1, rfl⟩
    | _ => exact refusal_of_takeValue (s := { call := c }) false h hq
  | statementEnd s =>
    cases t with
    | semicolon =>
      obtain rfl := Option.some.inj h
      exact ⟨hq, rfl⟩
    | _ => exact refusal_of_begin? (r := Reader.keep ⟨file, finished, .statementEnd s, refusal⟩ s) h hq
  | itemEnd s =>
    cases t with
    | comma => exact ⟨refusal_of_goTo h hq, rfl⟩
    | rpar =>
      obtain ⟨st, -, heq⟩ := Option.map_eq_some_iff.mp h
      exact ⟨refusal_of_goTo (congrArg some heq) hq, rfl⟩
    | _ => cases h
  | word c n p p' =>
    cases t with
    | equal | comma => exact ⟨refusal_of_goTo h hq, rfl⟩
    | rpar => exact ⟨(refusal_of_blame h hq).1, rfl⟩
    | _ => cases h
  | argumentEnd c =>
    cases t with
    | comma => exact ⟨refusal_of_goTo h hq, rfl⟩
    | rpar => exact ⟨(refusal_of_blame h hq).1, rfl⟩
    | _ => cases h
  | callEnd o call =>
    cases t with
    | rpar => exact ⟨(refusal_of_blame h hq).1, rfl⟩
    | _ => cases h
  | receiver n p =>
    cases t with
    | dot => exact ⟨refusal_of_goTo h hq, rfl⟩
    | _ => cases h
  | method o =>
    cases t with
    | lpar => exact ⟨refusal_of_goTo h hq, rfl⟩
    | _ => cases h
  | path c =>
    cases t with
    | dot | lpar => exact ⟨refusal_of_goTo h hq, rfl⟩
    | _ => cases h
  | member n p | callee o | qualified c =>
    cases t with
    | name m => exact ⟨refusal_of_goTo h hq, rfl⟩
    | _ => cases h

theorem short_of_run {ls : List Lexeme} (h : r.run ls = .ok q) (hq : q.refusal = none) :
    r.refusal = none ∧ Short ls := by
  induction ls generalizing r with
  | nil =>
    obtain rfl := Except.ok.inj h
    exact ⟨hq, fun l hl => nomatch hl⟩
  | cons l ls ih =>
    rw [Reader.run] at h
    split at h
    next r' hr' =>
      obtain ⟨hr, hls⟩ := ih h
      obtain ⟨hr, hl⟩ := refusal_of_step hr' hr
      exact ⟨hr, short_cons.mpr ⟨hl, hls⟩⟩
    next => cases h

end Refusals

theorem length_of_refusal {l : Lexeme} {ds : List Char} (h : l.terminal = .integer ds) (hl : l.refusal = none) :
    ds.length ≤ Decimal.digitLimit := by
  rw [Lexeme.refusal, h] at hl
  dsimp only at hl
  split_ifs at hl with hlong
  exact Nat.not_lt.mp hlong

theorem readStatements_accepted {offset : Int} {text : String} {sts : List Statement}
    (h : readStatements file offset text = .ok sts) :
    ∃ ts ss, Lexes text.toList ts ∧ Derives ts (.statements ss) ∧ (∀ s ∈ ss, s.Accepted) ∧
      sts.map Statement.addition = ss.map Sentence.addition ∧
      ∀ ds, Terminal.integer ds ∈ ts → ds.length ≤ Decimal.digitLimit := by
  have hshort : Short (lexemesFrom ⟨1 + offset, 1⟩ text.toList) := by
    rw [readStatements] at h
    generalize lexemesFrom ⟨1 + offset, 1⟩ text.toList = ls at h ⊢
    cases hrun : Reader.run { file } ls with
    | error l => simp [hrun] at h
    | ok r =>
      cases hr : r.refusal with
      | none => exact (short_of_run hrun hr).2
      | some f =>
        simp only [hrun, hr] at h
        split at h <;> cases h
  have hlength : ∀ ts, Lexes text.toList ts → ∀ ds, Terminal.integer ds ∈ ts → ds.length ≤ Decimal.digitLimit := by
    intro ts hts ds hds
    rw [← (hts.lexemes ⟨1 + offset, 1⟩).1] at hds
    obtain ⟨l, hl, hterminal⟩ := List.mem_map.mp hds
    exact length_of_refusal hterminal (hshort l hl)
  rcases readStatements_sound hlength file offset with ⟨_, ts, ss, hok, hlex, hread⟩ | ⟨f, herror, -⟩
  · obtain rfl := Except.ok.inj (h.symm.trans hok)
    exact ⟨ts, ss, hlex, hread.1, hread.2.1, hread.2.2, hlength ts hlex⟩
  · cases h.symm.trans herror

end LayerLoops.Source
