import LayerLoops.Proofs.Lexing
import LayerLoops.Proofs.Located

/-! # Reading what the grammar derives

A reader goes through the lexemes of a derivation in one pass. Each rule is read from the state that awaits it to the
state behind it, and what is kept has the meaning of the derivation. -/

namespace LayerLoops.Source

variable {l : Lexeme} {ls : List Lexeme} {n : String} {q : Reader} {ss : List Sentence} {stop : Position} {v : Value}
  {w : List Terminal} (c : OpenCall)

/-! ## Runs -/

def Short (ls : List Lexeme) : Prop := ∀ l ∈ ls, l.refusal = none

theorem short_append {as bs : List Lexeme} : Short (as ++ bs) ↔ Short as ∧ Short bs := List.forall_mem_append

theorem short_of_terminals (h : ∀ ds, Terminal.integer ds ∈ ls.map Lexeme.terminal → ds.length ≤ Decimal.digitLimit) :
    Short ls := by
  intro l hl
  rw [Lexeme.refusal]
  split
  next ds heq => exact if_neg (Nat.not_lt.mpr (h ds (heq ▸ List.mem_map_of_mem hl)))
  next => rfl

theorem short_cons : Short (l :: ls) ↔ l.refusal = none ∧ Short ls := List.forall_mem_cons

namespace Reader

variable {r : Reader}

theorem run_append (r : Reader) (as bs : List Lexeme) : r.run (as ++ bs) = (r.run as).bind fun q => q.run bs := by
  induction as generalizing r with
  | nil => rfl
  | cons a as ih =>
    rw [List.cons_append, run, run]
    cases r.step a with
    | none => rfl
    | some q => exact ih q

theorem run_append_ok {q : Reader} {as : List Lexeme} (h : r.run as = .ok q) (bs : List Lexeme) :
    r.run (as ++ bs) = q.run bs := by
  rw [run_append, h]
  rfl

theorem run_cons {q : Reader} {l : Lexeme} (h : r.step l = some q) (ls : List Lexeme) : r.run (l :: ls) = q.run ls := by
  rw [run, h]

theorem blame_none (r : Reader) : r.blame none = r := by
  obtain ⟨file, finished, state, refusal⟩ := r
  cases refusal <;> rfl

end Reader

/-! ## Values -/

def Takes (r : Reader) (s : Slot) (ls : List Lexeme) (v : Value) (stop : Position) : Prop :=
  ∃ l rest q, ls = l :: rest ∧ l.terminal ≠ .rpar ∧ r.takeValue s l false = some q ∧
    q.run rest = .ok (r.goTo (s.fill r.file v stop))

theorem step_value (r : Reader) (s : Slot) (l : Lexeme) : (r.goTo (.value s)).step l = r.takeValue s l false := by
  obtain ⟨t, start, stop⟩ := l
  cases t <;> rfl

theorem step_item (r : Reader) (s : Slot) (hl : l.terminal ≠ .rpar) :
    (r.goTo (.item s)).step l = r.takeValue s l false := by
  obtain ⟨t, start, stop⟩ := l
  cases t <;> first | rfl | exact absurd rfl hl

theorem step_argument (r : Reader) (c : OpenCall) (hl : l.terminal ≠ .rpar) (hn : ∀ n, l.terminal ≠ .name n) :
    (r.goTo (.argument c)).step l = r.takeValue { call := c } l false := by
  obtain ⟨t, start, stop⟩ := l
  cases t <;> first | rfl | exact absurd rfl hl | exact absurd rfl (hn _)

theorem Takes.of_value {r : Reader} {s : Slot} (h : Takes r s ls v stop) :
    (r.goTo (.value s)).run ls = .ok (r.goTo (s.fill r.file v stop)) := by
  obtain ⟨l, rest, q, rfl, -, hstep, hrun⟩ := h
  exact (Reader.run_cons ((step_value r s l).trans hstep) rest).trans hrun

theorem Takes.of_item {r : Reader} {s : Slot} (h : Takes r s ls v stop) :
    (r.goTo (.item s)).run ls = .ok (r.goTo (s.fill r.file v stop)) := by
  obtain ⟨l, rest, q, rfl, hl, hstep, hrun⟩ := h
  exact (Reader.run_cons ((step_item r s hl).trans hstep) rest).trans hrun

theorem takes_name {r : Reader} {s : Slot} (hl : l.terminal = .name n) :
    Takes r s [l] (.name n (place r.file l.start l.stop)) l.stop := by
  obtain ⟨t, start, stop⟩ := l
  subst hl
  exact ⟨_, [], _, rfl, Terminal.noConfusion, rfl, rfl⟩

theorem takeValue_lpar (r : Reader) (s : Slot) (hl : l.terminal = .lpar) :
    r.takeValue s l false = some (r.goTo (.item (s.enter l.start))) := by
  obtain ⟨t, start, stop⟩ := l
  subst hl
  rfl

theorem step_comma (r : Reader) (s : Slot) (hl : l.terminal = .comma) :
    (r.goTo (.itemEnd s)).step l = some (r.goTo (.item s)) := by
  obtain ⟨t, start, stop⟩ := l
  subst hl
  rfl

theorem step_close (r : Reader) (s : Slot) (hl : l.terminal = .rpar) :
    (r.goTo (.item s)).step l = (s.close? r.file l.stop).map r.goTo ∧
      (r.goTo (.itemEnd s)).step l = (s.close? r.file l.stop).map r.goTo := by
  obtain ⟨t, start, stop⟩ := l
  subst hl
  exact ⟨rfl, rfl⟩

theorem run_close {r : Reader} {s : Slot} {start : Position} {vs : List Value} {o : List Lexeme}
    (ho : IsComma (o.map Lexeme.terminal)) (hl : l.terminal = .rpar) :
    (r.goTo (.itemEnd { s with tuples := ⟨start, vs.reverse⟩ :: s.tuples })).run (o ++ [l]) =
      .ok (r.goTo (s.fill r.file (.tuple vs (place r.file start l.stop)) l.stop)) := by
  have hclose : ({ s with tuples := ⟨start, vs.reverse⟩ :: s.tuples } : Slot).close? r.file l.stop =
      some (s.fill r.file (.tuple vs (place r.file start l.stop)) l.stop) := by
    rw [Slot.close?]
    dsimp only
    rw [List.reverse_reverse]
  obtain ⟨hitem, hend⟩ := step_close r { s with tuples := ⟨start, vs.reverse⟩ :: s.tuples } hl
  rw [hclose] at hitem hend
  rcases ho with ho | ho
  · rw [List.map_eq_nil_iff.mp ho]
    exact Reader.run_cons hend []
  · obtain ⟨k, rfl, hk⟩ := List.map_eq_singleton_iff.mp ho
    exact (Reader.run_cons (step_comma r _ hk) [l]).trans (Reader.run_cons hitem [])

def EndsAt (ls : List Lexeme) (stop : Position) : Prop := ∃ b, ls.getLast? = some b ∧ b.stop = stop

theorem endsAt_last {w : List Lexeme} {b : Lexeme} : EndsAt (w ++ [b]) b.stop := ⟨b, List.getLast?_concat, rfl⟩

theorem EndsAt.cons {ls : List Lexeme} {stop : Position} (h : EndsAt ls stop) (a : Lexeme) : EndsAt (a :: ls) stop := by
  obtain ⟨b, hb, rfl⟩ := h
  exact ⟨b, by rw [List.getLast?_cons, hb]; rfl, rfl⟩

theorem occupies_append {file : Option String} {ks : List Lexeme} {a : Lexeme} (ha : ls.head? = some a)
    (h : EndsAt ks stop) : Occupies file (ls ++ ks) (place file a.start stop) := by
  obtain ⟨b, hb, rfl⟩ := h
  exact ⟨a, b, by rw [List.head?_append, ha]; rfl, by rw [List.getLast?_append, hb]; rfl, rfl⟩

/-- What is read of a value, and of the items of a tuple. -/
def ReadsValue (w : List Terminal) : Phrase → Prop
  | .value d => ∀ ls : List Lexeme, ls.map Lexeme.terminal = w → Short ls → ∀ (r : Reader) (s : Slot),
    ∃ v stop, v.datum = d ∧ Takes r s ls v stop ∧ Stands r.file ls (.value v) ∧ EndsAt ls stop
  | .values ds => ∀ ls : List Lexeme, ls.map Lexeme.terminal = w → Short ls →
    ∀ (r : Reader) (s : Slot) (t : OpenTuple) (ts : List OpenTuple),
      ∃ vs, dataOf vs = ds ∧ Stands r.file ls (.values vs) ∧ (r.goTo (.item { s with tuples := t :: ts })).run ls =
        .ok (r.goTo (.itemEnd { s with tuples := ⟨t.start, vs.reverse ++ t.items⟩ :: ts }))
  | _ => True

theorem readsValue_literal {t : Terminal} {d : Datum} (f : Location → Value) (hf : ∀ p, (f p).datum = d)
    (h : ∀ file (l : Lexeme), l.terminal = t → literal? file l = some (f (place file l.start l.stop)))
    (hstands : ∀ file (l : Lexeme), l.terminal = t → Stands file [l] (.value (f (place file l.start l.stop)))) :
    ReadsValue [t] (.value d) := by
  intro ls hls hs r s
  obtain ⟨l, rfl, hl⟩ := List.map_eq_singleton_iff.mp hls
  have hv := h r.file l hl
  refine ⟨f (place r.file l.start l.stop), l.stop, hf _, ⟨l, [], _, rfl, ?_, ?_, rfl⟩, hstands r.file l hl,
    l, rfl, rfl⟩
  · intro hrpar
    rw [literal?, hrpar] at hv
    cases hv
  · rw [Reader.takeValue, hv]
    dsimp only
    rw [hs l (List.mem_singleton_self l), Reader.blame_none]

theorem Derives.readsValue {ph : Phrase} (h : Derives w ph) : ReadsValue w ph := by
  -- The items of a tuple are read with it on top of the stack of the slot, so the hypothesis for them is used there.
  induction h with
  | integer ds =>
    apply readsValue_literal (.integer (Decimal.digitsValue ds)) fun _ => rfl
    · intro file l hl
      rw [literal?, hl]
    · exact fun file l hl => .integer hl (occupies_single file l)
  | real ds =>
    apply readsValue_literal (.real (realOf ds)) fun _ => rfl
    · intro file l hl
      rw [literal?, hl]
    · exact fun file l hl => .real hl (occupies_single file l)
  | text t =>
    apply readsValue_literal (.text t) fun _ => rfl
    · intro file l hl
      rw [literal?, hl]
    · exact fun file l hl => .text hl (occupies_single file l)
  | name n =>
    intro ls hls hs r s
    obtain ⟨l, rfl, hl⟩ := List.map_eq_singleton_iff.mp hls
    exact ⟨_, l.stop, rfl, takes_name hl, .name hl (occupies_single r.file l), l, rfl, rfl⟩
  | unit =>
    intro ls hls hs r s
    obtain ⟨l, ks, rfl, hl, hks⟩ := List.map_eq_cons_iff.mp hls
    obtain ⟨k, rfl, hk⟩ := List.map_eq_singleton_iff.mp hks
    refine ⟨.tuple [] (place r.file l.start k.stop), k.stop, rfl, ?_, .unit hl hk (occupies_between (w := [])), k, rfl, rfl⟩
    refine ⟨l, [k], _, rfl, hl ▸ Terminal.noConfusion, takeValue_lpar r s hl, ?_⟩
    exact Reader.run_cons (step_close r (s.enter l.start) hk).1 []
  | tuple hw ho ih =>
    intro ls hls hs r s
    obtain ⟨l, ks, rfl, hl, hks⟩ := List.map_eq_cons_iff.mp hls
    obtain ⟨as, bs, rfl, has, hbs⟩ := List.map_eq_append_iff.mp hks
    obtain ⟨is, os, rfl, his, hos⟩ := List.map_eq_append_iff.mp has
    obtain ⟨k, rfl, hk⟩ := List.map_eq_singleton_iff.mp hbs
    have his' : Short is := fun x hx => hs x (by simp [hx])
    obtain ⟨vs, hvs, hstands, hrun⟩ := ih is his his' r s ⟨l.start, []⟩ s.tuples
    refine ⟨.tuple vs (place r.file l.start k.stop), k.stop, congrArg Datum.tuple hvs, ?_,
      .tuple hl hstands (hos ▸ ho) hk occupies_between, endsAt_last.cons l⟩
    refine ⟨l, _, _, rfl, hl ▸ Terminal.noConfusion, takeValue_lpar r s hl, ?_⟩
    rw [List.append_nil] at hrun
    rw [List.append_assoc]
    exact (Reader.run_append_ok hrun _).trans (run_close (hos ▸ ho) hk)
  | oneValue hw ih =>
    intro ls hls hs r s t ts
    obtain ⟨v, stop, hv, htakes, hstands, -⟩ := ih ls hls hs r { s with tuples := t :: ts }
    refine ⟨[v], ?_, .oneValue hstands, htakes.of_item⟩
    rw [dataOf, dataOf, hv]
  | moreValues hu hw ihu ihw =>
    intro ls hls hs r s t ts
    obtain ⟨as, bs, rfl, has, hbs⟩ := List.map_eq_append_iff.mp hls
    obtain ⟨k, bs, rfl, hk, hbs⟩ := List.map_eq_cons_iff.mp hbs
    obtain ⟨hsa, -, hsb⟩ : Short as ∧ k.refusal = none ∧ Short bs := by
      rwa [short_append, short_cons] at hs
    obtain ⟨vs, hvs, hstands, hrun⟩ := ihu as has hsa r s t ts
    obtain ⟨v, stop, hv, htakes, hstands', -⟩ :=
      ihw bs hbs hsb r { s with tuples := ⟨t.start, vs.reverse ++ t.items⟩ :: ts }
    refine ⟨vs ++ [v], ?_, .moreValues hstands hk hstands', ?_⟩
    · rw [dataOf_eq_map, List.map_append, ← dataOf_eq_map, hvs, List.map_singleton, hv]
    · rw [Reader.run_append_ok hrun, Reader.run_cons (step_comma r _ hk), htakes.of_item, List.reverse_append]
      rfl
  | _ => exact True.intro

/-! ## Arguments -/

def Argument.given : Argument → Given
  | .positional v => (none, v.datum)
  | .keyword k => (some k.name, k.value.datum)

/-- The reader stands behind the last argument of the call. -/
structure EndsArgument (r : Reader) (c : OpenCall) (q : Reader) : Prop where
  comma : ∀ l : Lexeme, l.terminal = .comma → q.step l = some (r.goTo (.argument c))
  close : ∀ l : Lexeme, l.terminal = .rpar → q.step l = some (r.endCall c l.stop)

theorem endsArgument (r : Reader) (c : OpenCall) : EndsArgument r c (r.goTo (.argumentEnd c)) := by
  constructor <;>
    · rintro ⟨t, start, stop⟩ rfl
      rfl

theorem endsArgument_word (r : Reader) (c : OpenCall) (n : String) (p q : Position) :
    EndsArgument r { c with args := .positional (.name n (place r.file p q)) :: c.args } (r.goTo (.word c n p q)) := by
  constructor <;>
    · rintro ⟨t, start, stop⟩ rfl
      rfl

theorem step_word (r : Reader) (c : OpenCall) (hl : l.terminal = .name n) :
    (r.goTo (.argument c)).step l = some (r.goTo (.word c n l.start l.stop)) := by
  obtain ⟨t, start, stop⟩ := l
  subst hl
  rfl

theorem step_equal (r : Reader) (c : OpenCall) (n : String) (p q : Position) (hl : l.terminal = .equal) :
    (r.goTo (.word c n p q)).step l = some (r.goTo (.value { call := c, keyword := some (n, p) })) := by
  obtain ⟨t, start, stop⟩ := l
  subst hl
  rfl

theorem Takes.of_argument {r : Reader} {c : OpenCall} (h : Takes r { call := c } ls v stop)
    (hn : ∀ l ∈ ls.head?, ∀ n, l.terminal ≠ .name n) :
    (r.goTo (.argument c)).run ls = .ok (r.goTo (.argumentEnd { c with args := .positional v :: c.args })) := by
  obtain ⟨l, rest, q, rfl, hl, hstep, hrun⟩ := h
  exact (Reader.run_cons ((step_argument r c hl (hn l rfl)).trans hstep) rest).trans hrun

theorem Derives.name_or_head {d : Datum} (h : Derives w (.value d)) :
    (∃ n, w = [.name n] ∧ d = .name n) ∨ ∀ t ∈ w.head?, ∀ n, t ≠ .name n := by
  cases h with
  | name n => exact .inl ⟨n, rfl, rfl⟩
  | integer _ | real _ | text _ | unit | tuple _ _ =>
    right
    rintro t ⟨⟩ n
    exact Terminal.noConfusion

theorem Derives.run_argument {a : Given} (h : Derives w (.argument a)) (hls : ls.map Lexeme.terminal = w)
    (hs : Short ls) (r : Reader) (c : OpenCall) :
    ∃ arg q, arg.given = a ∧ (r.goTo (.argument c)).run ls = .ok q ∧
      EndsArgument r { c with args := arg :: c.args } q ∧ Stands r.file ls (.argument arg) := by
  cases h with
  | keyword k hw =>
    obtain ⟨l, ms, rfl, hl, hms⟩ := List.map_eq_cons_iff.mp hls
    obtain ⟨m, vs, rfl, hm, hvs⟩ := List.map_eq_cons_iff.mp hms
    have hsv : Short vs := (short_cons.mp (short_cons.mp hs).2).2
    obtain ⟨v, stop, hv, htakes, hstands, hends⟩ :=
      hw.readsValue vs hvs hsv r { call := c, keyword := some (k, l.start) }
    refine ⟨.keyword ⟨k, v, place r.file l.start stop⟩, _, ?_, ?_, endsArgument r _,
      .keyword hl hm hstands (occupies_append (show [l].head? = some l from rfl) (hends.cons m))⟩
    · rw [Argument.given, hv]
    · rw [Reader.run_cons (step_word r c hl), Reader.run_cons (step_equal r c k _ _ hm)]
      exact htakes.of_value
  | positional hw =>
    -- A name is held back until the next lexeme tells whether something is given to it.
    rcases hw.name_or_head with ⟨n, rfl, rfl⟩ | hhead
    · obtain ⟨l, rfl, hl⟩ := List.map_eq_singleton_iff.mp hls
      exact ⟨.positional (.name n (place r.file l.start l.stop)), _, rfl, Reader.run_cons (step_word r c hl) [],
        endsArgument_word r c n l.start l.stop, .positional (.name hl (occupies_single r.file l))⟩
    · obtain ⟨v, stop, hv, htakes, hstands, -⟩ := hw.readsValue ls hls hs r { call := c }
      refine ⟨.positional v, _, ?_, htakes.of_argument ?_, endsArgument r _, .positional hstands⟩
      · rw [Argument.given, hv]
      · intro l hl
        apply hhead
        rw [← hls, List.head?_map, Option.mem_def.mp hl]
        rfl

theorem Derives.run_arguments {as : List Given} (h : Derives w (.arguments as)) (hls : ls.map Lexeme.terminal = w)
    (hs : Short ls) (r : Reader) (c : OpenCall) :
    ∃ (args : List Argument) (q : Reader), args.map Argument.given = as ∧ (r.goTo (.argument c)).run ls = .ok q ∧
      EndsArgument r { c with args := args.reverse ++ c.args } q ∧ Stands r.file ls (.arguments args) := by
  generalize hp : Phrase.arguments as = ph at h
  induction h generalizing as ls with
  | oneArgument hw =>
    cases hp
    obtain ⟨arg, q, harg, hrun, hends, hstands⟩ := hw.run_argument hls hs r c
    exact ⟨[arg], q, congrArg (· :: []) harg, hrun, hends, .oneArgument hstands⟩
  | moreArguments hu hw ihu =>
    cases hp
    obtain ⟨us, ws, rfl, hus, hws⟩ := List.map_eq_append_iff.mp hls
    obtain ⟨k, ws, rfl, hk, hws⟩ := List.map_eq_cons_iff.mp hws
    obtain ⟨hsu, -, hsw⟩ : Short us ∧ k.refusal = none ∧ Short ws := by
      rwa [short_append, short_cons] at hs
    obtain ⟨args, q, hargs, hrun, hends, hstands⟩ := ihu hus hsu rfl
    obtain ⟨arg, q', harg, hrun', hends', hstands'⟩ :=
      hw.run_argument hws hsw r { c with args := args.reverse ++ c.args }
    refine ⟨args ++ [arg], q', ?_, ?_, ?_, .moreArguments hstands hk hstands'⟩
    · rw [List.map_append, hargs, List.map_singleton, harg]
    · rw [Reader.run_append_ok hrun, Reader.run_cons (hends.comma k hk), hrun']
    · rw [List.reverse_append]
      exact hends'
  | _ => cases hp

/-! ## Calls -/

theorem Derives.run_path {ns : List String} (h : Derives w (.path ns)) (hls : ls.map Lexeme.terminal = w) (r : Reader)
    (o : Opened) :
    ∃ a, ls.head? = some a ∧ Stands r.file ls (.path ns) ∧
      (r.goTo (.callee o)).run ls = .ok (r.goTo (.path { opened := o, path := ns.reverse, start := a.start })) := by
  generalize hp : Phrase.path ns = ph at h
  induction h generalizing ns ls with
  | oneName n =>
    cases hp
    obtain ⟨⟨t, start, stop⟩, rfl, rfl⟩ := List.map_eq_singleton_iff.mp hls
    exact ⟨_, rfl, .oneName rfl, rfl⟩
  | moreNames n hw ih =>
    cases hp
    obtain ⟨us, ws, rfl, hus, hws⟩ := List.map_eq_append_iff.mp hls
    obtain ⟨⟨t, p, q⟩, vs, rfl, rfl, hvs⟩ := List.map_eq_cons_iff.mp hws
    obtain ⟨⟨t', p', q'⟩, rfl, rfl⟩ := List.map_eq_singleton_iff.mp hvs
    obtain ⟨a, ha, hstands, hrun⟩ := ih hus rfl
    refine ⟨a, by rw [List.head?_append, ha]; rfl, .moreNames hstands rfl rfl, ?_⟩
    rw [Reader.run_append_ok hrun, List.reverse_append]
    rfl
  | _ => cases hp

theorem OpenCall.finish_addition (file : Option String) (stop : Position) :
    (c.finish file stop).addition = .of c.path.reverse (c.args.reverse.map Argument.given) := by
  rw [Call.addition, OpenCall.finish, Addition.of]
  congr 1 <;>
    · rw [List.map_filterMap, List.filterMap_map]
      congr 1
      funext a
      cases a <;> rfl

theorem OpenCall.finish_of (file : Option String) (stop : Position) :
    c.finish file stop = .of c.path.reverse c.args.reverse (place file c.start stop) := by
  rw [OpenCall.finish, Call.of]
  congr 1
  congr 1
  funext a
  cases a <;> rfl

theorem strayPositional_eq_none (as : List Argument) (seen : Bool) :
    strayPositional seen as = none ↔
      Sentence.Ordered (as.map Argument.given) ∧ (seen = true → ∀ a ∈ as, a.given.1.isSome = true) := by
  induction as generalizing seen with
  | nil => simp [strayPositional, Sentence.Ordered]
  | cons a as ih =>
    rw [List.map_cons, Sentence.Ordered, List.pairwise_cons, ← Sentence.Ordered, List.forall_mem_map]
    cases a with
    | keyword k =>
      rw [strayPositional, ih]
      constructor
      · rintro ⟨hordered, hall⟩
        refine ⟨⟨fun a ha _ => hall rfl a ha, hordered⟩, fun _ => ?_⟩
        exact List.forall_mem_cons.mpr ⟨rfl, hall rfl⟩
      · rintro ⟨⟨hall, hordered⟩, -⟩
        exact ⟨hordered, fun _ a ha => hall a ha rfl⟩
    | positional v =>
      cases seen with
      | true => simp [strayPositional, Argument.given]
      | false =>
        rw [strayPositional, if_neg Bool.false_ne_true, ih]
        simp [Argument.given]

theorem OpenCall.refusal_eq_none : c.refusal = none ↔ Sentence.Ordered (c.args.reverse.map Argument.given) := by
  rw [OpenCall.refusal, Option.map_eq_none_iff, strayPositional_eq_none]
  simp

theorem Reader.endCall_eq {c : OpenCall} (h : Sentence.Ordered (c.args.reverse.map Argument.given)) (r : Reader)
    (stop : Position) : r.endCall c stop = r.goTo (.callEnd c.opened (c.finish r.file stop)) := by
  rw [Reader.endCall, c.refusal_eq_none.mpr h, Reader.blame_none]

theorem step_call (r : Reader) (c : OpenCall) (hl : l.terminal = .lpar) :
    (r.goTo (.path c)).step l = some (r.goTo (.argument c)) := by
  obtain ⟨t, start, stop⟩ := l
  subst hl
  rfl

theorem step_endCall (r : Reader) (c : OpenCall) (hl : l.terminal = .rpar) :
    (r.goTo (.argument c)).step l = some (r.endCall c l.stop) := by
  obtain ⟨t, start, stop⟩ := l
  subst hl
  rfl

theorem EndsArgument.run {r : Reader} {c : OpenCall} (h : EndsArgument r c q) {os : List Lexeme}
    (ho : IsComma (os.map Lexeme.terminal)) (hl : l.terminal = .rpar) :
    q.run (os ++ [l]) = .ok (r.endCall c l.stop) := by
  rcases ho with ho | ho
  · rw [List.map_eq_nil_iff.mp ho]
    exact Reader.run_cons (h.close l hl) []
  · obtain ⟨k, rfl, hk⟩ := List.map_eq_singleton_iff.mp ho
    exact (Reader.run_cons (h.comma k hk) [l]).trans (Reader.run_cons (step_endCall r c hl) [])

theorem Derives.run_call {ns : List String} {as : List Given} (h : Derives w (.call ns as))
    (hordered : Sentence.Ordered as) (hls : ls.map Lexeme.terminal = w) (hs : Short ls) (r : Reader) (o : Opened) :
    ∃ call : Call, call.addition = .of ns as ∧ (r.goTo (.callee o)).run ls = .ok (r.goTo (.callEnd o call)) ∧
      Stands r.file ls (.call call) := by
  cases h with
  | bareCall hw =>
    obtain ⟨ps, ks, rfl, hps, hks⟩ := List.map_eq_append_iff.mp hls
    obtain ⟨k, ms, rfl, hk, hms⟩ := List.map_eq_cons_iff.mp hks
    obtain ⟨m, rfl, hm⟩ := List.map_eq_singleton_iff.mp hms
    obtain ⟨a, ha, hstands, hrun⟩ := hw.run_path hps r o
    let c : OpenCall := { opened := o, path := ns.reverse, start := a.start }
    have hadd := c.finish_addition r.file m.stop
    rw [List.reverse_reverse] at hadd
    have hcall := Stands.bareCall hstands hk hm (occupies_append ha (endsAt_last (w := [k])))
    have hfinish : c.finish r.file m.stop = .of ns [] (place r.file a.start m.stop) := by
      rw [c.finish_of, List.reverse_reverse]
      rfl
    rw [← hfinish] at hcall
    refine ⟨c.finish r.file m.stop, hadd, ?_, hcall⟩
    rw [Reader.run_append_ok hrun, Reader.run_cons (step_call r c hk), Reader.run_cons (step_endCall r c hm),
      Reader.endCall_eq (show Sentence.Ordered (c.args.reverse.map Argument.given) from hordered)]
    rfl
  | call hw hu ho =>
    obtain ⟨ps, ks, rfl, hps, hks⟩ := List.map_eq_append_iff.mp hls
    obtain ⟨k, ms, rfl, hk, hms⟩ := List.map_eq_cons_iff.mp hks
    obtain ⟨ns', js, rfl, hns, hjs⟩ := List.map_eq_append_iff.mp hms
    obtain ⟨us, os, rfl, hus, hos⟩ := List.map_eq_append_iff.mp hns
    obtain ⟨m, rfl, hm⟩ := List.map_eq_singleton_iff.mp hjs
    have hsu : Short us := fun l hl => hs l (by simp [hl])
    obtain ⟨a, ha, hstands, hrun⟩ := hw.run_path hps r o
    obtain ⟨args, q, hargs, hrun', hends, hstands'⟩ :=
      hu.run_arguments hus hsu r { opened := o, path := ns.reverse, start := a.start }
    rw [List.append_nil] at hends
    let c : OpenCall := { opened := o, path := ns.reverse, start := a.start, args := args.reverse }
    have hgiven : c.args.reverse.map Argument.given = as := by rw [List.reverse_reverse, hargs]
    have hadd := c.finish_addition r.file m.stop
    rw [hgiven, List.reverse_reverse] at hadd
    have hcall := Stands.call hstands hk hstands' (hos ▸ ho) hm (occupies_append ha (endsAt_last (w := k :: (us ++ os))))
    have hfinish : c.finish r.file m.stop = .of ns args (place r.file a.start m.stop) := by
      rw [c.finish_of, List.reverse_reverse, List.reverse_reverse]
    rw [← hfinish] at hcall
    refine ⟨c.finish r.file m.stop, hadd, ?_, hcall⟩
    rw [Reader.run_append_ok hrun, Reader.run_cons (step_call r _ hk), List.append_assoc, Reader.run_append_ok hrun',
      hends.run (hos ▸ ho) hm, Reader.endCall_eq (hgiven ▸ hordered)]

/-! ## Statements -/

/-- A statement may begin where `q` stands, and goes on as from `r`. -/
def Begins (q r : Reader) : Prop :=
  ∀ (l : Lexeme) (n : String), l.terminal = .name n → q.step l = some (r.goTo (.receiver n l.start))

/-- The text may end where `q` stands, with what `r` has read, and it may go on. -/
structure Pauses (q r : Reader) : Prop where
  begins : Begins q r
  ends : q.statements? = some r.finished.reverse
  refusal : q.refusal = r.refusal

theorem begins_start (file : Option String) : Begins { file } { file } := by
  rintro ⟨t, start, stop⟩ n rfl
  rfl

theorem pauses_statement (r : Reader) (s : Statement) : Pauses (r.goTo (.statementEnd s)) (r.keep s) := by
  refine ⟨?_, rfl, rfl⟩
  rintro ⟨t, start, stop⟩ n rfl
  rfl

theorem pauses_between (r : Reader) : Pauses (r.goTo .between) r := by
  refine ⟨?_, rfl, rfl⟩
  rintro ⟨t, start, stop⟩ n rfl
  rfl

theorem Begins.run {r : Reader} (h : Begins q r) {ks : List Lexeme} {m : String} {rest : List Terminal}
    (hks : ks.map Lexeme.terminal = .name n :: .dot :: .name m :: .lpar :: rest) :
    ∃ a h ls, ks = h ++ ls ∧ h.head? = some a ∧ h.map Lexeme.terminal = [.name n, .dot, .name m, .lpar] ∧
      ls.map Lexeme.terminal = rest ∧ q.run ks = (r.goTo (.callee ⟨n, m, a.start⟩)).run ls := by
  obtain ⟨l₁, ks₁, rfl, h₁, hks₁⟩ := List.map_eq_cons_iff.mp hks
  obtain ⟨⟨t₂, p₂, q₂⟩, ks₂, rfl, rfl, hks₂⟩ := List.map_eq_cons_iff.mp hks₁
  obtain ⟨⟨t₃, p₃, q₃⟩, ks₃, rfl, rfl, hks₃⟩ := List.map_eq_cons_iff.mp hks₂
  obtain ⟨⟨t₄, p₄, q₄⟩, ls, rfl, rfl, hls⟩ := List.map_eq_cons_iff.mp hks₃
  refine ⟨l₁, [l₁, ⟨.dot, p₂, q₂⟩, ⟨.name m, p₃, q₃⟩, ⟨.lpar, p₄, q₄⟩], ls, rfl, rfl, ?_, hls, ?_⟩
  · rw [List.map_cons, h₁]
    rfl
  rw [Reader.run_cons (h l₁ n h₁)]
  rfl

theorem Opened.refusal_eq_none (o : Opened) (l : Location) :
    o.refusal l = none ↔ o.receiver = "model" ∧ o.method = "add" := by
  rw [Opened.refusal]
  split_ifs with h
  · exact ⟨fun _ => h, fun _ => rfl⟩
  · exact iff_of_false id h

theorem Derives.run_statement {s : Sentence} (h : Derives w (.statement s)) (hs : s.Accepted)
    (hls : ls.map Lexeme.terminal = w) (hshort : Short ls) {r : Reader} (hq : Begins q r) :
    ∃ (st : Statement) (q' : Reader), st.addition = s.addition ∧ q.run ls = .ok q' ∧ Pauses q' (r.keep st) ∧
      Stands r.file ls (.statement st) := by
  cases h with
  | statement n m hw ho =>
    obtain ⟨a, h, ks, rfl, ha, hh, hks, hrun⟩ := hq.run hls
    obtain ⟨cs, es, rfl, hcs, hes⟩ := List.map_eq_append_iff.mp hks
    obtain ⟨⟨t, p, stop⟩, os, rfl, rfl, hos⟩ := List.map_eq_cons_iff.mp hes
    have hsc : Short cs := fun l hl => hshort l (by simp [hl])
    have hopen : h.map Lexeme.terminal = openers := by
      rw [hh, show n = "model" from hs.receiver, show m = "add" from hs.method]
      rfl
    obtain ⟨call, hcall, hrun', hstands⟩ := hw.run_call hs.ordered hcs hsc r ⟨n, m, a.start⟩
    have hstep : (r.goTo (.callEnd ⟨n, m, a.start⟩ call)).step ⟨.rpar, p, stop⟩ =
        some (r.goTo (.statementEnd { call, location := place r.file a.start stop })) := by
      rw [Reader.step]
      dsimp only [Reader.goTo]
      rw [(Opened.refusal_eq_none _ _).mpr ⟨hs.receiver, hs.method⟩, Reader.blame_none]
    rw [hrun, Reader.run_append_ok hrun', Reader.run_cons hstep]
    rcases ho with rfl | rfl
    · obtain rfl := List.map_eq_nil_iff.mp hos
      exact ⟨{ call, location := place r.file a.start stop }, _, hcall, rfl, pauses_statement r _,
        .statement "" hopen hstands rfl (.inl rfl) (occupies_append ha endsAt_last)⟩
    · obtain ⟨⟨t, p', stop'⟩, rfl, rfl⟩ := List.map_eq_singleton_iff.mp hos
      let l := { place r.file a.start stop with endLine := some stop'.line, endColumn := some stop'.column }
      have hend : EndsAt (cs ++ [⟨.rpar, p, stop⟩, ⟨.semicolon, p', stop'⟩]) stop' :=
        ⟨_, by rw [List.getLast?_append]; rfl, rfl⟩
      exact ⟨{ call, location := l }, _, hcall, rfl, pauses_between (r.keep { call, location := l }),
        .statement "" hopen hstands rfl (.inr rfl) (occupies_append ha hend)⟩

theorem Derives.run_statements (h : Derives w (.statements ss)) (hss : ∀ s ∈ ss, s.Accepted)
    (hls : ls.map Lexeme.terminal = w) (hs : Short ls) {r : Reader} (hq : Begins q r) :
    ∃ (sts : List Statement) (q' r' : Reader),
      sts.map Statement.addition = ss.map Sentence.addition ∧ q.run ls = .ok q' ∧ Pauses q' r' ∧
      r'.finished = sts.reverse ++ r.finished ∧ r'.refusal = r.refusal ∧ r'.file = r.file ∧
      Stands r.file ls (.statements sts) := by
  generalize hp : Phrase.statements ss = ph at h
  induction h generalizing ss ls with
  | oneStatement hw =>
    cases hp
    obtain ⟨st, q', hst, hrun, hpauses, hstands⟩ := hw.run_statement (hss _ (List.mem_singleton_self _)) hls hs hq
    exact ⟨[st], q', _, congrArg (· :: []) hst, hrun, hpauses, rfl, rfl, rfl, .oneStatement hstands⟩
  | moreStatements hu hw ihu =>
    cases hp
    obtain ⟨us, ws, rfl, hus, hws⟩ := List.map_eq_append_iff.mp hls
    obtain ⟨hsu, hsw⟩ := short_append.mp hs
    obtain ⟨hssu, hssw⟩ := List.forall_mem_append.mp hss
    obtain ⟨sts, q', r', hsts, hrun, hpauses, hfinished, hrefusal, hfile, hstands⟩ := ihu hssu hus hsu rfl
    obtain ⟨st, q'', hst, hrun', hpauses', hstands'⟩ :=
      hw.run_statement (hssw _ (List.mem_singleton_self _)) hws hsw hpauses.begins
    rw [hfile] at hstands'
    refine ⟨sts ++ [st], q'', _, ?_, ?_, hpauses', ?_, hrefusal, hfile, .moreStatements hstands hstands'⟩
    · rw [List.map_append, List.map_append, hsts, List.map_singleton, hst, List.map_singleton]
    · rw [Reader.run_append_ok hrun, hrun']
    · rw [List.reverse_append]
      exact congrArg (st :: ·) hfinished
  | _ => cases hp

theorem readStatements_stands {ts : List Terminal} {text : String} (hlex : Lexes text.toList ts)
    (h : Derives ts (.statements ss)) (hss : ∀ s ∈ ss, s.Accepted)
    (hshort : ∀ ds, Terminal.integer ds ∈ ts → ds.length ≤ Decimal.digitLimit) (file : Option String) (offset : Int) :
    ∃ sts, readStatements file offset text = .ok sts ∧ sts.map Statement.addition = ss.map Sentence.addition ∧
      Stands file (lexemesFrom ⟨1 + offset, 1⟩ text.toList) (.statements sts) := by
  obtain ⟨hterminals, -⟩ := hlex.lexemes ⟨1 + offset, 1⟩
  have hs : Short (lexemesFrom ⟨1 + offset, 1⟩ text.toList) := short_of_terminals (hterminals ▸ hshort)
  obtain ⟨sts, q, r, hsts, hrun, hpauses, hfinished, hrefusal, -, hstands⟩ :=
    h.run_statements hss hterminals hs (begins_start file)
  refine ⟨sts, ?_, hsts, hstands⟩
  rw [readStatements, hrun]
  dsimp only
  rw [hpauses.ends, hpauses.refusal, hrefusal, hfinished, List.append_nil, List.reverse_reverse]

theorem readStatements_of_derives {ts : List Terminal} {text : String} (hlex : Lexes text.toList ts)
    (h : Derives ts (.statements ss)) (hss : ∀ s ∈ ss, s.Accepted)
    (hshort : ∀ ds, Terminal.integer ds ∈ ts → ds.length ≤ Decimal.digitLimit) (file : Option String) (offset : Int) :
    ∃ sts, readStatements file offset text = .ok sts ∧ sts.map Statement.addition = ss.map Sentence.addition := by
  obtain ⟨sts, hread, hsts, -⟩ := readStatements_stands hlex h hss hshort file offset
  exact ⟨sts, hread, hsts⟩

end LayerLoops.Source
