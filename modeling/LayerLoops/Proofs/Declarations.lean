import LayerLoops.Proofs.Arguments
import Mathlib.Data.List.Induction

/-! # Declarations

Every statement that calls a known constructor adds one layer, and no other statement adds any. A field of the layer
holds what the last well-formed argument for it says, where the positional arguments come before the keywords, and its
default if there is no such argument. Every other argument records one error, and every name that is bound again records
one warning. -/

namespace LayerLoops

open Source

/-! ## Fields -/

/-- What the last member that says anything says, if there is one. -/
def Last {α β : Type} (P : β → α → Prop) (bs : List β) : Option α → Prop
  | none => ∀ b ∈ bs, ∀ a, ¬ P b a
  | some a => ∃ front b back, bs = front ++ b :: back ∧ P b a ∧ ∀ c ∈ back, ∀ x, ¬ P c x

section Last

variable {α β : Type} {P : β → α → Prop} {bs : List β} {b : β} {x : Option α}

theorem last_nil : Last P [] none := fun _ h => nomatch h

theorem last_snoc {a : α} (h : P b a) : Last P (bs ++ [b]) (some a) := ⟨bs, b, [], rfl, h, fun _ h => nomatch h⟩

theorem Last.skip (h : Last P bs x) (hb : ∀ a, ¬ P b a) : Last P (bs ++ [b]) x := by
  have hsnoc : ∀ {cs : List β}, (∀ c ∈ cs, ∀ a, ¬ P c a) → ∀ c ∈ cs ++ [b], ∀ a, ¬ P c a := by
    intro cs hcs c hc
    rcases List.mem_append.mp hc with hc | hc
    · exact hcs c hc
    · exact List.mem_singleton.mp hc ▸ hb
  cases x with
  | none => exact hsnoc h
  | some a =>
    obtain ⟨front, c, back, rfl, hc, hback⟩ := h
    exact ⟨front, c, back ++ [b], by simp, hc, hsnoc hback⟩

end Last

/-- The fields of a layer that arguments have set. -/
structure Fields where
  count : Option Nat := none
  kernel : Option Kernel := none
  stride : Option Nat := none
  activation : Option Activation := none
  padding : Option Padding := none
  input : Option Volume := none

def Fields.put (f : Fields) : Setting → Fields
  | .count n => { f with count := some n }
  | .kernel k => { f with kernel := some k }
  | .stride n => { f with stride := some n }
  | .activation a => { f with activation := some a }
  | .padding pad => { f with padding := some pad }
  | .input v => { f with input := some v }
  | .nothing => f

/-- Each field holds what the last well-formed argument for it says. -/
structure Fields.Hold (k : Kind) (bs : List Binding) (f : Fields) : Prop where
  count : Last (fun b n => b.Says k (.count n)) bs f.count
  kernel : Last (fun b w => b.Says k (.kernel w)) bs f.kernel
  stride : Last (fun b n => b.Says k (.stride n)) bs f.stride
  activation : Last (fun b a => b.Says k (.activation a)) bs f.activation
  padding : Last (fun b pad => b.Says k (.padding pad)) bs f.padding
  input : Last (fun b v => b.Says k (.input v)) bs f.input

theorem Fields.hold_nil (k : Kind) : Fields.Hold k [] {} :=
  ⟨last_nil, last_nil, last_nil, last_nil, last_nil, last_nil⟩

section Hold

variable {k : Kind} {bs : List Binding} {b : Binding} {f : Fields}

theorem Fields.Hold.skip (h : f.Hold k bs) (hb : ∀ s, ¬ b.Says k s) : f.Hold k (bs ++ [b]) :=
  ⟨h.count.skip fun _ => hb _, h.kernel.skip fun _ => hb _, h.stride.skip fun _ => hb _,
    h.activation.skip fun _ => hb _, h.padding.skip fun _ => hb _, h.input.skip fun _ => hb _⟩

theorem Binding.Says.unique {s t : Setting} (hs : b.Says k s) (ht : b.Says k t) : s = t :=
  Except.ok.inj ((Binding.setting_eq_ok.mpr hs).symm.trans (Binding.setting_eq_ok.mpr ht))

theorem Fields.Hold.put (h : f.Hold k bs) {s : Setting} (hs : b.Says k s) : (f.put s).Hold k (bs ++ [b]) := by
  have hother : ∀ {t : Setting}, t ≠ s → ¬ b.Says k t := fun hne ht => hne (ht.unique hs)
  constructor
  · cases s with
    | count n => exact last_snoc hs
    | kernel _ | stride _ | activation _ | padding _ | input _ | nothing =>
      exact h.count.skip fun _ => hother (by simp)
  · cases s with
    | kernel w => exact last_snoc hs
    | count _ | stride _ | activation _ | padding _ | input _ | nothing =>
      exact h.kernel.skip fun _ => hother (by simp)
  · cases s with
    | stride n => exact last_snoc hs
    | count _ | kernel _ | activation _ | padding _ | input _ | nothing =>
      exact h.stride.skip fun _ => hother (by simp)
  · cases s with
    | activation a => exact last_snoc hs
    | count _ | kernel _ | stride _ | padding _ | input _ | nothing =>
      exact h.activation.skip fun _ => hother (by simp)
  · cases s with
    | padding pad => exact last_snoc hs
    | count _ | kernel _ | stride _ | activation _ | input _ | nothing =>
      exact h.padding.skip fun _ => hother (by simp)
  · cases s with
    | input v => exact last_snoc hs
    | count _ | kernel _ | stride _ | activation _ | padding _ | nothing =>
      exact h.input.skip fun _ => hother (by simp)

end Hold

def Form.filled (f : Fields) : Form → Form
  | conv _ _ _ => conv (f.count.map Int.ofNat) (f.kernel.getD {}) (f.padding.getD .none)
  | pooling t c _ => pooling t c (f.kernel.getD {})
  | flatten nodes => flatten nodes
  | dense _ => dense (f.count.map Int.ofNat)

def Layer.filled (form : Form) (place : Location) (f : Fields) : Layer :=
  { form := form.filled f
    input := f.input
    stride := f.stride.map Int.ofNat
    activation := f.activation.getD .none
    location := some place }

@[simp] theorem Layer.kind_filled (form : Form) (place : Location) (f : Fields) :
    (Layer.filled form place f).kind = form.kind := by
  cases form <;> rfl

theorem Layer.put_filled (form : Form) (place : Location) (f : Fields) (s : Setting) :
    (Layer.filled form place f).put s = Layer.filled form place (f.put s) := by
  cases s <;> cases form <;> rfl

theorem Layer.foldl_apply_filled (form : Form) (place : Location) (bs : List Binding) :
    ∃ f, Fields.Hold form.kind bs f ∧
      bs.foldl Layer.apply (Layer.filled form place {}) = Layer.filled form place f := by
  -- The last argument decides, so the induction takes them from the end.
  induction bs using List.reverseRecOn with
  | nil => exact ⟨{}, Fields.hold_nil form.kind, rfl⟩
  | append_singleton bs b ih =>
    obtain ⟨f, hf, hl⟩ := ih
    rw [List.foldl_append, hl, List.foldl_cons, List.foldl_nil]
    by_cases hb : ∃ s, b.Says form.kind s
    · obtain ⟨s, hs⟩ := hb
      refine ⟨f.put s, hf.put hs, ?_⟩
      rw [apply_eq_put (s := s) (by simpa using hs), put_filled]
    · refine ⟨f, hf.skip (not_exists.mp hb), ?_⟩
      exact apply_eq_self (by simpa using hb)

theorem Form.filled_ofConstructor? {name : String} {form : Form} (h : Form.ofConstructor? name = some form) :
    form.filled {} = form := by
  unfold Form.ofConstructor? at h
  split at h <;> cases h <;> rfl

/-! ## What is reported -/

def Diagnostic.Refuses (d : Diagnostic) (place : Location) : Prop := d.stage = .declaration ∧ d.location = some place

theorem Misuse.refuses_diagnostic (m : Misuse) (place : Location) : (m.diagnostic place).Refuses place := ⟨rfl, rfl⟩

/-- One error for each argument that is not well-formed. -/
inductive Reported (k : Kind) : List Binding → List Diagnostic → Prop
  | nil : Reported k [] []
  | fine {b : Binding} {bs : List Binding} {s : Setting} {es : List Diagnostic} : b.Says k s → Reported k bs es →
    Reported k (b :: bs) es
  | ill {b : Binding} {bs : List Binding} {d : Diagnostic} {es : List Diagnostic} : (∀ s, ¬ b.Says k s) →
    d.Refuses b.location → Reported k bs es → Reported k (b :: bs) (d :: es)

/-- One warning for each argument whose name is among those before it. -/
inductive Warned : List String → List Binding → List Warning → Prop
  | nil {seen : List String} : Warned seen [] []
  | fresh {seen : List String} {b : Binding} {bs : List Binding} {ws : List Warning} : b.name ∉ seen →
    Warned (b.name :: seen) bs ws → Warned seen (b :: bs) ws
  | again {seen : List String} {b : Binding} {bs : List Binding} {w : Warning} {ws : List Warning} : b.name ∈ seen →
    w.code = .repeatedKeyword → w.location = some b.location → Warned (b.name :: seen) bs ws →
    Warned seen (b :: bs) (w :: ws)

theorem Step.Yields.warned {rest : Step Layer} {l : Layer} {k : Kind} {b : Binding} {bs : List Binding}
    {seen : List String} {es : List Diagnostic} {ws : List Warning} {w : Warning} (hrest : rest.Yields l es ws)
    (hes : Reported k (b :: bs) es) (hws : Warned (b.name :: seen) bs ws) (hcode : w.code = .repeatedKeyword)
    (hplace : w.location = some b.location) :
    ∃ es ws, (if seen.contains b.name then Step.warn w >>= fun _ => rest else rest).Yields l es ws ∧
      Reported k (b :: bs) es ∧ Warned seen (b :: bs) ws := by
  by_cases hseen : b.name ∈ seen
  · rw [if_pos (by simpa using hseen)]
    exact ⟨es, _, (Step.yields_warn w).bind hrest, hes, .again hseen hcode hplace hws⟩
  · rw [if_neg (by simpa using hseen)]
    exact ⟨es, ws, hrest, hes, .fresh hseen hws⟩

theorem Layer.bindAll_yields (number : Nat) (l : Layer) (seen : List String) (bs : List Binding) :
    ∃ es ws, (l.bindAll number seen bs).Yields (bs.foldl Layer.apply l) es ws ∧ Reported l.kind bs es ∧
      Warned seen bs ws := by
  induction bs generalizing l seen with
  | nil => exact ⟨[], [], Step.yields_pure l, .nil, .nil⟩
  | cons b bs ih =>
    obtain ⟨es, ws, hrest, hes, hws⟩ := ih (l.apply b) (b.name :: seen)
    rw [Layer.kind_apply] at hes
    rw [Layer.bindAll, List.foldl_cons, Layer.bind_eq]
    cases hb : b.setting l.kind with
    | ok s =>
      have hs := Binding.setting_eq_ok.mp hb
      rw [apply_eq_put hs] at hrest ⊢
      exact hrest.warned (.fine hs hes) hws rfl rfl
    | error m =>
      have hill : ∀ s, ¬ b.Says l.kind s := by
        intro s hs
        cases hb.symm.trans (Binding.setting_eq_ok.mpr hs)
      rw [apply_eq_self hill] at hrest ⊢
      exact ((Step.yields_record _).bind hrest).warned (.ill hill (m.refuses_diagnostic _) hes) hws rfl rfl

namespace Source.Call

def placed (k : Kind) (c : Call) : List Binding :=
  List.zipWith (fun p v => ⟨p.label, v, v.location⟩) k.positional c.args

def named (c : Call) : List Binding := c.kwargs.map fun w => ⟨w.name, w.value, w.location⟩

def bound (k : Kind) (c : Call) : List Binding := c.placed k ++ c.named

def excess (k : Kind) (c : Call) : List Value := c.args.drop k.positional.length

end Source.Call

theorem bindPositional_yields (name : String) (limit : Nat) (ps : List Parameter) (vs : List Value) :
    ∃ es, (bindPositional name limit ps vs).Yields
        (List.zipWith (fun p v => ⟨p.label, v, v.location⟩) ps vs) es [] ∧
      List.Forall₂ (fun v d => Diagnostic.Refuses d v.location) (vs.drop ps.length) es := by
  induction vs generalizing ps with
  | nil => exact ⟨[], by cases ps <;> exact Step.yields_pure [], by simp⟩
  | cons v vs ih =>
    cases ps with
    | nil =>
      obtain ⟨es, hes, hrefused⟩ := ih []
      rw [List.zipWith_nil_left] at hes ⊢
      exact ⟨_ :: es, (Step.yields_record _).bind hes, .cons (Misuse.refuses_diagnostic _ _) hrefused⟩
    | cons p ps =>
      obtain ⟨es, hes, hrefused⟩ := ih ps
      exact ⟨es, hes.map _, hrefused⟩

theorem bindings_yields (k : Kind) (c : Call) :
    ∃ es, (bindings k c).Yields (c.bound k) es [] ∧
      List.Forall₂ (fun v d => Diagnostic.Refuses d v.location) (c.excess k) es := by
  obtain ⟨es, hes, hrefused⟩ := bindPositional_yields c.name k.positional.length k.positional c.args
  exact ⟨es, hes.map _, hrefused⟩

/-! ## Layers of statements -/

def Source.Statement.added (s : Statement) : Option Layer :=
  (Form.ofConstructor? s.call.name).map fun form =>
    (s.call.bound form.kind).foldl Layer.apply (Layer.filled form s.call.location {})

/-- What a statement adds to the network and what it reports. -/
inductive Declares (s : Statement) : List Layer → List Diagnostic → List Warning → Prop
  | unknown {d : Diagnostic} : s.call.name ∉ constructors → d.code = .unknownLayer → d.Refuses s.call.location →
    Declares s [] [d] []
  | known {form : Form} {f : Fields} {ds es : List Diagnostic} {ws : List Warning} :
    s.call.name ∈ constructors → Form.ofConstructor? s.call.name = some form → f.Hold form.kind (s.call.bound form.kind) →
    List.Forall₂ (fun v d => Diagnostic.Refuses d v.location) (s.call.excess form.kind) ds →
    Reported form.kind (s.call.bound form.kind) es → Warned [] (s.call.bound form.kind) ws →
    Declares s [Layer.filled form s.call.location f] (ds ++ es) ws

/-- What statements add and report, one after another. -/
inductive DeclaresAll : List Statement → List Layer → List Diagnostic → List Warning → Prop
  | nil : DeclaresAll [] [] [] []
  | cons {s : Statement} {ss : List Statement} {ls ls' : List Layer} {es es' : List Diagnostic}
    {ws ws' : List Warning} : Declares s ls es ws → DeclaresAll ss ls' es' ws' →
    DeclaresAll (s :: ss) (ls ++ ls') (es ++ es') (ws ++ ws')

theorem ofConstructor?_isSome {name : String} : (Form.ofConstructor? name).isSome ↔ name ∈ constructors := by
  constructor
  · intro h
    unfold Form.ofConstructor? at h
    split at h <;> first | decide | cases h
  · intro h
    simp only [constructors, List.mem_cons, List.not_mem_nil, or_false] at h
    rcases h with rfl | rfl | rfl | rfl | rfl | rfl | rfl | rfl <;> rfl

theorem Network.declare_yields (net : Network) (s : Statement) :
    ∃ es ws, (net.declare s).Yields ⟨net.layers ++ s.added.toList⟩ es ws ∧ Declares s s.added.toList es ws := by
  rw [Network.declare, Statement.added]
  cases hform : Form.ofConstructor? s.call.name with
  | none =>
    have hunknown : s.call.name ∉ constructors := by
      rw [← ofConstructor?_isSome, hform]
      exact Bool.false_ne_true
    rw [Option.map_none, Option.toList_none, List.append_nil]
    exact ⟨_, _, (Step.yields_record _).map fun _ => net, .unknown hunknown rfl (Misuse.refuses_diagnostic _ _)⟩
  | some form =>
    have hknown : s.call.name ∈ constructors := by
      rw [← ofConstructor?_isSome, hform]
      rfl
    have hstart : Layer.filled form s.call.location {} = { form, location := some s.call.location } := by
      rw [Layer.filled, Form.filled_ofConstructor? hform]
      rfl
    obtain ⟨ds, hbindings, hds⟩ := bindings_yields form.kind s.call
    obtain ⟨es, ws, hbind, hes, hws⟩ :=
      Layer.bindAll_yields (net.size + 1) (Layer.filled form s.call.location {}) [] (s.call.bound form.kind)
    obtain ⟨f, hf, hlayer⟩ := Layer.foldl_apply_filled form s.call.location (s.call.bound form.kind)
    rw [Layer.kind_filled] at hes
    refine ⟨ds ++ es, ws, ?_, ?_⟩
    · rw [hstart] at hbind
      rw [Option.map_some, hstart]
      exact hbindings.bind (hbind.map net.append)
    · rw [Option.map_some, hlayer]
      exact .known hknown hform hf hds hes hws

theorem Network.declareAll_yields (net : Network) (ss : List Statement) :
    ∃ es ws, (net.declareAll ss).Yields ⟨net.layers ++ ss.flatMap fun s => s.added.toList⟩ es ws ∧
      DeclaresAll ss (ss.flatMap fun s => s.added.toList) es ws := by
  induction ss generalizing net with
  | nil =>
    rw [List.flatMap_nil, List.append_nil]
    exact ⟨[], [], Step.yields_pure net, .nil⟩
  | cons s ss ih =>
    obtain ⟨es, ws, hs, hdeclares⟩ := net.declare_yields s
    obtain ⟨es', ws', hss, hall⟩ := ih ⟨net.layers ++ s.added.toList⟩
    refine ⟨es ++ es', ws ++ ws', ?_, .cons hdeclares hall⟩
    rw [List.flatMap_cons, ← List.append_assoc]
    exact hs.bind hss

theorem Network.ofStatements_yields (ss : List Statement) :
    ∃ es ws, (Network.ofStatements ss).Yields ⟨ss.flatMap fun s => s.added.toList⟩ es ws ∧
      DeclaresAll ss (ss.flatMap fun s => s.added.toList) es ws := by
  obtain ⟨es, ws, hyields, hall⟩ := Network.declareAll_yields {} ss
  have htell := fun net : Network => (Step.yields_tell (.built net.size)).map fun _ => net
  refine ⟨es, ws, ?_, hall⟩
  rw [← List.append_nil es, ← List.append_nil ws]
  exact hyields.bind (htell _)

/-! ## Calls written in another way -/

def Source.Addition.placed (k : Kind) (a : Addition) : List (String × Datum) :=
  List.zipWith (fun p d => (p.label, d)) k.positional a.args

/-- The same arguments, with the keywords in another order, or with the last of the positional arguments as the first
keyword. -/
inductive Rearranged (k : Kind) (a : Addition) : Addition → Prop
  | same : Rearranged k a a
  | permuted {kwargs : List (String × Datum)} : a.kwargs.Perm kwargs → (a.kwargs.map Prod.fst).Nodup →
    Rearranged k a { a with kwargs }
  | named {front : List Datum} {d : Datum} {p : Parameter} : a.args = front ++ [d] →
    k.positional[front.length]? = some p → Rearranged k a { a with args := front, kwargs := (p.label, d) :: a.kwargs }

/-- The two statements call the same constructor, with its arguments rearranged. -/
def Source.Statement.Rearranges (s s' : Statement) : Prop :=
  s.call.path = s'.call.path ∧
    ∀ form, Form.ofConstructor? s.call.name = some form → Rearranged form.kind s.addition s'.addition

theorem map_said_placed (k : Kind) (c : Call) : (c.placed k).map Binding.said = c.addition.placed k := by
  rw [Call.placed, Addition.placed, Call.addition, List.map_zipWith, List.zipWith_map_right]
  rfl

theorem map_said_named (c : Call) : c.named.map Binding.said = c.addition.kwargs := by
  rw [Call.named, List.map_map]
  rfl

theorem zipWith_append_singleton {α β γ : Type} (f : α → β → γ) (as : List α) (bs : List β) (b : β) {a : α}
    (h : as[bs.length]? = some a) : List.zipWith f as (bs ++ [b]) = List.zipWith f as bs ++ [f a b] := by
  induction bs generalizing as with
  | nil =>
    cases as with
    | nil => cases h
    | cons a' as =>
      cases h
      cases as <;> rfl
  | cons c bs ih =>
    cases as with
    | nil => cases h
    | cons a' as => exact congrArg (f a' c :: ·) (ih as h)

theorem Rearranged.foldl_apply {k : Kind} {c c' : Call} (h : Rearranged k c.addition c'.addition) (l : Layer) :
    (c.bound k).foldl Layer.apply l = (c'.bound k).foldl Layer.apply l := by
  have hplaced := map_said_placed k c
  have hplaced' := map_said_placed k c'
  have hnamed := map_said_named c
  have hnamed' := map_said_named c'
  generalize c.addition = a at h hplaced hnamed
  generalize c'.addition = a' at h hplaced' hnamed'
  rw [Call.bound, Call.bound]
  cases h with
  | same =>
    refine Layer.foldl_apply_congr ?_ l
    rw [List.map_append, List.map_append, hplaced, hnamed, hplaced', hnamed']
  | permuted hperm hnodup =>
    have hfront : (c.placed k).map Binding.said = (c'.placed k).map Binding.said := hplaced.trans hplaced'.symm
    rw [List.foldl_append, List.foldl_append, Layer.foldl_apply_congr hfront]
    refine Layer.foldl_apply_perm ?_ ?_ _
    · rw [hnamed, hnamed']
      exact hperm
    · rw [← hnamed, List.map_map] at hnodup
      exact hnodup
  | named hargs hp =>
    refine Layer.foldl_apply_congr ?_ l
    rw [List.map_append, List.map_append, hplaced, hnamed, hplaced', hnamed', Addition.placed, Addition.placed, hargs,
      zipWith_append_singleton _ _ _ _ hp, List.append_assoc, List.singleton_append]

def Layer.unplaced (l : Layer) : Layer := { l with location := none }

theorem Layer.unplaced_apply (l : Layer) (b : Binding) : (l.apply b).unplaced = l.unplaced.apply b := by
  rw [Layer.apply, Layer.apply, show l.unplaced.kind = l.kind from rfl]
  cases b.setting l.kind with
  | ok s => cases s <;> rfl
  | error m => rfl

theorem Layer.unplaced_foldl (l : Layer) (bs : List Binding) :
    (bs.foldl Layer.apply l).unplaced = bs.foldl Layer.apply l.unplaced := by
  induction bs generalizing l with
  | nil => rfl
  | cons b bs ih => rw [List.foldl_cons, List.foldl_cons, ih, unplaced_apply]

theorem Source.Statement.Rearranges.added {s s' : Statement} (h : s.Rearranges s') :
    s'.added.map Layer.unplaced = s.added.map Layer.unplaced := by
  have hname : s'.call.name = s.call.name := congrArg (fun path => path.getLastD "") h.1.symm
  rw [Statement.added, Statement.added, hname]
  cases hform : Form.ofConstructor? s.call.name with
  | none => rfl
  | some form =>
    simp only [Option.map_some, Layer.unplaced_foldl]
    rw [(h.2 form hform).foldl_apply]
    rfl

theorem map_unplaced_added {ss ss' : List Statement} (h : List.Forall₂ Statement.Rearranges ss ss') :
    (ss'.flatMap fun s => s.added.toList).map Layer.unplaced =
      (ss.flatMap fun s => s.added.toList).map Layer.unplaced := by
  induction h with
  | nil => rfl
  | cons hs _ ih =>
    rw [List.flatMap_cons, List.flatMap_cons, List.map_append, List.map_append, ih, ← Option.toList_map,
      ← Option.toList_map, hs.added]

/-- Statements always declare a network. Each adds one layer or none, as its constructor is known or not, with every field
as the last well-formed argument says, and reports one error for each other argument and one warning for each name given
again. Another order of keywords with different names, or an argument given by its name, makes the same layer. -/
theorem Network.ofStatements_declares (ss : List Statement) :
    ∃ net, (Network.ofStatements ss).outcome = .ok net ∧
      DeclaresAll ss net.layers (Network.ofStatements ss).journal.errors (Network.ofStatements ss).journal.warnings ∧
      ∀ ss', List.Forall₂ Statement.Rearranges ss ss' →
        ∃ net', (Network.ofStatements ss').outcome = .ok net' ∧
          net'.layers.map Layer.unplaced = net.layers.map Layer.unplaced := by
  obtain ⟨es, ws, hyields, hall⟩ := Network.ofStatements_yields ss
  refine ⟨_, hyields.outcome, ?_, ?_⟩
  · rw [hyields.errors, hyields.warnings]
    exact hall
  · intro ss' hss
    obtain ⟨_, _, hyields', -⟩ := Network.ofStatements_yields ss'
    exact ⟨_, hyields'.outcome, map_unplaced_added hss⟩

section Windows

private def column (n : Nat) : Location := { line := 1, column := n }

/-- Four filters of side 3, with a stride that is refused after one that is not. -/
def windowStatement : Statement where
  call := ⟨["layers", "Conv2D"], [.integer 4 (column 18), .integer 3 (column 21)],
    [⟨"strides", .integer 2 (column 32), column 24⟩, ⟨"strides", .integer 0 (column 43), column 35⟩], column 11⟩
  location := column 1

/-- The same, with the side of the filters given by its name. -/
def windowStatementByName : Statement where
  call := ⟨["layers", "Conv2D"], [.integer 4 (column 18)],
    [⟨"kernel_size", .integer 3 (column 33), column 21⟩, ⟨"strides", .integer 2 (column 44), column 36⟩,
      ⟨"strides", .integer 0 (column 55), column 47⟩], column 11⟩
  location := column 1

theorem windowStatement_declares :
    ∃ net, (Network.ofStatements [windowStatement]).outcome = .ok net ∧
      DeclaresAll [windowStatement] net.layers (Network.ofStatements [windowStatement]).journal.errors
        (Network.ofStatements [windowStatement]).journal.warnings ∧
      List.Forall₂ Statement.Rearranges [windowStatement] [windowStatementByName] ∧
      ∃ net', (Network.ofStatements [windowStatementByName]).outcome = .ok net' ∧
        net'.layers.map Layer.unplaced = net.layers.map Layer.unplaced := by
  have hrearranges : windowStatement.Rearranges windowStatementByName := by
    refine ⟨rfl, ?_⟩
    rintro form ⟨⟩
    change Rearranged .conv windowStatement.addition { windowStatement.addition with
      args := [.integer 4]
      kwargs := (Parameter.kernelSize.label, .integer 3) :: windowStatement.addition.kwargs }
    exact .named rfl rfl
  obtain ⟨net, hnet, hall, hsame⟩ := Network.ofStatements_declares [windowStatement]
  exact ⟨net, hnet, hall, .cons hrearranges .nil, hsame _ (.cons hrearranges .nil)⟩

end Windows

end LayerLoops
