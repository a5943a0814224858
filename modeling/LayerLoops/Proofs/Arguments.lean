import LayerLoops.Proofs.Declared
import LayerLoops.Proofs.Grammar
import Mathlib.Data.List.Nodup
import Mathlib.Data.List.Perm.Basic

/-! # Arguments of layers

What an argument says depends on the kind of the layer, and not on what other arguments have said before. A well-formed
argument sets one field of the layer, so the field holds what the last of them says; an argument that is not well-formed
sets nothing. Arguments with different names set different fields, and their order does not matter. -/

namespace LayerLoops

variable {bs cs : List Binding} {k : Kind} {s : Setting}

open Source

/-! ## Well-formed arguments -/

def IsPositive (d : Datum) (n : Nat) : Prop := n ≠ 0 ∧ d = .integer n

/-- A positive integer, or a tuple of at least one. -/
inductive Positives : Datum → List Nat → Prop
  | one {d : Datum} {n : Nat} : IsPositive d n → Positives d [n]
  | tuple {items : List Datum} {ns : List Nat} : items ≠ [] → List.Forall₂ IsPositive items ns →
    Positives (.tuple items) ns

/-- A quoted text or a bare name that reads `w` in lower case. -/
def IsWord (d : Datum) (w : String) : Prop := ∃ s, (d = .text s ∨ d = .name s) ∧ Text.lower s = w

/-- One number for a square kernel, or two. -/
inductive IsKernel : List Nat → Kernel → Prop
  | square (n : Nat) : IsKernel [n] ⟨some n, some n⟩
  | pair (a b : Nat) : IsKernel [a, b] ⟨some a, some b⟩

/-- The volumes that a layer of some kind takes. -/
inductive IsShape : Kind → List Nat → Volume → Prop
  | volume {k : Kind} (a b c : Nat) : k ≠ .dense → IsShape k [a, b, c] ⟨a, b, c⟩
  | plane {k : Kind} (a b : Nat) : k ≠ .dense → k ≠ .conv → IsShape k [a, b] ⟨a, b, 1⟩
  | row {k : Kind} (a : Nat) : k ≠ .dense → k ≠ .conv → IsShape k [a] ⟨a, 1, 1⟩
  | vector (n : Nat) : IsShape .dense [n] ⟨n, 1, 1⟩
  | flattened (a b c : Nat) : IsShape .dense [a, b, c] ⟨(a * b * c : Nat), 1, 1⟩

/-- What an argument sets. -/
inductive Setting
  /-- The filters of a convolution, or the nodes of a dense layer. -/
  | count (n : Nat)
  | kernel (k : Kernel)
  | stride (n : Nat)
  | activation (a : Activation)
  | padding (p : Padding)
  | input (v : Volume)
  /-- The padding of a pooling layer, which is always the same. -/
  | nothing

/-- The argument is well-formed for a layer of the kind, and sets this. -/
inductive Says : Kind → String → Datum → Setting → Prop
  | filters {d : Datum} {n : Nat} : IsPositive d n → Says .conv "filters" d (.count n)
  | units {d : Datum} {n : Nat} : IsPositive d n → Says .dense "units" d (.count n)
  | kernelSize {d : Datum} {ns : List Nat} {w : Kernel} : Positives d ns → IsKernel ns w →
    Says .conv "kernel_size" d (.kernel w)
  | poolSize {d : Datum} {ns : List Nat} {w : Kernel} : Positives d ns → IsKernel ns w →
    Says .pooling "pool_size" d (.kernel w)
  | strides {k : Kind} {d : Datum} {n : Nat} : k = .conv ∨ k = .pooling → Positives d [n] ∨ Positives d [n, n] →
    Says k "strides" d (.stride n)
  | activation {k : Kind} {d : Datum} {a : Activation} : k = .conv ∨ k = .dense → IsWord d a.label → a ≠ .none →
    Says k "activation" d (.activation a)
  | padding {d : Datum} {p : Padding} : IsWord d p.label → p ≠ .none → Says .conv "padding" d (.padding p)
  | unpadded {d : Datum} : IsWord d "valid" → Says .pooling "padding" d .nothing
  | inputShape {k : Kind} {d : Datum} {ns : List Nat} {w : Volume} : k ≠ .pooling → Positives d ns → IsShape k ns w →
    Says k "input_shape" d (.input w)

section Coercions

variable {p : Parameter} {v : Value}

theorem positive_eq_ok {n : Nat} : positive p v = .ok n ↔ IsPositive v.datum n := by
  rw [IsPositive]
  cases v with
  | integer m place =>
    rw [positive, Value.datum]
    split_ifs with hm
    · simp only [Datum.integer.injEq]
      refine iff_of_false (by rintro ⟨⟩) ?_
      rintro ⟨hn, rfl⟩
      exact hn hm
    · simp only [Datum.integer.injEq, Except.ok.injEq]
      grind
  | real _ _ | text _ _ | name _ _ | tuple _ _ =>
    refine iff_of_false (by rintro ⟨⟩) ?_
    rintro ⟨-, h⟩
    simp [Value.datum] at h

theorem forall₂_positive {items : List Value} {ns : List Nat} :
    List.Forall₂ (fun v n => positive p v = .ok n) items ns ↔ List.Forall₂ IsPositive (dataOf items) ns := by
  rw [dataOf_eq_map, List.forall₂_map_left_iff]
  exact ⟨fun h => h.imp fun _ _ => positive_eq_ok.mp, fun h => h.imp fun _ _ => positive_eq_ok.mpr⟩

theorem positives_eq_ok {ns : List Nat} : positives p v = .ok ns ↔ Positives v.datum ns := by
  have hsingle : (∀ items, v.datum ≠ .tuple items) →
      ([v].mapM (positive p) = .ok ns ↔ Positives v.datum ns) := by
    intro hv
    rw [mapM_eq_ok]
    constructor
    · rintro (_ | ⟨hn, ⟨⟩⟩)
      exact .one (positive_eq_ok.mp hn)
    · intro h
      cases h' : v.datum with
      | tuple items => exact absurd h' (hv items)
      | integer _ | real _ | text _ | name _ =>
        rw [h'] at h
        cases h with
        | one hn => exact .cons (positive_eq_ok.mpr (h' ▸ hn)) .nil
  cases v with
  | tuple items place =>
    rw [positives, Value.datum]
    by_cases hempty : items = []
    · subst hempty
      refine iff_of_false (by rintro ⟨⟩) ?_
      rintro (⟨-, ⟨⟩⟩ | ⟨hne, -⟩)
      exact hne rfl
    · rw [if_neg (by simpa using hempty), mapM_eq_ok, forall₂_positive]
      constructor
      · exact .tuple (by rwa [dataOf_eq_map, ne_eq, List.map_eq_nil_iff])
      · rintro (⟨-, ⟨⟩⟩ | ⟨-, h⟩)
        exact h
  | integer _ _ | real _ _ | text _ _ | name _ _ => exact hsingle fun _ h => by simp [Value.datum] at h

theorem word_eq_ok {w : String} : word p v = .ok w ↔ IsWord v.datum w := by
  cases v <;> simp [word, IsWord, Value.datum]

theorem squarePair_eq_ok {k : Kernel} : squarePair p v = .ok k ↔ ∃ ns, Positives v.datum ns ∧ IsKernel ns k := by
  rw [squarePair, bind_eq_ok]
  refine exists_congr fun ns => and_congr positives_eq_ok ?_
  split
  · constructor
    · rintro ⟨⟩
      exact .square _
    · rintro ⟨⟩
      rfl
  · constructor
    · rintro ⟨⟩
      exact .pair _ _
    · rintro ⟨⟩
      rfl
  · rename_i hone htwo
    refine iff_of_false (by rintro ⟨⟩) ?_
    rintro (⟨n⟩ | ⟨a, b⟩)
    · exact hone n rfl
    · exact htwo a b rfl

theorem stridesOf_eq_ok {n : Nat} : stridesOf v = .ok n ↔ Positives v.datum [n] ∨ Positives v.datum [n, n] := by
  have hdims : stridesOf v = .ok n ↔ ∃ ns, Positives v.datum ns ∧ (ns = [n] ∨ ns = [n, n]) := by
    rw [stridesOf, bind_eq_ok]
    refine exists_congr fun ns => and_congr positives_eq_ok ?_
    split
    · simp [pure_eq_ok]
    · split_ifs with hab <;> simp [pure_eq_ok] <;> grind
    · rename_i hone htwo
      refine iff_of_false (by rintro ⟨⟩) ?_
      rintro (rfl | rfl)
      · exact hone n rfl
      · exact htwo n n rfl
  rw [hdims]
  constructor
  · rintro ⟨_, h, rfl | rfl⟩
    · exact .inl h
    · exact .inr h
  · rintro (h | h)
    · exact ⟨_, h, .inl rfl⟩
    · exact ⟨_, h, .inr rfl⟩

theorem activationOf_eq_ok {a : Activation} : activationOf v = .ok a ↔ IsWord v.datum a.label ∧ a ≠ .none := by
  rw [activationOf, bind_eq_ok]
  constructor
  · rintro ⟨w, hw, h⟩
    split at h <;> cases h <;> exact ⟨word_eq_ok.mp hw, by decide⟩
  · rintro ⟨hw, ha⟩
    refine ⟨a.label, word_eq_ok.mpr hw, ?_⟩
    cases a with
    | none => exact absurd rfl ha
    | relu | softmax | linear => rfl

theorem paddingOf_eq_ok {pad : Padding} : paddingOf v = .ok pad ↔ IsWord v.datum pad.label ∧ pad ≠ .none := by
  rw [paddingOf, bind_eq_ok]
  constructor
  · rintro ⟨w, hw, h⟩
    split at h <;> cases h <;> exact ⟨word_eq_ok.mp hw, by decide⟩
  · rintro ⟨hw, hpad⟩
    refine ⟨pad.label, word_eq_ok.mpr hw, ?_⟩
    cases pad with
    | none => exact absurd rfl hpad
    | valid | same => rfl

theorem inputVolume_eq_ok {k : Kind} {w : Volume} :
    inputVolume k v = .ok w ↔ ∃ ns, Positives v.datum ns ∧ IsShape k ns w := by
  rw [inputVolume, bind_eq_ok]
  refine exists_congr fun ns => and_congr positives_eq_ok ⟨fun h => ?_, fun h => ?_⟩
  · split at h <;> cases h
    · exact .vector _
    · exact .flattened ..
    · exact .volume _ _ _ (by assumption)
    · exact .row _ (by assumption) (by assumption)
    · exact .plane _ _ (by assumption) (by assumption)
  · cases h with
    | volume a b c hk => cases k <;> first | rfl | exact absurd rfl hk
    | plane a b hk hconv => cases k <;> first | rfl | exact absurd rfl hk | exact absurd rfl hconv
    | row a hk hconv => cases k <;> first | rfl | exact absurd rfl hk | exact absurd rfl hconv
    | vector n => rfl
    | flattened a b c => rfl

end Coercions

/-! ## What is set -/

def settingOf (k : Kind) (p : Parameter) (v : Value) : Except Misuse Setting :=
  match p, k with
  | .filters, .conv | .units, .dense => (positive p v).map .count
  | .kernelSize, .conv | .poolSize, .pooling => (squarePair p v).map .kernel
  | .strides, .conv | .strides, .pooling => (stridesOf v).map .stride
  | .activation, .conv | .activation, .dense => (activationOf v).map .activation
  | .padding, .conv => (paddingOf v).map .padding
  | .padding, .pooling => do
    let pad ← paddingOf v
    if pad = .valid then pure .nothing else throw .pooledPadding
  | .inputShape, .conv | .inputShape, .flatten | .inputShape, .dense => (inputVolume k v).map .input
  | _, _ => throw (.misplaced p k)

namespace Form

def setCount (n : Nat) : Form → Form
  | conv _ k pad => conv (some (n : Int)) k pad
  | dense _ => dense (some (n : Int))
  | f => f

def setKernel (k : Kernel) : Form → Form
  | conv f _ pad => conv f k pad
  | pooling t c _ => pooling t c k
  | f => f

def setPadding (pad : Padding) : Form → Form
  | conv f k _ => conv f k pad
  | f => f

end Form

def Layer.put (l : Layer) : Setting → Layer
  | .count n => { l with form := l.form.setCount n }
  | .kernel k => { l with form := l.form.setKernel k }
  | .stride n => { l with stride := some (n : Int) }
  | .activation a => { l with activation := a }
  | .padding pad => { l with form := l.form.setPadding pad }
  | .input v => { l with input := some v }
  | .nothing => l

@[simp] theorem Layer.kind_put (l : Layer) (s : Setting) : (l.put s).kind = l.kind := by
  obtain ⟨form, _, _, _, _, _⟩ := l
  cases s <;> cases form <;> rfl

theorem bind_pure_eq_map {ε α β γ : Type} (x : Except ε α) (f : α → β) (g : β → γ) :
    (x >>= fun a => pure (g (f a))) = (x.map f).map g := by
  cases x <;> rfl

theorem Layer.set_eq (l : Layer) (p : Parameter) (v : Value) : l.set p v = (settingOf l.kind p v).map l.put := by
  obtain ⟨form, input, output, stride, activation, location⟩ := l
  cases form with
  | conv f k pad =>
    let l : Layer := ⟨.conv f k pad, input, output, stride, activation, location⟩
    cases p with
    | filters => exact bind_pure_eq_map (positive .filters v) Setting.count l.put
    | kernelSize => exact bind_pure_eq_map (squarePair .kernelSize v) Setting.kernel l.put
    | strides => exact bind_pure_eq_map (stridesOf v) Setting.stride l.put
    | activation => exact bind_pure_eq_map (activationOf v) Setting.activation l.put
    | padding => exact bind_pure_eq_map (paddingOf v) Setting.padding l.put
    | inputShape => exact bind_pure_eq_map (inputVolume .conv v) Setting.input l.put
    | units | poolSize => rfl
  | pooling t c k =>
    let l : Layer := ⟨.pooling t c k, input, output, stride, activation, location⟩
    cases p with
    | poolSize => exact bind_pure_eq_map (squarePair .poolSize v) Setting.kernel l.put
    | strides => exact bind_pure_eq_map (stridesOf v) Setting.stride l.put
    | padding =>
      change (paddingOf v >>= _) = (paddingOf v >>= _).map _
      cases paddingOf v with
      | error m => rfl
      | ok pad => cases pad <;> rfl
    | filters | units | kernelSize | activation | inputShape => rfl
  | flatten nodes =>
    let l : Layer := ⟨.flatten nodes, input, output, stride, activation, location⟩
    cases p with
    | inputShape => exact bind_pure_eq_map (inputVolume .flatten v) Setting.input l.put
    | filters | units | kernelSize | poolSize | strides | activation | padding => rfl
  | dense nodes =>
    let l : Layer := ⟨.dense nodes, input, output, stride, activation, location⟩
    cases p with
    | units => exact bind_pure_eq_map (positive .units v) Setting.count l.put
    | activation => exact bind_pure_eq_map (activationOf v) Setting.activation l.put
    | inputShape => exact bind_pure_eq_map (inputVolume .dense v) Setting.input l.put
    | filters | kernelSize | poolSize | strides | padding => rfl

theorem settingOf_padding {v : Value} :
    settingOf .pooling .padding v = .ok s ↔ IsWord v.datum "valid" ∧ s = .nothing := by
  rw [settingOf, bind_eq_ok]
  constructor
  · rintro ⟨pad, hpad, h⟩
    split_ifs at h with hvalid
    cases h
    subst hvalid
    exact ⟨(paddingOf_eq_ok.mp hpad).1, rfl⟩
  · rintro ⟨hword, rfl⟩
    exact ⟨.valid, paddingOf_eq_ok.mpr ⟨hword, by decide⟩, rfl⟩

theorem says_of_settingOf {p : Parameter} {v : Value} (h : settingOf k p v = .ok s) : Says k p.label v.datum s := by
  unfold settingOf at h
  split at h
  · obtain ⟨n, hn, rfl⟩ := map_eq_ok.mp h
    exact .filters (positive_eq_ok.mp hn)
  · obtain ⟨n, hn, rfl⟩ := map_eq_ok.mp h
    exact .units (positive_eq_ok.mp hn)
  · obtain ⟨w, hw, rfl⟩ := map_eq_ok.mp h
    obtain ⟨ns, hns, hkernel⟩ := squarePair_eq_ok.mp hw
    exact .kernelSize hns hkernel
  · obtain ⟨w, hw, rfl⟩ := map_eq_ok.mp h
    obtain ⟨ns, hns, hkernel⟩ := squarePair_eq_ok.mp hw
    exact .poolSize hns hkernel
  · obtain ⟨n, hn, rfl⟩ := map_eq_ok.mp h
    exact .strides (.inl rfl) (stridesOf_eq_ok.mp hn)
  · obtain ⟨n, hn, rfl⟩ := map_eq_ok.mp h
    exact .strides (.inr rfl) (stridesOf_eq_ok.mp hn)
  · obtain ⟨a, ha, rfl⟩ := map_eq_ok.mp h
    obtain ⟨hword, hnone⟩ := activationOf_eq_ok.mp ha
    exact .activation (.inl rfl) hword hnone
  · obtain ⟨a, ha, rfl⟩ := map_eq_ok.mp h
    obtain ⟨hword, hnone⟩ := activationOf_eq_ok.mp ha
    exact .activation (.inr rfl) hword hnone
  · obtain ⟨pad, hpad, rfl⟩ := map_eq_ok.mp h
    obtain ⟨hword, hnone⟩ := paddingOf_eq_ok.mp hpad
    exact .padding hword hnone
  · obtain ⟨hword, rfl⟩ := settingOf_padding.mp h
    exact .unpadded hword
  · obtain ⟨w, hw, rfl⟩ := map_eq_ok.mp h
    obtain ⟨ns, hns, hshape⟩ := inputVolume_eq_ok.mp hw
    exact .inputShape (by decide) hns hshape
  · obtain ⟨w, hw, rfl⟩ := map_eq_ok.mp h
    obtain ⟨ns, hns, hshape⟩ := inputVolume_eq_ok.mp hw
    exact .inputShape (by decide) hns hshape
  · obtain ⟨w, hw, rfl⟩ := map_eq_ok.mp h
    obtain ⟨ns, hns, hshape⟩ := inputVolume_eq_ok.mp hw
    exact .inputShape (by decide) hns hshape
  · cases h

theorem Says.settingOf {name : String} {v : Value} (h : Says k name v.datum s) :
    ∃ p, Parameter.ofLabel? name = some p ∧ settingOf k p v = .ok s := by
  cases h with
  | filters hn => exact ⟨.filters, by decide, map_eq_ok.mpr ⟨_, positive_eq_ok.mpr hn, rfl⟩⟩
  | units hn => exact ⟨.units, by decide, map_eq_ok.mpr ⟨_, positive_eq_ok.mpr hn, rfl⟩⟩
  | kernelSize hns hkernel =>
    exact ⟨.kernelSize, by decide, map_eq_ok.mpr ⟨_, squarePair_eq_ok.mpr ⟨_, hns, hkernel⟩, rfl⟩⟩
  | poolSize hns hkernel =>
    exact ⟨.poolSize, by decide, map_eq_ok.mpr ⟨_, squarePair_eq_ok.mpr ⟨_, hns, hkernel⟩, rfl⟩⟩
  | strides hk hn =>
    refine ⟨.strides, by decide, ?_⟩
    rcases hk with rfl | rfl <;> exact map_eq_ok.mpr ⟨_, stridesOf_eq_ok.mpr hn, rfl⟩
  | activation hk hword hnone =>
    refine ⟨.activation, by decide, ?_⟩
    rcases hk with rfl | rfl <;> exact map_eq_ok.mpr ⟨_, activationOf_eq_ok.mpr ⟨hword, hnone⟩, rfl⟩
  | padding hword hnone =>
    exact ⟨.padding, by decide, map_eq_ok.mpr ⟨_, paddingOf_eq_ok.mpr ⟨hword, hnone⟩, rfl⟩⟩
  | unpadded hword => exact ⟨.padding, by decide, settingOf_padding.mpr ⟨hword, rfl⟩⟩
  | inputShape hk hns hshape =>
    refine ⟨.inputShape, by decide, ?_⟩
    have hvolume := inputVolume_eq_ok.mpr ⟨_, hns, hshape⟩
    cases k with
    | pooling => exact absurd rfl hk
    | conv | flatten | dense => exact map_eq_ok.mpr ⟨_, hvolume, rfl⟩

theorem label_of_ofLabel? {name : String} {p : Parameter} (h : Parameter.ofLabel? name = some p) : p.label = name := by
  rw [Parameter.ofLabel?] at h
  simpa using List.find?_some h

/-! ## Bindings -/

def Binding.setting (k : Kind) (b : Binding) : Except Misuse Setting :=
  match Parameter.ofLabel? b.name with
  | none => .error (.unknownKeyword b.name)
  | some p => settingOf k p b.value

def Binding.said (b : Binding) : String × Datum := (b.name, b.value.datum)

def Binding.Says (k : Kind) (b : Binding) (s : Setting) : Prop := LayerLoops.Says k b.name b.value.datum s

theorem Binding.setting_eq_ok {b : Binding} : b.setting k = .ok s ↔ b.Says k s := by
  rw [Binding.setting, Binding.Says]
  constructor
  · intro h
    split at h
    · cases h
    · rename_i p hp
      exact label_of_ofLabel? hp ▸ says_of_settingOf h
  · intro h
    obtain ⟨p, hp, hs⟩ := h.settingOf
    rw [hp]
    exact hs

theorem Layer.bind_eq (l : Layer) (b : Binding) : l.bind b = (b.setting l.kind).map l.put := by
  rw [Layer.bind, Binding.setting]
  cases Parameter.ofLabel? b.name with
  | none => rfl
  | some p => exact l.set_eq p b.value

/-- The layer after a binding: an argument that is refused leaves it as it was. -/
def Layer.apply (l : Layer) (b : Binding) : Layer :=
  match b.setting l.kind with
  | .ok s => l.put s
  | .error _ => l

section Apply

variable {l : Layer} {b : Binding}

theorem Layer.apply_eq_put {s : Setting} (h : b.Says l.kind s) : l.apply b = l.put s := by
  rw [Layer.apply, Binding.setting_eq_ok.mpr h]

theorem Layer.apply_eq_self (h : ∀ s, ¬ b.Says l.kind s) : l.apply b = l := by
  rw [Layer.apply]
  split
  · rename_i s hs
    exact absurd (Binding.setting_eq_ok.mp hs) (h s)
  · rfl

theorem Layer.apply_congr (l : Layer) {c : Binding} (h : b.said = c.said) : l.apply b = l.apply c := by
  obtain ⟨hname, hdatum⟩ := Prod.ext_iff.mp h
  have hiff : ∀ s, b.Says l.kind s ↔ c.Says l.kind s := fun s => by
    rw [Binding.Says, Binding.Says, show b.name = c.name from hname, show b.value.datum = c.value.datum from hdatum]
  by_cases hb : ∃ s, b.Says l.kind s
  · obtain ⟨s, hs⟩ := hb
    rw [apply_eq_put hs, apply_eq_put ((hiff s).mp hs)]
  · have hill := not_exists.mp hb
    rw [apply_eq_self hill, apply_eq_self fun s hs => hill s ((hiff s).mpr hs)]

@[simp] theorem Layer.kind_apply (l : Layer) (b : Binding) : (l.apply b).kind = l.kind := by
  rw [Layer.apply]
  split
  · exact l.kind_put _
  · rfl

end Apply

/-! ## The order of arguments -/

/-- The fields that arguments set. -/
inductive Field
  | count | kernel | stride | activation | padding | input | nothing

def Setting.field : Setting → Field
  | count _ => .count
  | kernel _ => .kernel
  | stride _ => .stride
  | activation _ => .activation
  | padding _ => .padding
  | input _ => .input
  | nothing => .nothing

theorem Says.name_eq {a b : String} {d e : Datum} {t : Setting} (hs : Says k a d s) (ht : Says k b e t)
    (h : s.field = t.field) : a = b := by
  cases hs <;> cases ht <;> first | rfl | cases h

theorem Layer.put_comm (l : Layer) {t : Setting} (h : s.field ≠ t.field) : (l.put s).put t = (l.put t).put s := by
  obtain ⟨form, _, _, _, _, _⟩ := l
  cases s <;> cases t <;> first | exact absurd rfl h | rfl | (cases form <;> rfl)

theorem Layer.apply_comm (l : Layer) {b c : Binding} (h : b.name ≠ c.name) :
    (l.apply b).apply c = (l.apply c).apply b := by
  by_cases hb : ∃ s, b.Says l.kind s
  · obtain ⟨s, hs⟩ := hb
    by_cases hc : ∃ t, c.Says l.kind t
    · obtain ⟨t, ht⟩ := hc
      have hfield : s.field ≠ t.field := fun heq => h (hs.name_eq ht heq)
      rw [apply_eq_put hs, apply_eq_put ht, apply_eq_put (s := t) (by simpa using ht),
        apply_eq_put (s := s) (by simpa using hs), l.put_comm hfield]
    · have hill : ∀ t, ¬ c.Says (l.apply b).kind t := by simpa using hc
      rw [apply_eq_self hill, apply_eq_self (not_exists.mp hc)]
  · have hill : ∀ s, ¬ b.Says (l.apply c).kind s := by simpa using hb
    rw [apply_eq_self hill, apply_eq_self (not_exists.mp hb)]

theorem Layer.foldl_apply_congr (h : bs.map Binding.said = cs.map Binding.said) (l : Layer) :
    bs.foldl Layer.apply l = cs.foldl Layer.apply l := by
  induction bs generalizing cs l with
  | nil =>
    rw [List.map_nil, eq_comm, List.map_eq_nil_iff] at h
    rw [h]
  | cons b bs ih =>
    obtain ⟨c, cs, rfl, hc, hcs⟩ := List.map_eq_cons_iff.mp h.symm
    rw [List.foldl_cons, List.foldl_cons, l.apply_congr hc.symm, ih hcs.symm]

theorem map_name_of_said (h : bs.map Binding.said = cs.map Binding.said) :
    bs.map Binding.name = cs.map Binding.name := by
  simpa [Binding.said, Function.comp_def] using congrArg (List.map Prod.fst) h

theorem Layer.foldl_apply_perm (hsaid : (bs.map Binding.said).Perm (cs.map Binding.said))
    (hnodup : (bs.map Binding.name).Nodup) (l : Layer) : bs.foldl Layer.apply l = cs.foldl Layer.apply l := by
  have hcomp : Relation.Comp (fun xs ds => xs = List.map Binding.said ds) List.Perm (bs.map Binding.said) cs := by
    rw [List.eq_map_comp_perm]
    exact hsaid
  obtain ⟨ds, hds, hperm⟩ := hcomp
  rw [map_name_of_said hds] at hnodup
  rw [foldl_apply_congr hds]
  refine hperm.foldl_eq' (fun b hb c hc m => ?_) l
  by_cases h : b.name = c.name
  · rw [List.inj_on_of_nodup_map hnodup hb hc h]
  · exact m.apply_comm h

end LayerLoops
