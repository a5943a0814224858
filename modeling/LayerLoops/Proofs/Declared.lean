import LayerLoops.Declaration
import LayerLoops.Proofs.Outcome

/-! # Declared layers

Statements always declare a network, and every layer of it is declared in a sane way: its input volume is
positive, the numbers it was given are positive literals, its kernel is given whole or not at all, and
everything that inference computes is unset. What else the literals are known to satisfy is carried along as a
property `P`. -/

namespace LayerLoops

open Source

variable {P : Int → Prop} {l : Layer} {p : Parameter} {v : Value}

namespace Source

/-- The positive integers that a value can give to a layer satisfy `P`. -/
def Value.Allows (P : Int → Prop) : Value → Prop
  | .integer n _ => n ≠ 0 → P n
  | .tuple items _ => ∀ n place, Value.integer n place ∈ items → n ≠ 0 → P n
  | .real _ _ | .text _ _ | .name _ _ => True

def Call.Allows (P : Int → Prop) (c : Call) : Prop :=
  (∀ v ∈ c.args, v.Allows P) ∧ ∀ k ∈ c.kwargs, k.value.Allows P

def Statement.Allows (P : Int → Prop) (s : Statement) : Prop := s.call.Allows P

theorem Value.allows_pos (v : Value) : v.Allows (0 < ·) := by
  cases v with
  | integer n _ => exact fun h => by simpa [Nat.pos_iff_ne_zero] using h
  | tuple items _ => exact fun n _ _ h => by simpa [Nat.pos_iff_ne_zero] using h
  | real _ _ | text _ _ | name _ _ => trivial

theorem Statement.allows_pos (s : Statement) : s.Allows (0 < ·) :=
  ⟨fun v _ => v.allows_pos, fun k _ => k.value.allows_pos⟩

end Source

def Volume.All (P : Int → Prop) (v : Volume) : Prop := P v.x ∧ P v.y ∧ P v.z

def Kernel.Declared (P : Int → Prop) (k : Kernel) : Prop :=
  k = {} ∨ ∃ a b, k = ⟨some a, some b⟩ ∧ P a ∧ P b

def Form.Declared (P : Int → Prop) : Form → Prop
  | .conv filters k _ => (∀ n, filters = some n → P n) ∧ k.Declared P
  | .pooling _ channels k => channels = none ∧ k.Declared P
  | .flatten nodes => nodes = none
  | .dense nodes => ∀ n, nodes = some n → P n

/-- A layer as statements declare it. The input of a dense layer may be a product of literals. -/
structure Layer.Declared (P : Int → Prop) (l : Layer) : Prop where
  output : l.output = none
  input : ∀ v, l.input = some v → v.Positive ∧ (l.kind = .dense ∨ v.All P)
  stride : ∀ n, l.stride = some n → P n
  form : l.form.Declared P

theorem positive_ok {n : Nat} (h : positive p v = .ok n) (hv : v.Allows P) : n ≠ 0 ∧ P n := by
  cases v with
  | integer m _ =>
    simp only [positive] at h
    split at h
    · cases h
    · cases h
      exact ⟨by assumption, hv (by assumption)⟩
  | real _ _ | text _ _ | name _ _ | tuple _ _ => cases h

theorem positive_items_ok (items : List Value) {ns : List Nat} (h : items.mapM (positive p) = .ok ns)
    (hi : ∀ n place, Value.integer n place ∈ items → n ≠ 0 → P n) : ∀ n ∈ ns, n ≠ 0 ∧ P n := by
  intro n hn
  obtain ⟨w, hw, hp⟩ := exists_mem_of_mapM h hn
  refine positive_ok hp ?_
  cases w with
  | integer m place => exact hi m place hw
  | tuple _ _ => simp [positive] at hp
  | real _ _ | text _ _ | name _ _ => trivial

theorem positives_ok {ns : List Nat} (h : positives p v = .ok ns) (hv : v.Allows P) : ∀ n ∈ ns, n ≠ 0 ∧ P n := by
  cases v with
  | tuple items place =>
    simp only [positives] at h
    split at h
    · cases h
    · exact positive_items_ok items h hv
  | integer m place =>
    refine positive_items_ok [.integer m place] h ?_
    intro n q hm
    cases List.mem_singleton.mp hm
    exact hv
  | real _ _ | text _ _ | name _ _ => exact positive_items_ok [_] h (by simp)

theorem squarePair_ok {k : Kernel} (h : squarePair p v = .ok k) (hv : v.Allows P) : k.Declared P := by
  simp only [squarePair, bind_eq_ok] at h
  obtain ⟨ns, hns, h⟩ := h
  have hp := positives_ok hns hv
  split at h
  · cases h
    exact .inr ⟨_, _, rfl, (hp _ (by simp)).2, (hp _ (by simp)).2⟩
  · cases h
    exact .inr ⟨_, _, rfl, (hp _ (by simp)).2, (hp _ (by simp)).2⟩
  · cases h

theorem stridesOf_ok {n : Nat} (h : stridesOf v = .ok n) (hv : v.Allows P) : P n := by
  simp only [stridesOf, bind_eq_ok] at h
  obtain ⟨ns, hns, h⟩ := h
  have hp := positives_ok hns hv
  split at h
  · cases h
    exact (hp _ (by simp)).2
  · split at h
    · cases h
      exact (hp _ (by simp)).2
    · cases h
  · cases h

theorem inputVolume_pos {k : Kind} {w : Volume} (h : inputVolume k v = .ok w) : w.Positive := by
  simp only [inputVolume, bind_eq_ok] at h
  obtain ⟨ns, hns, h⟩ := h
  have hp := positives_ok hns v.allows_pos
  split at h <;> cases h
  case h_2 a b c =>
    have ha : 0 < a := Nat.pos_of_ne_zero (hp a (by simp)).1
    have hb : 0 < b := Nat.pos_of_ne_zero (hp b (by simp)).1
    have hc : 0 < c := Nat.pos_of_ne_zero (hp c (by simp)).1
    exact ⟨Int.natCast_pos.mpr (Nat.mul_pos (Nat.mul_pos ha hb) hc), Int.one_pos, Int.one_pos⟩
  all_goals simp_all [Volume.Positive, Volume.flat]

theorem inputVolume_all (one : P 1) {k : Kind} {w : Volume} (h : inputVolume k v = .ok w) (hv : v.Allows P) :
    k = .dense ∨ w.All P := by
  simp only [inputVolume, bind_eq_ok] at h
  obtain ⟨ns, hns, h⟩ := h
  have hp := positives_ok hns hv
  split at h <;> cases h <;> simp_all [Volume.All]

theorem Layer.set_declared (one : P 1) {m : Layer} (h : l.set p v = .ok m) (hl : l.Declared P) (hv : v.Allows P) :
    m.Declared P := by
  obtain ⟨output, input, stride, form⟩ := hl
  unfold Layer.kind at input
  unfold Layer.set at h
  split at h <;> try simp only [bind_eq_ok, pure_eq_ok] at h
  case h_1 f k pad he =>
    obtain ⟨n, hn, rfl⟩ := h
    rw [he] at input form
    exact ⟨output, input, stride, by rintro _ ⟨⟩; exact (positive_ok hn hv).2, form.2⟩
  case h_2 nodes he =>
    obtain ⟨n, hn, rfl⟩ := h
    rw [he] at input
    exact ⟨output, input, stride, by rintro _ ⟨⟩; exact (positive_ok hn hv).2⟩
  case h_3 f k pad he =>
    obtain ⟨k, hk, rfl⟩ := h
    rw [he] at input form
    exact ⟨output, input, stride, form.1, squarePair_ok hk hv⟩
  case h_4 t c k he =>
    obtain ⟨k, hk, rfl⟩ := h
    rw [he] at input form
    exact ⟨output, input, stride, form.1, squarePair_ok hk hv⟩
  case h_5 =>
    obtain ⟨n, hn, rfl⟩ := h
    exact ⟨output, input, by rintro _ ⟨⟩; exact stridesOf_ok hn hv, form⟩
  case h_6 =>
    obtain ⟨n, hn, rfl⟩ := h
    exact ⟨output, input, by rintro _ ⟨⟩; exact stridesOf_ok hn hv, form⟩
  case h_7 =>
    obtain ⟨a, -, rfl⟩ := h
    exact ⟨output, input, stride, form⟩
  case h_8 =>
    obtain ⟨a, -, rfl⟩ := h
    exact ⟨output, input, stride, form⟩
  case h_9 f k pad he =>
    obtain ⟨pad, -, rfl⟩ := h
    rw [he] at input form
    exact ⟨output, input, stride, form⟩
  case h_10 =>
    obtain ⟨pad, -, h⟩ := h
    split at h
    · cases h
      exact ⟨output, input, stride, form⟩
    · cases h
  case h_11 =>
    obtain ⟨w, hw, rfl⟩ := h
    exact ⟨output, by rintro _ ⟨⟩; exact ⟨inputVolume_pos hw, inputVolume_all one hw hv⟩, stride, form⟩
  case h_12 =>
    obtain ⟨w, hw, rfl⟩ := h
    exact ⟨output, by rintro _ ⟨⟩; exact ⟨inputVolume_pos hw, inputVolume_all one hw hv⟩, stride, form⟩
  case h_13 =>
    obtain ⟨w, hw, rfl⟩ := h
    exact ⟨output, by rintro _ ⟨⟩; exact ⟨inputVolume_pos hw, inputVolume_all one hw hv⟩, stride, form⟩
  case h_14 => cases h

theorem Layer.bind_declared (one : P 1) {m : Layer} {b : Binding} (h : l.bind b = .ok m) (hl : l.Declared P)
    (hv : b.value.Allows P) : m.Declared P := by
  unfold Layer.bind at h
  split at h
  · cases h
  · exact Layer.set_declared one h hl hv

theorem Layer.bindAll_declared (one : P 1) (number : Nat) {bs : List Binding} (hb : ∀ b ∈ bs, b.value.Allows P)
    (hl : l.Declared P) (seen : List String) : ∃ m, (l.bindAll number seen bs).outcome = .ok m ∧ m.Declared P := by
  induction bs generalizing l seen with
  | nil => exact ⟨l, rfl, hl⟩
  | cons b bs ih =>
    have hrest : ∀ c ∈ bs, c.value.Allows P := fun c hc => hb c (List.mem_cons_of_mem b hc)
    simp only [Layer.bindAll, apply_ite Step.outcome, Step.outcome_warn_bind, ite_self]
    cases he : l.bind b with
    | ok m => exact ih hrest (Layer.bind_declared one he hl (hb b List.mem_cons_self)) _
    | error e => exact ih hrest hl _

theorem bindPositional_allows (name : String) (limit : Nat) {vs : List Value} (hv : ∀ v ∈ vs, v.Allows P)
    (ps : List Parameter) :
    ∃ bs, (bindPositional name limit ps vs).outcome = .ok bs ∧ ∀ b ∈ bs, b.value.Allows P := by
  induction vs generalizing ps with
  | nil => exact ⟨[], by cases ps <;> rfl, by simp⟩
  | cons v vs ih =>
    have hrest : ∀ w ∈ vs, w.Allows P := fun w hw => hv w (List.mem_cons_of_mem v hw)
    cases ps with
    | nil => exact ih hrest []
    | cons p ps =>
      obtain ⟨bs, hbs, ha⟩ := ih hrest ps
      refine ⟨⟨p.label, v, v.location⟩ :: bs, ?_, ?_⟩
      · simp only [bindPositional, Step.outcome_bind_eq_ok]
        exact ⟨bs, hbs, rfl⟩
      · intro b hb
        rcases List.mem_cons.mp hb with rfl | hb
        · exact hv v List.mem_cons_self
        · exact ha b hb

theorem bindings_allows (k : Kind) {c : Call} (ha : ∀ v ∈ c.args, v.Allows P)
    (hk : ∀ w ∈ c.kwargs, w.value.Allows P) :
    ∃ bs, (bindings k c).outcome = .ok bs ∧ ∀ b ∈ bs, b.value.Allows P := by
  obtain ⟨bs, hbs, hb⟩ := bindPositional_allows c.name k.positional.length ha k.positional
  refine ⟨_, Step.outcome_bind_eq_ok.mpr ⟨bs, hbs, rfl⟩, ?_⟩
  intro b hmem
  rcases List.mem_append.mp hmem with h | h
  · exact hb b h
  · obtain ⟨w, hw, rfl⟩ := List.mem_map.mp h
    exact hk w hw

theorem Form.ofConstructor?_declared {name : String} {form : Form} (h : Form.ofConstructor? name = some form) :
    form.Declared P := by
  unfold Form.ofConstructor? at h
  split at h <;> cases h <;> simp [Form.Declared, Kernel.Declared]

theorem Network.declare_declared (one : P 1) {net : Network} (hn : ∀ l ∈ net.layers, l.Declared P) {s : Statement}
    (hs : s.Allows P) :
    ∃ m, (net.declare s).outcome = .ok m ∧ ∀ l ∈ m.layers, l.Declared P := by
  unfold Network.declare
  split
  · exact ⟨net, rfl, hn⟩
  · rename_i form hf
    have hstart : Layer.Declared P { form, location := some s.call.location } :=
      ⟨rfl, by simp, by simp, Form.ofConstructor?_declared hf⟩
    obtain ⟨bs, hbs, hb⟩ := bindings_allows form.kind hs.1 hs.2
    obtain ⟨l, hl, hd⟩ := Layer.bindAll_declared one (net.size + 1) hb hstart []
    refine ⟨net.append l, ?_, ?_⟩
    · simp only [Step.outcome_bind_eq_ok]
      exact ⟨bs, hbs, l, hl, rfl⟩
    · intro m hm
      rcases List.mem_append.mp hm with h | h
      · exact hn m h
      · exact List.mem_singleton.mp h ▸ hd

theorem Network.declareAll_declared (one : P 1) {ss : List Statement} (hs : ∀ s ∈ ss, s.Allows P) {net : Network}
    (hn : ∀ l ∈ net.layers, l.Declared P) :
    ∃ m, (net.declareAll ss).outcome = .ok m ∧ ∀ l ∈ m.layers, l.Declared P := by
  induction ss generalizing net with
  | nil => exact ⟨net, rfl, hn⟩
  | cons s ss ih =>
    obtain ⟨m, hm, hd⟩ := Network.declare_declared one hn (hs s List.mem_cons_self)
    obtain ⟨k, hk, hdk⟩ := ih (fun t ht => hs t (List.mem_cons_of_mem s ht)) hd
    exact ⟨k, Step.outcome_bind_eq_ok.mpr ⟨m, hm, hk⟩, hdk⟩

theorem Network.ofStatements_declared (one : P 1) {ss : List Statement} (hs : ∀ s ∈ ss, s.Allows P) :
    ∃ net, (Network.ofStatements ss).outcome = .ok net ∧ ∀ l ∈ net.layers, l.Declared P := by
  have hempty : ∀ l ∈ ({} : Network).layers, l.Declared P := by simp
  obtain ⟨net, hn, hd⟩ := Network.declareAll_declared one hs hempty
  exact ⟨net, Step.outcome_bind_eq_ok.mpr ⟨net, hn, rfl⟩, hd⟩

end LayerLoops
