import LayerLoops.Proofs.Numbering
import LayerLoops.Proofs.Outcome
import LayerLoops.Validation
import Mathlib.Logic.Unique

/-! # Validated networks

What a network fulfils when validation records no error, and why validation comes to an end: the only number
that a check has to write is the input volume of a dense layer. -/

namespace LayerLoops

variable {net : Network} {c : Config} {n : Nat} {l : Layer}

/-- What is asked of layer `n` by itself and in its place. -/
structure Network.Admits (net : Network) (c : Config) (n : Nat) (l : Layer) : Prop where
  followed : l.kind = .flatten → ∀ m, net.successor? n = some m → m.kind = .dense
  flat : l.kind = .dense → ∀ v, l.input = some v → v.IsFlat
  softmax : l.activation = .softmax → net.isLast n = true
  pooling : ∀ t channels k, l.form = .pooling t channels k →
    t = .max ∧ l.stride = k.rows ∧ ∃ seed, poolingSeed net n l.location c = .ok seed

/-- The order of a convolution selects an accumulator, and a scalar one under quantization. -/
def LoopOrder.Admissible (o : LoopOrder) (c : Config) : Prop :=
  ∃ k, o.accumulator? = some k ∧ (c.quantized = true → k = .scalar)

/-- Nothing speaks against generating code. -/
structure Network.Valid (net : Network) (c : Config) (orders : List LoopOrder) : Prop where
  nonempty : net.layers ≠ []
  layers : ∀ l n, (l, n) ∈ net.numbered → net.Admits c n l
  orders : ∀ l n o, ((l, n), o) ∈ net.numbered.zip orders → l.kind = .conv → o.Admissible c
  single : c.singleLayer ≤ net.size

@[simp] theorem passes_refuse (v : Violation) (p : Option Location) (u : Unit) : ¬ (refuse v p).Passes u :=
  Step.not_passes_fail _ u

theorem passes_forEach {α : Type} {f : α → Step Unit} {as : List α} {u : Unit} :
    (forEach f as).Passes u ↔ ∀ a ∈ as, (f a).Passes () := by
  induction as with
  | nil => simp [forEach]
  | cons a as ih => simp [forEach, ih, Unique.exists_iff]

theorem checkSequence_passes : (checkSequence net n l).Passes () ↔
    (l.kind = .flatten → ∀ m, net.successor? n = some m → m.kind = .dense) ∧
      (l.kind = .dense → ∀ v, l.input = some v → v.IsFlat) := by
  unfold checkSequence
  cases l.kind <;> cases net.successor? n <;> cases l.input <;>
    simp [apply_ite Step.Passes, ite_apply, Unique.exists_iff, Volume.writable]

theorem checkActivation_passes :
    (checkActivation net n l).Passes () ↔ (l.activation = .softmax → net.isLast n = true) := by
  unfold checkActivation
  split <;> simp_all

theorem checkPooling_passes : (checkPooling net n l c).Passes () ↔ ∀ t channels k, l.form = .pooling t channels k →
    t = .max ∧ l.stride = k.rows ∧ ∃ seed, poolingSeed net n l.location c = .ok seed := by
  unfold checkPooling
  cases l.form with
  | pooling t channels k =>
    cases poolingSeed net n l.location c with
    | ok seed => by_cases ht : t = .max <;> by_cases hs : l.stride = k.rows <;> simp [ht, hs]
    | error d => by_cases ht : t = .max <;> by_cases hs : l.stride = k.rows <;> simp [ht, hs]
  | conv _ _ _ | flatten _ | dense _ => simp

theorem checkOrder_passes {o : LoopOrder} : (checkOrder n l o c).Passes () ↔ o.Admissible c := by
  unfold checkOrder LoopOrder.accumulator LoopOrder.Admissible
  cases o.accumulator? with
  | none => simp
  | some k => by_cases h : c.quantized = true ∧ k ≠ .scalar <;> simp [h]; tauto

theorem checkSettings_passes : (checkSettings net c).Passes () ↔ c.singleLayer ≤ net.size := by
  unfold checkSettings
  by_cases h : c.singleLayer > net.size
  · simp [h]
  · simp only [h, if_false]
    cases c.approximate <;> simp [apply_ite Step.Passes, ite_apply] <;> omega

theorem checkLayer_passes : (checkLayer net c n l).Passes () ↔ net.Admits c n l := by
  simp only [checkLayer, Step.passes_bind, Step.passes_recover, Unique.exists_iff]
  constructor
  · rintro ⟨hs, ha, hp⟩
    obtain ⟨hfollowed, hflat⟩ := checkSequence_passes.mp hs
    exact ⟨hfollowed, hflat, checkActivation_passes.mp ha, checkPooling_passes.mp hp⟩
  · rintro ⟨hfollowed, hflat, ha, hp⟩
    exact ⟨checkSequence_passes.mpr ⟨hfollowed, hflat⟩, checkActivation_passes.mpr ha, checkPooling_passes.mpr hp⟩

theorem Network.checks_passes {orders : List LoopOrder} : (net.checks c (some orders)).Passes () ↔
    (∀ l n, (l, n) ∈ net.numbered → net.Admits c n l) ∧
      (∀ l n o, ((l, n), o) ∈ net.numbered.zip orders → l.kind = .conv → o.Admissible c) ∧
      c.singleLayer ≤ net.size := by
  simp only [checks, Step.passes_bind, Step.passes_recover, Unique.exists_iff, passes_forEach, Prod.forall,
    checkLayer_passes, checkSettings_passes, apply_ite Step.Passes, ite_apply, checkOrder_passes, Step.passes_pure,
    ite_prop_iff_and, implies_true, and_true]

theorem Network.validate_passes {orders : List LoopOrder} {b : Bool} :
    (net.validate c (some orders)).Passes b ↔ b = true ∧ net.Valid c orders := by
  have hvalid : net.Valid c orders ↔ net.layers ≠ [] ∧ (net.checks c (some orders)).Passes () := by
    rw [checks_passes]
    exact ⟨fun ⟨h, hl, ho, hs⟩ => ⟨h, hl, ho, hs⟩, fun ⟨h, hl, ho, hs⟩ => ⟨h, hl, ho, hs⟩⟩
  rw [hvalid, validate]
  cases hl : net.layers with
  | nil => simp
  | cons l ls =>
    cases hok : (net.checks c (some orders)).outcome with
    | ok u =>
      have herrors (e : Event) : Journal.errors ((net.checks c (some orders)).journal ++ [Entry.event e]) =
          Journal.errors (net.checks c (some orders)).journal := by
        rw [Journal.errors_append]
        exact List.append_nil _
      simp only [Step.Passes, hok, herrors, List.isEmpty_cons, Bool.false_eq_true, if_false, Except.ok.injEq,
        ne_eq, reduceCtorEq, not_false_eq_true, true_and]
      constructor
      · rintro ⟨rfl, h⟩
        exact ⟨by simp [h], h⟩
      · rintro ⟨rfl, h⟩
        exact ⟨by simp [h], h⟩
    | error f => simp [Step.Passes, hok]

/-! ## Validation comes to an end -/

theorem Step.Reports.recover {s : Step Unit} (h : s.Reports) : s.recover.outcome = .ok () := by
  unfold Step.recover
  cases hs : s.outcome with
  | ok u => exact hs
  | error f =>
    obtain ⟨d, rfl⟩ := h f hs
    rfl

theorem forEach_ok {α : Type} {f : α → Step Unit} {as : List α} (h : ∀ a ∈ as, (f a).outcome = .ok ()) :
    (forEach f as).outcome = .ok () := by
  induction as with
  | nil => rfl
  | cons a as ih =>
    have hrest := ih fun b hb => h b (List.mem_cons_of_mem a hb)
    exact Step.outcome_bind_eq_ok.mpr ⟨(), h a List.mem_cons_self, hrest⟩

theorem reports_refuse (v : Violation) (p : Option Location) : (refuse v p).Reports := Step.reports_fail _

theorem checkSequence_reports (net : Network) (n : Nat) (h : ∀ v, l.input = some v → v.Fits) :
    (checkSequence net n l).Reports := by
  unfold checkSequence
  cases l.kind with
  | conv | pooling => exact Step.reports_pure ()
  | flatten =>
    cases net.successor? n with
    | none => exact Step.reports_pure ()
    | some m =>
      dsimp only
      split
      · exact Step.reports_fail _
      · exact Step.reports_pure ()
  | dense =>
    cases hi : l.input with
    | none => exact Step.reports_pure ()
    | some v =>
      dsimp only
      split
      · have hw : v.writable = .ok v := if_pos (h v hi)
        rw [hw]
        exact Step.reports_fail _
      · exact Step.reports_pure ()

theorem checkActivation_reports (net : Network) (n : Nat) (l : Layer) : (checkActivation net n l).Reports := by
  unfold checkActivation
  split
  · exact reports_refuse _ _
  · exact Step.reports_pure _

theorem checkPooling_reports (net : Network) (n : Nat) (l : Layer) (c : Config) : (checkPooling net n l c).Reports := by
  unfold checkPooling
  split
  · split
    · exact reports_refuse _ _
    · split
      · exact reports_refuse _ _
      · split
        · exact Step.reports_pure _
        · exact Step.reports_fail _
  · exact Step.reports_pure _

theorem checkOrder_reports (n : Nat) (l : Layer) (o : LoopOrder) (c : Config) : (checkOrder n l o c).Reports := by
  unfold checkOrder
  split
  · exact Step.reports_fail _
  · split
    · exact reports_refuse _ _
    · exact Step.reports_pure _

theorem checkSettings_reports (net : Network) (c : Config) : (checkSettings net c).Reports := by
  unfold checkSettings
  by_cases h : c.singleLayer > net.size
  · rw [if_pos h]
    exact Step.reports_fail _
  · rw [if_neg h]
    cases c.approximate with
    | false => exact Step.reports_pure ()
    | true =>
      simp only [if_true]
      split
      · exact Step.reports_of_ok rfl
      · split
        · exact Step.reports_of_ok rfl
        · exact Step.reports_pure ()

theorem Network.validate_ok (h : ∀ l ∈ net.layers, ∀ v, l.input = some v → v.Fits) (c : Config)
    (orders : List LoopOrder) : ∃ b, (net.validate c (some orders)).outcome = .ok b := by
  have hlayer (x : Layer × Nat) (hx : x ∈ net.numbered) : (checkLayer net c x.2 x.1).outcome = .ok () := by
    have hseq := checkSequence_reports net x.2 (h x.1 (mem_layers hx))
    refine Step.outcome_bind_eq_ok.mpr ⟨(), hseq.recover, ?_⟩
    exact Step.outcome_bind_eq_ok.mpr
      ⟨(), (checkActivation_reports _ _ _).recover, (checkPooling_reports _ _ _ _).recover⟩
  have hchecks : (net.checks c (some orders)).outcome = .ok () := by
    refine Step.outcome_bind_eq_ok.mpr ⟨(), forEach_ok hlayer, ?_⟩
    refine Step.outcome_bind_eq_ok.mpr ⟨(), forEach_ok fun x _ => ?_, (checkSettings_reports net c).recover⟩
    rw [apply_ite Step.outcome, (checkOrder_reports _ _ _ _).recover]
    exact ite_self _
  unfold validate
  split
  · exact ⟨false, rfl⟩
  · simp only [hchecks]
    exact ⟨_, rfl⟩

end LayerLoops
