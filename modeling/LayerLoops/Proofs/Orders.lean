import LayerLoops.LoopOrder
import LayerLoops.Proofs.Outcome

/-! # Normalized loop orders

Normalizing gives each layer an order that fits its kind. The orders that fit a convolution are the six that an
accumulator is known for, so that a normalized order never lacks one. -/

namespace LayerLoops.LoopOrder

/-- The axes of the order are those of a kind of layer, arranged as it supports them. -/
structure Fits (o : LoopOrder) (k : Kind) : Prop where
  kind : o.kind = k
  axes : misfit? k o.axes = none

theorem canonical_fits (k : Kind) : (canonical k).Fits k := ⟨rfl, by cases k <;> decide⟩

theorem normalize_fits (number : Nat) (k : Kind) (l : Option Location) (text : Option String) :
    ∃ o, (normalize number k l text).outcome = .ok o ∧ o.Fits k := by
  cases text with
  | none => exact ⟨canonical k, rfl, canonical_fits k⟩
  | some text =>
    simp only [normalize, check]
    generalize axesOf text = axes
    split
    · exact ⟨canonical k, rfl, canonical_fits k⟩
    · split
      · exact ⟨⟨k, axes⟩, rfl, rfl, by assumption⟩
      · exact ⟨canonical k, rfl, canonical_fits k⟩

theorem normalizeFrom_fits (number : Nat) (ls : List Layer) (texts : List (Option String)) :
    ∃ os, (normalizeFrom number ls texts).outcome = .ok os ∧ List.Forall₂ (fun l o => Fits o l.kind) ls os := by
  induction ls generalizing number texts with
  | nil => exact ⟨[], rfl, .nil⟩
  | cons l ls ih =>
    obtain ⟨o, ho, hfits⟩ := normalize_fits number l.kind l.location texts.head?.join
    obtain ⟨os, hos, hrest⟩ := ih (number + 1) texts.tail
    refine ⟨o :: os, ?_, .cons hfits hrest⟩
    exact Step.outcome_bind_eq_ok.mpr ⟨o, ho, Step.outcome_bind_eq_ok.mpr ⟨os, hos, rfl⟩⟩

theorem normalizeAll_fits (net : Network) (texts : List String) :
    ∃ os, (normalizeAll net texts).outcome = .ok os ∧ List.Forall₂ (fun l o => Fits o l.kind) net.layers os := by
  obtain ⟨os, hos, hfits⟩ := normalizeFrom_fits 1 net.layers
    (if !texts.isEmpty && texts.length != net.size then [] else texts.map some)
  refine ⟨os, ?_, hfits⟩
  simp only [normalizeAll, apply_ite Step.outcome, Step.outcome_warn_bind, ite_self]
  exact Step.outcome_bind_eq_ok.mpr ⟨os, hos, rfl⟩

/-- An order of a convolution whose sums can be kept as `k`. -/
def Supported (o : LoopOrder) (k : Accumulator) : Prop :=
  ∃ middle, (middle, k) ∈ Accumulator.table ∧ o = ⟨.conv, "oz" :: (middle ++ ["kx", "ky"])⟩

theorem accumulator?_of_supported {o : LoopOrder} {k : Accumulator} (h : o.Supported k) : o.accumulator? = some k := by
  obtain ⟨middle, hmem, rfl⟩ := h
  simp only [Accumulator.table, List.mem_cons, Prod.mk.injEq, List.not_mem_nil, or_false] at hmem
  rcases hmem with ⟨rfl, rfl⟩ | ⟨rfl, rfl⟩ | ⟨rfl, rfl⟩ | ⟨rfl, rfl⟩ | ⟨rfl, rfl⟩ | ⟨rfl, rfl⟩ <;> rfl

theorem supported_of_fits {o : LoopOrder} (h : o.Fits .conv) : ∃ k, o.Supported k := by
  obtain ⟨kind, axes⟩ := o
  obtain ⟨rfl, h⟩ := h
  unfold misfit? at h
  dsimp only at h
  split_ifs at h with hlen hknown hnodup hfirst hlast
  obtain ⟨a, b, c, d, e, f, rfl⟩ : ∃ a b c d e f, [a, b, c, d, e, f] = axes := by
    simpa [Kind.canonicalAxes, List.length_eq_succ_iff] using hlen
  obtain rfl : a = "oz" := by simpa using hfirst
  obtain ⟨rfl, rfl⟩ : e = "kx" ∧ f = "ky" := by simpa using hlast
  have hmiddle (x : String) (hx : x ∈ [b, c, d]) : x = "oy" ∨ x = "ox" ∨ x = "iz" := by
    simp [Kind.canonicalAxes] at hknown hnodup hx
    grind
  have hne : b ≠ c ∧ b ≠ d ∧ c ≠ d := by
    simp at hnodup
    tauto
  rcases hmiddle b (by simp) with rfl | rfl | rfl <;> rcases hmiddle c (by simp) with rfl | rfl | rfl <;>
    rcases hmiddle d (by simp) with rfl | rfl | rfl <;> simp at hne
  · exact ⟨.scalar, ["oy", "ox", "iz"], by decide, rfl⟩
  · exact ⟨.vector, ["oy", "iz", "ox"], by decide, rfl⟩
  · exact ⟨.scalar, ["ox", "oy", "iz"], by decide, rfl⟩
  · exact ⟨.vector, ["ox", "iz", "oy"], by decide, rfl⟩
  · exact ⟨.tile, ["iz", "oy", "ox"], by decide, rfl⟩
  · exact ⟨.tile, ["iz", "ox", "oy"], by decide, rfl⟩

theorem Fits.eq_canonical {o : LoopOrder} {k : Kind} (h : o.Fits k) (hcan : o.isCanonical = true) :
    o = canonical k := by
  obtain ⟨kind, axes⟩ := o
  obtain ⟨rfl, -⟩ := h
  simpa [isCanonical, canonical] using hcan

theorem supported_canonical : (canonical .conv).Supported .scalar := ⟨["oy", "ox", "iz"], by decide, rfl⟩

end LayerLoops.LoopOrder
