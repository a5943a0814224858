import LayerLoops.Proofs.Buffers
import LayerLoops.Proofs.MaximumPooling

/-! # Seeds of pooling layers

The seed of a pooling layer comes from the activation of the layer before it. Behind an accepted network it lies
below every value that this layer stores, and pooling gives the maximum of each window, with one exception: a
quantized relu is followed by the zero point of the output, and a negative one carries results below the seed. -/

namespace LayerLoops

open Code Source

/-! ## What layers are declared with -/

/-- Only a weighted layer is given an activation, and a pooling layer is given no input. -/
structure Layer.Regular (l : Layer) : Prop where
  activation : l.weighted = false → l.activation = .none
  input : l.kind = .pooling → l.input = none

theorem Layer.set_regular {l m : Layer} {p : Parameter} {v : Value} (h : l.set p v = .ok m) (hl : l.Regular) :
    m.Regular := by
  obtain ⟨hactivation, hinput⟩ := hl
  unfold Layer.weighted Layer.kind at hactivation
  unfold Layer.kind at hinput
  unfold Layer.set at h
  split at h <;> try simp only [bind_eq_ok, pure_eq_ok] at h
  case h_10 =>
    obtain ⟨pad, -, h⟩ := h
    split at h <;> cases h
    exact ⟨hactivation, hinput⟩
  case h_14 => cases h
  all_goals
    rename_i hf
    obtain ⟨_, -, rfl⟩ := h
    rw [hf] at hactivation hinput
    constructor <;> simp_all [Layer.weighted, Layer.kind, Form.kind, Kind.weighted]

theorem Layer.bindAll_regular (number : Nat) (bs : List Binding) {l m : Layer} (hl : l.Regular) (seen : List String)
    (h : (l.bindAll number seen bs).outcome = .ok m) : m.Regular := by
  induction bs generalizing l seen with
  | nil =>
    cases h
    exact hl
  | cons b bs ih =>
    simp only [Layer.bindAll, apply_ite Step.outcome, Step.outcome_warn_bind, ite_self] at h
    cases he : l.bind b with
    | error e =>
      rw [he] at h
      exact ih hl _ h
    | ok l' =>
      rw [he] at h
      refine ih ?_ _ h
      unfold Layer.bind at he
      split at he
      · cases he
      · exact Layer.set_regular he hl

theorem Network.declare_regular {net m : Network} {s : Statement} (hn : ∀ l ∈ net.layers, l.Regular)
    (h : (net.declare s).outcome = .ok m) : ∀ l ∈ m.layers, l.Regular := by
  unfold Network.declare at h
  split at h
  · cases h
    exact hn
  · rename_i form hf
    obtain ⟨bs, -, h⟩ := Step.outcome_bind_eq_ok.mp h
    obtain ⟨l, hl, h⟩ := Step.outcome_bind_eq_ok.mp h
    cases h
    intro l' hl'
    rcases List.mem_append.mp hl' with hl' | hl'
    · exact hn l' hl'
    · cases List.mem_singleton.mp hl'
      exact Layer.bindAll_regular _ bs ⟨fun _ => rfl, fun _ => rfl⟩ _ hl

theorem Network.declareAll_regular {ss : List Statement} {net m : Network} (hn : ∀ l ∈ net.layers, l.Regular)
    (h : (net.declareAll ss).outcome = .ok m) : ∀ l ∈ m.layers, l.Regular := by
  induction ss generalizing net with
  | nil =>
    cases h
    exact hn
  | cons s ss ih =>
    obtain ⟨net', hnet, h⟩ := Step.outcome_bind_eq_ok.mp h
    exact ih (Network.declare_regular hn hnet) h

theorem Network.ofStatements_regular {ss : List Statement} {net : Network}
    (h : (Network.ofStatements ss).outcome = .ok net) : ∀ l ∈ net.layers, l.Regular := by
  obtain ⟨net', hnet, h⟩ := Step.outcome_bind_eq_ok.mp h
  cases h
  have hempty : ∀ l ∈ ({} : Network).layers, l.Regular := List.forall_mem_nil _
  exact Network.declareAll_regular hempty hnet

theorem Completion.origin {P : Int → Prop} {predecessor : Option Layer} {ls ms : List Layer}
    (h : Completion P predecessor ls ms) {m : Layer} (hm : m ∈ ms) :
    ∃ l ∈ ls, m.kind = l.kind ∧ m.activation = l.activation := by
  induction h with
  | nil => simp at hm
  | cons hl _ ih =>
    rcases List.mem_cons.mp hm with rfl | hm
    · exact ⟨_, List.mem_cons_self, hl.kind, hl.activation⟩
    · obtain ⟨l, hl, hfields⟩ := ih hm
      exact ⟨l, List.mem_cons_of_mem _ hl, hfields⟩

theorem Layer.weighted_of_emitted {net : Network} {n : Nat} {l l₀ : Layer} (h : l₀.Regular) (hk : l.kind = l₀.kind)
    (ha : l.activation = l₀.activation) (hne : net.emitted n l.activation ≠ .none) : l.weighted = true := by
  cases hw : l.weighted with
  | true => rfl
  | false =>
    have hw₀ : l₀.weighted = false := by rwa [Layer.weighted, ← hk, ← Layer.weighted]
    rw [ha, h.activation hw₀] at hne
    exact absurd rfl hne

/-! ## The seed -/

theorem Network.predecessor?_eq {net : Network} {l : Layer} {n : Nat} (h : (l, n) ∈ net.numbered) :
    net.predecessor? (n + 1) = some l := by
  obtain ⟨hpos, hl⟩ := Network.mem_numbered_iff.mp h
  have hn : ¬ n + 1 ≤ 1 := by omega
  rw [predecessor?, if_neg hn, ← hl]
  rfl

namespace Site

variable {s : Site} {σ : Memory}

/-- The seed that is derived from the activation of the layer at `s`. -/
def derivedSeed (s : Site) : Int := if s.applied = .relu then 0 else int8Min

/-- A seed is derived from the activation of the layer at `s`. -/
def DerivesSeed (s : Site) : Prop := s.applied = .relu ∨ s.applied = .linear ∧ s.config.quantized = true

theorem DerivesSeed.poolingSeed_eq (h : s.DerivesSeed) (hmem : (s.layer, s.number) ∈ s.net.numbered)
    (place : Option Location) : poolingSeed s.net (s.number + 1) place s.config = .ok s.derivedSeed := by
  have hactivation : s.net.emitted s.number s.layer.activation = s.applied := rfl
  rcases h with ha | ⟨ha, hq⟩
  · simp [poolingSeed, Network.predecessor?_eq hmem, hactivation, derivedSeed, ha]
  · simp [poolingSeed, Network.predecessor?_eq hmem, hactivation, derivedSeed, ha, hq]

/-- The factors of the layer are positive scales and, behind a relu, a zero point that keeps the sign. -/
structure Factored (s : Site) (σ : Memory) : Prop where
  scales : s.PositiveScales σ
  zero : s.applied = .relu → s.KeepsSign σ

theorem DerivesSeed.seeded (h : s.DerivesSeed) (hw : s.layer.weighted = true)
    (hf : s.config.quantized = true → s.Factored σ) : s.Seeded σ s.derivedSeed := by
  rcases h with ha | ⟨ha, hq⟩
  · rw [derivedSeed, if_pos ha]
    refine .relu ha fun hr => ?_
    have hfactored := hf (Bool.and_eq_true_iff.mp hr).1
    exact ⟨hfactored.scales, hfactored.zero ha⟩
  · rw [derivedSeed, if_neg (by simp [ha])]
    exact .scaled (by simp [rescales, hq, hw])

end Site

/-! ## Layers that code is written for -/

namespace Site

variable {s : Site} {g : Geometry} {P : Int → Prop}

theorem emitted_of_code (hmem : (s.layer, s.number) ∈ s.net.numbered) (hg : s.layer.Complete P g)
    (hadmits : s.net.Admits s.config s.number s.layer) (hfits : s.order.Fits s.layer.kind) {code : List Tree}
    (hcode : s.code = .ok code) : s.Emitted P g := by
  refine ⟨hmem, hg, hadmits, fun hk => ?_⟩
  rw [hk] at hfits
  obtain ⟨k, hsup⟩ := LoopOrder.supported_of_fits hfits
  refine ⟨k, hsup, ?_⟩
  rw [Site.code, hk] at hcode
  simp only [conv, bind_eq_ok, mapError_ok_iff] at hcode
  obtain ⟨k', hk', -⟩ := hcode
  simp only [convAccumulator, LoopOrder.accumulator, LoopOrder.accumulator?_of_supported hsup] at hk'
  by_contra hnot
  have hrefused : k ≠ .scalar ∧ s.scalarOnly ≠ [] := by tauto
  simp [hrefused, bind, Except.bind] at hk'

theorem isPooling_of_complete (pos : ∀ n, P n → 0 < n) (hmem : (s.layer, s.number) ∈ s.net.numbered)
    (hg : s.layer.Complete P g) (hk : s.layer.kind = .pooling) : ∃ n, s.IsPooling g n := by
  have hform := hg.form
  unfold Layer.kind at hk
  cases hf : s.layer.form with
  | pooling t channels k =>
    rw [hf] at hform
    obtain ⟨rfl, hz, n, rfl, hn, hwindow⟩ := hform
    exact ⟨n, (Network.mem_numbered_iff.mp hmem).1, ⟨t, hf⟩, hg.stride, hg.input, hg.output, hz, pos n hn, hwindow⟩
  | conv _ _ _ | flatten _ | dense _ => simp [hf, Form.kind] at hk

/-- At every position of the output of a pooling layer stands the greatest value of its window. -/
def HoldsMaxima (t : Site) (g : Geometry) (k : Int) (σ σ' : Memory) : Prop :=
  ∀ x y z, 0 ≤ x → x < g.output.x → 0 ≤ y → y < g.output.y → 0 ≤ z → z < g.output.z →
    ∃ m, σ'.cells t.output [x, y, z] = some m ∧ IsGreatest (t.window g k σ x y z) m

theorem IsPooling.code_eq {k seed : Int} (hs : s.IsPooling g k)
    (hseed : poolingSeed s.net s.number s.layer.location s.config = .ok seed) {code : List Tree}
    (hcode : s.code = .ok code) :
    code = s.header ⟨g.input, g.output⟩ ++ s.declarations g.output.dims ++ s.poolingNest ⟨g.input, g.output⟩ seed := by
  rw [Site.code, hs.kind] at hcode
  obtain ⟨-, seed', hseed', -, rfl⟩ := (pooling_eq_ok hs.input hs.output).mp hcode
  cases hseed.symm.trans hseed'
  rfl

theorem IsPooling.holdsMaxima {k seed : Int} (hs : s.IsPooling g k)
    (hseed : poolingSeed s.net s.number s.layer.location s.config = .ok seed) {code : List Tree}
    (hcode : s.code = .ok code) (μ : Multipliers) {σ : Memory} (hin : σ.Provides s.input g.input.dims)
    (hsized : s.Sized g.output.dims σ)
    (hle : ∀ js, Within g.input.dims js → ∀ v, σ.cells s.input js = some v → (seed : ℚ) ≤ v) (ρ : Scope) :
    ∃ σ', runAll μ (actionsAll code ρ) σ = some σ' ∧ s.HoldsMaxima g k σ σ' := by
  rw [hs.code_eq hseed hcode]
  obtain ⟨σ', hrun, hstored⟩ := hs.stores hin hsized ⟨g.input, g.output⟩ seed ρ
  refine ⟨σ', hrun, fun x y z hx0 hx hy0 hy hz0 hz => ?_⟩
  obtain ⟨m, hm, hgreatest⟩ := hstored x y z hx0 hx hy0 hy hz0 hz
  refine ⟨m, hm, hs.isGreatest_window hin ⟨hx0, hx⟩ ⟨hy0, hy⟩ ⟨hz0, hz⟩ ?_ hgreatest⟩
  rintro v ⟨i, hi0, hi, j, hj0, hj, hv⟩
  exact hle _ (hs.within_window ⟨hx0, hx⟩ ⟨hy0, hy⟩ ⟨hz0, hz⟩ ⟨hi0, hi⟩ ⟨hj0, hj⟩) v hv

/-- The layer at `t` comes behind the one at `s`. -/
structure Follows (t s : Site) : Prop where
  net : t.net = s.net
  number : t.number = s.number + 1
  config : t.config = s.config
  number_pos : 0 < s.number
  number_lt : s.number < s.net.size

section Follows

variable {t : Site}

theorem Follows.writesOutput_eq (h : t.Follows s) (hwhole : s.config.isolated = false) : s.writesOutput = false := by
  simp [writesOutput, isLast, Network.isLast, hwhole, h.number_lt.ne]

theorem Follows.input_eq (h : t.Follows s) (hwhole : s.config.isolated = false) : t.input = s.output := by
  have hread : t.input = .between s.number := by simp [input, h.config, hwhole, h.number, h.number_pos.ne']
  rw [hread, output_of_inner (h.writesOutput_eq hwhole)]

theorem Follows.not_writes_output (h : t.Follows s) (hwhole : s.config.isolated = false) : ¬ s.Writes t.output := by
  have hinner := h.writesOutput_eq hwhole
  have hout := output_of_inner hinner
  have hbase : s.base = .between s.number ∨ s.base = .betweenBase s.number := by
    cases hr : s.rescales with
    | false => exact .inl ((base_of_not_rescales hr).trans hout)
    | true => exact .inr (by simp [base, hr, hinner])
  have hnumber : t.number ≠ s.number := by
    rw [h.number]
    omega
  rintro (hw | hw | hw)
  · rcases t.output_cases with ht | ht <;> simp [ht] at hw
  · rcases t.output_cases with ht | ht <;> rcases hbase with hb | hb <;> simp [ht, hb, hnumber] at hw
  · rcases t.output_cases with ht | ht <;> simp [ht, hout, hnumber] at hw

theorem Follows.holdsMaxima (pos : ∀ n, P n → 0 < n) (h : t.Follows s) (hwhole : s.config.isolated = false)
    (hs : s.Emitted P g) (hconv : s.layer.kind = .conv) (hderives : s.DerivesSeed) {g' : Geometry} {k : Int}
    (ht : t.IsPooling g' k) (hlink : g.output = g'.input) {own code : List Tree}
    (hown : s.code = .ok own) (hcode : t.code = .ok code) (μ : Multipliers) {σ σ₁ : Memory}
    (hf : s.config.quantized = true → s.Factored σ) (hsized : s.Sized g.output.dims σ)
    (hsized' : t.Sized g'.output.dims σ) {ρ : Scope} (hrun : runAll μ (actionsAll own ρ) σ = some σ₁) (ρ' : Scope) :
    ∃ σ₂, runAll μ (actionsAll code ρ') σ₁ = some σ₂ ∧ t.HoldsMaxima g' k σ₁ σ₂ := by
  have hw : s.layer.weighted = true := by rw [Layer.weighted, hconv, Kind.weighted]
  have hseed : poolingSeed t.net t.number t.layer.location t.config = .ok s.derivedSeed := by
    rw [h.net, h.number, h.config]
    exact hderives.poolingSeed_eq hs.mem _
  have hdims : s.layer.writtenDims g.output = g.output.dims := by rw [Layer.writtenDims, hconv]
  obtain ⟨hframe, hextents⟩ := hs.extents_output pos hw hown (hdims ▸ hsized) hrun
  have hfilled {js : List Int} (hjs : Within g'.input.dims js) :=
    hs.fills_output pos hconv hown (hderives.seeded hw hf) hrun (hlink ▸ hjs)
  rw [hdims, hlink] at hextents
  have hbuffer := h.input_eq hwhole
  refine ht.holdsMaxima hseed hcode μ ⟨?_, fun js hjs => ?_⟩ (fun hkept => ?_) (fun js hjs v hv => ?_) ρ'
  · rw [hbuffer]
    exact hextents
  · obtain ⟨v, hv, -⟩ := hfilled hjs
    rw [hbuffer, hv]
    rfl
  · rw [hframe _ (h.not_writes_output hwhole)]
    exact hsized' hkept
  · obtain ⟨v', hv', hle⟩ := hfilled hjs
    rw [hbuffer, hv'] at hv
    cases hv
    exact hle

theorem Follows.stuck_on_dense (pos : ∀ n, P n → 0 < n) (h : t.Follows s) (hwhole : s.config.isolated = false)
    (hs : s.Emitted P g) (hdense : s.layer.kind = .dense) {g' : Geometry} {k seed : Int} (ht : t.IsPooling g' k)
    (hseed : poolingSeed t.net t.number t.layer.location t.config = .ok seed) {own code : List Tree}
    (hown : s.code = .ok own) (hcode : t.code = .ok code) (μ : Multipliers) {σ σ₁ : Memory}
    (hsized : s.Sized [g.output.x] σ) {ρ : Scope} (hrun : runAll μ (actionsAll own ρ) σ = some σ₁) (ρ' : Scope) :
    runAll μ (actionsAll code ρ') σ₁ = none := by
  have hw : s.layer.weighted = true := by rw [Layer.weighted, hdense, Kind.weighted]
  have hdims : s.layer.writtenDims g.output = [g.output.x] := by rw [Layer.writtenDims, hdense]
  obtain ⟨-, hextents⟩ := hs.extents_output pos hw hown (hdims ▸ hsized) hrun
  rw [hdims, ← h.input_eq hwhole] at hextents
  rw [ht.code_eq hseed hcode]
  exact ht.stuck_on_vector hextents _ seed ρ'

end Follows

end Site

/-! ## Accepted networks -/

namespace Forward

variable {net : Network} {c : Config} {orders : List LoopOrder} {profile : String} {l before : Layer} {n : Nat}
  {s t : Site}

theorem order_fits (hfits : List.Forall₂ (fun l o => LoopOrder.Fits o l.kind) net.layers orders)
    (hmem : (l, n) ∈ net.numbered) (hs : site net c orders profile l n = .ok s) : s.order.Fits s.layer.kind := by
  obtain ⟨_, hsite⟩ := exists_site net c orders profile l n
  obtain rfl := (hsite s).mp hs
  obtain ⟨-, hl⟩ := Network.mem_numbered_iff.mp hmem
  obtain ⟨hlt, rfl⟩ := List.getElem?_eq_some_iff.mp hl
  have hlt' : n - 1 < orders.length := hfits.length_eq ▸ hlt
  rw [List.getElem?_eq_getElem hlt', Option.getD_some]
  exact hfits.get hlt hlt'

theorem follows (hb : (before, n) ∈ net.numbered) (hl : (l, n + 1) ∈ net.numbered)
    (hs : site net c orders profile before n = .ok s) (ht : site net c orders profile l (n + 1) = .ok t) :
    t.Follows s := by
  obtain ⟨hnet, hnumber, -, hconfig⟩ := site_fields hs
  obtain ⟨hnet', hnumber', -, hconfig'⟩ := site_fields ht
  have hlt : n < net.layers.length := (List.getElem?_eq_some_iff.mp (Network.mem_numbered_iff.mp hl).2).1
  refine ⟨hnet'.trans hnet.symm, by rw [hnumber', hnumber], hconfig'.trans hconfig.symm, ?_, ?_⟩
  · rw [hnumber]
    exact (Network.mem_numbered_iff.mp hb).1
  · rw [hnumber, hnet]
    exact hlt

end Forward

open Forward Site in
/-- In a network that validation accepts, take a pooling layer whose seed is derived from the activation before it.
However far the code of the layer before it gets, on whatever numbers, it stores no value below the seed, if under
quantization the scales are positive and the zero point behind a relu keeps the sign. Pooling values that are not
below the seed stores the maximum of every window, and so does the code of the pooling layer behind that of a
convolution. Behind a dense layer, which stores a vector, it has no meaning. -/
theorem pooling_seed_below_stored_values {ss : List Statement} {declared : Network} {texts : List String}
    {orders : List LoopOrder} {c : Config} {profile : String}
    (hdecl : (Network.ofStatements ss).outcome = .ok declared) (hinfer : declared.infer.2.outcome = .ok true)
    (horders : (LoopOrder.normalizeAll declared.infer.1 texts).outcome = .ok orders)
    (hvalid : (declared.infer.1.validate c (some orders)).Passes true) {before l : Layer} {n : Nat}
    (hb : (before, n) ∈ declared.infer.1.numbered) (hl : (l, n + 1) ∈ declared.infer.1.numbered) {s t : Site}
    (hs : site declared.infer.1 c orders profile before n = .ok s)
    (ht : site declared.infer.1 c orders profile l (n + 1) = .ok t) (hkind : l.kind = .pooling)
    (hderives : s.DerivesSeed) :
    ∃ seed g k, poolingSeed declared.infer.1 (n + 1) l.location c = .ok seed ∧ t.IsPooling g k ∧
      (∀ own, s.code = .ok own → ∀ μ σ, (c.quantized = true → s.Factored σ) →
        ∀ σ', Reaches μ (actionsAll own Scope.empty) σ σ' →
          ∀ js v, σ'.cells s.output js = some v → (seed : ℚ) ≤ v ∨ σ.cells s.output js = some v) ∧
      (∀ code, t.code = .ok code → ∀ μ σ, σ.Provides t.input g.input.dims → t.Sized g.output.dims σ →
        (∀ js, Within g.input.dims js → ∀ v, σ.cells t.input js = some v → (seed : ℚ) ≤ v) →
          ∃ σ', runAll μ (actionsAll code Scope.empty) σ = some σ' ∧ t.HoldsMaxima g k σ σ') ∧
      (c.isolated = false → before.kind = .conv → ∀ own code, s.code = .ok own → t.code = .ok code →
        ∀ μ σ σ₁, (c.quantized = true → s.Factored σ) → s.Sized g.input.dims σ → t.Sized g.output.dims σ →
          runAll μ (actionsAll own Scope.empty) σ = some σ₁ →
            ∃ σ₂, runAll μ (actionsAll code Scope.empty) σ₁ = some σ₂ ∧ t.HoldsMaxima g k σ₁ σ₂) ∧
      (c.isolated = false → before.kind ≠ .conv → ∀ own code, s.code = .ok own → t.code = .ok code →
        ∀ μ σ σ₁, s.Sized [g.input.x] σ → runAll μ (actionsAll own Scope.empty) σ = some σ₁ →
          runAll μ (actionsAll code Scope.empty) σ₁ = none) := by
  have hregular := Network.ofStatements_regular hdecl
  obtain ⟨_, hdecl', hlayers⟩ := Network.ofStatements_declared (P := (0 < ·)) Int.one_pos fun st _ => st.allows_pos
  cases hdecl.symm.trans hdecl'
  have hcompletion := Network.infer_completion Int.one_pos (fun _ => id) hlayers hinfer
  obtain ⟨_, horders', hfits⟩ := LoopOrder.normalizeAll_fits declared.infer.1 texts
  cases horders.symm.trans horders'
  have hadmits := (Network.validate_passes.mp hvalid).2.layers
  have hfollows := follows hb hl hs ht
  have horder := order_fits hfits hb hs
  obtain ⟨hnet, rfl, rfl, rfl⟩ := site_fields hs
  obtain ⟨hnet', hnumber', rfl, hconfig'⟩ := site_fields ht
  -- The layer before the pooling layer is weighted, since it applies an activation.
  have hw : s.layer.weighted = true := by
    obtain ⟨l₀, hl₀, hk, ha⟩ := hcompletion.origin (Network.mem_layers hb)
    have happlied : s.net.emitted s.number s.layer.activation ≠ .none := by
      change s.applied ≠ .none
      rcases hderives with h | ⟨h, -⟩ <;> simp [h]
    exact Layer.weighted_of_emitted (hregular l₀ hl₀) hk ha happlied
  obtain ⟨g, hg⟩ := hcompletion.complete s.layer (Network.mem_layers hb)
  obtain ⟨g', hg'⟩ := hcompletion.complete t.layer (Network.mem_layers hl)
  -- It is declared without an input, so it takes what the layer before it gives.
  have hlink : g.output = g'.input := by
    obtain ⟨hpos, hb'⟩ := Network.mem_numbered_iff.mp hb
    have hl' := (Network.mem_numbered_iff.mp hl).2
    rw [Nat.add_sub_cancel, ← Nat.sub_add_cancel hpos] at hl'
    obtain ⟨l₀, g₀, hl₀, hcompletes⟩ := hcompletion.link hb' hl'
    have hnone := (hregular l₀ (List.mem_of_getElem? hl₀)).input (hcompletes.kind.symm.trans hkind)
    have hsource : s.layer.output = some g₀.input := by simpa [hnone] using hcompletes.source
    have hinput : g₀.input = g'.input := Option.some.inj (hcompletes.complete.input.symm.trans hg'.input)
    rw [← hinput]
    exact Option.some.inj (hg.output.symm.trans hsource)
  rw [← hnet] at hb hadmits ⊢
  have hmem' : (t.layer, t.number) ∈ t.net.numbered := by rw [hnet', hnumber', ← hnet]; exact hnet ▸ hl
  have hemitted {own : List Tree} (hown : s.code = .ok own) : s.Emitted (0 < ·) g :=
    emitted_of_code hb hg (hadmits _ _ hb) horder hown
  obtain ⟨k, hk⟩ := isPooling_of_complete (fun _ => id) hmem' hg' hkind
  have hseed : poolingSeed t.net t.number t.layer.location t.config = .ok s.derivedSeed := by
    rw [hfollows.net, hfollows.number, hfollows.config]
    exact hderives.poolingSeed_eq hb _
  refine ⟨s.derivedSeed, g', k, hderives.poolingSeed_eq hb _, hk, fun own hown μ σ hf σ' hrun js v hv => ?_,
    fun code hcode μ σ hin hsized hle => hk.holdsMaxima hseed hcode μ hin hsized hle _,
    fun hwhole hconv own code hown hcode μ σ σ₁ hf hsized hsized' hrun => ?_,
    fun hwhole hnot own code hown hcode μ σ σ₁ hsized hrun => ?_⟩
  · exact (hemitted hown).le_output (fun _ => id) hw hown (hderives.seeded hw hf) hrun hv
  · exact hfollows.holdsMaxima (fun _ => id) hwhole (hemitted hown) hconv hderives hk hlink hown hcode μ hf
      (hlink ▸ hsized) hsized' hrun _
  · have hdense : s.layer.kind = .dense := by
      unfold Layer.weighted at hw
      cases hk : s.layer.kind <;> simp_all [Kind.weighted]
    exact hfollows.stuck_on_dense (fun _ => id) hwhole (hemitted hown) hdense hk hseed hown hcode μ (hlink ▸ hsized)
      hrun _

/-! A quantized relu of one filter is pooled over its whole output. -/

section Rectified

private def callPlace : Location := { line := 1, column := 1 }

def rectifiedStatements : List Statement :=
  [ { location := callPlace, call :=
      { path := ["Conv2D"], args := [.integer 1 callPlace, .integer 1 callPlace], location := callPlace, kwargs :=
        [⟨"activation", .text "relu" callPlace, callPlace⟩, ⟨"input_shape",
          .tuple [.integer 2 callPlace, .integer 2 callPlace, .integer 1 callPlace] callPlace, callPlace⟩] } },
    { location := callPlace, call :=
      { path := ["MaxPooling2D"], args := [.integer 2 callPlace], kwargs := [], location := callPlace } } ]

def rectifiedConv : Layer where
  form := .conv (some 1) ⟨some 1, some 1⟩ .valid
  input := some ⟨2, 2, 1⟩
  output := some ⟨2, 2, 1⟩
  stride := some 1
  activation := .relu
  location := some callPlace

def rectifiedPool : Layer where
  form := .pooling .max (some 1) ⟨some 2, some 2⟩
  input := some ⟨2, 2, 1⟩
  output := some ⟨1, 1, 1⟩
  stride := some 2
  location := some callPlace

def rectifiedNet : Network := ⟨[rectifiedConv, rectifiedPool]⟩

def rectifiedConfig : Config := { dataMode := .fixedSingle, dataDetail := "eight-bit-int" }

def rectifiedOrders : List LoopOrder := [.canonical .conv, .canonical .pooling]

def rectifiedSite (l : Layer) (n : Nat) : Site where
  net := rectifiedNet
  number := n
  layer := l
  config := rectifiedConfig
  order := .canonical l.kind

theorem rectified_declared : ∃ declared, (Network.ofStatements rectifiedStatements).outcome = .ok declared ∧
    declared.infer.2.outcome = .ok true ∧ declared.infer.1 = rectifiedNet :=
  ⟨_, rfl, rfl, rfl⟩

theorem rectified_valid : (rectifiedNet.validate rectifiedConfig (some rectifiedOrders)).Passes true := ⟨rfl, rfl⟩

/-- Weights are two and scales are one. -/
def rectifiedMemory (x : List Int → ℚ) (zero : ℚ) : Memory where
  extents
    | .inputs => some [2, 2, 1]
    | .weights 1 => some [1, 1, 1, 1]
    | .biases 1 | .weightScales 1 | .inputZeroPoints | .outputZeroPoints | .inputScales | .outputScales => some [1]
    | .outputs => some [1, 1, 1]
    | _ => none
  cells
    | .inputs, js => some (x js)
    | .weights 1, _ => some 2
    | .biases 1, _ | .inputZeroPoints, _ => some 0
    | .weightScales 1, _ | .inputScales, _ | .outputScales, _ => some 1
    | .outputZeroPoints, _ => some zero
    | _, _ => none

theorem rectifiedMemory_scales (x : List Int → ℚ) (zero : ℚ) :
    (rectifiedSite rectifiedConv 1).PositiveScales (rectifiedMemory x zero) := by
  intro b hb js v hv
  obtain rfl | rfl | rfl : b = .inputScales ∨ b = .weightScales 1 ∨ b = .outputScales := by
    simpa [rectifiedSite] using hb
  all_goals
    cases hv
    exact one_pos

def rectifiedInput : List Int → ℚ
  | [0, 1, 0] => 5
  | [1, 0, 0] => 7
  | _ => -1

def exactProducts : Multipliers := fun _ => (· * ·)

def chainCells (s t : Site) (σ : Memory) (ks : List (List Int)) (js : List Int) :
    Option (List (Option ℚ) × Option ℚ) :=
  match s.code, t.code with
  | .ok own, .ok code => do
    let σ₁ ← runAll exactProducts (actionsAll own Scope.empty) σ
    let σ₂ ← runAll exactProducts (actionsAll code Scope.empty) σ₁
    pure (ks.map (σ₁.cells s.output), σ₂.cells t.output js)
  | _, _ => none

theorem exists_of_chainCells {s t : Site} {σ : Memory} {ks : List (List Int)} {js : List Int} {vs : List (Option ℚ)}
    {v : Option ℚ} (h : chainCells s t σ ks js = some (vs, v)) :
    ∃ own code σ₁ σ₂, s.code = .ok own ∧ t.code = .ok code ∧
      runAll exactProducts (actionsAll own Scope.empty) σ = some σ₁ ∧
      runAll exactProducts (actionsAll code Scope.empty) σ₁ = some σ₂ ∧
      ks.map (σ₁.cells s.output) = vs ∧ σ₂.cells t.output js = v := by
  unfold chainCells at h
  split at h
  · rename_i own code hown hcode
    obtain ⟨σ₁, h₁, h⟩ := Option.bind_eq_some_iff.mp h
    obtain ⟨σ₂, h₂, h⟩ := Option.bind_eq_some_iff.mp h
    cases h
    exact ⟨own, code, σ₁, σ₂, hown, hcode, h₁, h₂, rfl, rfl⟩
  · cases h

open Forward Site in
/-- Above a zero point of three, the greatest of the results 3, 13, 17 and 3 is kept. -/
theorem pooling_seed_below_stored_values_rectified : ∃ own code σ₁ σ₂ g k,
    (rectifiedSite rectifiedConv 1).code = .ok own ∧ (rectifiedSite rectifiedPool 2).code = .ok code ∧
      runAll exactProducts (actionsAll own Scope.empty) (rectifiedMemory rectifiedInput 3) = some σ₁ ∧
      runAll exactProducts (actionsAll code Scope.empty) σ₁ = some σ₂ ∧
      (∀ js v, σ₁.cells (.between 1) js = some v → 0 ≤ v) ∧
      (rectifiedSite rectifiedPool 2).IsPooling g k ∧ (rectifiedSite rectifiedPool 2).HoldsMaxima g k σ₁ σ₂ ∧
      σ₂.cells .outputs [0, 0, 0] = some 17 := by
  obtain ⟨declared, hdecl, hinfer, hnet⟩ := rectified_declared
  have horders : (LoopOrder.normalizeAll declared.infer.1 []).outcome = .ok rectifiedOrders := by rw [hnet]; rfl
  have hvalid : (declared.infer.1.validate rectifiedConfig (some rectifiedOrders)).Passes true := by
    rw [hnet]
    exact rectified_valid
  have hb : (rectifiedConv, 1) ∈ declared.infer.1.numbered := by rw [hnet]; exact List.mem_cons_self
  have hl : (rectifiedPool, 2) ∈ declared.infer.1.numbered := by
    rw [hnet]
    exact List.mem_cons_of_mem _ List.mem_cons_self
  have hs : site declared.infer.1 rectifiedConfig rectifiedOrders "" rectifiedConv 1 =
      .ok (rectifiedSite rectifiedConv 1) := by rw [hnet]; rfl
  have ht : site declared.infer.1 rectifiedConfig rectifiedOrders "" rectifiedPool 2 =
      .ok (rectifiedSite rectifiedPool 2) := by rw [hnet]; rfl
  obtain ⟨seed, g, k, hseed, hpool, hfloor, -, hchain, -⟩ :=
    pooling_seed_below_stored_values hdecl hinfer horders hvalid hb hl hs ht rfl (.inl rfl)
  obtain rfl : seed = 0 := by
    rw [hnet] at hseed
    exact (Except.ok.inj hseed).symm
  have hrun : chainCells (rectifiedSite rectifiedConv 1) (rectifiedSite rectifiedPool 2)
      (rectifiedMemory rectifiedInput 3) [] [0, 0, 0] = some ([], some 17) := by decide +kernel
  obtain ⟨own, code, σ₁, σ₂, hown, hcode, h₁, h₂, -, hcell⟩ := exists_of_chainCells hrun
  have hfactored : (rectifiedSite rectifiedConv 1).Factored (rectifiedMemory rectifiedInput 3) := by
    refine ⟨rectifiedMemory_scales _ _, fun _ z hz => ?_⟩
    cases hz
    norm_num
  have hsized : (rectifiedSite rectifiedConv 1).Sized g.input.dims (rectifiedMemory rectifiedInput 3) :=
    fun h => absurd h (by decide)
  have hsized' : (rectifiedSite rectifiedPool 2).Sized g.output.dims (rectifiedMemory rectifiedInput 3) := by
    intro
    rw [← Option.some.inj hpool.output]
    rfl
  obtain ⟨σ₂', h₂', hmaxima⟩ := hchain rfl rfl own code hown hcode exactProducts _ σ₁ (fun _ => hfactored) hsized
    hsized' h₁
  cases h₂.symm.trans h₂'
  refine ⟨own, code, σ₁, σ₂, g, k, hown, hcode, h₁, h₂, fun js v hv => ?_, hpool, hmaxima, hcell⟩
  have hle := hfloor own hown exactProducts _ (fun _ => hfactored) σ₁ (.of_runAll h₁) js v hv
  exact_mod_cast hle.resolve_right nofun

def rectifiedGeometry : Geometry where
  stride := 2
  input := ⟨2, 2, 1⟩
  output := ⟨1, 1, 1⟩
  stride_pos := Int.add_pos Int.one_pos Int.one_pos
  input_pos := by decide
  output_pos := by decide

open Forward Site in
/-- With a zero point of minus five, every result is stored as minus five, which is below the seed, and pooling gives
the seed in place of the maximum. -/
theorem negative_zero_point_below_seed : ∃ declared own code σ₁ σ₂,
    (Network.ofStatements rectifiedStatements).outcome = .ok declared ∧
      declared.infer.2.outcome = .ok true ∧ declared.infer.1 = rectifiedNet ∧
      (rectifiedNet.validate rectifiedConfig (some rectifiedOrders)).Passes true ∧
      site rectifiedNet rectifiedConfig rectifiedOrders "" rectifiedConv 1 = .ok (rectifiedSite rectifiedConv 1) ∧
      site rectifiedNet rectifiedConfig rectifiedOrders "" rectifiedPool 2 = .ok (rectifiedSite rectifiedPool 2) ∧
      (rectifiedSite rectifiedConv 1).DerivesSeed ∧
      poolingSeed rectifiedNet 2 rectifiedPool.location rectifiedConfig = .ok 0 ∧
      (rectifiedSite rectifiedConv 1).PositiveScales (rectifiedMemory (fun _ => -1) (-5)) ∧
      (rectifiedSite rectifiedConv 1).code = .ok own ∧ (rectifiedSite rectifiedPool 2).code = .ok code ∧
      runAll exactProducts (actionsAll own Scope.empty) (rectifiedMemory (fun _ => -1) (-5)) = some σ₁ ∧
      σ₁.cells (.between 1) [0, 0, 0] = some (-5) ∧
      runAll exactProducts (actionsAll code Scope.empty) σ₁ = some σ₂ ∧
      (rectifiedSite rectifiedPool 2).IsPooling rectifiedGeometry 2 ∧
      ¬ (rectifiedSite rectifiedPool 2).HoldsMaxima rectifiedGeometry 2 σ₁ σ₂ := by
  obtain ⟨declared, hdecl, hinfer, hnet⟩ := rectified_declared
  have hrun : chainCells (rectifiedSite rectifiedConv 1) (rectifiedSite rectifiedPool 2)
      (rectifiedMemory (fun _ => -1) (-5)) [[0, 0, 0], [0, 1, 0], [1, 0, 0], [1, 1, 0]] [0, 0, 0] =
      some ([some (-5), some (-5), some (-5), some (-5)], some 0) := by decide +kernel
  obtain ⟨own, code, σ₁, σ₂, hown, hcode, h₁, h₂, hcells, hcell⟩ := exists_of_chainCells hrun
  simp only [List.map_cons, List.map_nil, List.cons.injEq, and_true] at hcells
  obtain ⟨h00, h01, h10, h11⟩ := hcells
  have hpool : (rectifiedSite rectifiedPool 2).IsPooling rectifiedGeometry 2 :=
    ⟨by decide, ⟨.max, rfl⟩, rfl, rfl, rfl, rfl, by decide, rfl, rfl⟩
  refine ⟨declared, own, code, σ₁, σ₂, hdecl, hinfer, hnet, rectified_valid, rfl, rfl, .inl rfl, rfl,
    rectifiedMemory_scales _ _, hown, hcode, h₁, h00, h₂, hpool, fun hmaxima => ?_⟩
  obtain ⟨m, hm, ⟨i, hi0, hi, j, hj0, hj, hv⟩, -⟩ :=
    hmaxima 0 0 0 le_rfl one_pos le_rfl one_pos le_rfl one_pos
  cases hcell.symm.trans hm
  obtain rfl | rfl : i = 0 ∨ i = 1 := by omega
  all_goals obtain rfl | rfl : j = 0 ∨ j = 1 := by omega
  · cases h00.symm.trans hv
  · cases h01.symm.trans hv
  · cases h10.symm.trans hv
  · cases h11.symm.trans hv

end Rectified

end LayerLoops
