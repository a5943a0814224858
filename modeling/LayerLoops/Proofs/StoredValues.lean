import LayerLoops.Proofs.Accumulators
import LayerLoops.Proofs.Reached

/-! # Values that a weighted layer stores

The loops of a convolution or a dense layer add up sums, store activated results and, under quantization, scale
them into the output. Whatever numbers they run on and however far they get, a value that they store has a floor
that is known beforehand: zero after a relu, and the least eight-bit number where results are scaled. A relu comes
before the scaling, so its floor survives only a zero point that is not negative. -/

namespace LayerLoops

namespace Code

/-! ## Activated and scaled numbers -/

theorem activate_relu_nonneg (x : ℚ) : 0 ≤ activate .relu x := by
  simp only [activate]
  split
  · exact le_of_lt ‹_›
  · exact le_rfl

theorem int8Min_le_narrow (x : ℚ) : (int8Min : ℚ) ≤ narrow x := by
  have hy : (-128 : ℚ) ≤ min (max x (-128)) 127 := le_min (le_max_right _ _) (by norm_num)
  have hint : ((int8Min : Int) : ℚ) = -128 := by norm_num [int8Min]
  unfold narrow
  dsimp only
  split
  · rename_i h0
    have hfloor : (0 : Int) ≤ ⌊min (max x (-128)) 127⌋ := Int.floor_nonneg.mpr h0
    exact Int.cast_le.mpr (le_trans (by decide) hfloor)
  · rw [hint]
    exact hy.trans (Int.le_ceil _)

theorem narrow_nonneg {x : ℚ} (h : -1 < x) : 0 ≤ narrow x := by
  have hy : (-1 : ℚ) < min (max x (-128)) 127 := lt_min (lt_max_of_lt_left h) (by norm_num)
  unfold narrow
  dsimp only
  split
  · rename_i h0
    exact Int.cast_nonneg (Int.floor_nonneg.mpr h0)
  · refine Int.cast_nonneg ?_
    have hceil : (-1 : Int) < ⌈min (max x (-128)) 127⌉ := Int.lt_ceil.mpr (by exact_mod_cast hy)
    omega

end Code

open Code

namespace Site

variable {t : Term} {v : ℚ} {s : Site} {μ : Multipliers} {σ₀ σ σ' : Memory} {ρ : Scope} {st : Stmt}

/-! ## Statements of a weighted layer -/

/-- The activation that the code of the layer applies. -/
def applied (s : Site) : Activation := s.net.emitted s.number s.layer.activation

/-- The statements in the loops of a convolution or a dense layer. -/
inductive Stores (s : Site) : Stmt → Prop
  | define (i : Index) (e : Expr) : Stores s (.define i e)
  | store (n : Nat) (what : String) (e : Element) (x y z : Expr) : Stores s (.store n what e x y z)
  | declare (t : TypeName) (dims : List (Option Int)) : Stores s (.declare ⟨t, .sum s.number, dims⟩ true)
  | set (es : List Expr) (t : Term) : Stores s (.assign ⟨.sum s.number, es⟩ t)
  | add (es : List Expr) (t : Term) : Stores s (.accumulate ⟨.sum s.number, es⟩ t)
  | result (es : List Expr) (t : Term) : Stores s (.assign ⟨s.base, es⟩ (s.activate t))
  | scale (hr : s.rescales = true) (es : List Expr) (i : Index) : Stores s
      (.requantize ⟨s.output, es⟩ ⟨s.base, es⟩ s.narrowType (s.net.ordinal s.number)
        ⟨.weightScales s.number, [.index i]⟩)

/-- The numbers that reach the output: activated ones, or wide ones of this memory on its scales. -/
inductive Stored (s : Site) (σ : Memory) : ℚ → Prop
  | direct (hr : s.rescales = false) (x : ℚ) : Stored s σ (Code.activate s.applied x)
  | scaled {js ks : List Int} {w i k o z : ℚ} (hr : s.rescales = true) (wide : σ.cells s.base js = some w)
      (input : σ.cells .inputScales [(s.net.ordinal s.number : Int)] = some i)
      (weight : σ.cells (.weightScales s.number) ks = some k)
      (output : σ.cells .outputScales [(s.net.ordinal s.number : Int)] = some o)
      (zero : σ.cells .outputZeroPoints [(s.net.ordinal s.number : Int)] = some z) :
      Stored s σ (narrow (w * i * k / o + z))

/-- What a statement in the loops can do to a memory. -/
inductive Effect (s : Site) (σ : Memory) : Memory → Prop
  | none : Effect s σ σ
  | declare (dims : List Int) : Effect s σ (σ.declare (.sum s.number) dims)
  | sum (js : List Int) (v : ℚ) : Effect s σ (σ.put (.sum s.number) js v)
  | wide (hr : s.rescales = true) (js : List Int) (x : ℚ) : Effect s σ (σ.put s.base js (Code.activate s.applied x))
  | output {v : ℚ} (js : List Int) (hv : s.Stored σ v) : Effect s σ (σ.put s.output js v)

theorem run_assign_eq_some {e : Element} (h : (Stmt.assign e t).run μ σ ρ = some σ') :
    ∃ js v, t.value? μ σ ρ = some v ∧ subscripts? ρ e.subscripts = some js ∧ σ' = σ.put e.buffer js v := by
  obtain ⟨v, hv, h⟩ := Option.bind_eq_some_iff.mp h
  obtain ⟨js, hjs, rfl⟩ := Memory.eq_put_of_write h
  exact ⟨js, v, hv, hjs, rfl⟩

theorem exists_activate (h : (s.activate t).value? μ σ ρ = some v) : ∃ x, v = Code.activate s.applied x := by
  obtain ⟨x, -, rfl⟩ := Option.map_eq_some_iff.mp h
  exact ⟨x, rfl⟩

theorem cells_of_read_factor {b : Buffer} {q : Nat} (h : σ.read ρ (factor b q) = some v) :
    σ.cells b [(q : Int)] = some v := by
  obtain ⟨js, hjs, hv⟩ := Memory.cells_of_read h
  cases hjs
  exact hv

theorem run_scale (hr : s.rescales = true) {es : List Expr} {i : Index}
    (h : (Stmt.requantize ⟨s.output, es⟩ ⟨s.base, es⟩ s.narrowType (s.net.ordinal s.number)
      ⟨.weightScales s.number, [.index i]⟩).run μ σ ρ = some σ') :
    ∃ js v, subscripts? ρ es = some js ∧ s.Stored σ v ∧ σ' = σ.put s.output js v := by
  obtain ⟨w, hw, h⟩ := Option.bind_eq_some_iff.mp h
  obtain ⟨i, hi, h⟩ := Option.bind_eq_some_iff.mp h
  obtain ⟨k, hk, h⟩ := Option.bind_eq_some_iff.mp h
  obtain ⟨o, ho, h⟩ := Option.bind_eq_some_iff.mp h
  obtain ⟨z, hz, h⟩ := Option.bind_eq_some_iff.mp h
  obtain ⟨_, -, hw⟩ := Memory.cells_of_read hw
  obtain ⟨_, -, hk⟩ := Memory.cells_of_read hk
  obtain ⟨js, hjs, rfl⟩ := Memory.eq_put_of_write h
  exact ⟨js, _, hjs, .scaled hr hw (cells_of_read_factor hi) hk (cells_of_read_factor ho) (cells_of_read_factor hz),
    rfl⟩

theorem run_result (hr : s.rescales = false) {es : List Expr}
    (h : (Stmt.assign ⟨s.base, es⟩ (s.activate t)).run μ σ ρ = some σ') :
    ∃ js v, subscripts? ρ es = some js ∧ s.Stored σ v ∧ σ' = σ.put s.output js v := by
  obtain ⟨js, v, hv, hjs, rfl⟩ := run_assign_eq_some h
  obtain ⟨x, rfl⟩ := exists_activate hv
  refine ⟨js, _, hjs, .direct hr x, ?_⟩
  rw [← base_of_not_rescales hr]

theorem Stores.effect (h : s.Stores st) (hrun : st.run μ σ ρ = some σ') : s.Effect σ σ' := by
  cases h with
  | define i e =>
    obtain ⟨_, -, rfl⟩ := Option.map_eq_some_iff.mp hrun
    exact .none
  | store n what e x y z =>
    obtain ⟨_, -, rfl⟩ := Option.map_eq_some_iff.mp hrun
    exact .none
  | declare t dims =>
    obtain ⟨ds, -, rfl⟩ := Option.map_eq_some_iff.mp hrun
    exact .declare ds
  | set es t =>
    obtain ⟨js, v, -, -, rfl⟩ := run_assign_eq_some hrun
    exact .sum js v
  | add es t =>
    obtain ⟨_, -, hrun⟩ := Option.bind_eq_some_iff.mp hrun
    obtain ⟨_, -, hrun⟩ := Option.bind_eq_some_iff.mp hrun
    obtain ⟨js, -, rfl⟩ := Memory.eq_put_of_write hrun
    exact .sum js _
  | result es t =>
    cases hr : s.rescales with
    | true =>
      obtain ⟨js, v, hv, -, rfl⟩ := run_assign_eq_some hrun
      obtain ⟨x, rfl⟩ := exists_activate hv
      exact .wide hr js x
    | false =>
      obtain ⟨js, v, -, hv, rfl⟩ := run_result hr hrun
      exact .output js hv
  | scale hr es i =>
    obtain ⟨js, v, -, hv, rfl⟩ := run_scale hr hrun
    exact .output js hv

theorem Effect.frame (h : s.Effect σ σ') {b : Buffer} (hb : ¬ s.Writes b) :
    σ'.extents b = σ.extents b ∧ σ'.cells b = σ.cells b := by
  have hsum : b ≠ .sum s.number := fun h => hb (.inl h)
  have hbase : b ≠ s.base := fun h => hb (.inr (.inl h))
  have houtput : b ≠ s.output := fun h => hb (.inr (.inr h))
  cases h with
  | none => exact ⟨rfl, rfl⟩
  | declare dims => exact ⟨Memory.extents_declare_of_ne σ hsum _, Memory.cells_declare_of_ne σ hsum _⟩
  | sum js v => exact ⟨rfl, Memory.cells_put_of_ne σ hsum _ _⟩
  | wide hr js x => exact ⟨rfl, Memory.cells_put_of_ne σ hbase _ _⟩
  | output js hv => exact ⟨rfl, Memory.cells_put_of_ne σ houtput _ _⟩

theorem Effect.extents_output (h : s.Effect σ σ') : σ'.extents s.output = σ.extents s.output := by
  cases h with
  | declare dims => exact Memory.extents_declare_of_ne σ s.sum_ne_output.symm _
  | none | sum _ _ | wide _ _ _ | output _ _ => rfl

theorem Effect.output_cases (h : s.Effect σ σ') (js : List Int) :
    σ'.cells s.output js = σ.cells s.output js ∨ ∃ v, s.Stored σ v ∧ σ'.cells s.output js = some v := by
  cases h with
  | none => exact .inl rfl
  | declare dims => exact .inl (by rw [Memory.cells_declare_of_ne σ s.sum_ne_output.symm])
  | sum is w => exact .inl (by rw [Memory.cells_put_of_ne σ s.sum_ne_output.symm])
  | wide hr is x => exact .inl (by rw [Memory.cells_put_of_ne σ (base_ne_output hr).symm])
  | @output v is hv =>
    rw [Memory.cells_put_self]
    split
    · exact .inr ⟨v, hv, rfl⟩
    · exact .inl rfl

theorem Effect.base_cases (h : s.Effect σ σ') (hr : s.rescales = true) (js : List Int) :
    σ'.cells s.base js = σ.cells s.base js ∨ ∃ x, σ'.cells s.base js = some (Code.activate s.applied x) := by
  cases h with
  | none => exact .inl rfl
  | declare dims => exact .inl (by rw [Memory.cells_declare_of_ne σ s.sum_ne_base.symm])
  | sum is w => exact .inl (by rw [Memory.cells_put_of_ne σ s.sum_ne_base.symm])
  | wide _ is x =>
    rw [Memory.cells_put_self]
    split
    · exact .inr ⟨x, rfl⟩
    · exact .inl rfl
  | output is hv => exact .inl (by rw [Memory.cells_put_of_ne σ (base_ne_output hr)])

/-! ## The floor of what is stored -/

/-- The scale factors that the layer uses are positive. -/
def PositiveScales (s : Site) (σ : Memory) : Prop :=
  ∀ b ∈ [Buffer.inputScales, .weightScales s.number, .outputScales], ∀ js v, σ.cells b js = some v → 0 < v

/-- The zero point of the output does not carry a result of zero below zero, fractions being dropped. -/
def KeepsSign (s : Site) (σ : Memory) : Prop :=
  ∀ z, σ.cells .outputZeroPoints [(s.net.ordinal s.number : Int)] = some z → -1 < z

/-- A number that the activation and the factors of the layer let nothing fall below. -/
inductive Seeded (s : Site) (σ : Memory) : Int → Prop
  | relu (ha : s.applied = .relu) (hscales : s.rescales = true → s.PositiveScales σ ∧ s.KeepsSign σ) : Seeded s σ 0
  | scaled (hr : s.rescales = true) : Seeded s σ int8Min

/-- While the loops of a layer run on `σ₀`, no value that they have stored lies below the seed, and no wide result
below zero if there is a relu. -/
structure Floor (s : Site) (seed : Int) (σ₀ σ : Memory) : Prop where
  frame : ∀ b, ¬ s.Writes b → σ.extents b = σ₀.extents b ∧ σ.cells b = σ₀.cells b
  wide : s.rescales = true → s.applied = .relu → ∀ js v, σ.cells s.base js = some v → 0 ≤ v
  output : ∀ js v, σ.cells s.output js = some v → (seed : ℚ) ≤ v ∨ σ₀.cells s.output js = some v

theorem Floor.le_stored {seed : Int} (h : s.Floor seed σ₀ σ) (hseed : s.Seeded σ₀ seed) (hv : s.Stored σ v) :
    (seed : ℚ) ≤ v := by
  cases hseed with
  | scaled hr =>
    cases hv with
    | direct hr' x => simp [hr] at hr'
    | scaled => exact int8Min_le_narrow _
  | relu ha hscales =>
    rw [Int.cast_zero]
    cases hv with
    | direct hr x =>
      rw [ha]
      exact activate_relu_nonneg x
    | @scaled js ks w i k o z hr wide input weight output zero =>
      obtain ⟨hpos, hkeeps⟩ := hscales hr
      -- Factors are parameters, which the loops have left alone.
      have hkept {b : Buffer} (hb : IsParameter s.number b) := (h.frame b (not_writes_parameter hb)).2
      rw [hkept (.factor (by simp [factorBuffers]))] at input output zero
      rw [hkept .weightScales] at weight
      have hw : 0 ≤ w := h.wide hr ha js w wide
      have hi : 0 < i := hpos _ (by simp) _ _ input
      have hk : 0 < k := hpos _ (by simp) _ _ weight
      have ho : 0 < o := hpos _ (by simp) _ _ output
      have hscaled : 0 ≤ w * i * k / o := by positivity
      have hz : -1 < z := hkeeps z zero
      exact narrow_nonneg (by linarith)

theorem Floor.step {seed : Int} (hseed : s.Seeded σ₀ seed) (h : s.Floor seed σ₀ σ) (he : s.Effect σ σ') :
    s.Floor seed σ₀ σ' := by
  refine ⟨fun b hb => ?_, fun hr ha js v hv => ?_, fun js v hv => ?_⟩
  · obtain ⟨hextents, hcells⟩ := he.frame hb
    rw [hextents, hcells]
    exact h.frame b hb
  · obtain hsame | ⟨x, hx⟩ := he.base_cases hr js
    · exact h.wide hr ha js v (hsame ▸ hv)
    · cases hx.symm.trans hv
      rw [ha]
      exact activate_relu_nonneg x
  · obtain hsame | ⟨w, hw, hcell⟩ := he.output_cases js
    · exact h.output js v (hsame ▸ hv)
    · cases hcell.symm.trans hv
      exact .inl (h.le_stored hseed hw)

/-- A position of the output at which a value of at least the seed stands. -/
def Filled (s : Site) (seed : Int) (js : List Int) (σ : Memory) : Prop :=
  ∃ v, σ.cells s.output js = some v ∧ (seed : ℚ) ≤ v

theorem Filled.step {seed : Int} (hseed : s.Seeded σ₀ seed) (h : s.Floor seed σ₀ σ) (he : s.Effect σ σ') {js : List Int}
    (hf : s.Filled seed js σ) : s.Filled seed js σ' := by
  obtain hsame | ⟨w, hw, hcell⟩ := he.output_cases js
  · rw [Filled, hsame]
    exact hf
  · exact ⟨w, hcell, h.le_stored hseed hw⟩

/-! ## The loops of a weighted layer -/

section Loops

variable {g : Geometry} {body : List Tree}

theorem storeBias_stores (i : Index) (x z : Expr) : ∀ st ∈ s.storeBias i x z, s.Stores st := by
  unfold storeBias
  split
  · exact List.forall_mem_singleton.mpr (.store _ _ _ _ _ _)
  · exact List.forall_mem_nil _

theorem storeWeight_stores (weight : Element) : ∀ st ∈ s.storeWeight weight, s.Stores st := by
  unfold storeWeight
  split
  · exact List.forall_mem_nil _
  · rw [List.forall_mem_cons, List.forall_mem_singleton]
    exact ⟨.store _ _ _ _ _ _, .store _ _ _ _ _ _⟩

theorem storeOutput_stores (es : List Expr) (x y z : Expr) : ∀ st ∈ s.storeOutput es x y z, s.Stores st := by
  unfold storeOutput
  split
  · exact List.forall_mem_nil _
  · rw [List.forall_mem_append, List.forall_mem_singleton]
    refine ⟨?_, .store _ _ _ _ _ _⟩
    split
    · exact List.forall_mem_singleton.mpr (.store _ _ _ _ _ _)
    · exact List.forall_mem_nil _

theorem requantize_stores (hw : s.layer.weighted = true) (es : List Expr) (i : Index) :
    ∀ st ∈ s.requantize es i, s.Stores st := by
  unfold requantize
  split
  · rename_i hq
    exact List.forall_mem_singleton.mpr (.scale (by simp [rescales, hq, hw]) es i)
  · exact List.forall_mem_nil _

theorem innermost_stores (h : Head) (es : List Expr) (t : Term) {stored : List Stmt}
    (hstored : ∀ st ∈ stored, s.Stores st) :
    ∀ st ∈ (innermost h (.accumulate ⟨.sum s.number, es⟩ t) stored).stmts, s.Stores st := by
  unfold innermost
  split
  · simpa [Tree.stmts, stmtsAll] using Stores.add es t
  · simpa [Tree.stmts, stmtsAll] using ⟨Stores.add es t, hstored⟩

theorem IsConv.multiplyAdd_stores {n : Int} (hs : s.IsConv g n) {shape : Shape} {o : Operands}
    (ho : s.convOperands shape = .ok o) (h : Head) (es : List Expr) :
    ∀ st ∈ (s.multiplyAdd h ⟨.sum s.number, es⟩ o).stmts, s.Stores st := by
  rcases hs.window with ⟨hpad, -⟩ | ⟨hpad, -⟩
  · rw [operands_valid hpad] at ho
    cases ho
    exact innermost_stores h es _ (storeWeight_stores _)
  · rw [hs.operands_same hpad] at ho
    cases ho
    have hoffset : ∀ st ∈ s.paddedDefinitions n, s.Stores st := by
      rw [paddedDefinitions, List.forall_mem_cons, List.forall_mem_singleton]
      exact ⟨.define _ _, .define _ _⟩
    have houtside : ∀ st ∈ (s.outsideAdd ⟨.sum s.number, es⟩).toList, s.Stores st := by
      unfold outsideAdd
      split
      · exact List.forall_mem_singleton.mpr (.add _ _)
      · exact List.forall_mem_nil _
    have hafter : ∀ st ∈ stmtsAll (if (s.storeWeight s.convWeight).isEmpty then []
        else [Tree.simulated (Tree.ofStmts (s.storeWeight s.convWeight))]), s.Stores st := by
      split
      · exact List.forall_mem_nil _
      · simpa [stmtsAll, Tree.stmts] using storeWeight_stores (s := s) s.convWeight
    simp only [multiplyAdd, Tree.stmts, stmtsAll_append, stmtsAll_ofStmts, stmtsAll, List.append_nil,
      List.forall_mem_append, List.forall_mem_cons]
    exact ⟨⟨hoffset, .add _ _, houtside⟩, hafter⟩

theorem base_eq_output {k : Accumulator} (hplain : s.scalarOnly = [] ∨ k = .scalar) (hk : k ≠ .scalar) :
    s.rescales = false ∧ s.output = s.base := by
  have hq : s.config.quantized = false := by
    have honly := hplain.resolve_right hk
    cases h : s.config.quantized with
    | false => rfl
    | true => simp [scalarOnly, h] at honly
  have hr : s.rescales = false := by simp [rescales, hq]
  exact ⟨hr, (base_of_not_rescales hr).symm⟩

theorem IsConv.convNest_stores {n : Int} (hs : s.IsConv g n) {o : Operands}
    (ho : s.convOperands ⟨g.input, g.output⟩ = .ok o) {k : Accumulator} (hplain : s.scalarOnly = [] ∨ k = .scalar)
    (a : Axis) : ∀ st ∈ stmtsAll (s.convNest ⟨g.input, g.output⟩ o (loopsOf a k) k), s.Stores st := by
  have hsum (h : Head) (es : List Expr) := hs.multiplyAdd_stores ho h es
  cases k with
  | scalar =>
    simp only [convNest, convScalar, reduction, stmtsAll_nest, stmtsAll, Tree.stmts, stmtsAll_append, stmtsAll_ofStmts,
      List.append_nil, List.forall_mem_append, List.forall_mem_cons]
    exact ⟨⟨⟨storeBias_stores _ _ _, .declare _ _, .set _ _, List.forall_mem_nil _⟩, hsum _ _⟩,
      ⟨⟨.result _ _, List.forall_mem_nil _⟩, requantize_stores hs.weighted _ _⟩, storeOutput_stores _ _ _ _⟩
  | vector =>
    simp only [convNest, convVector, (base_eq_output hplain (by decide)).2, reduction, stmtsAll_nest, stmtsAll,
      Tree.stmts, stmtsAll_append, List.append_nil, List.nil_append, List.forall_mem_append, List.forall_mem_singleton]
    exact ⟨⟨⟨.declare _ _, .set _ _⟩, hsum _ _⟩, .result _ _⟩
  | tile =>
    simp only [convNest, convTile, (base_eq_output hplain (by decide)).2, reduction, stmtsAll_nest, stmtsAll,
      Tree.stmts, stmtsAll_append, List.append_nil, List.forall_mem_append, List.forall_mem_singleton]
    exact ⟨⟨⟨.declare _ _, .set _ _⟩, hsum _ _⟩, .result _ _⟩

theorem denseNest_stores (hw : s.layer.weighted = true) (shape : Shape) :
    ∀ st ∈ stmtsAll (s.denseNest shape), s.Stores st := by
  simp only [denseNest, stmtsAll, Tree.stmts, stmtsAll_append, stmtsAll_ofStmts, List.append_nil,
    List.forall_mem_append, List.forall_mem_cons]
  exact ⟨⟨⟨⟨.declare _ _, .set _ _, List.forall_mem_nil _⟩, storeBias_stores _ _ _⟩,
    innermost_stores _ _ _ (storeWeight_stores _)⟩,
    ⟨⟨.result _ _, List.forall_mem_nil _⟩, requantize_stores hw _ _⟩, storeOutput_stores _ _ _ _⟩

theorem Body.stores (hb : s.Body g body) (hw : s.layer.weighted = true) : ∀ st ∈ stmtsAll body, s.Stores st := by
  cases hb with
  | conv hs _ hplain _ ho => exact hs.convNest_stores ho hplain _
  | pooling form => simp [Layer.weighted, Layer.kind, form, Form.kind, Kind.weighted] at hw
  | flatten form => simp [Layer.weighted, Layer.kind, form, Form.kind, Kind.weighted] at hw
  | dense form => exact denseNest_stores hw _

theorem Body.effect (hb : s.Body g body) (hw : s.layer.weighted = true) {a : Action} (ha : a ∈ actionsAll body ρ)
    (h : a.run μ σ = some σ') : s.Effect σ σ' := by
  obtain ⟨ρ', st, hst, h⟩ := exists_stmt_of_run ha h
  exact (hb.stores hw st hst).effect h

end Loops

/-! ## Declarations -/

section Opened

variable {js : List Int} {v : ℚ} {dims : List Int}

def opened (s : Site) (dims : List Int) (σ : Memory) : Memory :=
  let wide := if s.rescales then σ.declare s.base dims else σ
  if s.writesOutput = false ∧ s.isLocal = true then wide.declare s.output dims else wide

variable (μ) in
theorem runAll_prelude (shape : Shape) (dims : List Int) (ρ : Scope) (σ : Memory) :
    runAll μ (actionsAll (s.header shape ++ s.declarations dims) ρ) σ = some (s.opened dims σ) := by
  have hheader : runAll μ (actionsAll (s.header shape) ρ) σ = some σ := rfl
  have hcomment (d : Declaration) (τ : Memory) (ρ' : Scope) : (Stmt.declare d false).run μ τ ρ' = some τ := rfl
  rw [actionsAll_append, runAll_append, hheader, Option.bind_some, declarations, actionsAll_ofStmts]
  · cases hr : s.rescales <;> cases hw : s.writesOutput <;> cases hl : s.isLocal <;>
      simp [opened, hr, hw, hl, runAll, Action.run, Stmt.run_declare, hcomment]
  · intro st hst
    grind

theorem opened_frame {b : Buffer} (hb : ¬ s.Writes b) :
    (s.opened dims σ).extents b = σ.extents b ∧ (s.opened dims σ).cells b = σ.cells b := by
  have hbase : b ≠ s.base := fun h => hb (.inr (.inl h))
  have houtput : b ≠ s.output := fun h => hb (.inr (.inr h))
  unfold opened
  cases s.rescales <;> dsimp only <;> split <;>
    simp [Memory.extents_declare_of_ne, Memory.cells_declare_of_ne, hbase, houtput]

theorem cells_declare_subset {b b' : Buffer} (h : (σ.declare b dims).cells b' js = some v) :
    b' ≠ b ∧ σ.cells b' js = some v := by
  by_cases hb : b' = b
  · simp [Memory.declare, hb] at h
  · rw [Memory.cells_declare_of_ne σ hb] at h
    exact ⟨hb, h⟩

theorem opened_output (h : (s.opened dims σ).cells s.output js = some v) : σ.cells s.output js = some v := by
  unfold opened at h
  dsimp only at h
  split at h
  · exact absurd rfl (cells_declare_subset h).1
  · split at h
    · exact (cells_declare_subset h).2
    · exact h

theorem opened_base (hr : s.rescales = true) (js : List Int) : (s.opened dims σ).cells s.base js = none := by
  unfold opened
  rw [hr]
  dsimp only
  split
  · rw [Memory.cells_declare_of_ne _ (base_ne_output hr)]
    simp [Memory.declare]
  · simp [Memory.declare]

/-- An output that is a parameter has its extents from outside. -/
def Sized (s : Site) (dims : List Int) (σ : Memory) : Prop :=
  s.writesOutput = true ∨ s.isLocal = false → σ.extents s.output = some dims

theorem opened_extents (h : s.Sized dims σ) : (s.opened dims σ).extents s.output = some dims := by
  unfold opened
  dsimp only
  split
  · exact Memory.extents_declare_self _ _ _
  · rename_i hkept
    have hσ := h (by grind)
    split
    · rw [Memory.extents_declare_of_ne σ (base_ne_output ‹_›).symm]
      exact hσ
    · exact hσ

theorem floor_opened (seed : Int) (dims : List Int) (σ : Memory) : s.Floor seed σ (s.opened dims σ) where
  frame b hb := opened_frame hb
  wide hr ha js v hv := by simp [opened_base hr] at hv
  output js v hv := .inr (opened_output hv)

theorem prelude_stmts {shape : Shape} {st : Stmt} (h : st ∈ stmtsAll (s.header shape ++ s.declarations dims)) :
    (∃ text, st = .comment text) ∨ ∃ d active, st = .declare d active := by
  rw [stmtsAll_append, declarations, stmtsAll_ofStmts] at h
  simp only [header, stmtsAll, Tree.stmts] at h
  grind

theorem reaches_prelude {shape : Shape} (h : Reaches μ (actionsAll (s.header shape ++ s.declarations dims) ρ) σ σ')
    (hv : σ'.cells s.output js = some v) : σ.cells s.output js = some v := by
  refine h.invariant (I := fun τ => τ.cells s.output js = some v → σ.cells s.output js = some v) ?_ id hv
  intro a ha τ τ' hτ hrun hv'
  obtain ⟨ρ', st, hst, hrun⟩ := exists_stmt_of_run ha hrun
  rcases prelude_stmts hst with ⟨text, rfl⟩ | ⟨d, active, rfl⟩
  · cases hrun
    exact hτ hv'
  · rw [Stmt.run] at hrun
    split at hrun
    · obtain ⟨ds, -, rfl⟩ := Option.map_eq_some_iff.mp hrun
      exact hτ (cells_declare_subset hv').2
    · cases hrun
      exact hτ hv'

end Opened

/-! ## Positions that are written -/

section Positions

variable {g : Geometry} {n : Int} {x y z : Int}

/-- Carrying out the action stores a value at this position of the output. -/
def Fills (s : Site) (js : List Int) (a : Action) : Prop :=
  ∀ μ σ σ', a.run μ σ = some σ' → ∃ v, s.Stored σ v ∧ σ' = σ.put s.output js v

theorem fills_scale (hr : s.rescales = true) {es : List Expr} {js : List Int} (hes : subscripts? ρ es = some js)
    (i : Index) : s.Fills js (.perform ρ (.requantize ⟨s.output, es⟩ ⟨s.base, es⟩ s.narrowType
      (s.net.ordinal s.number) ⟨.weightScales s.number, [.index i]⟩)) := by
  intro μ σ σ' h
  obtain ⟨js', v, hjs, hv, rfl⟩ := run_scale (μ := μ) hr h
  cases hes.symm.trans hjs
  exact ⟨v, hv, rfl⟩

theorem fills_result (hr : s.rescales = false) {es : List Expr} {js : List Int} (hes : subscripts? ρ es = some js)
    (t : Term) : s.Fills js (.perform ρ (.assign ⟨s.base, es⟩ (s.activate t))) := by
  intro μ σ σ' h
  obtain ⟨js', v, hjs, hv, rfl⟩ := run_result hr h
  cases hes.symm.trans hjs
  exact ⟨v, hv, rfl⟩

theorem mem_actionsAll_append_right {ts us : List Tree} (hts : ∀ t ∈ ts, t.scope ρ = ρ) {a : Action}
    (ha : a ∈ actionsAll us ρ) : a ∈ actionsAll (ts ++ us) ρ := by
  have hscope : scopeAll ρ ts = ρ := by
    induction ts with
    | nil => rfl
    | cons t ts ih =>
      rw [scopeAll, List.foldl_cons, hts t List.mem_cons_self]
      exact ih fun t' ht' => hts t' (List.mem_cons_of_mem t ht')
  rw [actionsAll_append, hscope]
  exact List.mem_append_right _ ha

theorem mem_actionsAll_nest {h : Head} {hs : List Head} {t : Tree} {m i : Int} {k : Index} (hk : h.index = k)
    (hm : h.bound = some m) (ht : t.isSingle = true) (h0 : 0 ≤ i) (hi : i < m) {a : Action}
    (ha : a ∈ actionsAll (nest hs [t]) (ρ.set k (some i))) : a ∈ actionsAll (nest (h :: hs) [t]) ρ := by
  rw [actionsAll_nest]
  exact mem_actions_loop hk hm (governs_nest ht hs) h0 hi ha

theorem mem_actionsAll_braced {h : Head} {body : List Tree} {m i : Int} {k : Index} (hk : h.index = k)
    (hm : h.bound = some m) (h0 : 0 ≤ i) (hi : i < m) {a : Action} (ha : a ∈ actionsAll body (ρ.set k (some i))) :
    a ∈ actionsAll [.loop h .braced body] ρ := by
  rw [actionsAll_singleton]
  exact mem_actions_loop hk hm rfl h0 hi ha

theorem OutputAt.subscripts (h : OutputAt ρ g x y z) : subscripts? ρ outputSubscripts = some [x, y, z] :=
  (Located.index h.x (.index h.y (.index h.z (.nil ρ)))).1

theorem scope_reduction (h : Head) (hs : List Head) (last : Head) (sum : Element) (o : Operands) :
    ∀ t ∈ s.reduction (h :: hs) last sum o, t.scope ρ = ρ := by
  intro t ht
  cases List.mem_singleton.mp ht
  rfl

/-- What stands behind the loops that add up the sum of an output element. -/
def scalarStored (s : Site) : List Stmt :=
  [Stmt.assign ⟨s.base, outputSubscripts⟩ (s.activate (.element ⟨.sum s.number, []⟩))] ++
    s.requantize outputSubscripts .outputZ ++
    s.storeOutput outputSubscripts (.index .outputX) (.index .outputY) (.index .outputZ)

theorem mem_actionsAll_scalarBody (shape : Shape) (c : ConvLoops) (o : Operands) {st : Stmt}
    (hst : st ∈ s.scalarStored) : .perform ρ st ∈ actionsAll (s.scalarBody shape c o) ρ := by
  have hset : ∀ t ∈ Tree.ofStmts (s.storeBias .outputZ nowhere (.index .outputZ) ++
      [Stmt.declare ⟨.sum s.number, .sum s.number, []⟩ true, .assign ⟨.sum s.number, []⟩ (s.initial .outputZ)]),
      t.scope ρ = ρ := by
    unfold storeBias
    split <;> simp [Tree.ofStmts, Tree.scope]
  have hstored : ∀ st ∈ s.scalarStored, ∀ i e, st ≠ .define i e := by
    unfold scalarStored requantize storeOutput
    intro st hst
    grind
  have hmem : .perform ρ st ∈ actionsAll (Tree.ofStmts s.scalarStored) ρ := by
    rw [actionsAll_ofStmts hstored]
    exact List.mem_map_of_mem hst
  exact mem_actionsAll_append_right (List.forall_mem_append.mpr ⟨hset, scope_reduction _ _ _ _ _⟩) hmem

theorem scalarBody_fills (hw : s.layer.weighted = true) (shape : Shape) (c : ConvLoops) (o : Operands)
    (hat : OutputAt ρ g x y z) : ∃ a ∈ actionsAll (s.scalarBody shape c o) ρ, s.Fills [x, y, z] a := by
  cases hr : s.rescales with
  | false =>
    exact ⟨_, mem_actionsAll_scalarBody shape c o List.mem_cons_self, fills_result hr hat.subscripts _⟩
  | true =>
    have hq : s.config.quantized = true := by
      rw [rescales, hw, Bool.and_true] at hr
      exact hr
    refine ⟨_, mem_actionsAll_scalarBody shape c o ?_, fills_scale hr hat.subscripts .outputZ⟩
    simp [scalarStored, requantize, hq]

variable {o : Operands} {a : Axis}

theorem vectorBody_fills (hs : s.IsConv g n) (hplain : s.scalarOnly = [] ∨ Accumulator.vector = .scalar)
    (o : Operands) {c : ConvLoops} {u v : Int} (h3 : c.l3 = a) (ha : a = .ox ∨ a = .oy) (hrow : RowAt ρ g n a u z)
    (h0 : 0 ≤ v) (hv : v < extentOf g n a) :
    ∃ act ∈ actionsAll (s.vectorBody ⟨g.input, g.output⟩ c o) ρ,
      s.Fills [(spot a u v).1, (spot a u v).2, z] act := by
  obtain ⟨hr, hout⟩ := base_eq_output hplain (by decide)
  refine ⟨_, ?_, fills_result hr (hrow.at ha h0 hv).subscripts (.element ⟨.sum s.number, [.index (a.index .conv)]⟩)⟩
  simp only [vectorBody, h3, hout, hs.index]
  refine mem_actionsAll_append_right (List.forall_mem_append.mpr ⟨?_, scope_reduction _ _ _ _ _⟩) ?_
  · simp [Tree.scope]
  · rw [actionsAll_cons, actions_blank, List.nil_append, actionsAll_singleton]
    exact mem_actions_loop (hs.short_index _ a "O") (hs.short_bound a "O") rfl h0 hv List.mem_cons_self

theorem tileBody_fills (hs : s.IsConv g n) (hplain : s.scalarOnly = [] ∨ Accumulator.tile = .scalar) (o : Operands)
    (c : ConvLoops) (hz : ρ.Holds .outputZ z g.output.z) (hx0 : 0 ≤ x) (hx : x < g.output.x) (hy0 : 0 ≤ y)
    (hy : y < g.output.y) :
    ∃ act ∈ actionsAll (s.tileBody ⟨g.input, g.output⟩ c o) ρ, s.Fills [x, y, z] act := by
  obtain ⟨hr, hout⟩ := base_eq_output hplain (by decide)
  refine ⟨_, ?_, fills_result hr (outputAt_set hz hx0 hx hy0 hy).subscripts
    (.element ⟨.sum s.number, [.index .outputX, .index .outputY]⟩)⟩
  simp only [tileBody, hout]
  refine mem_actionsAll_append_right (fun t ht => ?_) ?_
  · simp only [List.mem_append, List.mem_cons, List.not_mem_nil, or_false] at ht
    rcases ht with (((((rfl | rfl) | ht) | rfl) | ht) | rfl)
    · rfl
    · rfl
    · cases List.mem_singleton.mp ht
      rfl
    · rfl
    · exact scope_reduction _ _ _ _ _ t ht
    · rfl
  · refine mem_actionsAll_nest (hs.short_index _ .ox "O") (hs.short_bound .ox "O") rfl hx0 hx ?_
    exact mem_actionsAll_nest (hs.short_index _ .oy "O") (hs.short_bound .oy "O") rfl hy0 hy List.mem_cons_self

theorem IsConv.convNest_fills (hs : s.IsConv g n) {k : Accumulator} (hplain : s.scalarOnly = [] ∨ k = .scalar)
    (o : Operands) (ha : a = .ox ∨ a = .oy) (ρ : Scope) (hx : 0 ≤ x ∧ x < g.output.x) (hy : 0 ≤ y ∧ y < g.output.y)
    (hz : 0 ≤ z ∧ z < g.output.z) :
    ∃ act ∈ actionsAll (s.convNest ⟨g.input, g.output⟩ o (loopsOf a k) k) ρ, s.Fills [x, y, z] act := by
  obtain ⟨u, v, hu0, hu, hv0, hv, rfl, rfl⟩ := exists_spot (n := n) ha hx hy
  have hchannel := ρ.holds_set .outputZ hz.1 hz.2
  have hrow := rowAt_set (n := n) ha hchannel hu0 hu
  cases k with
  | scalar =>
    obtain ⟨act, hmem, hfills⟩ := scalarBody_fills hs.weighted ⟨g.input, g.output⟩ (loopsOf a .scalar) o
      (hrow.at ha hv0 hv)
    refine ⟨act, ?_, hfills⟩
    rw [convNest, convScalar_eq]
    refine mem_actionsAll_nest (hs.index _ .oz) (hs.bound .oz) rfl hz.1 hz.2 ?_
    refine mem_actionsAll_nest (hs.index _ (across a)) (hs.bound (across a)) rfl hu0 hu ?_
    exact mem_actionsAll_braced (hs.index _ a) (hs.bound a) hv0 hv hmem
  | vector =>
    obtain ⟨act, hmem, hfills⟩ := vectorBody_fills (c := loopsOf a .vector) hs hplain o rfl ha hrow hv0 hv
    refine ⟨act, ?_, hfills⟩
    rw [convNest, convVector_eq]
    refine mem_actionsAll_nest (hs.index _ .oz) (hs.bound .oz) rfl hz.1 hz.2 ?_
    exact mem_actionsAll_braced (hs.index _ (across a)) (hs.bound (across a)) hu0 hu hmem
  | tile =>
    obtain ⟨act, hmem, hfills⟩ := tileBody_fills hs hplain o (loopsOf a .tile) hchannel hx.1 hx.2 hy.1 hy.2
    refine ⟨act, ?_, hfills⟩
    rw [convNest, convTile_eq]
    exact mem_actionsAll_braced (hs.index _ .oz) (hs.bound .oz) hz.1 hz.2 hmem

end Positions

/-! ## Runs of the code -/

section Codes

variable {js : List Int} {P : Int → Prop} {g : Geometry} {code : List Tree} {seed : Int}

theorem within_dims {v : Volume} (h : Within v.dims js) : ∃ x y z, (0 ≤ x ∧ x < v.x) ∧
    (0 ≤ y ∧ y < v.y) ∧ (0 ≤ z ∧ z < v.z) ∧ js = [x, y, z] := by
  simp only [Within, Volume.dims, List.forall₂_cons_right_iff, List.forall₂_nil_right_iff] at h
  obtain ⟨x, _, hx, ⟨y, _, hy, ⟨z, _, hz, rfl, rfl⟩, rfl⟩, rfl⟩ := h
  exact ⟨x, y, z, hx, hy, hz, rfl⟩

theorem Emitted.le_output (pos : ∀ n, P n → 0 < n) (h : s.Emitted P g) (hw : s.layer.weighted = true)
    (hcode : s.code = .ok code) (hseed : s.Seeded σ seed) (hrun : Reaches μ (actionsAll code ρ) σ σ') {v : ℚ}
    (hv : σ'.cells s.output js = some v) : (seed : ℚ) ≤ v ∨ σ.cells s.output js = some v := by
  obtain ⟨-, body, hbody, rfl⟩ := h.code_cases pos hcode
  rw [actionsAll_append] at hrun
  obtain hrun | ⟨σ₁, hprelude, hrun⟩ := hrun.append_cases
  · exact .inr (reaches_prelude hrun hv)
  · rw [runAll_prelude] at hprelude
    cases hprelude
    refine (hrun.invariant (I := s.Floor seed σ) (fun a ha τ τ' hτ ha' => ?_) (floor_opened _ _ _)).output js v hv
    exact hτ.step hseed (hbody.effect hw ha ha')

theorem Emitted.extents_output (pos : ∀ n, P n → 0 < n) (h : s.Emitted P g) (hw : s.layer.weighted = true)
    (hcode : s.code = .ok code) (hsized : s.Sized (s.layer.writtenDims g.output) σ)
    (hrun : runAll μ (actionsAll code ρ) σ = some σ') :
    (∀ b, ¬ s.Writes b → σ'.extents b = σ.extents b) ∧
      σ'.extents s.output = some (s.layer.writtenDims g.output) := by
  obtain ⟨-, body, hbody, rfl⟩ := h.code_cases pos hcode
  rw [actionsAll_append, runAll_append, runAll_prelude, Option.bind_some] at hrun
  refine (Reaches.of_runAll hrun).invariant (I := fun τ => (∀ b, ¬ s.Writes b → τ.extents b = σ.extents b) ∧
    τ.extents s.output = some (s.layer.writtenDims g.output)) (fun a ha τ τ' hτ ha' => ?_)
    ⟨fun b hb => (opened_frame hb).1, opened_extents hsized⟩
  have heffect := hbody.effect hw ha ha'
  rw [heffect.extents_output]
  exact ⟨fun b hb => (heffect.frame hb).1.trans (hτ.1 b hb), hτ.2⟩

theorem Emitted.fills_output (pos : ∀ n, P n → 0 < n) (h : s.Emitted P g) (hk : s.layer.kind = .conv)
    (hcode : s.code = .ok code) (hseed : s.Seeded σ seed) (hrun : runAll μ (actionsAll code ρ) σ = some σ')
    (hjs : Within g.output.dims js) : s.Filled seed js σ' := by
  have hw : s.layer.weighted = true := by rw [Layer.weighted, hk, Kind.weighted]
  obtain ⟨x, y, z, hx, hy, hz, rfl⟩ := within_dims hjs
  obtain ⟨-, body, hbody, rfl⟩ := h.code_cases pos hcode
  rw [actionsAll_append, runAll_append, runAll_prelude, Option.bind_some] at hrun
  have hloops := hbody
  cases hbody with
  | conv hs _ hplain ha ho =>
    obtain ⟨act, hmem, hfills⟩ := hs.convNest_fills hplain _ ha _ hx hy hz
    refine runAll_establishes (I := s.Floor seed σ) (fun a ha τ τ' hτ ha' => hτ.step hseed (hloops.effect hw ha ha'))
      (fun a ha τ τ' hτ hf ha' => hf.step hseed hτ (hloops.effect hw ha ha')) hmem
      (fun τ τ' hτ ha' => ?_) (floor_opened _ _ _) hrun
    obtain ⟨v, hv, rfl⟩ := hfills μ τ τ' ha'
    exact ⟨v, by rw [Memory.cells_put_self, if_pos rfl], hτ.le_stored hseed hv⟩
  | pooling form => simp [Layer.kind, form, Form.kind] at hk
  | flatten form => simp [Layer.kind, form, Form.kind] at hk
  | dense form => simp [Layer.kind, form, Form.kind] at hk

end Codes

end Site

end LayerLoops
