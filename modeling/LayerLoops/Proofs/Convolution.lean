import LayerLoops.Proofs.Sites
import Mathlib.Algebra.BigOperators.Pi

/-! # Convolutions

Whatever the loop order keeps while it sums, the code of a convolution stores at every output position the
activated sum of the bias and the products of the window with the weights. -/

namespace LayerLoops

open Code Finset

/-- A convolution over an input of the given extents. Positions outside the input count as `outside`. -/
structure Convolution where
  extent : Volume
  side : Int
  stride : Int
  margin : Int
  input : Int → Int → Int → ℚ
  weight : Int → Int → Int → Int → ℚ
  bias : Int → ℚ
  outside : ℚ

namespace Convolution

def operand (k : Convolution) (r c z : Int) : ℚ :=
  if 0 ≤ r ∧ r < k.extent.x ∧ 0 ≤ c ∧ c < k.extent.y then k.input r c z else k.outside

theorem operand_inside (k : Convolution) {r c : Int} (h : 0 ≤ r ∧ r < k.extent.x ∧ 0 ≤ c ∧ c < k.extent.y) (z : Int) :
    k.operand r c z = k.input r c z := if_pos h

theorem operand_outside (k : Convolution) {r c : Int} (h : ¬ (0 ≤ r ∧ r < k.extent.x ∧ 0 ≤ c ∧ c < k.extent.y))
    (z : Int) : k.operand r c z = k.outside := if_neg h

/-- The product of a cell of the window at `(x, y)` with its weight for the output channel `z`. -/
def term (k : Convolution) (x y z c i j : Int) : ℚ :=
  k.operand (x * k.stride + i - k.margin) (y * k.stride + j - k.margin) c * k.weight i j c z

/-- The sum over the input channels and the window. -/
def total (k : Convolution) (x y z : Int) : ℚ :=
  ∑ c ∈ range k.extent.z.toNat, ∑ i ∈ range k.side.toNat, ∑ j ∈ range k.side.toNat, k.term x y z c i j

def value (k : Convolution) (x y z : Int) : ℚ := k.bias z + k.total x y z

end Convolution

namespace Site

/-- The convolution of a layer over the numbers in a memory. -/
def convolution (s : Site) (g : Geometry) (n : Int) (σ : Memory) : Convolution where
  extent := g.input
  side := n
  stride := g.stride
  margin := if s.padding = .same then Extent.margin n else 0
  input r c z := σ.entry s.input [r, c, z]
  weight i j c z := σ.entry (.weights s.number) [i, j, c, z]
  bias z := if s.config.biases then σ.entry (.biases s.number) [z] else 0
  outside := if s.config.quantized then σ.entry .inputZeroPoints [s.net.ordinal s.number] else 0

/-- What the code of a convolution needs: the arrays it reads, and the output where it is not local. -/
structure Ready (s : Site) (g : Geometry) (n : Int) (σ : Memory) : Prop where
  input : σ.Provides s.input g.input.dims
  weights : σ.Provides (.weights s.number) [n, n, g.input.z, g.output.z]
  biases : s.config.biases = true → σ.Provides (.biases s.number) [g.output.z]
  scales : s.config.quantized = true → σ.Provides (.weightScales s.number) [g.output.z]
  factors : s.config.quantized = true → ∀ b ∈ factorBuffers, σ.Provides b [(s.net.weighted.length : Int)]
  output : s.writesOutput = true ∨ s.isLocal = false →
    σ.extents s.output = some g.output.dims

/-- The scope of an output position. -/
structure OutputAt (ρ : Scope) (g : Geometry) (x y z : Int) : Prop where
  x : ρ.Holds .outputX x g.output.x
  y : ρ.Holds .outputY y g.output.y
  z : ρ.Holds .outputZ z g.output.z

theorem OutputAt.set {ρ : Scope} {g : Geometry} {x y z : Int} (h : OutputAt ρ g x y z) {i : Index}
    (hi : i ∉ [Index.outputX, .outputY, .outputZ]) (v : Option Int) : OutputAt (ρ.set i v) g x y z := by
  simp only [List.mem_cons, List.not_mem_nil, or_false, not_or] at hi
  exact ⟨h.x.set_of_ne (Ne.symm hi.1) v, h.y.set_of_ne (Ne.symm hi.2.1) v, h.z.set_of_ne (Ne.symm hi.2.2) v⟩

/-- Products are exact, and nothing is stored for analysis. -/
structure Plain (s : Site) : Prop where
  exact : s.config.approximate = false
  quiet : s.config.capture = false

theorem Plain.withOrder {s : Site} (h : s.Plain) (o : LoopOrder) : { s with order := o }.Plain := ⟨h.exact, h.quiet⟩

theorem Ready.withOrder {s : Site} {g : Geometry} {n : Int} {σ : Memory} (h : s.Ready g n σ) (o : LoopOrder) :
    { s with order := o }.Ready g n σ :=
  ⟨h.input, h.weights, h.biases, h.scales, h.factors, h.output⟩

/-- While the code of a layer runs on `σ₀`, only the buffers it writes change, and `T` are the positions at
which the result `v` has been stored. -/
structure Storing (s : Site) (dims : List Int) (v : List Int → ℚ) (σ₀ : Memory) (T : Set (List Int))
    (σ : Memory) : Prop where
  frame : ∀ b, ¬ s.Writes b → σ.extents b = σ₀.extents b ∧ σ.cells b = σ₀.cells b
  base : σ.extents s.base = some dims
  output : σ.extents s.output = some dims
  stored : ∀ js ∈ T, σ.cells s.base js = some (v js)

/-- The sums that are kept have these extents and values. -/
def Summing (s : Site) (dims : List Int) (c : List Int → ℚ) (σ : Memory) : Prop :=
  σ.extents (.sum s.number) = some dims ∧ ∀ js, Within dims js → σ.cells (.sum s.number) js = some (c js)

section Steps

variable {s : Site} {dims sdims : List Int} {v c : List Int → ℚ} {σ₀ σ : Memory} {T : Set (List Int)}

theorem Storing.put (h : s.Storing dims v σ₀ T σ) {b : Buffer} (hb : s.Writes b) {js : List Int} {q : ℚ}
    {T' : Set (List Int)} (hst : ∀ i ∈ T', (σ.put b js q).cells s.base i = some (v i)) :
    s.Storing dims v σ₀ T' (σ.put b js q) where
  frame b' hb' := by
    have hne : b' ≠ b := fun h => hb' (h ▸ hb)
    rw [Memory.extents_put, Memory.cells_put_of_ne σ hne]
    exact h.frame b' hb'
  base := h.base
  output := h.output
  stored := hst

theorem Storing.put_sum (h : s.Storing dims v σ₀ T σ) (js : List Int) (q : ℚ) :
    s.Storing dims v σ₀ T (σ.put (.sum s.number) js q) :=
  h.put (.inl rfl) fun i hi => by
    rw [Memory.cells_put_of_ne σ s.sum_ne_base.symm]
    exact h.stored i hi

theorem Storing.put_output (h : s.Storing dims v σ₀ T σ) (hr : s.rescales = true) (js : List Int) (q : ℚ) :
    s.Storing dims v σ₀ T (σ.put s.output js q) :=
  h.put (.inr (.inr rfl)) fun i hi => by
    rw [Memory.cells_put_of_ne σ (base_ne_output hr)]
    exact h.stored i hi

theorem Storing.put_base (h : s.Storing dims v σ₀ T σ) (js : List Int) :
    s.Storing dims v σ₀ (T ∪ {js}) (σ.put s.base js (v js)) :=
  h.put (.inr (.inl rfl)) fun i hi => by
    rw [Memory.cells_put_self]
    split
    · rename_i heq
      rw [heq]
    · rename_i hne
      exact h.stored i (hi.resolve_right hne)

theorem Storing.declare_sum (h : s.Storing dims v σ₀ T σ) (sdims : List Int) :
    s.Storing dims v σ₀ T (σ.declare (.sum s.number) sdims) where
  frame b hb := by
    have hne : b ≠ .sum s.number := fun h => hb (.inl h)
    rw [Memory.extents_declare_of_ne σ hne, Memory.cells_declare_of_ne σ hne]
    exact h.frame b hb
  base := by
    rw [Memory.extents_declare_of_ne σ s.sum_ne_base.symm]
    exact h.base
  output := by
    rw [Memory.extents_declare_of_ne σ s.sum_ne_output.symm]
    exact h.output
  stored i hi := by
    rw [Memory.cells_declare_of_ne σ s.sum_ne_base.symm]
    exact h.stored i hi

theorem Storing.read_eq (h : s.Storing dims v σ₀ T σ) {ρ : Scope} {e : Element} {edims js : List Int}
    (hb : ¬ s.Writes e.buffer) (hp : σ₀.Provides e.buffer edims) (hl : Located ρ e.subscripts edims js) :
    σ.read ρ e = some (σ₀.entry e.buffer js) := by
  obtain ⟨he, hc⟩ := h.frame e.buffer hb
  exact Memory.read_eq hl (he.trans hp.1) (by rw [hc, hp.cells_eq hl.2])

theorem Summing.put (h : s.Summing sdims c σ) (js : List Int) (q : ℚ) :
    s.Summing sdims (Function.update c js q) (σ.put (.sum s.number) js q) := by
  refine ⟨h.1, fun i hi => ?_⟩
  rw [Memory.cells_put_self, Function.update_apply]
  split
  · rfl
  · exact h.2 i hi

/-- The state in which sums are kept: what was stored before, and the sums. -/
def Keeping (s : Site) (dims : List Int) (v : List Int → ℚ) (σ₀ : Memory) (T : Set (List Int)) (sdims : List Int)
    (c : List Int → ℚ) (σ : Memory) : Prop :=
  s.Storing dims v σ₀ T σ ∧ s.Summing sdims c σ

theorem accumulate_adds {μ : Multipliers} {ρ : Scope} {target : Element} {p : List Int} {t : Term} {q : ℚ}
    (hb : target.buffer = .sum s.number) (hp : Located ρ target.subscripts sdims p)
    (ht : ∀ σ, s.Storing dims v σ₀ T σ → t.value? μ σ ρ = some q) :
    Adds μ [.perform ρ (.accumulate target t)] (s.Keeping dims v σ₀ T sdims) (Pi.single p q) := by
  refine fun c => Ensures.perform fun σ hσ => ?_
  obtain ⟨hst, hsum⟩ := hσ
  have hextents : σ.extents target.buffer = some sdims := hb ▸ hsum.1
  have hread : σ.read ρ target = some (c p) := Memory.read_eq hp hextents (hb ▸ hsum.2 p hp.2)
  refine ⟨σ.put target.buffer p (c p + q), ?_, ?_⟩
  · simp only [Stmt.run, hread, ht σ hst, Option.bind_eq_bind, Option.bind_some]
    exact Memory.write_eq _ hp hextents
  · have hnew : c + Pi.single p q = Function.update c p (c p + q) := by
      funext js
      by_cases h : js = p <;> simp [h]
    rw [hb, hnew]
    exact ⟨hst.put_sum p _, hsum.put p _⟩

end Steps

/-! ## The innermost loops -/

theorem single_sum (p : List Int) (t : Finset Nat) (f : Nat → ℚ) :
    (Pi.single p (∑ i ∈ t, f i) : List Int → ℚ) = ∑ i ∈ t, Pi.single p (f i) :=
  map_sum (AddMonoidHom.single (fun _ : List Int => ℚ) p) f t

section Reduction

variable {i j : Int} {o : Operands} {sum : Element} {μ : Multipliers} {s : Site} {g : Geometry} {n : Int}
  {dims sdims : List Int} {v : List Int → ℚ} {σ₀ : Memory} {T : Set (List Int)}

theorem read_weight (hr : s.Ready g n σ₀) {σ : Memory} (hσ : s.Storing dims v σ₀ T σ) {ρ : Scope} {z c : Int}
    (hz : ρ.Holds .outputZ z g.output.z) (hc : ρ.Holds .inputZ c g.input.z) (hi : ρ.Holds .kernelX i n)
    (hj : ρ.Holds .kernelY j n) : σ.read ρ s.convWeight = some ((s.convolution g n σ₀).weight i j c z) :=
  hσ.read_eq (not_writes_parameter .weights) hr.weights (.index hi (.index hj (.index hc (.index hz (.nil ρ)))))

theorem read_factor (hs : s.IsConv g n) (hr : s.Ready g n σ₀) (hq : s.config.quantized = true) {b : Buffer}
    (hb : b ∈ factorBuffers) {σ : Memory} (hσ : s.Storing dims v σ₀ T σ) (ρ : Scope) :
    σ.read ρ (factor b (s.net.ordinal s.number)) = some (σ₀.entry b [(s.net.ordinal s.number : Int)]) :=
  hσ.read_eq (not_writes_parameter (.factor hb)) (hr.factors hq b hb) (located_factor ρ b hs.ordinal_lt)

theorem product_value {σ : Memory} {ρ : Scope} {a b : Element} {p q : ℚ} (ha : σ.read ρ a = some p)
    (hb : σ.read ρ b = some q) : (Term.product a b).value? μ σ ρ = some (p * q) := by
  simp [Term.value?, ha, hb]

theorem read_window (hs : s.IsConv g n) (hr : s.Ready g n σ₀) (hpad : s.padding = .valid) {σ : Memory}
    (hσ : s.Storing dims v σ₀ T σ) {ρ : Scope} {x y z c : Int} (hat : OutputAt ρ g x y z)
    (hc : ρ.Holds .inputZ c g.input.z) (hi : ρ.Holds .kernelX i n) (hj : ρ.Holds .kernelY j n) :
    σ.read ρ (s.windowElement .inputZ) =
      some ((s.convolution g n σ₀).operand (x * g.stride + i - 0) (y * g.stride + j - 0) c) := by
  have hl := located_window hs.stride (hs.isValid hpad) hat.x hat.y hc hi hj
  have hread := hσ.read_eq (not_writes_input hs.number_pos) hr.input hl
  obtain ⟨-, hw⟩ := hl
  simp only [Within, Volume.dims, List.forall₂_cons] at hw
  rw [sub_zero, sub_zero, Convolution.operand_inside _ ⟨hw.1.1, hw.1.2, hw.2.1.1, hw.2.1.2⟩]
  exact hread

theorem multiplyAdd_valid (hs : s.IsConv g n) (hr : s.Ready g n σ₀) (hp : s.Plain) (hpad : s.padding = .valid)
    (ho : s.convOperands ⟨g.input, g.output⟩ = .ok o) {ρ : Scope} {x y z c : Int} {p : List Int}
    (hb : sum.buffer = .sum s.number) (hat : OutputAt ρ g x y z) (hc : ρ.Holds .inputZ c g.input.z)
    (hi : ρ.Holds .kernelX i n) (hsum : ∀ ρ', OutputAt ρ' g x y z → Located ρ' sum.subscripts sdims p) :
    Adds μ ((s.multiplyAdd (s.loop ⟨g.input, g.output⟩ .ky) sum o).actions ρ) (s.Keeping dims v σ₀ T sdims)
      (∑ j ∈ range n.toNat, Pi.single p ((s.convolution g n σ₀).term x y z c i j)) := by
  rw [IsConv.operands_valid hpad] at ho
  cases ho
  have hcode : s.multiplyAdd (s.loop ⟨g.input, g.output⟩ .ky) sum
      { input := s.windowElement .inputZ, weight := s.convWeight } =
      .loop (s.loop ⟨g.input, g.output⟩ .ky) .deeper
        [.stmt (.accumulate sum (.product (s.windowElement .inputZ) s.convWeight))] := by
    simp [multiplyAdd, innermost, storeWeight, product, hp.exact, hp.quiet]
  have hmargin : (s.convolution g n σ₀).margin = 0 := by simp [convolution, hpad]
  rw [hcode]
  refine Adds.loop (hs.index _ .ky) (hs.bound .ky) rfl fun j hj => ?_
  have hat' := hat.set (i := .kernelY) (by decide) (some j)
  have hc' := hc.set_of_ne (j := .kernelY) (by decide) (some j)
  have hi' := hi.set_of_ne (j := .kernelY) (by decide) (some j)
  have hj' := ρ.holds_set .kernelY (Int.natCast_nonneg j) hj
  rw [actionsAll_singleton]
  refine accumulate_adds hb (hsum _ hat') fun σ hσ => ?_
  rw [Convolution.term, hmargin]
  exact product_value (read_window hs hr hpad hσ hat' hc' hi' hj') (read_weight hr hσ hat'.z hc' hi' hj')

theorem choose_adds (hs : s.IsConv g n) (hr : s.Ready g n σ₀) {ρ : Scope} {x y z c r q : Int} {p : List Int}
    (hb : sum.buffer = .sum s.number) (hat : OutputAt ρ g x y z) (hc : ρ.Holds .inputZ c g.input.z)
    (hi : ρ.Holds .kernelX i n) (hj : ρ.Holds .kernelY j n) (hrow : ρ .row = some r) (hcol : ρ .column = some q)
    (hsum : Located ρ sum.subscripts sdims p) :
    Adds μ ((Tree.choose ⟨g.input.x, g.input.y⟩ (.accumulate sum (.product s.paddedElement s.convWeight))
      (s.outsideAdd sum)).actions ρ) (s.Keeping dims v σ₀ T sdims)
      (Pi.single p ((s.convolution g n σ₀).operand r q c * (s.convolution g n σ₀).weight i j c z)) := by
  have hweight (σ : Memory) (hσ : s.Storing dims v σ₀ T σ) := read_weight hr hσ hat.z hc hi hj
  rw [actions_choose hrow hcol]
  by_cases hin : 0 ≤ r ∧ r < g.input.x ∧ 0 ≤ q ∧ q < g.input.y
  · rw [if_pos hin, (s.convolution g n σ₀).operand_inside hin]
    refine accumulate_adds hb hsum fun σ hσ => product_value ?_ (hweight σ hσ)
    have hl : Located ρ s.paddedElement.subscripts g.input.dims [r, q, c] :=
      .cons hrow hin.1 hin.2.1 (.cons hcol hin.2.2.1 hin.2.2.2 (.index hc (.nil ρ)))
    exact hσ.read_eq (not_writes_input hs.number_pos) hr.input hl
  · rw [if_neg hin, (s.convolution g n σ₀).operand_outside hin]
    cases hq : s.config.quantized with
    | true =>
      simp only [outsideAdd, hq, if_true, Option.map_some, Option.toList_some]
      refine accumulate_adds hb hsum fun σ hσ => product_value ?_ (hweight σ hσ)
      rw [read_factor hs hr hq (by simp [factorBuffers]) hσ]
      simp [convolution, hq]
    | false =>
      -- The border counts as an exact zero, for which no statement stands.
      have hzero : (s.convolution g n σ₀).outside = 0 := by simp [convolution, hq]
      rw [outsideAdd, hq, hzero, zero_mul, Pi.single_zero]
      exact Adds.nil

theorem multiplyAdd_same (hs : s.IsConv g n) (hr : s.Ready g n σ₀) (hp : s.Plain) (hpad : s.padding = .same)
    (ho : s.convOperands ⟨g.input, g.output⟩ = .ok o) {ρ : Scope} {x y z c : Int} {p : List Int}
    (hb : sum.buffer = .sum s.number) (hat : OutputAt ρ g x y z) (hc : ρ.Holds .inputZ c g.input.z)
    (hi : ρ.Holds .kernelX i n) (hsum : ∀ ρ', OutputAt ρ' g x y z → Located ρ' sum.subscripts sdims p) :
    Adds μ ((s.multiplyAdd (s.loop ⟨g.input, g.output⟩ .ky) sum o).actions ρ) (s.Keeping dims v σ₀ T sdims)
      (∑ j ∈ range n.toNat, Pi.single p ((s.convolution g n σ₀).term x y z c i j)) := by
  rw [hs.operands_same hpad] at ho
  cases ho
  have hmargin : (s.convolution g n σ₀).margin = Extent.margin n := by simp [convolution, hpad]
  simp only [multiplyAdd, storeWeight, hp.quiet, product, hp.exact, paddedDefinitions, Tree.ofStmts, List.map_cons,
    List.map_nil, List.isEmpty_nil, if_true, Bool.not_false, Bool.false_eq_true, if_false, List.append_nil,
    List.cons_append, List.nil_append]
  refine Adds.loop (hs.index _ .ky) (hs.bound .ky) rfl fun j hj => ?_
  rw [Convolution.term, hmargin]
  -- The scope gains the loop variable, then the row, then the column.
  set ρ₀ := ρ.set .kernelY (some j)
  have hat₀ : OutputAt ρ₀ g x y z := hat.set (by decide) _
  have hc₀ : ρ₀.Holds .inputZ c g.input.z := hc.set_of_ne (by decide) _
  have hi₀ : ρ₀.Holds .kernelX i n := hi.set_of_ne (by decide) _
  have hj₀ : ρ₀.Holds .kernelY j n := ρ.holds_set .kernelY (Int.natCast_nonneg j) hj
  refine Adds.define (value?_padded hs.stride hat₀.x.1 hi₀.1 (Extent.margin n)) ?_
  set ρ₁ := ρ₀.set .row (some (x * g.stride + i - Extent.margin n))
  have hat₁ : OutputAt ρ₁ g x y z := hat₀.set (by decide) _
  have hj₁ : ρ₁.Holds .kernelY j n := hj₀.set_of_ne (by decide) _
  refine Adds.define (value?_padded hs.stride hat₁.y.1 hj₁.1 (Extent.margin n)) ?_
  set ρ₂ := ρ₁.set .column (some (y * g.stride + j - Extent.margin n))
  have hat₂ : OutputAt ρ₂ g x y z := hat₁.set (by decide) _
  have hc₂ : ρ₂.Holds .inputZ c g.input.z := (hc₀.set_of_ne (by decide) _).set_of_ne (by decide) _
  have hi₂ : ρ₂.Holds .kernelX i n := (hi₀.set_of_ne (by decide) _).set_of_ne (by decide) _
  have hj₂ : ρ₂.Holds .kernelY j n := hj₁.set_of_ne (by decide) _
  rw [actionsAll_singleton]
  exact choose_adds hs hr hb hat₂ hc₂ hi₂ hj₂ rfl rfl (hsum ρ₂ hat₂)

theorem multiplyAdd_adds (hs : s.IsConv g n) (hr : s.Ready g n σ₀) (hp : s.Plain)
    (ho : s.convOperands ⟨g.input, g.output⟩ = .ok o) {ρ : Scope} {x y z c : Int} {p : List Int}
    (hb : sum.buffer = .sum s.number) (hat : OutputAt ρ g x y z) (hc : ρ.Holds .inputZ c g.input.z)
    (hi : ρ.Holds .kernelX i n) (hsum : ∀ ρ', OutputAt ρ' g x y z → Located ρ' sum.subscripts sdims p) :
    Adds μ ((s.multiplyAdd (s.loop ⟨g.input, g.output⟩ .ky) sum o).actions ρ) (s.Keeping dims v σ₀ T sdims)
      (∑ j ∈ range n.toNat, Pi.single p ((s.convolution g n σ₀).term x y z c i j)) := by
  rcases hs.window with ⟨hpad, -⟩ | ⟨hpad, -⟩
  · exact multiplyAdd_valid hs hr hp hpad ho hb hat hc hi hsum
  · exact multiplyAdd_same hs hr hp hpad ho hb hat hc hi hsum

theorem window_adds (hs : s.IsConv g n) (hr : s.Ready g n σ₀) (hp : s.Plain)
    (ho : s.convOperands ⟨g.input, g.output⟩ = .ok o) {ρ : Scope} {x y z c : Int} {p : List Int}
    (hb : sum.buffer = .sum s.number) (hat : OutputAt ρ g x y z) (hc : ρ.Holds .inputZ c g.input.z)
    (hsum : ∀ ρ', OutputAt ρ' g x y z → Located ρ' sum.subscripts sdims p) :
    Adds μ (actionsAll (s.reduction [s.loop ⟨g.input, g.output⟩ .kx] (s.loop ⟨g.input, g.output⟩ .ky) sum o) ρ)
      (s.Keeping dims v σ₀ T sdims)
      (Pi.single p (∑ i ∈ range n.toNat, ∑ j ∈ range n.toNat, (s.convolution g n σ₀).term x y z c i j)) := by
  rw [single_sum]
  refine nest_adds (hs.index _ .kx) (hs.bound .kx) (isSingle_multiplyAdd s _ sum o) fun i hi => ?_
  rw [single_sum, nest_nil, actionsAll_singleton]
  exact multiplyAdd_adds hs hr hp ho hb (hat.set (by decide) _) (hc.set_of_ne (by decide) _)
    (ρ.holds_set .kernelX (Int.natCast_nonneg i) hi) hsum

end Reduction

/-! ## Setting up and storing sums -/

def result (s : Site) (g : Geometry) (n : Int) (σ : Memory) : List Int → ℚ
  | [x, y, z] => Code.activate (s.net.emitted s.number s.layer.activation) ((s.convolution g n σ).value x y z)
  | _ => 0

/-- The sums have these extents, and those in `T` are set to `q`. -/
def Setting (s : Site) (sdims : List Int) (q : ℚ) (T : Set (List Int)) (σ : Memory) : Prop :=
  σ.extents (.sum s.number) = some sdims ∧ ∀ js ∈ T, σ.cells (.sum s.number) js = some q

section Sums

variable {μ : Multipliers} {s : Site} {g : Geometry} {n : Int} {dims sdims : List Int} {v c : List Int → ℚ}
  {σ₀ : Memory} {T : Set (List Int)} {ρ : Scope} {x y z : Int} {p : List Int}

theorem declare_sum (ds : List Int) (q : ℚ) :
    Ensures μ [.perform ρ (.declare ⟨.sum s.number, .sum s.number, ds.map some⟩ true)] (s.Storing dims v σ₀ T)
      (fun σ => s.Storing dims v σ₀ T σ ∧ s.Setting ds q ∅ σ) := by
  refine Ensures.perform fun σ hσ => ⟨_, Stmt.run_declare μ σ ρ _ _ ds, hσ.declare_sum ds, ?_⟩
  exact ⟨Memory.extents_declare_self σ _ ds, fun _ h => absurd h (Set.notMem_empty _)⟩

theorem initial_value (hr : s.Ready g n σ₀) {σ : Memory} (hσ : s.Storing dims v σ₀ T σ)
    (hz : ρ.Holds .outputZ z g.output.z) :
    (s.initial .outputZ).value? μ σ ρ = some ((s.convolution g n σ₀).bias z) := by
  cases hb : s.config.biases with
  | true =>
    simp only [initial, hb, if_true, Term.value?, convolution]
    exact hσ.read_eq (not_writes_parameter .biases) (hr.biases hb) (.index hz (.nil ρ))
  | false => simp [initial, hb, Term.value?, convolution]

theorem set_marks (hr : s.Ready g n σ₀) {target : Element} (hb : target.buffer = .sum s.number)
    (hl : Located ρ target.subscripts sdims p) (hz : ρ.Holds .outputZ z g.output.z) :
    Marks μ [.perform ρ (.assign target (s.initial .outputZ))]
      (fun P σ => s.Storing dims v σ₀ T σ ∧ s.Setting sdims ((s.convolution g n σ₀).bias z) P σ) {p} := by
  intro P
  refine Ensures.perform fun σ ⟨hst, hset⟩ => ?_
  refine ⟨σ.put (.sum s.number) p ((s.convolution g n σ₀).bias z), ?_, hst.put_sum p _, hset.1, fun js hjs => ?_⟩
  · simp only [Stmt.run, initial_value hr hst hz, Option.bind_eq_bind, Option.bind_some]
    rw [← hb]
    exact Memory.write_eq _ hl (hb ▸ hset.1)
  · rw [Memory.cells_put_self]
    split
    · rfl
    · rename_i hne
      exact hset.2 js (hjs.resolve_right hne)

theorem Setting.summing {q : ℚ} {P : Set (List Int)} {σ : Memory} (h : s.Setting sdims q P σ)
    (hP : ∀ js, Within sdims js → js ∈ P) : s.Summing sdims (fun _ => q) σ :=
  ⟨h.1, fun js hjs => h.2 js (hP js hjs)⟩

theorem store_marks (hat : OutputAt ρ g x y z) {sum : Element} (hb : sum.buffer = .sum s.number)
    (hl : Located ρ sum.subscripts sdims p) (hc : c p = (s.convolution g n σ₀).value x y z) :
    Marks μ [.perform ρ (.assign ⟨s.base, outputSubscripts⟩ (s.activate (.element sum)))]
      (fun T => s.Keeping g.output.dims (s.result g n σ₀) σ₀ T sdims c) {[x, y, z]} := by
  intro T
  refine Ensures.perform fun σ ⟨hst, hsum⟩ => ?_
  have hread : σ.read ρ sum = some (c p) := Memory.read_eq hl (hb ▸ hsum.1) (hb ▸ hsum.2 p hl.2)
  have hout : Located ρ outputSubscripts g.output.dims [x, y, z] :=
    .index hat.x (.index hat.y (.index hat.z (.nil ρ)))
  refine ⟨σ.put s.base [x, y, z] (s.result g n σ₀ [x, y, z]), ?_, hst.put_base _, hsum.1, fun js hjs => ?_⟩
  · simp only [Stmt.run, Site.activate, Term.value?, hread, Option.map_some, Option.bind_eq_bind, Option.bind_some,
      hc, result]
    exact Memory.write_eq _ hout hst.base
  · rw [Memory.cells_put_of_ne σ s.sum_ne_base]
    exact hsum.2 js hjs

end Sums

end Site
end LayerLoops
