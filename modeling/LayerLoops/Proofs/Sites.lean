import LayerLoops.Emission.Pooling
import LayerLoops.Proofs.Completed
import LayerLoops.Proofs.Numbering
import LayerLoops.Proofs.Orders
import LayerLoops.Proofs.Runs

/-! # Sites of completed layers

What a layer reads is kept apart from what it writes, its subscripts have the values that its geometry asks for,
and a window that stays inside the input reads only positions of it. -/

namespace LayerLoops

open Code

def Volume.dims (v : Volume) : List Int := [v.x, v.y, v.z]

/-! ## Windows -/

namespace Extent

theorem window_le_of_lt_valid {size kernel stride x : Int} (hs : 0 < stride) (hx : x < valid size kernel stride) :
    x * stride + kernel ≤ size := by
  have hle : x ≤ (size - kernel).fdiv stride := by
    unfold valid at hx
    omega
  rw [Int.fdiv_eq_ediv_of_nonneg _ hs.le, Int.le_ediv_iff_mul_le hs] at hle
  omega

end Extent

/-! ## Numbers that can be written -/

theorem writableDim_eq_ok {d e : Option Int} :
    writableDim d = .ok e ↔ d = e ∧ ∀ n, d = some n → Decimal.Fits n := by
  unfold writableDim
  cases d with
  | none => simp
  | some n => by_cases h : Decimal.Fits n <;> simp [writable, h]

/-- Every number that the code of a layer shows can be written. -/
structure Layer.Writable (l : Layer) : Prop where
  input : ∀ v, l.input = some v → v.Fits
  output : ∀ v, l.output = some v → v.Fits
  stride : l.kind = .conv ∨ l.kind = .pooling → ∀ n, l.stride = some n → Decimal.Fits n
  rows : ∀ n, l.form.kernel.rows = some n → Decimal.Fits n
  cols : ∀ n, l.form.kernel.cols = some n → Decimal.Fits n

theorem Site.shape_eq_ok {s : Site} {i o : Volume} (hi : s.layer.input = some i) (ho : s.layer.output = some o)
    {shape : Shape} : s.shape = .ok shape ↔ shape = ⟨i, o⟩ ∧ s.layer.Writable := by
  unfold Site.shape
  simp only [Layer.inputFor, hi, Layer.outputFor, ho]
  constructor
  · intro h
    split at h <;>
    · simp only [bind_eq_ok, pure_eq_ok, discard_eq_ok, writableDim_eq_ok, Volume.writable_eq_ok] at h
      grind [Layer.Writable]
  · rintro ⟨rfl, hw⟩
    have hin : i.writable = .ok i := Volume.writable_eq_ok.mpr ⟨rfl, hw.input i hi⟩
    have hout : o.writable = .ok o := Volume.writable_eq_ok.mpr ⟨rfl, hw.output o ho⟩
    have hrows := writableDim_eq_ok.mpr ⟨rfl, hw.rows⟩
    have hcols := writableDim_eq_ok.mpr ⟨rfl, hw.cols⟩
    split
    · rename_i hkind
      have hstride := writableDim_eq_ok.mpr ⟨rfl, hw.stride hkind⟩
      simp only [hstride, hrows, hcols, bind, Except.bind, hin, hout]
      rfl
    · simp only [hrows, hcols, bind, Except.bind, hin, hout]
      rfl

theorem Site.volumes_of_shape {s : Site} {shape : Shape} (h : s.shape = .ok shape) :
    s.layer.input = some shape.input ∧ s.layer.output = some shape.output := by
  cases hi : s.layer.input with
  | none =>
    simp only [Site.shape, Layer.inputFor, hi] at h
    split at h <;> simp at h
  | some i =>
    cases ho : s.layer.output with
    | none =>
      simp only [Site.shape, Layer.inputFor, Layer.outputFor, hi, ho] at h
      split at h <;> simp at h
    | some o =>
      obtain ⟨rfl, -⟩ := (shape_eq_ok hi ho).mp h
      exact ⟨rfl, rfl⟩

/-! ## Buffers -/

namespace Site

theorem input_cases (s : Site) : s.input = .inputs ∨ s.input = .between (s.number - 1) := by
  unfold input
  split
  · exact .inl rfl
  · exact .inr rfl

theorem output_cases (s : Site) : s.output = .outputs ∨ s.output = .between s.number := by
  unfold output
  split
  · exact .inl rfl
  · exact .inr rfl

theorem base_of_not_rescales {s : Site} (h : s.rescales = false) : s.base = s.output := by
  simp [base, h]

theorem base_of_rescales {s : Site} (h : s.rescales = true) :
    s.base = .outputsBase ∨ s.base = .betweenBase s.number := by
  unfold base
  rw [h]
  cases s.writesOutput <;> simp

/-- A layer writes to these buffers, of which the first is local to an output element. -/
def Writes (s : Site) (b : Buffer) : Prop := b = .sum s.number ∨ b = s.base ∨ b = s.output

theorem base_cases (s : Site) :
    s.base = .outputs ∨ s.base = .between s.number ∨ s.base = .outputsBase ∨ s.base = .betweenBase s.number := by
  cases h : s.rescales with
  | false =>
    rw [base_of_not_rescales h]
    exact (output_cases s).imp_right .inl
  | true => exact .inr (.inr (base_of_rescales h))

theorem Writes.mem {s : Site} {b : Buffer} (h : s.Writes b) :
    b ∈ [Buffer.sum s.number, .outputs, .between s.number, .outputsBase, .betweenBase s.number] := by
  rcases h with rfl | rfl | rfl
  · simp
  · rcases s.base_cases with h | h | h | h <;> simp [h]
  · rcases s.output_cases with h | h <;> simp [h]

theorem not_writes_input {s : Site} (h : 0 < s.number) : ¬ s.Writes s.input := by
  have hne : s.number - 1 ≠ s.number := by omega
  intro hw
  have hmem := hw.mem
  rcases s.input_cases with hi | hi <;> simp [hi, hne] at hmem

def factorBuffers : List Buffer := [.inputZeroPoints, .outputZeroPoints, .inputScales, .outputScales]

/-- The buffers that hold parameters of a layer. -/
inductive IsParameter (number : Nat) : Buffer → Prop
  | weights : IsParameter number (.weights number)
  | biases : IsParameter number (.biases number)
  | weightScales : IsParameter number (.weightScales number)
  | factor {b : Buffer} (h : b ∈ factorBuffers) : IsParameter number b

theorem not_writes_parameter {s : Site} {b : Buffer} (hb : IsParameter s.number b) : ¬ s.Writes b := by
  intro hw
  have hmem := hw.mem
  cases hb with
  | weights | biases | weightScales => simp at hmem
  | factor hb =>
    obtain rfl | rfl | rfl | rfl : b = _ ∨ b = _ ∨ b = _ ∨ b = _ := by simpa [factorBuffers] using hb
    all_goals simp at hmem

theorem sum_ne_base (s : Site) : Buffer.sum s.number ≠ s.base := by
  rcases s.base_cases with h | h | h | h <;> simp [h]

theorem sum_ne_output (s : Site) : Buffer.sum s.number ≠ s.output := by
  rcases s.output_cases with h | h <;> simp [h]

theorem base_ne_output {s : Site} (h : s.rescales = true) : s.base ≠ s.output := by
  rcases base_of_rescales h with hb | hb <;> rcases s.output_cases with ho | ho <;> simp [hb, ho]

/-! ## Nests -/

section Nests

variable {μ : Multipliers} {h : Head} {hs : List Head} {t : Tree} {ρ : Scope} {n : Int}

theorem governs_nest (ht : t.isSingle = true) (hs : List Head) : Layout.governs .deeper (nest hs [t]) = true := by
  cases hs with
  | nil => exact ht
  | cons h hs => rfl

@[simp] theorem nest_nil (body : List Tree) : nest [] body = body := rfl

theorem actionsAll_nest (h : Head) (hs : List Head) (body : List Tree) (ρ : Scope) :
    actionsAll (nest (h :: hs) body) ρ = (Tree.loop h .deeper (nest hs body)).actions ρ :=
  actionsAll_singleton _ ρ

theorem nest_adds {M : Type} [AddCommMonoid M] {F : M → Memory → Prop} {δ : Nat → M} {k : Index} (hk : h.index = k)
    (hn : h.bound = some n) (ht : t.isSingle = true)
    (hi : ∀ i : Nat, (i : Int) < n → Adds μ (actionsAll (nest hs [t]) (ρ.set k (some i))) F (δ i)) :
    Adds μ (actionsAll (nest (h :: hs) [t]) ρ) F (∑ i ∈ Finset.range n.toNat, δ i) := by
  rw [actionsAll_nest]
  exact Adds.loop hk hn (governs_nest ht hs) hi

theorem nest_marks {β : Type} {F : Set β → Memory → Prop} {S : Int → Set β} {k : Index} (hk : h.index = k)
    (hn : h.bound = some n) (ht : t.isSingle = true)
    (hi : ∀ i : Int, 0 ≤ i → i < n → Marks μ (actionsAll (nest hs [t]) (ρ.set k (some i))) F (S i)) :
    Marks μ (actionsAll (nest (h :: hs) [t]) ρ) F {b | ∃ i, 0 ≤ i ∧ i < n ∧ b ∈ S i} := by
  rw [actionsAll_nest]
  exact Marks.loop hk hn (governs_nest ht hs) hi

end Nests

/-! ## Subscripts -/

theorem value?_strided {s : Site} {k : Int} (hs : s.layer.stride = some k) {ρ : Scope} {i : Index} {x : Int}
    (hx : ρ i = some x) : (s.strided i).value? ρ = some (x * k) := by
  unfold strided
  split
  · rename_i h
    cases hs.symm.trans h
    rw [mul_one]
    exact hx
  · simp [Expr.value?, Expr.isProduct, Expr.isAtom, hx, hs]

theorem value?_window {s : Site} {k : Int} (hs : s.layer.stride = some k) {ρ : Scope} {i i' : Index} {x j : Int}
    (hx : ρ i = some x) (hj : ρ i' = some j) :
    (Expr.add (s.strided i) (.index i')).value? ρ = some (x * k + j) := by
  simp only [Expr.value?, Expr.isProduct, Expr.isAtom, if_true, value?_strided hs hx, hj]
  rfl

theorem value?_padded {s : Site} {k : Int} (hs : s.layer.stride = some k) {ρ : Scope} {i i' : Index} {x j : Int}
    (hx : ρ i = some x) (hj : ρ i' = some j) (m : Int) :
    (Expr.sub (.add (s.strided i) (.index i')) (.number (some m))).value? ρ = some (x * k + j - m) := by
  rw [Expr.value?, value?_window hs hx hj]
  rfl

theorem located_factor (ρ : Scope) (b : Buffer) {k m : Nat} (h : k < m) :
    Located ρ (factor b k).subscripts [(m : Int)] [(k : Int)] :=
  .cons rfl (Int.natCast_nonneg k) (Int.ofNat_lt.mpr h) (.nil ρ)

def windowElement (s : Site) (channel : Index) : Element :=
  ⟨s.input, [.add (s.strided .outputX) (.index .kernelX), .add (s.strided .outputY) (.index .kernelY), .index channel]⟩

theorem located_window {s : Site} {g : Geometry} {n : Int} (hs : s.layer.stride = some g.stride) (hv : g.IsValid n)
    {ρ : Scope} {channel : Index} {x y c i j : Int} (hx : ρ.Holds .outputX x g.output.x)
    (hy : ρ.Holds .outputY y g.output.y) (hc : ρ.Holds channel c g.input.z) (hi : ρ.Holds .kernelX i n)
    (hj : ρ.Holds .kernelY j n) :
    Located ρ (s.windowElement channel).subscripts g.input.dims
      [x * g.stride + i, y * g.stride + j, c] := by
  have hxs := Extent.window_le_of_lt_valid g.stride_pos (hv.1 ▸ hx.2.2)
  have hys := Extent.window_le_of_lt_valid g.stride_pos (hv.2 ▸ hy.2.2)
  have hx0 := Int.mul_nonneg hx.2.1 g.stride_pos.le
  have hy0 := Int.mul_nonneg hy.2.1 g.stride_pos.le
  have hi' := hi.2
  have hj' := hj.2
  refine .cons (value?_window hs hx.1 hi.1) (by omega) (by omega) ?_
  exact .cons (value?_window hs hy.1 hj.1) (by omega) (by omega) (.index hc (.nil ρ))

/-! ## Convolutions -/

/-- The layer is a convolution of geometry `g` with a window of side `n`. -/
structure IsConv (s : Site) (g : Geometry) (n : Int) : Prop where
  number_pos : 0 < s.number
  ordinal_lt : s.net.ordinal s.number < s.net.weighted.length
  form : s.layer.form = .conv (some g.output.z) ⟨some n, some n⟩ s.padding
  stride : s.layer.stride = some g.stride
  input : s.layer.input = some g.input
  output : s.layer.output = some g.output
  side_pos : 0 < n
  window : s.padding = .valid ∧ g.IsValid n ∨ s.padding = .same ∧ g.IsSame n

theorem isConv_of_complete {P : Int → Prop} (pos : ∀ n, P n → 0 < n) {s : Site} {g : Geometry}
    (hl : s.layer.Complete P g) (hmem : (s.layer, s.number) ∈ s.net.numbered) (hk : s.layer.kind = .conv) :
    ∃ n, P n ∧ s.IsConv g n := by
  have hform := hl.form
  unfold Layer.kind at hk
  cases hf : s.layer.form with
  | conv filters k padding =>
    rw [hf] at hform
    obtain ⟨rfl, n, rfl, hn, hw⟩ := hform
    have hpad : s.padding = padding := by simp [Site.padding, hf]
    have hweighted : s.layer.weighted = true := by simp [Layer.weighted, Layer.kind, hk, Kind.weighted]
    exact ⟨n, hn, {
      number_pos := (Network.mem_numbered_iff.mp hmem).1
      ordinal_lt := Network.ordinal_lt hmem hweighted
      form := hpad ▸ hf, stride := hl.stride, input := hl.input, output := hl.output
      side_pos := pos n hn, window := hpad ▸ hw }⟩
  | pooling _ _ _ | flatten _ | dense _ => simp [hf, Form.kind] at hk

def convWeight (s : Site) : Element :=
  ⟨.weights s.number, [.index .kernelX, .index .kernelY, .index .inputZ, .index .outputZ]⟩

def paddedElement (s : Site) : Element := ⟨s.input, [.index .row, .index .column, .index .inputZ]⟩

/-- The position in the input of a cell of a padded window of side `n`. -/
def paddedDefinitions (s : Site) (n : Int) : List Stmt :=
  let margin : Expr := .number (some (Extent.margin n))
  [.define .row (.sub (.add (s.strided .outputX) (.index .kernelX)) margin),
    .define .column (.sub (.add (s.strided .outputY) (.index .kernelY)) margin)]

def outsideAdd (s : Site) (sum : Element) : Option Stmt :=
  if s.config.quantized then
    some (.accumulate sum (.product (factor .inputZeroPoints (s.net.ordinal s.number)) s.convWeight))
  else none

theorem isSingle_innermost (h : Head) (body : Stmt) (stored : List Stmt) :
    (innermost h body stored).isSingle = true := by
  unfold innermost
  split <;> rfl

theorem isSingle_multiplyAdd (s : Site) (h : Head) (sum : Element) (o : Operands) :
    (s.multiplyAdd h sum o).isSingle = true := by
  unfold multiplyAdd
  dsimp only
  split
  · exact isSingle_innermost h _ _
  · rfl

def scalarBody (s : Site) (shape : Shape) (c : ConvLoops) (o : Operands) : List Tree :=
  let sum : Element := ⟨.sum s.number, []⟩
  Tree.ofStmts (s.storeBias .outputZ nowhere (.index .outputZ) ++
      [Stmt.declare ⟨.sum s.number, .sum s.number, []⟩ true, .assign sum (s.initial .outputZ)]) ++
    s.reduction [s.loop shape c.l3, s.loop shape c.l4] (s.loop shape c.l5) sum o ++
    Tree.ofStmts ([Stmt.assign ⟨s.base, outputSubscripts⟩ (s.activate (.element sum))] ++
      s.requantize outputSubscripts .outputZ ++
      s.storeOutput outputSubscripts (.index .outputX) (.index .outputY) (.index .outputZ))

theorem convScalar_eq (s : Site) (shape : Shape) (c : ConvLoops) (o : Operands) :
    s.convScalar shape c o =
      nest [s.loop shape c.l0, s.loop shape c.l1] [.loop (s.loop shape c.l2) .braced (s.scalarBody shape c o)] := rfl

def vectorBody (s : Site) (shape : Shape) (c : ConvLoops) (o : Operands) : List Tree :=
  let inner := s.loop shape c.l3
  let sum : Element := ⟨.sum s.number, [.index inner.index]⟩
  [Tree.stmt (.declare ⟨.sum s.number, .sum s.number, [inner.bound]⟩ true), .blank,
      .loop (s.shortLoop shape c.l3 "I") .sameLine [.stmt (.assign sum (s.initial .outputZ))], .blank] ++
    s.reduction [s.loop shape c.l2, inner, s.loop shape c.l4] (s.loop shape c.l5) sum o ++
    [Tree.blank, .loop (s.shortLoop shape c.l3 "O") .sameLine
      [.stmt (.assign ⟨s.output, outputSubscripts⟩ (s.activate (.element sum)))]]

theorem convVector_eq (s : Site) (shape : Shape) (c : ConvLoops) (o : Operands) :
    s.convVector shape c o =
      nest [s.loop shape c.l0] [.loop (s.loop shape c.l1) .braced (s.vectorBody shape c o)] := rfl

def tileBody (s : Site) (shape : Shape) (c : ConvLoops) (o : Operands) : List Tree :=
  let sum : Element := ⟨.sum s.number, [.index .outputX, .index .outputY]⟩
  let short (mark : String) : List Head := [s.shortLoop shape .ox mark, s.shortLoop shape .oy mark]
  [Tree.stmt (.declare ⟨.sum s.number, .sum s.number, [some shape.output.x, some shape.output.y]⟩ true), .blank] ++
    nest (short "I") [.stmt (.assign sum (s.initial .outputZ))] ++ [Tree.blank] ++
    s.reduction [s.loop shape c.l1, s.loop shape c.l2, s.loop shape c.l3, s.loop shape c.l4]
      (s.loop shape c.l5) sum o ++ [Tree.blank] ++
    nest (short "O") [.stmt (.assign ⟨s.output, outputSubscripts⟩ (s.activate (.element sum)))]

theorem convTile_eq (s : Site) (shape : Shape) (c : ConvLoops) (o : Operands) :
    s.convTile shape c o = [.loop (s.loop shape c.l0) .braced (s.tileBody shape c o)] := rfl

def extentOf (g : Geometry) (n : Int) : Axis → Int
  | .oz => g.output.z
  | .oy => g.output.y
  | .ox => g.output.x
  | .iz => g.input.z
  | .ix => g.input.x
  | .kx | .ky => n

namespace IsConv

variable {s : Site} {g : Geometry} {n : Int}

theorem withOrder (h : s.IsConv g n) (o : LoopOrder) : { s with order := o }.IsConv g n :=
  ⟨h.number_pos, h.ordinal_lt, h.form, h.stride, h.input, h.output, h.side_pos, h.window⟩

theorem kind (h : s.IsConv g n) : s.layer.kind = .conv := by rw [Layer.kind, h.form, Form.kind]

theorem weighted (h : s.IsConv g n) : s.layer.weighted = true := by rw [Layer.weighted, h.kind, Kind.weighted]

theorem index (h : s.IsConv g n) (shape : Shape) (a : Axis) : (s.loop shape a).index = a.index .conv := by
  rw [Site.loop, h.kind]

theorem bound (h : s.IsConv g n) (a : Axis) : s.bound ⟨g.input, g.output⟩ a = some (extentOf g n a) := by
  cases a <;> simp [Site.bound, h.kind, h.form, Form.kernel, extentOf]

theorem short_index (h : s.IsConv g n) (shape : Shape) (a : Axis) (mark : String) :
    (s.shortLoop shape a mark).index = a.index .conv := h.index shape a

theorem short_bound (h : s.IsConv g n) (a : Axis) (mark : String) :
    (s.shortLoop ⟨g.input, g.output⟩ a mark).bound = some (extentOf g n a) := h.bound a

theorem operands_valid (hp : s.padding = .valid) (shape : Shape) :
    s.convOperands shape = .ok { input := s.windowElement .inputZ, weight := s.convWeight } := by
  simp [convOperands, hp, windowElement, convWeight]

theorem operands_same (h : s.IsConv g n) (hp : s.padding = .same) (shape : Shape) :
    s.convOperands shape = .ok {
      input := s.paddedElement, weight := s.convWeight
      padded := some (s.paddedDefinitions n, ⟨shape.input.x, shape.input.y⟩) } := by
  simp [convOperands, hp, h.form, Form.kernel, paddedElement, convWeight, paddedDefinitions, Extent.margin]

theorem isValid (h : s.IsConv g n) (hp : s.padding = .valid) : g.IsValid n := by
  rcases h.window with hw | hw
  · exact hw.2
  · simp [hw.1] at hp

end IsConv

/-! ## Supported orders -/

def across : Axis → Axis
  | .ox => .oy
  | _ => .ox

/-- The loops of a supported order: what is kept decides where the channel loop stands, and `a` is the inner one
of the two spatial axes. -/
def loopsOf (a : Axis) : Accumulator → ConvLoops
  | .scalar => ⟨.oz, across a, a, .iz, .kx, .ky⟩
  | .vector => ⟨.oz, across a, .iz, a, .kx, .ky⟩
  | .tile => ⟨.oz, .iz, across a, a, .kx, .ky⟩

def convNest (s : Site) (shape : Shape) (o : Operands) (c : ConvLoops) : Accumulator → List Tree
  | .scalar => s.convScalar shape c o
  | .vector => s.convVector shape c o
  | .tile => s.convTile shape c o

variable {s : Site} {g : Geometry} {n : Int} {k : Accumulator}

theorem convLoops_of_supported (h : s.order.Supported k) :
    ∃ a, (a = .ox ∨ a = .oy) ∧ s.convLoops = .ok (loopsOf a k) := by
  obtain ⟨middle, hmem, ho⟩ := h
  simp only [Accumulator.table, List.mem_cons, Prod.mk.injEq, List.not_mem_nil, or_false] at hmem
  unfold convLoops
  rw [ho]
  rcases hmem with ⟨rfl, rfl⟩ | ⟨rfl, rfl⟩ | ⟨rfl, rfl⟩ | ⟨rfl, rfl⟩ | ⟨rfl, rfl⟩ | ⟨rfl, rfl⟩
  · exact ⟨.ox, .inl rfl, rfl⟩
  · exact ⟨.oy, .inr rfl, rfl⟩
  · exact ⟨.oy, .inr rfl, rfl⟩
  · exact ⟨.ox, .inl rfl, rfl⟩
  · exact ⟨.oy, .inr rfl, rfl⟩
  · exact ⟨.ox, .inl rfl, rfl⟩

theorem convAccumulator_of_supported (h : s.order.Supported k) (hk : s.scalarOnly = [] ∨ k = .scalar) :
    s.convAccumulator = .ok k := by
  have hok : ¬ (k ≠ .scalar ∧ s.scalarOnly ≠ []) := by tauto
  simp only [convAccumulator, LoopOrder.accumulator, LoopOrder.accumulator?_of_supported h]
  exact if_neg hok

theorem exists_convOperands (hs : s.IsConv g n) (shape : Shape) : ∃ o, s.convOperands shape = .ok o := by
  rcases hs.window with ⟨hp, -⟩ | ⟨hp, -⟩
  · exact ⟨_, IsConv.operands_valid hp shape⟩
  · exact ⟨_, hs.operands_same hp shape⟩

theorem conv_eq_ok (hs : s.IsConv g n) (hsup : s.order.Supported k) (hk : s.scalarOnly = [] ∨ k = .scalar) :
    ∃ a o, (a = .ox ∨ a = .oy) ∧ s.convOperands ⟨g.input, g.output⟩ = .ok o ∧ ∀ code, s.conv = .ok code ↔
      s.layer.Writable ∧ code = s.header ⟨g.input, g.output⟩ ++ s.declarations g.output.dims ++
        s.convNest ⟨g.input, g.output⟩ o (loopsOf a k) k := by
  obtain ⟨a, ha, hloops⟩ := convLoops_of_supported hsup
  obtain ⟨o, ho⟩ := exists_convOperands hs ⟨g.input, g.output⟩
  refine ⟨a, o, ha, ho, fun code => ?_⟩
  simp only [conv, bind_eq_ok, pure_eq_ok, mapError_ok_iff, convAccumulator_of_supported hsup hk,
    shape_eq_ok hs.input hs.output, hloops]
  constructor
  · rintro ⟨_, ⟨⟩, _, ⟨rfl, hw⟩, _, ⟨⟩, o', ho', rfl⟩
    cases ho.symm.trans ho'
    exact ⟨hw, by cases k <;> rfl⟩
  · rintro ⟨hw, rfl⟩
    exact ⟨k, rfl, _, ⟨rfl, hw⟩, _, rfl, o, ho, by cases k <;> rfl⟩

end Site
end LayerLoops
