import LayerLoops.Proofs.Bounded
import LayerLoops.Proofs.Emitted

/-! # Subscripts of a layer

The loops of a layer subscript their arrays inside the extents of the layer: its volumes, its kernel and its
channels. So the code of a layer is safe wherever the buffers that it uses have these extents. -/

namespace LayerLoops

open Code

namespace Site

/-! ## What a layer needs -/

/-- The extents that the code of a layer relies on. -/
structure Covers (s : Site) (g : Geometry) (extents : Buffer → Option (List Int)) : Prop where
  input : extents s.input = some (s.layer.readDims g.input)
  output : extents s.output = some (s.layer.writtenDims g.output)
  base : extents s.base = some (s.layer.writtenDims g.output)
  weights : s.layer.weighted = true → ∀ dims : List Int, s.layer.weightDims = .ok (dims.map some) →
    extents (.weights s.number) = some dims
  biases : s.config.biases = true → s.layer.weighted = true →
    extents (.biases s.number) = some [s.layer.channels g.output]
  scales : s.config.quantized = true → s.layer.weighted = true →
    extents (.weightScales s.number) = some [s.layer.channels g.output]
  factors : s.config.quantized = true → s.layer.weighted = true → ∀ b ∈ factorBuffers,
    extents b = some [(s.net.weighted.length : Int)]

section Elements

variable {b : Buffer} {i : Index} {t : Bounded} {s : Site} {g : Geometry} {extents : Buffer → Option (List Int)}
  {l : Bounded}

theorem Covers.safe_factor (h : s.Covers g extents) (hmem : (s.layer, s.number) ∈ s.net.numbered)
    (hq : s.config.quantized = true) (hw : s.layer.weighted = true) (hb : b ∈ factorBuffers) :
    (factor b (s.net.ordinal s.number)).SafeUnder extents l :=
  fun ρ _ => ⟨_, _, h.factors hq hw b hb, located_factor ρ b (Network.ordinal_lt hmem hw)⟩

theorem Covers.safe_bias (h : s.Covers g extents) (hw : s.layer.weighted = true) (hb : s.config.biases = true)
    (hi : (i, s.layer.channels g.output) ∈ l) : Element.SafeUnder extents l ⟨.biases s.number, [.index i]⟩ :=
  Element.safeUnder_indices (t := [(i, s.layer.channels g.output)]) (h.biases hb hw) (by simpa using hi)

theorem Covers.safe_initial (h : s.Covers g extents) (hw : s.layer.weighted = true)
    (hi : (i, s.layer.channels g.output) ∈ l) : ∀ e ∈ (s.initial i).elements, e.SafeUnder extents l := by
  unfold initial
  split
  · rename_i hb
    intro e he
    cases List.mem_singleton.mp he
    exact h.safe_bias hw hb hi
  · simp [Term.elements]

theorem Covers.safe_storeBias (h : s.Covers g extents) (hw : s.layer.weighted = true)
    (hi : (i, s.layer.channels g.output) ∈ l) (x z : Expr) : ∀ t ∈ s.storeBias i x z, t.SafeUnder extents l := by
  unfold storeBias
  split
  · rename_i hb
    simp only [Bool.and_eq_true] at hb
    exact List.forall_mem_singleton.mpr (.store (h.safe_bias hw hb.2 hi) _ _ _ _ _)
  · simp

theorem Covers.safe_result (h : s.Covers g extents) (ht : ∀ p ∈ t, p ∈ l)
    (hdims : s.layer.writtenDims g.output = t.map Prod.snd) (hb : b = s.output ∨ b = s.base) :
    Element.SafeUnder extents l ⟨b, t.map fun p => .index p.1⟩ := by
  refine Element.safeUnder_indices ?_ ht
  rw [← hdims]
  rcases hb with rfl | rfl
  · exact h.output
  · exact h.base

theorem Covers.safe_requantize (h : s.Covers g extents) (hmem : (s.layer, s.number) ∈ s.net.numbered)
    (hw : s.layer.weighted = true) (ht : ∀ p ∈ t, p ∈ l) (hdims : s.layer.writtenDims g.output = t.map Prod.snd)
    (hi : (i, s.layer.channels g.output) ∈ l) :
    ∀ st ∈ s.requantize (t.map fun p => .index p.1) i, st.SafeUnder extents l := by
  unfold requantize
  split
  · rename_i hq
    have hscale : Element.SafeUnder extents l ⟨.weightScales s.number, [.index i]⟩ :=
      Element.safeUnder_indices (t := [(i, s.layer.channels g.output)]) (h.scales hq hw) (by simpa using hi)
    have hfactor {b : Buffer} (hb : b ∈ factorBuffers) := h.safe_factor (l := l) hmem hq hw hb
    intro st hst
    cases List.mem_singleton.mp hst
    refine ⟨by simp, ?_⟩
    simp only [Stmt.elements, List.forall_mem_cons]
    exact ⟨h.safe_result ht hdims (.inl rfl), h.safe_result ht hdims (.inr rfl), hfactor (by simp [factorBuffers]),
      hscale, hfactor (by simp [factorBuffers]), hfactor (by simp [factorBuffers]), by simp⟩
  · simp

theorem Covers.safe_storeOutput (h : s.Covers g extents) (ht : ∀ p ∈ t, p ∈ l)
    (hdims : s.layer.writtenDims g.output = t.map Prod.snd) (x y z : Expr) :
    ∀ st ∈ s.storeOutput (t.map fun p => .index p.1) x y z, st.SafeUnder extents l := by
  unfold storeOutput
  split
  · simp
  · intro st hst
    have hcases : st = .store s.number "LayerOutputBase" ⟨s.base, t.map fun p => .index p.1⟩ x y z ∨
        st = .store s.number "LayerOutput" ⟨s.output, t.map fun p => .index p.1⟩ x y z := by
      grind
    rcases hcases with rfl | rfl
    · exact .store (h.safe_result ht hdims (.inr rfl)) _ _ _ _ _
    · exact .store (h.safe_result ht hdims (.inl rfl)) _ _ _ _ _

theorem elements_product (s : Site) (a b : Element) : (s.product a b).elements = [a, b] := by
  unfold product
  split <;> rfl

theorem safe_accumulate {sum a b : Element} (hsum : sum.SafeUnder extents l) (ha : a.SafeUnder extents l)
    (hb : b.SafeUnder extents l) : (Stmt.accumulate sum (s.product a b)).SafeUnder extents l := by
  refine .accumulate hsum ?_
  rw [elements_product, List.forall_mem_cons, List.forall_mem_singleton]
  exact ⟨ha, hb⟩

theorem safe_assign {target e : Element} (ht : target.SafeUnder extents l) (he : e.SafeUnder extents l) :
    (Stmt.assign target (s.activate (.element e))).SafeUnder extents l :=
  .assign ht (List.forall_mem_singleton.mpr he)

theorem safe_scalar (hb : extents b = some []) : Element.SafeUnder extents l ⟨b, []⟩ :=
  Element.safeUnder_indices (t := []) hb (by simp)

theorem safe_storeWeight {weight : Element} (hweight : weight.SafeUnder extents l)
    (hsum : s.config.capture = true → extents (.sum s.number) = some []) :
    ∀ t ∈ s.storeWeight weight, t.SafeUnder extents l := by
  unfold storeWeight
  split
  · simp
  · rename_i hc
    have hscalar := safe_scalar (l := l) (hsum (by simpa using hc))
    rw [List.forall_mem_cons, List.forall_mem_singleton]
    exact ⟨.store hweight _ _ _ _ _, .store hscalar _ _ _ _ _⟩

theorem Covers.safe_set (h : s.Covers g extents) (hw : s.layer.weighted = true) {sum : Element}
    (hsum : sum.SafeUnder extents l) (hi : (i, s.layer.channels g.output) ∈ l) :
    (Stmt.assign sum (s.initial i)).SafeUnder extents l :=
  .assign hsum (h.safe_initial hw hi)

end Elements

/-! ## Loops of each kind -/

section Bodies

variable {s : Site} {g : Geometry} {extents : Buffer → Option (List Int)}

theorem dense_safe (h : s.Covers g extents) (hmem : (s.layer, s.number) ∈ s.net.numbered) {nodes : Option Int}
    (hf : s.layer.form = .dense nodes) (hweights : extents (.weights s.number) = some [g.input.x, g.output.x])
    (hsum : extents (.sum s.number) = some []) :
    ∀ t ∈ s.denseNest ⟨g.input, g.output⟩, t.SafeUnder extents [] := by
  have hk : s.layer.kind = .dense := by rw [Layer.kind, hf, Form.kind]
  have hw : s.layer.weighted = true := by rw [Layer.weighted, hk, Kind.weighted]
  have hinput : extents s.input = some [g.input.x] := by rw [h.input, Layer.readDims, if_pos hk]
  have hwritten : s.layer.writtenDims g.output = [g.output.x] := by rw [Layer.writtenDims, hk]
  have hchannels : s.layer.channels g.output = g.output.x := by simp [Layer.channels, hk]
  have hindex (a : Axis) : (s.loop ⟨g.input, g.output⟩ a).index = a.index .dense := by rw [Site.loop, hk]
  have hbound : s.bound ⟨g.input, g.output⟩ .ox = some g.output.x := by simp [Site.bound, hk]
  refine Tree.SafeUnder.braced (hindex .ox) hbound (by simp) ?_
  let l : Bounded := [(.outputX, g.output.x)]
  let l' : Bounded := (.inputX, g.input.x) :: l
  have hz : (Index.outputX, s.layer.channels g.output) ∈ l := by simp [l, hchannels]
  have hresult {b : Buffer} := h.safe_result (t := l) (l := l) (b := b) (fun p hp => hp) hwritten
  have hinner := Element.safeUnder_indices (t := [(.inputX, g.input.x)]) (l := l') hinput (by simp [l'])
  have hweight := Element.safeUnder_indices (t := [(.inputX, g.input.x), (.outputX, g.output.x)]) (l := l') hweights
    (by simp [l', l])
  simp only [List.forall_mem_append, List.forall_mem_singleton]
  refine ⟨⟨Tree.SafeUnder.ofStmts ?_, ?_⟩, Tree.SafeUnder.ofStmts ?_⟩
  · simp only [List.forall_mem_append, List.forall_mem_cons]
    exact ⟨⟨.inert (by simp) rfl, h.safe_set hw (safe_scalar hsum) hz, by simp⟩, h.safe_storeBias hw hz _ _⟩
  · refine Tree.SafeUnder.innermost (hindex .ix) rfl (by simp [Axis.index]) rfl (List.forall_mem_cons.mpr ⟨?_, ?_⟩)
    · exact safe_accumulate (safe_scalar hsum) hinner hweight
    · exact safe_storeWeight hweight fun _ => hsum
  · simp only [List.forall_mem_append, List.forall_mem_singleton]
    exact ⟨⟨safe_assign (hresult (.inr rfl)) (safe_scalar hsum),
        h.safe_requantize hmem hw (t := l) (fun p hp => hp) hwritten hz⟩,
      h.safe_storeOutput (t := l) (fun p hp => hp) hwritten _ _ _⟩

theorem located_flatPosition {ρ : Scope} {v : Volume} {x y z : Int} (hx : ρ.Holds .inputX x v.x)
    (hy : ρ.Holds .inputY y v.y) (hz : ρ.Holds .inputZ z v.z) :
    Located ρ [flatPosition v] [v.size] [x * v.y * v.z + y * v.z + z] := by
  have hvalue : (flatPosition v).value? ρ = some (x * v.y * v.z + y * v.z + z) := by
    simp [flatPosition, Expr.value?, Expr.isProduct, Expr.isAtom, hx.1, hy.1, hz.1]
  obtain ⟨-, hx0, hxn⟩ := hx
  obtain ⟨-, hy0, hyn⟩ := hy
  obtain ⟨-, hz0, hzn⟩ := hz
  have hrow : y * v.z + z < v.y * v.z := by nlinarith
  have hrow0 : 0 ≤ y * v.z + z := by nlinarith
  have hsize : x * v.y * v.z + v.y * v.z ≤ v.size := by
    have hstep := Int.mul_le_mul_of_nonneg_right hxn (by nlinarith : 0 ≤ v.y * v.z)
    unfold Volume.size
    linarith [mul_assoc v.x v.y v.z, mul_assoc x v.y v.z, add_mul x 1 (v.y * v.z)]
  have h0 : 0 ≤ x * v.y * v.z := mul_nonneg (mul_nonneg hx0 (by omega)) (by omega)
  exact .cons hvalue (by omega) (by omega) (.nil ρ)

theorem flatten_safe (h : s.Covers g extents) {nodes : Option Int} (hf : s.layer.form = .flatten nodes)
    (hg : g.output = .flat g.input.size) : ∀ t ∈ s.flattenNest ⟨g.input, g.output⟩, t.SafeUnder extents [] := by
  have hk : s.layer.kind = .flatten := by rw [Layer.kind, hf, Form.kind]
  have hinput : extents s.input = some g.input.dims := by
    rw [h.input, Layer.readDims, if_neg (by simp [hk])]
  have houtput : extents s.output = some [g.input.size] := by rw [h.output, Layer.writtenDims, hk, hg, Volume.flat]
  have hindex (a : Axis) : (s.loop ⟨g.input, g.output⟩ a).index = a.index .flatten := by rw [Site.loop, hk]
  have hx : s.bound ⟨g.input, g.output⟩ .ox = some g.input.x := by simp [Site.bound, hk]
  have hy : s.bound ⟨g.input, g.output⟩ .oy = some g.input.y := by simp [Site.bound, hk]
  have hz : s.bound ⟨g.input, g.output⟩ .oz = some g.input.z := by simp [Site.bound, hk]
  let l : Bounded := [(.inputZ, g.input.z), (.inputY, g.input.y), (.inputX, g.input.x)]
  have hsource := Element.safeUnder_indices (t := [(.inputX, g.input.x), (.inputY, g.input.y), (.inputZ, g.input.z)])
    (l := l) hinput (by simp [l])
  have htarget : Element.SafeUnder extents l ⟨s.output, [flatPosition g.input]⟩ := by
    intro ρ hρ
    obtain ⟨x, hx⟩ := hρ .inputX g.input.x (by simp [l])
    obtain ⟨y, hy⟩ := hρ .inputY g.input.y (by simp [l])
    obtain ⟨z, hz⟩ := hρ .inputZ g.input.z (by simp [l])
    exact ⟨_, _, houtput, located_flatPosition hx hy hz⟩
  have hsingle (body : Stmt) (stored : List Stmt) :
      (innermost (s.loop ⟨g.input, g.output⟩ .oz) body stored).isSingle = true :=
    isSingle_innermost _ body stored
  refine Tree.SafeUnder.nest (hindex .ox) hx (by simp) (hsingle _ _) ?_
  refine Tree.SafeUnder.nest (hindex .oy) hy (by simp [Axis.index]) (hsingle _ _) ?_
  rw [nest_nil, List.forall_mem_singleton]
  refine Tree.SafeUnder.innermost (hindex .oz) hz (by simp [Axis.index]) rfl (List.forall_mem_cons.mpr ⟨?_, ?_⟩)
  · exact .assign htarget (List.forall_mem_singleton.mpr hsource)
  · split
    · exact List.forall_mem_singleton.mpr (.store htarget _ _ _ _ _)
    · simp

theorem pooling_safe (h : s.Covers g extents) {t : PoolType} {n seed : Int}
    (hf : s.layer.form = .pooling t (some g.output.z) ⟨some n, some n⟩) (hs : s.layer.stride = some g.stride)
    (hz : g.output.z = g.input.z) (hv : g.IsValid n) (hcell : extents .cell = some [])
    (hmaximum : extents .maximum = some []) :
    ∀ t ∈ s.poolingNest ⟨g.input, g.output⟩ seed, t.SafeUnder extents [] := by
  have hk : s.layer.kind = .pooling := by rw [Layer.kind, hf, Form.kind]
  have hinput : extents s.input = some g.input.dims := by
    rw [h.input, Layer.readDims, if_neg (by simp [hk])]
  have houtput : extents s.output = some g.output.dims := by rw [h.output, Layer.writtenDims, hk]
  have hindex (a : Axis) : (s.loop ⟨g.input, g.output⟩ a).index = a.index .pooling := by rw [Site.loop, hk]
  have hbound (a : Axis) : s.bound ⟨g.input, g.output⟩ a = some (extentOf g n a) := by
    cases a <;> simp [Site.bound, hk, hf, Form.kernel, extentOf]
  let l : Bounded := [(.outputZ, g.output.z), (.outputY, g.output.y), (.outputX, g.output.x)]
  have htarget := Element.safeUnder_indices
    (t := [(.outputX, g.output.x), (.outputY, g.output.y), (.outputZ, g.output.z)]) (l := l) houtput (by simp [l])
  have hsource : (s.windowElement .outputZ).SafeUnder extents ((.kernelY, n) :: (.kernelX, n) :: l) := by
    intro ρ hρ
    obtain ⟨x, hx⟩ := hρ .outputX g.output.x (by simp [l])
    obtain ⟨y, hy⟩ := hρ .outputY g.output.y (by simp [l])
    obtain ⟨c, hc⟩ := hρ .outputZ g.input.z (by simp [l, hz])
    obtain ⟨i, hi⟩ := hρ .kernelX n (by simp)
    obtain ⟨j, hj⟩ := hρ .kernelY n (by simp)
    exact ⟨_, _, hinput, located_window hs hv hx hy hc hi hj⟩
  have hmax {l : Bounded} : Element.SafeUnder extents l ⟨.maximum, []⟩ := safe_scalar hmaximum
  have hcell {l : Bounded} : Element.SafeUnder extents l ⟨.cell, []⟩ := safe_scalar hcell
  refine Tree.SafeUnder.nest (hindex .ox) (hbound .ox) (by simp) rfl ?_
  refine Tree.SafeUnder.nest (hindex .oy) (hbound .oy) (by simp [Axis.index]) rfl ?_
  refine Tree.SafeUnder.braced (hindex .oz) (hbound .oz) (by simp [Axis.index]) ?_
  simp only [List.forall_mem_append, List.forall_mem_cons]
  refine ⟨⟨⟨⟨.stmt (.inert (by simp) rfl), .blank, .stmt (.assign hmax (by simp [Term.elements])), by simp⟩, ?_⟩,
    .stmt (.assign htarget (List.forall_mem_singleton.mpr hmax)), by simp⟩, Tree.SafeUnder.ofStmts ?_⟩
  · refine Tree.SafeUnder.nest (hindex .kx) (hbound .kx) (by simp [Axis.index]) rfl ?_
    refine Tree.SafeUnder.braced (hindex .ky) (hbound .ky) (by simp [Axis.index]) ?_
    rw [List.forall_mem_cons, List.forall_mem_singleton]
    refine ⟨.stmt (.assign hcell (List.forall_mem_singleton.mpr hsource)), .stmt ⟨by simp, ?_⟩⟩
    simp only [Stmt.elements, List.forall_mem_cons]
    exact ⟨hcell, hmax, by simp⟩
  · split
    · exact List.forall_mem_singleton.mpr (.store hmax _ _ _ _ _)
    · simp

end Bodies

/-! ## Convolutions -/

section Convolutions

variable {s : Site} {g : Geometry} {n : Int} {extents : Buffer → Option (List Int)}

def outputBounds (g : Geometry) : Bounded :=
  [(.outputX, g.output.x), (.outputY, g.output.y), (.outputZ, g.output.z)]

def windowBounds (g : Geometry) (n : Int) : Bounded := (.kernelX, n) :: (.inputZ, g.input.z) :: outputBounds g

def axisBound (g : Geometry) (n : Int) (a : Axis) : Index × Int := (a.index .conv, extentOf g n a)

theorem outputBounds_subset (g : Geometry) {a : Axis} (ha : a = .ox ∨ a = .oy) :
    outputBounds g ⊆ [axisBound g n a, axisBound g n (across a), axisBound g n .oz] := by
  rcases ha with rfl | rfl <;> simp [outputBounds, axisBound, across, Axis.index, extentOf]

theorem outputBounds_subset_windowBounds (g : Geometry) : outputBounds g ⊆ windowBounds g n := by
  simp [windowBounds]

theorem IsConv.safe_nest (hs : s.IsConv g n) (as : List Axis) {l : Bounded} {t : Tree} (ht : t.isSingle = true)
    (hfresh : ((as.map (Axis.index .conv)).reverse ++ l.map Prod.fst).Nodup)
    (h : t.SafeUnder extents ((as.map (axisBound g n)).reverse ++ l)) :
    ∀ u ∈ nest (as.map (s.loop ⟨g.input, g.output⟩)) [t], u.SafeUnder extents l := by
  induction as generalizing l with
  | nil => exact List.forall_mem_singleton.mpr h
  | cons a as ih =>
    rw [List.map_cons, List.reverse_cons, List.append_assoc] at hfresh h
    refine Tree.SafeUnder.nest (hs.index _ a) (hs.bound a) ?_ ht (ih hfresh h)
    exact (List.nodup_cons.mp (List.Nodup.of_append_right hfresh)).1

def sumDims (g : Geometry) (n : Int) (a : Axis) : Accumulator → List Int
  | .scalar => []
  | .vector => [extentOf g n a]
  | .tile => [g.output.x, g.output.y]

/-- What the code of a convolution subscripts besides what every layer does. -/
structure ConvCovers (s : Site) (g : Geometry) (n : Int) (extents : Buffer → Option (List Int)) : Prop
    extends s.Covers g extents where
  isConv : s.IsConv g n
  mem : (s.layer, s.number) ∈ s.net.numbered
  kernels : extents (.weights s.number) = some [n, n, g.input.z, g.output.z]
  scalar : s.config.capture = true → extents (.sum s.number) = some []

namespace ConvCovers

variable {a : Axis} {o : Operands} {sum : Element}

variable (h : s.ConvCovers g n extents)
include h

theorem channels : s.layer.channels g.output = g.output.z := by rw [Layer.channels, if_pos h.isConv.kind]

theorem written : s.layer.writtenDims g.output = g.output.dims := by rw [Layer.writtenDims, h.isConv.kind]

theorem read : extents s.input = some g.input.dims := by
  rw [h.input, Layer.readDims, if_neg (by simp [h.isConv.kind])]

theorem safe_weight : s.convWeight.SafeUnder extents ((.kernelY, n) :: windowBounds g n) :=
  Element.safeUnder_indices (t := [(.kernelX, n), (.kernelY, n), (.inputZ, g.input.z), (.outputZ, g.output.z)])
    h.kernels (by simp [windowBounds, outputBounds])

theorem safe_window (hv : g.IsValid n) :
    (s.windowElement .inputZ).SafeUnder extents ((.kernelY, n) :: windowBounds g n) := by
  intro ρ hρ
  obtain ⟨x, hx⟩ := hρ .outputX g.output.x (by simp [windowBounds, outputBounds])
  obtain ⟨y, hy⟩ := hρ .outputY g.output.y (by simp [windowBounds, outputBounds])
  obtain ⟨c, hc⟩ := hρ .inputZ g.input.z (by simp [windowBounds])
  obtain ⟨i, hi⟩ := hρ .kernelX n (by simp [windowBounds])
  obtain ⟨j, hj⟩ := hρ .kernelY n (by simp)
  exact ⟨_, _, h.read, located_window h.isConv.stride hv hx hy hc hi hj⟩

theorem safe_choose (hsum : sum.SafeUnder extents ((.kernelY, n) :: windowBounds g n)) {ρ : Scope}
    (hρ : ρ.Under ((.kernelY, n) :: windowBounds g n)) {r q : Int} (hrow : ρ .row = some r)
    (hcol : ρ .column = some q) :
    ∀ a ∈ (Tree.choose ⟨g.input.x, g.input.y⟩ (.accumulate sum (s.product s.paddedElement s.convWeight))
      (s.outsideAdd sum)).actions ρ, a.Safe extents := by
  rw [actions_choose hrow hcol]
  split
  · rename_i hin
    obtain ⟨c, hc⟩ := hρ .inputZ g.input.z (by simp [windowBounds])
    have hl : Located ρ s.paddedElement.subscripts g.input.dims [r, q, c] :=
      .cons hrow hin.1 hin.2.1 (.cons hcol hin.2.2.1 hin.2.2.2 (.index hc (.nil ρ)))
    rw [List.forall_mem_singleton]
    refine List.forall_mem_cons.mpr ⟨hsum ρ hρ, ?_⟩
    rw [elements_product, List.forall_mem_cons, List.forall_mem_singleton]
    exact ⟨⟨_, _, h.read, hl⟩, h.safe_weight ρ hρ⟩
  · unfold outsideAdd
    split
    · rename_i hq
      have hzero := h.safe_factor (l := []) h.mem hq h.isConv.weighted (b := .inputZeroPoints) (by simp [factorBuffers])
      rw [Option.map_some, Option.toList_some, List.forall_mem_singleton]
      refine List.forall_mem_cons.mpr ⟨hsum ρ hρ, List.forall_mem_cons.mpr ⟨hzero ρ (by simp [Scope.Under]), ?_⟩⟩
      exact List.forall_mem_singleton.mpr (h.safe_weight ρ hρ)
    · simp

theorem safe_multiplyAdd (ho : s.convOperands ⟨g.input, g.output⟩ = .ok o)
    (hsum : sum.SafeUnder extents (windowBounds g n)) :
    (s.multiplyAdd (s.loop ⟨g.input, g.output⟩ .ky) sum o).SafeUnder extents (windowBounds g n) := by
  have hs := h.isConv
  have hfresh : Axis.index .conv .ky ∉ (windowBounds g n).map Prod.fst := by
    simp [windowBounds, outputBounds, Axis.index]
  have hsum := hsum.mono (List.subset_cons_self (.kernelY, n) (windowBounds g n))
  have hstored := safe_storeWeight h.safe_weight h.scalar
  rcases hs.window with ⟨hpad, hv⟩ | ⟨hpad, -⟩
  · rw [IsConv.operands_valid hpad] at ho
    cases ho
    refine .innermost (hs.index _ .ky) (hs.bound .ky) hfresh rfl (List.forall_mem_cons.mpr ⟨?_, hstored⟩)
    exact safe_accumulate hsum (h.safe_window hv) h.safe_weight
  · rw [hs.operands_same hpad] at ho
    cases ho
    refine .loop (hs.index _ .ky) (hs.bound .ky) rfl hfresh fun ρ hρ => ?_
    obtain ⟨x, hx⟩ := hρ .outputX g.output.x (by simp [windowBounds, outputBounds])
    obtain ⟨y, hy⟩ := hρ .outputY g.output.y (by simp [windowBounds, outputBounds])
    obtain ⟨i, hi⟩ := hρ .kernelX n (by simp [windowBounds])
    obtain ⟨j, hj⟩ := hρ .kernelY n (by simp [extentOf, Axis.index])
    refine safe_define (value?_padded hs.stride hx.1 hi.1 (Extent.margin n)) ?_
    have hy' := hy.set_of_ne (j := .row) (by decide) (some (x * g.stride + i - Extent.margin n))
    have hj' := hj.set_of_ne (j := .row) (by decide) (some (x * g.stride + i - Extent.margin n))
    refine safe_define (value?_padded hs.stride hy'.1 hj'.1 (Extent.margin n)) ?_
    have hρ' := (hρ.set (k := .row) (by simp [windowBounds, outputBounds, Axis.index])
      (some (x * g.stride + i - Extent.margin n))).set (k := .column)
      (by simp [windowBounds, outputBounds, Axis.index]) (some (y * g.stride + j - Extent.margin n))
    intro a ha
    rcases List.mem_append.mp ha with ha | ha
    · exact h.safe_choose hsum hρ' rfl rfl a ha
    · refine safe_of_safeUnder (fun t ht => ?_) hρ' a ha
      split at ht
      · simp at ht
      · cases List.mem_singleton.mp ht
        exact .simulated (Tree.SafeUnder.ofStmts hstored)

theorem safe_results (hsum : sum.SafeUnder extents (outputBounds g)) {b : Buffer} (hb : b = s.output ∨ b = s.base) :
    (Stmt.assign sum (s.initial .outputZ)).SafeUnder extents (outputBounds g) ∧
      (Stmt.assign ⟨b, outputSubscripts⟩ (s.activate (.element sum))).SafeUnder extents (outputBounds g) := by
  have hz : (Index.outputZ, s.layer.channels g.output) ∈ outputBounds g := by simp [outputBounds, h.channels]
  exact ⟨h.safe_set h.isConv.weighted hsum hz,
    safe_assign (h.safe_result (t := outputBounds g) (fun p hp => hp) h.written hb) hsum⟩

theorem safe_scalarBody (ho : s.convOperands ⟨g.input, g.output⟩ = .ok o) (hsum : extents (.sum s.number) = some [])
    (a : Axis) :
    ∀ t ∈ s.scalarBody ⟨g.input, g.output⟩ (loopsOf a .scalar) o, t.SafeUnder extents (outputBounds g) := by
  have hs := h.isConv
  have hz : (Index.outputZ, s.layer.channels g.output) ∈ outputBounds g := by simp [outputBounds, h.channels]
  obtain ⟨hset, hwrite⟩ := h.safe_results (safe_scalar hsum) (b := s.base) (.inr rfl)
  have hself : ∀ p ∈ outputBounds g, p ∈ outputBounds g := fun p hp => hp
  simp only [scalarBody, List.forall_mem_append]
  refine ⟨⟨Tree.SafeUnder.ofStmts ?_, ?_⟩, Tree.SafeUnder.ofStmts ?_⟩
  · simp only [List.forall_mem_append, List.forall_mem_cons]
    exact ⟨h.safe_storeBias h.isConv.weighted hz _ _, .inert (by simp) rfl, hset, by simp⟩
  · refine Tree.SafeUnder.nest (hs.index _ .iz) (hs.bound .iz) ?_ (isSingle_multiplyAdd s _ _ o) ?_
    · simp [outputBounds, Axis.index]
    refine Tree.SafeUnder.nest (hs.index _ .kx) (hs.bound .kx) ?_ (isSingle_multiplyAdd s _ _ o) ?_
    · simp [outputBounds, Axis.index]
    exact List.forall_mem_singleton.mpr (h.safe_multiplyAdd ho (safe_scalar hsum))
  · simp only [List.forall_mem_append, List.forall_mem_singleton]
    exact ⟨⟨hwrite, h.safe_requantize h.mem h.isConv.weighted hself h.written hz⟩,
      h.safe_storeOutput hself h.written _ _ _⟩

theorem safe_vectorBody (ho : s.convOperands ⟨g.input, g.output⟩ = .ok o) (ha : a = .ox ∨ a = .oy)
    (hsum : extents (.sum s.number) = some [extentOf g n a]) :
    ∀ t ∈ s.vectorBody ⟨g.input, g.output⟩ (loopsOf a .vector) o,
      t.SafeUnder extents [axisBound g n (across a), axisBound g n .oz] := by
  have hs := h.isConv
  have helement : Element.SafeUnder extents (outputBounds g) ⟨.sum s.number, [.index (a.index .conv)]⟩ := by
    refine Element.safeUnder_indices (t := [axisBound g n a]) hsum ?_
    rcases ha with rfl | rfl <;> simp [axisBound, outputBounds, Axis.index, extentOf]
  obtain ⟨hset, hwrite⟩ := h.safe_results helement (b := s.output) (.inl rfl)
  have hfresh : a.index .conv ∉ [axisBound g n (across a), axisBound g n .oz].map Prod.fst := by
    rcases ha with rfl | rfl <;> simp [axisBound, across, Axis.index]
  have hbounds := outputBounds_subset (n := n) g ha
  -- The short loops go over the elements of the vector.
  have hshort (mark : String) {st : Stmt} (hst : st.SafeUnder extents (outputBounds g)) (hsimple : st.isSimple = true) :
      (Tree.loop (s.shortLoop ⟨g.input, g.output⟩ a mark) .sameLine [.stmt st]).SafeUnder extents
        [axisBound g n (across a), axisBound g n .oz] := by
    refine .loop (hs.short_index _ a mark) (hs.short_bound a mark) hsimple hfresh fun ρ => safe_of_safeUnder ?_
    exact List.forall_mem_singleton.mpr ((Tree.SafeUnder.stmt hst).mono hbounds)
  simp only [vectorBody, loopsOf, hs.index, List.forall_mem_append, List.forall_mem_cons]
  refine ⟨⟨⟨.stmt (.inert (by simp) rfl), .blank, hshort "I" hset rfl, .blank, by simp⟩, ?_⟩,
    .blank, hshort "O" hwrite rfl, by simp⟩
  refine hs.safe_nest [.iz, a, .kx] (isSingle_multiplyAdd s _ _ o) ?_ ((h.safe_multiplyAdd ho ?_).mono ?_)
  · rcases ha with rfl | rfl <;> simp [axisBound, across, Axis.index]
  · exact helement.mono (outputBounds_subset_windowBounds g)
  · rcases ha with rfl | rfl <;> simp [windowBounds, outputBounds, axisBound, across, Axis.index, extentOf]

theorem safe_tileBody (ho : s.convOperands ⟨g.input, g.output⟩ = .ok o) (ha : a = .ox ∨ a = .oy)
    (hsum : extents (.sum s.number) = some [g.output.x, g.output.y]) :
    ∀ t ∈ s.tileBody ⟨g.input, g.output⟩ (loopsOf a .tile) o, t.SafeUnder extents [axisBound g n .oz] := by
  have hs := h.isConv
  have helement : Element.SafeUnder extents (outputBounds g) ⟨.sum s.number, [.index .outputX, .index .outputY]⟩ :=
    Element.safeUnder_indices (t := [(.outputX, g.output.x), (.outputY, g.output.y)]) hsum (by simp [outputBounds])
  obtain ⟨hset, hwrite⟩ := h.safe_results helement (b := s.output) (.inl rfl)
  -- The short loops go over the elements of the tile.
  have hshort (mark : String) {st : Stmt} (hst : st.SafeUnder extents (outputBounds g)) (hsimple : st.isSimple = true) :
      ∀ t ∈ nest [s.shortLoop ⟨g.input, g.output⟩ .ox mark, s.shortLoop ⟨g.input, g.output⟩ .oy mark] [.stmt st],
        t.SafeUnder extents [axisBound g n .oz] := by
    refine Tree.SafeUnder.nest (hs.short_index _ .ox mark) (hs.short_bound .ox mark) ?_ hsimple ?_
    · simp [axisBound, Axis.index]
    refine Tree.SafeUnder.nest (hs.short_index _ .oy mark) (hs.short_bound .oy mark) ?_ hsimple ?_
    · simp [axisBound, Axis.index]
    exact List.forall_mem_singleton.mpr ((Tree.SafeUnder.stmt hst).mono (outputBounds_subset (n := n) g (.inr rfl)))
  simp only [tileBody, loopsOf, List.forall_mem_append, List.forall_mem_cons]
  refine ⟨⟨⟨⟨⟨⟨.stmt (.inert (by simp) rfl), .blank, by simp⟩, hshort "I" hset rfl⟩, .blank, by simp⟩, ?_⟩,
    .blank, by simp⟩, hshort "O" hwrite rfl⟩
  refine hs.safe_nest [.iz, across a, a, .kx] (isSingle_multiplyAdd s _ _ o) ?_ ((h.safe_multiplyAdd ho ?_).mono ?_)
  · rcases ha with rfl | rfl <;> simp [axisBound, across, Axis.index]
  · exact helement.mono (outputBounds_subset_windowBounds g)
  · rcases ha with rfl | rfl <;> simp [windowBounds, outputBounds, axisBound, across, Axis.index, extentOf]

theorem safe_convNest (ho : s.convOperands ⟨g.input, g.output⟩ = .ok o) (ha : a = .ox ∨ a = .oy) {k : Accumulator}
    (hsum : extents (.sum s.number) = some (sumDims g n a k)) :
    ∀ t ∈ s.convNest ⟨g.input, g.output⟩ o (loopsOf a k) k, t.SafeUnder extents [] := by
  have hs := h.isConv
  have hbounds := outputBounds_subset (n := n) g ha
  cases k with
  | scalar =>
    rw [convNest, convScalar_eq]
    refine hs.safe_nest [.oz, across a] rfl ?_ (.loop (hs.index _ a) (hs.bound a) rfl ?_ fun ρ => safe_of_safeUnder ?_)
    · rcases ha with rfl | rfl <;> simp [across, Axis.index]
    · rcases ha with rfl | rfl <;> simp [axisBound, across, Axis.index]
    · exact fun t ht => (h.safe_scalarBody ho hsum a t ht).mono hbounds
  | vector =>
    rw [convNest, convVector_eq]
    refine hs.safe_nest [.oz] rfl ?_ (.loop (hs.index _ (across a)) (hs.bound _) rfl ?_ fun ρ => safe_of_safeUnder ?_)
    · simp
    · rcases ha with rfl | rfl <;> simp [axisBound, across, Axis.index]
    · exact h.safe_vectorBody ho ha hsum
  | tile =>
    rw [convNest, convTile_eq]
    exact Tree.SafeUnder.braced (hs.index _ .oz) (hs.bound .oz) (by simp) (h.safe_tileBody ho ha hsum)

end ConvCovers

end Convolutions

end Site
end LayerLoops
