import LayerLoops.Proofs.Accepted
import LayerLoops.Proofs.Sites

/-! # Emitted layers

The code of a layer is a comment, the declarations of the buffers it writes and its loops. For a layer of an
accepted network the loops are known, and the only thing that can keep the code from being written is a number
that is too long. -/

namespace LayerLoops

open Code

/-! ## Extents of arrays -/

theorem mapM_writableDim_eq_ok {ns : List Int} {ds : List (Option Int)} :
    (ns.mapM fun n => writableDim (some n)) = .ok ds ↔ ds = ns.map some ∧ ∀ n ∈ ns, Decimal.Fits n := by
  induction ns generalizing ds with
  | nil =>
    rw [List.mapM_nil, pure_eq_ok, eq_comm]
    simp
  | cons n ns ih =>
    simp only [List.mapM_cons, bind_eq_ok, pure_eq_ok, writableDim_eq_ok, ih, List.forall_mem_cons, List.map_cons]
    constructor
    · rintro ⟨_, ⟨rfl, hn⟩, _, ⟨rfl, hns⟩, rfl⟩
      exact ⟨rfl, hn n rfl, hns⟩
    · rintro ⟨rfl, hn, hns⟩
      exact ⟨some n, ⟨rfl, by rintro _ ⟨⟩; exact hn⟩, _, ⟨rfl, hns⟩, rfl⟩

namespace Layer

/-- The extents that a layer subscripts its input with. -/
def readDims (l : Layer) (v : Volume) : List Int := if l.kind = .dense then [v.x] else v.dims

/-- The extents that a layer subscripts its output with. -/
def writtenDims (l : Layer) (v : Volume) : List Int :=
  match l.kind with
  | .flatten | .dense => [v.x]
  | .conv | .pooling => v.dims

variable {l : Layer} {i o : Volume} {ds : List (Option Int)}

theorem inputDims_eq_ok (hi : l.input = some i) :
    l.inputDims = .ok ds ↔ ds = (l.readDims i).map some ∧ ∀ n ∈ l.readDims i, Decimal.Fits n := by
  simp only [inputDims, inputFor, hi, bind_eq_ok, Except.ok.injEq, exists_eq_left', mapM_writableDim_eq_ok]
  rfl

theorem outputDims_eq_ok (ho : l.output = some o) :
    l.outputDims = .ok ds ↔ ds = (l.writtenDims o).map some ∧ ∀ n ∈ l.writtenDims o, Decimal.Fits n := by
  simp only [outputDims, outputFor, ho, bind_eq_ok, Except.ok.injEq, exists_eq_left', mapM_writableDim_eq_ok,
    writtenDims]
  cases l.kind <;> rfl

theorem fits_readDims (l : Layer) {v : Volume} (h : v.Fits) : ∀ n ∈ l.readDims v, Decimal.Fits n := by
  unfold readDims
  split
  · simpa using h.1
  · simpa [Volume.dims, Volume.Fits] using h

theorem fits_writtenDims (l : Layer) {v : Volume} (h : v.Fits) : ∀ n ∈ l.writtenDims v, Decimal.Fits n := by
  unfold writtenDims
  split
  · simpa using h.1
  · simpa using h.1
  · simpa [Volume.dims, Volume.Fits] using h
  · simpa [Volume.dims, Volume.Fits] using h

def channels (l : Layer) (o : Volume) : Int := if l.kind = .conv then o.z else o.x

theorem channelDim_eq_ok (ho : l.output = some o) {d : Option Int} :
    l.channelDim = .ok d ↔ d = some (l.channels o) ∧ Decimal.Fits (l.channels o) := by
  simp only [channelDim, outputFor, ho, channels]
  cases l.kind <;> simp [writableDim_eq_ok, eq_comm (b := d)]

theorem weightDims_conv {f : Option Int} {n : Int} {p : Padding} (hf : l.form = .conv f ⟨some n, some n⟩ p)
    (hi : l.input = some i) (ho : l.output = some o) :
    l.weightDims = .ok ds ↔ ds = [n, n, i.z, o.z].map some ∧ ∀ m ∈ [n, n, i.z, o.z], Decimal.Fits m := by
  rw [← mapM_writableDim_eq_ok]
  simp [weightDims, kind, hf, Form.kind, Form.kernel, inputFor, hi, outputFor, ho]

theorem weightDims_dense {nodes : Option Int} (hf : l.form = .dense nodes) (hi : l.input = some i)
    (ho : l.output = some o) :
    l.weightDims = .ok ds ↔ ds = [i.x, o.x].map some ∧ ∀ m ∈ [i.x, o.x], Decimal.Fits m := by
  rw [← mapM_writableDim_eq_ok]
  simp [weightDims, kind, hf, Form.kind, inputFor, hi, outputFor, ho]

end Layer

/-! ## Loops of a layer -/

namespace Site

variable {s : Site} {g : Geometry} {P : Int → Prop}

/-- The loops that stand in the code of a layer of geometry `g`. -/
inductive Body (s : Site) (g : Geometry) : List Tree → Prop
  | conv {n : Int} {k : Accumulator} {a : Axis} {o : Operands} (isConv : s.IsConv g n)
      (supported : s.order.Supported k) (plain : s.scalarOnly = [] ∨ k = .scalar) (inner : a = .ox ∨ a = .oy)
      (operands : s.convOperands ⟨g.input, g.output⟩ = .ok o) :
      Body s g (s.convNest ⟨g.input, g.output⟩ o (loopsOf a k) k)
  | pooling {t : PoolType} {n seed : Int} (form : s.layer.form = .pooling t (some g.output.z) ⟨some n, some n⟩)
      (stride : s.layer.stride = some g.stride) (depth : g.output.z = g.input.z) (window : g.IsValid n)
      (start : poolingSeed s.net s.number s.layer.location s.config = .ok seed) (fits : Decimal.Fits seed) :
      Body s g (s.poolingNest ⟨g.input, g.output⟩ seed)
  | flatten {nodes : Option Int} (form : s.layer.form = .flatten nodes) (output : g.output = .flat g.input.size) :
      Body s g (s.flattenNest ⟨g.input, g.output⟩)
  | dense {nodes : Option Int} (form : s.layer.form = .dense nodes) : Body s g (s.denseNest ⟨g.input, g.output⟩)

/-- A layer that code is generated for. -/
structure Emitted (s : Site) (P : Int → Prop) (g : Geometry) : Prop where
  mem : (s.layer, s.number) ∈ s.net.numbered
  complete : s.layer.Complete P g
  admits : s.net.Admits s.config s.number s.layer
  order : s.layer.kind = .conv → ∃ k, s.order.Supported k ∧ (s.scalarOnly = [] ∨ k = .scalar)

section Codes

variable {i o : Volume} {code : List Tree}

theorem pooling_eq_ok (hi : s.layer.input = some i) (ho : s.layer.output = some o) :
    s.pooling = .ok code ↔ s.layer.Writable ∧ ∃ seed, poolingSeed s.net s.number s.layer.location s.config = .ok seed ∧
      Decimal.Fits seed ∧ code = s.header ⟨i, o⟩ ++ s.declarations o.dims ++ s.poolingNest ⟨i, o⟩ seed := by
  simp only [pooling, bind_eq_ok, pure_eq_ok, mapError_ok_iff, shape_eq_ok hi ho, writable_eq_ok]
  constructor
  · rintro ⟨seed, hseed, _, ⟨rfl, hw⟩, _, ⟨rfl, hfits⟩, rfl⟩
    exact ⟨hw, seed, hseed, hfits, rfl⟩
  · rintro ⟨hw, seed, hseed, hfits, rfl⟩
    exact ⟨seed, hseed, _, ⟨rfl, hw⟩, _, ⟨rfl, hfits⟩, rfl⟩

theorem flatten_eq_ok (hi : s.layer.input = some i) (ho : s.layer.output = some o) :
    s.flatten = .ok code ↔ s.layer.Writable ∧
      code = s.header ⟨i, o⟩ ++ s.declarations [o.x] ++ s.flattenNest ⟨i, o⟩ := by
  simp only [flatten, bind_eq_ok, pure_eq_ok, discard_eq_ok, Layer.inputFor, hi, shape_eq_ok hi ho]
  constructor
  · rintro ⟨_, -, _, ⟨rfl, hw⟩, rfl⟩
    exact ⟨hw, rfl⟩
  · rintro ⟨hw, rfl⟩
    exact ⟨(), ⟨i, rfl⟩, _, ⟨rfl, hw⟩, rfl⟩

theorem dense_eq_ok (hi : s.layer.input = some i) (ho : s.layer.output = some o) :
    s.dense = .ok code ↔ s.layer.Writable ∧
      code = s.header ⟨i, o⟩ ++ s.declarations [o.x] ++ s.denseNest ⟨i, o⟩ := by
  simp only [dense, bind_eq_ok, pure_eq_ok, shape_eq_ok hi ho]
  constructor
  · rintro ⟨_, ⟨rfl, hw⟩, rfl⟩
    exact ⟨hw, rfl⟩
  · rintro ⟨hw, rfl⟩
    exact ⟨_, ⟨rfl, hw⟩, rfl⟩

end Codes

theorem Emitted.code_cases (pos : ∀ n, P n → 0 < n) (h : s.Emitted P g) {code : List Tree} (hcode : s.code = .ok code) :
    s.layer.Writable ∧ ∃ body, s.Body g body ∧
      code = s.header ⟨g.input, g.output⟩ ++ s.declarations (s.layer.writtenDims g.output) ++ body := by
  obtain ⟨stride, hi, ho, -, hform⟩ := h.complete
  unfold Site.code at hcode
  cases hf : s.layer.form with
  | conv f k p =>
    have hk : s.layer.kind = .conv := by rw [Layer.kind, hf, Form.kind]
    obtain ⟨n, -, hs⟩ := isConv_of_complete pos h.complete h.mem hk
    obtain ⟨acc, hsup, hplain⟩ := h.order hk
    obtain ⟨a, o, ha, hoperands, hconv⟩ := conv_eq_ok hs hsup hplain
    rw [hk] at hcode
    obtain ⟨hw, rfl⟩ := (hconv code).mp hcode
    rw [Layer.writtenDims, hk]
    exact ⟨hw, _, .conv hs hsup hplain ha hoperands, rfl⟩
  | pooling t channels k =>
    have hk : s.layer.kind = .pooling := by rw [Layer.kind, hf, Form.kind]
    rw [hf] at hform
    obtain ⟨rfl, hz, n, rfl, -, hwindow⟩ := hform
    rw [hk] at hcode
    obtain ⟨hw, seed, hseed, hfits, rfl⟩ := (pooling_eq_ok hi ho).mp hcode
    rw [Layer.writtenDims, hk]
    exact ⟨hw, _, .pooling hf stride hz hwindow hseed hfits, rfl⟩
  | flatten nodes =>
    have hk : s.layer.kind = .flatten := by rw [Layer.kind, hf, Form.kind]
    rw [hf] at hform
    rw [hk] at hcode
    obtain ⟨hw, rfl⟩ := (flatten_eq_ok hi ho).mp hcode
    rw [Layer.writtenDims, hk]
    exact ⟨hw, _, .flatten hf hform.2, rfl⟩
  | dense nodes =>
    have hk : s.layer.kind = .dense := by rw [Layer.kind, hf, Form.kind]
    rw [hk] at hcode
    obtain ⟨hw, rfl⟩ := (dense_eq_ok hi ho).mp hcode
    rw [Layer.writtenDims, hk]
    exact ⟨hw, _, .dense hf, rfl⟩

theorem Emitted.code_returns (pos : ∀ n, P n → 0 < n) (h : s.Emitted P g) (hw : s.layer.Writable)
    (hseed : ∀ seed, poolingSeed s.net s.number s.layer.location s.config = .ok seed → Decimal.Fits seed) :
    ∃ code, s.code = .ok code := by
  obtain ⟨-, hi, ho, -, -⟩ := h.complete
  unfold Site.code
  cases hk : s.layer.kind with
  | conv =>
    obtain ⟨n, -, hs⟩ := isConv_of_complete pos h.complete h.mem hk
    obtain ⟨acc, hsup, hplain⟩ := h.order hk
    obtain ⟨a, o, -, -, hconv⟩ := conv_eq_ok hs hsup hplain
    exact ⟨_, (hconv _).mpr ⟨hw, rfl⟩⟩
  | pooling =>
    cases hf : s.layer.form with
    | pooling t channels k =>
      obtain ⟨-, -, seed, hok⟩ := h.admits.pooling t channels k hf
      exact ⟨_, (pooling_eq_ok hi ho).mpr ⟨hw, seed, hok, hseed seed hok, rfl⟩⟩
    | conv _ _ _ | flatten _ | dense _ => simp [Layer.kind, hf, Form.kind] at hk
  | flatten => exact ⟨_, (flatten_eq_ok hi ho).mpr ⟨hw, rfl⟩⟩
  | dense => exact ⟨_, (dense_eq_ok hi ho).mpr ⟨hw, rfl⟩⟩

end Site

/-! ## Sites of an accepted network -/

namespace Forward

theorem exists_site (net : Network) (c : Config) (orders : List LoopOrder) (profile : String) (l : Layer) (n : Nat) :
    ∃ placement, ∀ s, site net c orders profile l n = .ok s ↔ s = {
      net, number := n, layer := l, config := c, order := orders[n - 1]?.getD (.canonical l.kind)
      isLocal := placement } := by
  obtain ⟨place, hplace⟩ : ∃ place, bufferPlacement n profile c.bufferLocation = .ok place := by
    unfold bufferPlacement
    rw [if_neg (by omega)]
    split <;> exact ⟨_, rfl⟩
  refine ⟨place == localPlacement, fun s => ?_⟩
  simp only [site, hplace, bind_eq_ok, pure_eq_ok, Except.ok.injEq, exists_eq_left']
  exact eq_comm

theorem site_fields {net : Network} {c : Config} {orders : List LoopOrder} {profile : String} {l : Layer} {n : Nat}
    {s : Site} (h : site net c orders profile l n = .ok s) :
    s.net = net ∧ s.number = n ∧ s.layer = l ∧ s.config = c := by
  obtain ⟨_, hsite⟩ := exists_site net c orders profile l n
  rw [(hsite s).mp h]
  exact ⟨rfl, rfl, rfl, rfl⟩

end Forward

theorem Compilation.Accepts.order {r : Compilation} {c : Config} {net : Network} {emit : Bool}
    (ha : r.Accepts c net emit) {l : Layer} {n : Nat} (hmem : (l, n) ∈ net.numbered) :
    ∃ o, r.orders[n - 1]? = some o ∧ o.Fits l.kind ∧ (l.kind = .conv → o.Admissible r.config) := by
  obtain ⟨hn, hl⟩ := Network.mem_numbered_iff.mp hmem
  obtain ⟨hlt, rfl⟩ := List.getElem?_eq_some_iff.mp hl
  have hlt' : n - 1 < r.orders.length := ha.fits.length_eq ▸ hlt
  have hnum : net.numbered[n - 1]? = some (net.layers[n - 1], n) := by
    simp [Network.numbered, Nat.add_sub_cancel' hn, hlt]
  have hord : r.orders[n - 1]? = some r.orders[n - 1] := List.getElem?_eq_getElem hlt'
  refine ⟨_, hord, ha.fits.get hlt hlt', fun hk => ha.valid.orders _ n _ ?_ hk⟩
  exact List.mem_of_getElem? (List.getElem?_zip_eq_some.mpr ⟨hnum, hord⟩)

theorem Compilation.Accepts.emitted {r : Compilation} {c : Config} {net : Network} {emit : Bool} {P : Int → Prop}
    (ha : r.Accepts c net emit) (hcomplete : ∀ l ∈ net.layers, ∃ g, l.Complete P g) {l : Layer} {n : Nat}
    (hmem : (l, n) ∈ net.numbered) {s : Site} (hs : Forward.site net r.config r.orders r.profile l n = .ok s) :
    ∃ g, s.Emitted P g := by
  obtain ⟨_, hsite⟩ := Forward.exists_site net r.config r.orders r.profile l n
  obtain rfl := (hsite s).mp hs
  obtain ⟨g, hg⟩ := hcomplete l (Network.mem_layers hmem)
  obtain ⟨o, ho, hfits, hadm⟩ := ha.order hmem
  refine ⟨g, hmem, hg, ha.valid.layers l n hmem, fun hk => ?_⟩
  rw [hk] at hfits
  obtain ⟨k, hsup⟩ := LoopOrder.supported_of_fits hfits
  rw [ho]
  refine ⟨k, hsup, ?_⟩
  have haccumulator := LoopOrder.accumulator?_of_supported hsup
  have hquantized : r.config.quantized = true → k = .scalar := by
    obtain ⟨k', hk', hscalar⟩ := hadm hk
    cases haccumulator.symm.trans hk'
    exact hscalar
  have hcapture : r.config.capture = true → k = .scalar := by
    intro hc
    -- Values are stored under canonical orders only.
    obtain rfl := hfits.eq_canonical (ha.canonical hc o (List.mem_of_getElem? ho))
    have hscalar := LoopOrder.accumulator?_of_supported LoopOrder.supported_canonical
    exact Option.some.inj (haccumulator.symm.trans hscalar)
  by_cases hscalar : k = .scalar
  · exact .inr hscalar
  · left
    simp [Site.scalarOnly, mt hquantized hscalar, mt hcapture hscalar]

end LayerLoops
