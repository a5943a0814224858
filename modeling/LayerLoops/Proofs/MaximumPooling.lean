import LayerLoops.Proofs.Extents
import LayerLoops.Proofs.StoredValues
import Mathlib.Order.Bounds.Basic

/-! # Maximum pooling

The loops of a pooling layer keep a running maximum over each window, which starts from the seed. So what they store
at an output position is the greatest of the seed and the values of its window, and where the seed lies below these
values, it is the greatest of the values. A vector cannot be pooled: the loops subscript their input as a volume. -/

namespace LayerLoops

open Code

namespace Site

/-- The layer pools windows of side `n` with geometry `g`. -/
structure IsPooling (s : Site) (g : Geometry) (n : Int) : Prop where
  number_pos : 0 < s.number
  form : ∃ t, s.layer.form = .pooling t (some g.output.z) ⟨some n, some n⟩
  stride : s.layer.stride = some g.stride
  input : s.layer.input = some g.input
  output : s.layer.output = some g.output
  depth : g.output.z = g.input.z
  side_pos : 0 < n
  window : g.IsValid n

/-- The values of the window at an output position. -/
def window (s : Site) (g : Geometry) (n : Int) (σ : Memory) (x y z : Int) : Set ℚ :=
  {v | ∃ i, 0 ≤ i ∧ i < n ∧ ∃ j, 0 ≤ j ∧ j < n ∧ σ.cells s.input [x * g.stride + i, y * g.stride + j, z] = some v}

/-- While the loops of a pooling run on `σ₀`, its input stays as it is, and at the positions in `T` the greatest of
the seed and the values of the window has been stored. -/
structure Pooled (s : Site) (g : Geometry) (n : Int) (seed : ℚ) (σ₀ : Memory) (T : Set (List Int)) (σ : Memory) :
    Prop where
  input : σ.extents s.input = σ₀.extents s.input ∧ σ.cells s.input = σ₀.cells s.input
  output : σ.extents s.output = some g.output.dims
  stored : ∀ x y z, [x, y, z] ∈ T → ∃ m, σ.cells s.output [x, y, z] = some m ∧
    IsGreatest (insert seed (s.window g n σ₀ x y z)) m

/-- The running maximum is the greatest of the seed and the values in `S`. -/
structure Running (s : Site) (g : Geometry) (n : Int) (seed : ℚ) (σ₀ : Memory) (T : Set (List Int)) (S : Set ℚ)
    (σ : Memory) : Prop where
  pooled : s.Pooled g n seed σ₀ T σ
  cell : σ.extents .cell = some []
  maximum : σ.extents .maximum = some []
  greatest : ∃ m, σ.cells .maximum [] = some m ∧ IsGreatest (insert seed S) m

variable {μ : Multipliers} {s : Site} {g : Geometry} {n : Int} {seed : ℚ} {σ₀ σ : Memory} {T : Set (List Int)}
  {S : Set ℚ} {ρ : Scope} {x y z i j : Int}

section Buffers

/-- The two numbers that are kept for an output element. -/
inductive IsScratch : Buffer → Prop
  | cell : IsScratch .cell
  | maximum : IsScratch .maximum

theorem IsScratch.ne_input {b : Buffer} (hb : IsScratch b) (s : Site) : s.input ≠ b := by
  cases hb <;> rcases s.input_cases with h | h <;> simp [h]

theorem IsScratch.ne_output {b : Buffer} (hb : IsScratch b) (s : Site) : s.output ≠ b := by
  cases hb <;> rcases s.output_cases with h | h <;> simp [h]

theorem input_ne_output (h : 0 < s.number) : s.input ≠ s.output := fun heq => not_writes_input h (.inr (.inr heq))

theorem Pooled.put_scratch (h : s.Pooled g n seed σ₀ T σ) {b : Buffer} (hb : IsScratch b) (js : List Int) (v : ℚ) :
    s.Pooled g n seed σ₀ T (σ.put b js v) := by
  refine ⟨⟨h.input.1, ?_⟩, h.output, fun x y z hT => ?_⟩
  · rw [Memory.cells_put_of_ne σ (hb.ne_input s)]
    exact h.input.2
  · rw [Memory.cells_put_of_ne σ (hb.ne_output s)]
    exact h.stored x y z hT

theorem Pooled.declare_scratch (h : s.Pooled g n seed σ₀ T σ) {b : Buffer} (hb : IsScratch b) (dims : List Int) :
    s.Pooled g n seed σ₀ T (σ.declare b dims) := by
  refine ⟨?_, ?_, fun x y z hT => ?_⟩
  · rw [Memory.extents_declare_of_ne σ (hb.ne_input s), Memory.cells_declare_of_ne σ (hb.ne_input s)]
    exact h.input
  · rw [Memory.extents_declare_of_ne σ (hb.ne_output s)]
    exact h.output
  · rw [Memory.cells_declare_of_ne σ (hb.ne_output s)]
    exact h.stored x y z hT

theorem Pooled.put_output (h : s.Pooled g n seed σ₀ T σ) (hpos : 0 < s.number) {m : ℚ}
    (hm : IsGreatest (insert seed (s.window g n σ₀ x y z)) m) :
    s.Pooled g n seed σ₀ (T ∪ {[x, y, z]}) (σ.put s.output [x, y, z] m) := by
  refine ⟨⟨h.input.1, ?_⟩, h.output, fun x' y' z' hT => ?_⟩
  · rw [Memory.cells_put_of_ne σ (input_ne_output hpos)]
    exact h.input.2
  · rw [Memory.cells_put_self]
    split
    · rename_i heq
      cases heq
      exact ⟨m, rfl, hm⟩
    · rename_i hne
      exact h.stored x' y' z' (hT.resolve_right hne)

end Buffers

/-! ## One cell of a window -/

theorem isGreatest_add {m q : ℚ} (h : IsGreatest (insert seed S) m) :
    IsGreatest (insert seed (S ∪ {q})) (max q m) := by
  have hset : insert seed (S ∪ {q}) = insert q (insert seed S) := by
    rw [Set.union_singleton, Set.insert_comm]
  rw [hset]
  exact h.insert q

theorem Running.fetch (h : s.Running g n seed σ₀ T S σ) (q : ℚ) :
    s.Running g n seed σ₀ T S (σ.put .cell [] q) := by
  refine ⟨h.pooled.put_scratch .cell [] q, h.cell, h.maximum, ?_⟩
  rw [Memory.cells_put_of_ne σ (by decide)]
  exact h.greatest

theorem keepMaximum_run (h : s.Running g n seed σ₀ T S σ) {q : ℚ} (hq : σ.cells .cell [] = some q) :
    ∃ σ', Stmt.keepMaximum.run μ σ ρ = some σ' ∧ s.Running g n seed σ₀ T (S ∪ {q}) σ' := by
  obtain ⟨m, hm, hgreatest⟩ := h.greatest
  have hcell : σ.read ρ ⟨.cell, []⟩ = some q := Memory.read_eq (.nil ρ) h.cell hq
  have hmaximum : σ.read ρ ⟨.maximum, []⟩ = some m := Memory.read_eq (.nil ρ) h.maximum hm
  have hnext := isGreatest_add (q := q) hgreatest
  simp only [Stmt.run, hcell, hmaximum, Option.bind_eq_bind, Option.bind_some]
  by_cases hlt : m < q
  · refine ⟨σ.put .maximum [] q, ?_, h.pooled.put_scratch .maximum [] q, h.cell, h.maximum, q, ?_, ?_⟩
    · rw [if_pos hlt]
      exact Memory.write_eq q (.nil ρ) h.maximum
    · rw [Memory.cells_put_self, if_pos rfl]
    · rwa [max_eq_left hlt.le] at hnext
  · refine ⟨σ, if_neg hlt, h.pooled, h.cell, h.maximum, m, hm, ?_⟩
    rwa [max_eq_right (not_lt.mp hlt)] at hnext

theorem window_marks (hs : s.IsPooling g n) (hin : σ₀.Provides s.input g.input.dims) (hat : OutputAt ρ g x y z)
    (hi : ρ.Holds .kernelX i n) (hj : ρ.Holds .kernelY j n) :
    Marks μ (actionsAll [.stmt (.assign ⟨.cell, []⟩ (.element (s.windowElement .outputZ))), .stmt .keepMaximum] ρ)
      (s.Running g n seed σ₀ T)
      {v | σ₀.cells s.input [x * g.stride + i, y * g.stride + j, z] = some v} := by
  have hz : ρ.Holds .outputZ z g.input.z := hs.depth ▸ hat.z
  have hl := located_window hs.stride hs.window hat.x hat.y hz hi hj
  obtain ⟨q, hq⟩ : ∃ q, σ₀.cells s.input [x * g.stride + i, y * g.stride + j, z] = some q :=
    Option.isSome_iff_exists.mp (hin.2 _ hl.2)
  have hset : {v | σ₀.cells s.input [x * g.stride + i, y * g.stride + j, z] = some v} = {q} := by
    ext v
    rw [hq]
    exact ⟨fun h => (Option.some.inj h).symm, fun h => congrArg some h.symm⟩
  rw [hset]
  intro S σ hσ
  have hread : σ.read ρ (s.windowElement .outputZ) = some q :=
    Memory.read_eq hl (hσ.pooled.input.1.trans hin.1) (by rw [windowElement, hσ.pooled.input.2, hq])
  have hfetch : (Stmt.assign ⟨.cell, []⟩ (.element (s.windowElement .outputZ))).run μ σ ρ =
      some (σ.put .cell [] q) := by
    simp only [Stmt.run, Term.value?, hread, Option.bind_eq_bind, Option.bind_some]
    exact Memory.write_eq q (.nil ρ) hσ.cell
  obtain ⟨σ', hkeep, hσ'⟩ := keepMaximum_run (μ := μ) (ρ := ρ) (hσ.fetch q)
    (by rw [Memory.cells_put_self, if_pos rfl])
  refine ⟨σ', ?_, hσ'⟩
  change ((Stmt.assign ⟨.cell, []⟩ (.element (s.windowElement .outputZ))).run μ σ ρ).bind
    (fun τ => (Stmt.keepMaximum.run μ τ ρ).bind some) = some σ'
  rw [hfetch, Option.bind_some, hkeep, Option.bind_some]

/-! ## One output position -/

namespace IsPooling

theorem kind (hs : s.IsPooling g n) : s.layer.kind = .pooling := by
  obtain ⟨t, hf⟩ := hs.form
  rw [Layer.kind, hf, Form.kind]

theorem index (hs : s.IsPooling g n) (shape : Shape) (a : Axis) : (s.loop shape a).index = a.index .pooling := by
  rw [Site.loop, hs.kind]

theorem bound (hs : s.IsPooling g n) (a : Axis) :
    (s.loop ⟨g.input, g.output⟩ a).bound = some (extentOf g n a) := by
  obtain ⟨t, hf⟩ := hs.form
  cases a <;> simp [Site.loop, Site.bound, hs.kind, hf, Form.kernel, extentOf]

end IsPooling

def windowLoops (s : Site) (shape : Shape) : List Tree :=
  nest [s.loop shape .kx] [.loop (s.loop shape .ky) .braced
    [.stmt (.assign ⟨.cell, []⟩ (.element (s.windowElement .outputZ))), .stmt .keepMaximum]]

def pooledStores (s : Site) : List Stmt :=
  .assign ⟨s.output, outputSubscripts⟩ (.element ⟨.maximum, []⟩) :: if s.config.capture then
    [.store s.number "LayerOutput" ⟨.maximum, []⟩ (.index .outputX) (.index .outputY) (.index .outputZ)] else []

def poolingBody (s : Site) (shape : Shape) (seed : Int) : List Tree :=
  [Tree.stmt (.declareCells s.outputType), .blank, .stmt (.assign ⟨.maximum, []⟩ (.number seed))] ++
    s.windowLoops shape ++ Tree.ofStmts s.pooledStores

theorem poolingNest_eq (s : Site) (shape : Shape) (seed : Int) :
    s.poolingNest shape seed =
      nest [s.loop shape .ox, s.loop shape .oy] [.loop (s.loop shape .oz) .braced (s.poolingBody shape seed)] := by
  simp only [poolingNest, poolingBody, pooledStores, windowLoops, windowElement, Tree.ofStmts, List.map_cons,
    List.append_assoc, List.singleton_append]

theorem windowLoops_marks (hs : s.IsPooling g n) (hin : σ₀.Provides s.input g.input.dims) (hat : OutputAt ρ g x y z) :
    Marks μ (actionsAll (s.windowLoops ⟨g.input, g.output⟩) ρ) (s.Running g n seed σ₀ T) (s.window g n σ₀ x y z) := by
  refine nest_marks (hs.index _ .kx) (hs.bound .kx) rfl fun i hi0 hi => ?_
  refine Marks.braced (hs.index _ .ky) (hs.bound .ky) fun j hj0 hj => ?_
  have hat' := (hat.set (i := .kernelX) (by decide) (some i)).set (i := .kernelY) (by decide) (some j)
  exact window_marks hs hin hat' ((ρ.holds_set .kernelX hi0 hi).set_of_ne (by decide) _)
    (Scope.holds_set _ .kernelY hj0 hj)

theorem start_ensures (seed : Int) (ρ : Scope) :
    Ensures μ (actionsAll [.stmt (.declareCells s.outputType), .blank,
        .stmt (.assign ⟨.maximum, []⟩ (.number seed))] ρ)
      (s.Pooled g n seed σ₀ T) (s.Running g n seed σ₀ T ∅) := by
  intro σ hσ
  let cleared := (σ.declare .cell []).declare .maximum []
  have hmaximum : cleared.extents .maximum = some [] := Memory.extents_declare_self _ _ _
  have hcell : cleared.extents .cell = some [] := rfl
  refine ⟨cleared.put .maximum [] seed, ?_, ?_, hcell, hmaximum, seed, ?_, ?_⟩
  · change (cleared.write ρ ⟨.maximum, []⟩ seed).bind some = _
    rw [Memory.write_eq _ (.nil ρ) hmaximum, Option.bind_some]
  · exact ((hσ.declare_scratch .cell []).declare_scratch .maximum []).put_scratch .maximum [] seed
  · rw [Memory.cells_put_self, if_pos rfl]
  · rw [insert_empty_eq]
    exact isGreatest_singleton

theorem pooledStores_ensures (hpos : 0 < s.number) (hat : OutputAt ρ g x y z) :
    Ensures μ (actionsAll (Tree.ofStmts s.pooledStores) ρ)
      (s.Running g n seed σ₀ T (s.window g n σ₀ x y z)) (s.Pooled g n seed σ₀ (T ∪ {[x, y, z]})) := by
  have hout : Located ρ outputSubscripts g.output.dims [x, y, z] :=
    .index hat.x (.index hat.y (.index hat.z (.nil ρ)))
  rw [actionsAll_ofStmts (by unfold pooledStores; intro st hst; grind)]
  intro σ hσ
  obtain ⟨m, hm, hgreatest⟩ := hσ.greatest
  have hread : σ.read ρ ⟨.maximum, []⟩ = some m := Memory.read_eq (.nil ρ) hσ.maximum hm
  refine ⟨σ.put s.output [x, y, z] m, ?_, hσ.pooled.put_output hpos hgreatest⟩
  have hassign : (Stmt.assign ⟨s.output, outputSubscripts⟩ (.element ⟨.maximum, []⟩)).run μ σ ρ =
      some (σ.put s.output [x, y, z] m) := by
    simp only [Stmt.run, Term.value?, hread, Option.bind_eq_bind, Option.bind_some]
    exact Memory.write_eq m hout hσ.pooled.output
  have hafter : (σ.put s.output [x, y, z] m).read ρ ⟨.maximum, []⟩ = some m := by
    refine Memory.read_eq (.nil ρ) hσ.maximum ?_
    rw [Memory.cells_put_of_ne σ (IsScratch.maximum.ne_output s).symm]
    exact hm
  have hstore : (Stmt.store s.number "LayerOutput" ⟨.maximum, []⟩ (.index .outputX) (.index .outputY)
      (.index .outputZ)).run μ (σ.put s.output [x, y, z] m) ρ = some (σ.put s.output [x, y, z] m) := by
    rw [Stmt.run, hafter, Option.map_some]
  cases hc : s.config.capture <;> simp [pooledStores, hc, runAll, Action.run, hassign, hstore]

theorem poolingBody_marks (hs : s.IsPooling g n) (hin : σ₀.Provides s.input g.input.dims) (seed : Int)
    (hat : OutputAt ρ g x y z) :
    Marks μ (actionsAll (s.poolingBody ⟨g.input, g.output⟩ seed) ρ) (s.Pooled g n seed σ₀) {[x, y, z]} := by
  intro T
  have hwindow : Ensures μ (actionsAll (s.windowLoops ⟨g.input, g.output⟩) ρ) (s.Running g n seed σ₀ T ∅)
      (s.Running g n seed σ₀ T (s.window g n σ₀ x y z)) := by
    rw [← Set.empty_union (s.window g n σ₀ x y z)]
    exact windowLoops_marks hs hin hat ∅
  rw [poolingBody, actionsAll_append, actionsAll_append]
  exact ((start_ensures seed ρ).append hwindow).append (pooledStores_ensures hs.number_pos hat)

/-! ## The whole code -/

theorem poolingNest_marks (hs : s.IsPooling g n) (hin : σ₀.Provides s.input g.input.dims) (seed : Int) (ρ : Scope) :
    Marks μ (actionsAll (s.poolingNest ⟨g.input, g.output⟩ seed) ρ) (s.Pooled g n seed σ₀)
      {js | ∃ x, 0 ≤ x ∧ x < g.output.x ∧ js ∈ {js | ∃ y, 0 ≤ y ∧ y < g.output.y ∧
        js ∈ {js | ∃ z, 0 ≤ z ∧ z < g.output.z ∧ js ∈ ({[x, y, z]} : Set (List Int))}}} := by
  rw [poolingNest_eq]
  refine nest_marks (hs.index _ .ox) (hs.bound .ox) rfl fun x hx0 hx => ?_
  refine nest_marks (hs.index _ .oy) (hs.bound .oy) rfl fun y hy0 hy => ?_
  refine Marks.braced (hs.index _ .oz) (hs.bound .oz) fun z hz0 hz => ?_
  refine poolingBody_marks hs hin seed ⟨?_, ?_, Scope.holds_set _ _ hz0 hz⟩
  · exact ((ρ.holds_set .outputX hx0 hx).set_of_ne (by decide) _).set_of_ne (by decide) _
  · exact (Scope.holds_set _ .outputY hy0 hy).set_of_ne (by decide) _

theorem IsPooling.stores (hs : s.IsPooling g n) (hin : σ.Provides s.input g.input.dims)
    (hsized : s.Sized g.output.dims σ) (shape : Shape) (seed : Int) (ρ : Scope) :
    ∃ σ', runAll μ (actionsAll (s.header shape ++ s.declarations g.output.dims ++
        s.poolingNest ⟨g.input, g.output⟩ seed) ρ) σ = some σ' ∧
      ∀ x y z, 0 ≤ x → x < g.output.x → 0 ≤ y → y < g.output.y → 0 ≤ z → z < g.output.z →
        ∃ m, σ'.cells s.output [x, y, z] = some m ∧ IsGreatest (insert (seed : ℚ) (s.window g n σ x y z)) m := by
  have hopened : s.Pooled g n seed σ ∅ (s.opened g.output.dims σ) :=
    ⟨opened_frame (not_writes_input hs.number_pos), opened_extents hsized, fun _ _ _ h => absurd h (by simp)⟩
  rw [actionsAll_append, runAll_append, runAll_prelude, Option.bind_some]
  obtain ⟨σ', hrun, hσ'⟩ := poolingNest_marks hs hin seed _ ∅ _ hopened
  refine ⟨σ', hrun, fun x y z hx0 hx hy0 hy hz0 hz => hσ'.stored x y z (.inr ?_)⟩
  exact ⟨x, hx0, hx, y, hy0, hy, z, hz0, hz, rfl⟩

theorem IsPooling.within_window (hs : s.IsPooling g n) (hx : 0 ≤ x ∧ x < g.output.x) (hy : 0 ≤ y ∧ y < g.output.y)
    (hz : 0 ≤ z ∧ z < g.output.z) (hi : 0 ≤ i ∧ i < n) (hj : 0 ≤ j ∧ j < n) :
    Within g.input.dims [x * g.stride + i, y * g.stride + j, z] := by
  have hxs := Extent.window_le_of_lt_valid g.stride_pos (hs.window.1 ▸ hx.2)
  have hys := Extent.window_le_of_lt_valid g.stride_pos (hs.window.2 ▸ hy.2)
  have hx0 := Int.mul_nonneg hx.1 g.stride_pos.le
  have hy0 := Int.mul_nonneg hy.1 g.stride_pos.le
  have hz' := hs.depth ▸ hz
  exact .cons (by omega) (.cons (by omega) (.cons hz' .nil))

theorem IsPooling.isGreatest_window (hs : s.IsPooling g n) (hin : σ.Provides s.input g.input.dims)
    (hx : 0 ≤ x ∧ x < g.output.x) (hy : 0 ≤ y ∧ y < g.output.y) (hz : 0 ≤ z ∧ z < g.output.z)
    (hseed : ∀ v ∈ s.window g n σ x y z, seed ≤ v) {m : ℚ}
    (hm : IsGreatest (insert seed (s.window g n σ x y z)) m) : IsGreatest (s.window g n σ x y z) m := by
  have hside : (0 : Int) ≤ 0 ∧ 0 < n := ⟨le_rfl, hs.side_pos⟩
  -- The window has a first cell, and its value is at least the seed.
  have hfirst : σ.entry s.input [x * g.stride + 0, y * g.stride + 0, z] ∈ s.window g n σ x y z :=
    ⟨0, le_rfl, hs.side_pos, 0, le_rfl, hs.side_pos, hin.cells_eq (hs.within_window hx hy hz hside hside)⟩
  refine ⟨?_, fun v hv => hm.2 (Set.mem_insert_of_mem seed hv)⟩
  rcases hm.1 with rfl | hmem
  · have hle := hm.2 (Set.mem_insert_of_mem m hfirst)
    rwa [le_antisymm (hseed _ hfirst) hle]
  · exact hmem

theorem IsPooling.mem_poolingNest (hs : s.IsPooling g n) (seed : Int) (ρ : Scope) :
    ∃ ρ', .perform ρ' (.assign ⟨.cell, []⟩ (.element (s.windowElement .outputZ))) ∈
      actionsAll (s.poolingNest ⟨g.input, g.output⟩ seed) ρ := by
  obtain ⟨hx, hy, hz⟩ := g.output_pos
  refine ⟨((((ρ.set .outputX (some 0)).set .outputY (some 0)).set .outputZ (some 0)).set .kernelX (some 0)).set
    .kernelY (some 0), ?_⟩
  rw [poolingNest_eq]
  refine mem_actionsAll_nest (hs.index _ .ox) (hs.bound .ox) rfl le_rfl hx ?_
  refine mem_actionsAll_nest (hs.index _ .oy) (hs.bound .oy) rfl le_rfl hy ?_
  refine mem_actionsAll_braced (hs.index _ .oz) (hs.bound .oz) le_rfl hz ?_
  rw [poolingBody, List.append_assoc]
  refine mem_actionsAll_append_right (by simp [Tree.scope]) ?_
  rw [actionsAll_append]
  refine List.mem_append_left _ ?_
  refine mem_actionsAll_nest (hs.index _ .kx) (hs.bound .kx) rfl le_rfl hs.side_pos ?_
  exact mem_actionsAll_braced (hs.index _ .ky) (hs.bound .ky) le_rfl hs.side_pos List.mem_cons_self

theorem IsPooling.stuck_on_vector (hs : s.IsPooling g n) {d : Int} (hd : σ.extents s.input = some [d]) (shape : Shape)
    (seed : Int) (ρ : Scope) : runAll μ (actionsAll (s.header shape ++ s.declarations g.output.dims ++
      s.poolingNest ⟨g.input, g.output⟩ seed) ρ) σ = none := by
  rw [actionsAll_append, runAll_append, runAll_prelude, Option.bind_some]
  obtain ⟨ρ', hmem⟩ := hs.mem_poolingNest seed (scopeAll ρ (s.header shape ++ s.declarations g.output.dims))
  refine Option.eq_none_iff_forall_ne_some.mpr fun σ' hrun => ?_
  -- The input keeps its one extent, so that no memory lets the cell be read.
  refine runAll_establishes (I := fun τ => τ.extents s.input = some [d]) (W := fun _ => False) ?_
    (fun _ _ _ _ _ h _ => h) hmem ?_ ((opened_frame (not_writes_input hs.number_pos)).1.trans hd) hrun
  · intro a ha τ τ' hτ ha'
    obtain ⟨ρ'', st, hst, ha'⟩ := exists_stmt_of_run ha ha'
    refine (Stmt.extents_run ha' fun e he heq => ?_).trans hτ
    have hdeclared : e ∈ declaredIn (s.poolingNest ⟨g.input, g.output⟩ seed) := List.mem_flatMap.mpr ⟨st, hst, he⟩
    rw [declaredIn_poolingNest] at hdeclared
    have hscratch : IsScratch e.1.buffer := by
      rcases List.mem_cons.mp hdeclared with rfl | hdeclared
      · exact .cell
      · cases List.mem_singleton.mp hdeclared
        exact .maximum
    exact hscratch.ne_input s heq.symm
  · intro τ τ' hτ ha'
    obtain ⟨v, hv, -⟩ := Option.bind_eq_some_iff.mp ha'
    have hlength := Memory.length_of_read hv hτ
    simp [windowElement] at hlength

end Site

end LayerLoops
