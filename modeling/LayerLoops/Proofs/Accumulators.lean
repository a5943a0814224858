import LayerLoops.Proofs.Convolution

/-! # Accumulators

The three ways of keeping sums all store the same results: the loops between the sum and its output position
only decide how many sums are kept at a time. -/

namespace LayerLoops

open Code Finset

namespace Site

/-! ## One sum for each output element -/

section Scalar

variable {μ : Multipliers} {s : Site} {g : Geometry} {n : Int} {sdims : List Int} {v c : List Int → ℚ}
  {σ₀ : Memory} {T : Set (List Int)} {ρ : Scope} {x y z : Int} {p : List Int}

theorem channels_adds (hs : s.IsConv g n) (hr : s.Ready g n σ₀) (hp : s.Plain)
    {o : Operands} (ho : s.convOperands ⟨g.input, g.output⟩ = .ok o) {sum : Element} {dims : List Int}
    (hb : sum.buffer = .sum s.number) (hat : OutputAt ρ g x y z)
    (hsum : ∀ ρ', OutputAt ρ' g x y z → Located ρ' sum.subscripts sdims p) :
    Adds μ (actionsAll (s.reduction [s.loop ⟨g.input, g.output⟩ .iz, s.loop ⟨g.input, g.output⟩ .kx]
        (s.loop ⟨g.input, g.output⟩ .ky) sum o) ρ) (s.Keeping dims v σ₀ T sdims)
      (Pi.single p ((s.convolution g n σ₀).total x y z)) := by
  rw [Convolution.total, single_sum]
  refine nest_adds (hs.index _ .iz) (hs.bound .iz) (isSingle_multiplyAdd s _ sum o) fun c hc => ?_
  exact window_adds hs hr hp ho hb (hat.set (by decide) _) (ρ.holds_set .inputZ (Int.natCast_nonneg c) hc) hsum

variable (μ) in
theorem requantize_keeps (hs : s.IsConv g n) (hr : s.Ready g n σ₀) (hat : OutputAt ρ g x y z)
    (hT : [x, y, z] ∈ T) :
    Ensures μ (actionsAll (Tree.ofStmts (s.requantize outputSubscripts .outputZ)) ρ)
      (s.Storing g.output.dims v σ₀ T) (s.Storing g.output.dims v σ₀ T) := by
  cases hq : s.config.quantized with
  | false =>
    rw [requantize, hq]
    exact Ensures.nil fun _ => id
  | true =>
    have hout : Located ρ outputSubscripts g.output.dims [x, y, z] :=
      .index hat.x (.index hat.y (.index hat.z (.nil ρ)))
    have hrescales : s.rescales = true := by simp [rescales, hq, Layer.weighted, hs.kind, Kind.weighted]
    rw [requantize, hq, if_pos rfl, Tree.ofStmts, List.map_singleton, actionsAll_singleton]
    refine Ensures.perform fun σ hσ => ?_
    have hread {b : Buffer} (hb : b ∈ factorBuffers) := read_factor hs hr hq hb hσ ρ
    have hwide : σ.read ρ ⟨s.base, outputSubscripts⟩ = some (v [x, y, z]) :=
      Memory.read_eq hout hσ.base (hσ.stored _ hT)
    have hscale : σ.read ρ ⟨.weightScales s.number, [.index .outputZ]⟩ =
        some (σ₀.entry (.weightScales s.number) [z]) :=
      hσ.read_eq (not_writes_parameter .weightScales) (hr.scales hq) (.index hat.z (.nil ρ))
    let k := [(s.net.ordinal s.number : Int)]
    let scaled := v [x, y, z] * σ₀.entry .inputScales k * σ₀.entry (.weightScales s.number) [z]
    let q := narrow (scaled / σ₀.entry .outputScales k + σ₀.entry .outputZeroPoints k)
    refine ⟨σ.put s.output [x, y, z] q, ?_, hσ.put_output hrescales _ q⟩
    simp only [Stmt.run, hwide, hscale, hread (b := .inputScales) (by simp [factorBuffers]),
      hread (b := .outputScales) (by simp [factorBuffers]), hread (b := .outputZeroPoints) (by simp [factorBuffers]),
      Option.bind_eq_bind, Option.bind_some]
    exact Memory.write_eq _ hout hσ.output

theorem scalarBody_marks (hs : s.IsConv g n) (hr : s.Ready g n σ₀) (hp : s.Plain)
    {o : Operands} (ho : s.convOperands ⟨g.input, g.output⟩ = .ok o) {l : ConvLoops}
    (hl : l.l3 = .iz ∧ l.l4 = .kx ∧ l.l5 = .ky) (hat : OutputAt ρ g x y z) :
    Marks μ (actionsAll (s.scalarBody ⟨g.input, g.output⟩ l o) ρ)
      (s.Storing g.output.dims (s.result g n σ₀) σ₀) {[x, y, z]} := by
  intro T
  let start : List Int → ℚ := fun _ => (s.convolution g n σ₀).bias z
  let done : List Int → ℚ := start + Pi.single [] ((s.convolution g n σ₀).total x y z)
  have hbias (e e' : Expr) : s.storeBias .outputZ e e' = [] := by simp [storeBias, hp.quiet]
  have hstored (es : List Expr) (e₁ e₂ e₃ : Expr) : s.storeOutput es e₁ e₂ e₃ = [] := by simp [storeOutput, hp.quiet]
  have hset : Ensures μ [.perform ρ (.declare ⟨.sum s.number, .sum s.number, []⟩ true),
      .perform ρ (.assign ⟨.sum s.number, []⟩ (s.initial .outputZ))]
      (s.Storing g.output.dims (s.result g n σ₀) σ₀ T)
      (s.Keeping g.output.dims (s.result g n σ₀) σ₀ T [] start) := by
    refine ((declare_sum [] _).append (set_marks hr rfl (.nil ρ) hat.z ∅)).mono (fun _ => id) ?_
    rintro σ ⟨hst, hset⟩
    refine ⟨hst, hset.summing fun js hjs => .inr ?_⟩
    cases hjs
    rfl
  have hadd : Ensures μ (actionsAll (s.reduction [s.loop ⟨g.input, g.output⟩ .iz, s.loop ⟨g.input, g.output⟩ .kx]
      (s.loop ⟨g.input, g.output⟩ .ky) ⟨.sum s.number, []⟩ o) ρ)
      (s.Keeping g.output.dims (s.result g n σ₀) σ₀ T [] start)
      (s.Keeping g.output.dims (s.result g n σ₀) σ₀ T [] done) :=
    channels_adds hs hr hp ho rfl hat (fun ρ' _ => .nil ρ') start
  have hstore : Ensures μ [.perform ρ (.assign ⟨s.base, outputSubscripts⟩ (s.activate (.element ⟨.sum s.number, []⟩)))]
      (s.Keeping g.output.dims (s.result g n σ₀) σ₀ T [] done)
      (s.Storing g.output.dims (s.result g n σ₀) σ₀ (T ∪ {[x, y, z]})) :=
    (store_marks hat rfl (.nil ρ) (by simp [done, start, Convolution.value]) T).mono (fun _ => id) fun _ h => h.1
  have hmem : [x, y, z] ∈ T ∪ {[x, y, z]} := .inr rfl
  have hscale := requantize_keeps μ (v := s.result g n σ₀) hs hr hat hmem
  have hall := (hset.append hadd).append (hstore.append hscale)
  simp only [scalarBody, hbias, hstored, hl, List.nil_append, List.append_nil]
  rw [actionsAll_append, actionsAll_append]
  exact hall

end Scalar

/-! ## One sum for each element of a spatial axis -/

/-- The output position that is `u` across the axis `a` and `v` along it. -/
def spot (a : Axis) (u v : Int) : Int × Int := if a = .ox then (v, u) else (u, v)

/-- The scope of the output positions that are `u` across the axis `a`. -/
structure RowAt (ρ : Scope) (g : Geometry) (n : Int) (a : Axis) (u z : Int) : Prop where
  across : ρ.Holds ((across a).index .conv) u (extentOf g n (Site.across a))
  z : ρ.Holds .outputZ z g.output.z

section Vector

variable {o : Operands} {w : Int} {μ : Multipliers} {s : Site} {g : Geometry} {n : Int} {v : List Int → ℚ}
  {σ₀ : Memory} {T : Set (List Int)} {ρ : Scope} {a : Axis} {u z : Int}

theorem RowAt.at (ha : a = .ox ∨ a = .oy) (h : RowAt ρ g n a u z) (h0 : 0 ≤ w) (hw : w < extentOf g n a) :
    OutputAt (ρ.set (a.index .conv) (some w)) g (spot a u w).1 (spot a u w).2 z := by
  rcases ha with rfl | rfl
  · exact ⟨ρ.holds_set _ h0 hw, h.across.set_of_ne (by decide) _, h.z.set_of_ne (by decide) _⟩
  · exact ⟨h.across.set_of_ne (by decide) _, ρ.holds_set _ h0 hw, h.z.set_of_ne (by decide) _⟩

theorem RowAt.set_inputZ (ha : a = .ox ∨ a = .oy) (h : RowAt ρ g n a u z) (w : Option Int) :
    RowAt (ρ.set .inputZ w) g n a u z :=
  ⟨h.across.set_of_ne (by rcases ha with rfl | rfl <;> decide) w, h.z.set_of_ne (by decide) w⟩

theorem OutputAt.along (ha : a = .ox ∨ a = .oy) (h : OutputAt ρ g (spot a u w).1 (spot a u w).2 z) :
    Located ρ [.index (a.index .conv)] [extentOf g n a] [w] := by
  rcases ha with rfl | rfl
  · exact .index h.x (.nil ρ)
  · exact .index h.y (.nil ρ)

theorem axis_adds (hs : s.IsConv g n) (hr : s.Ready g n σ₀) (hp : s.Plain)
    (ho : s.convOperands ⟨g.input, g.output⟩ = .ok o) (ha : a = .ox ∨ a = .oy) (hrow : RowAt ρ g n a u z) {c : Int}
    (hc : ρ.Holds .inputZ c g.input.z) (sum : Element) (hb : sum.buffer = .sum s.number) {sdims : List Int}
    (pos : Int → List Int)
    (hsum : ∀ ρ' w, OutputAt ρ' g (spot a u w).1 (spot a u w).2 z → Located ρ' sum.subscripts sdims (pos w)) :
    Adds μ (actionsAll (s.reduction [s.loop ⟨g.input, g.output⟩ a, s.loop ⟨g.input, g.output⟩ .kx]
        (s.loop ⟨g.input, g.output⟩ .ky) sum o) ρ) (s.Keeping g.output.dims v σ₀ T sdims)
      (∑ w ∈ range (extentOf g n a).toNat, Pi.single (pos w) (∑ i ∈ range n.toNat, ∑ j ∈ range n.toNat,
        (s.convolution g n σ₀).term (spot a u w).1 (spot a u w).2 z c i j)) := by
  refine nest_adds (hs.index _ a) (hs.bound a) (isSingle_multiplyAdd s _ _ o) fun w hw => ?_
  have hat := hrow.at ha (Int.natCast_nonneg w) hw
  have hc' := hc.set_of_ne (j := a.index .conv) (by rcases ha with rfl | rfl <;> decide) (some (w : Int))
  exact window_adds hs hr hp ho hb hat hc' fun ρ' => hsum ρ' w

theorem row_adds (hs : s.IsConv g n) (hr : s.Ready g n σ₀) (hp : s.Plain)
    (ho : s.convOperands ⟨g.input, g.output⟩ = .ok o) (ha : a = .ox ∨ a = .oy) (hrow : RowAt ρ g n a u z) :
    Adds μ (actionsAll (s.reduction
        [s.loop ⟨g.input, g.output⟩ .iz, s.loop ⟨g.input, g.output⟩ a, s.loop ⟨g.input, g.output⟩ .kx]
        (s.loop ⟨g.input, g.output⟩ .ky) ⟨.sum s.number, [.index (a.index .conv)]⟩ o) ρ)
      (s.Keeping g.output.dims v σ₀ T [extentOf g n a])
      (∑ c ∈ range g.input.z.toNat, ∑ w ∈ range (extentOf g n a).toNat, Pi.single [(w : Int)]
        (∑ i ∈ range n.toNat, ∑ j ∈ range n.toNat,
          (s.convolution g n σ₀).term (spot a u w).1 (spot a u w).2 z c i j)) := by
  refine nest_adds (hs.index _ .iz) (hs.bound .iz) (isSingle_multiplyAdd s _ _ o) fun c hc => ?_
  exact axis_adds hs hr hp ho ha (hrow.set_inputZ ha _) (ρ.holds_set .inputZ (Int.natCast_nonneg c) hc)
    ⟨.sum s.number, [.index (a.index .conv)]⟩ rfl (fun w => [w]) fun ρ' w h => h.along ha

theorem row_total (k : Convolution) {m : Int} (h0 : 0 ≤ w) (hw : w < m) :
    (∑ c ∈ range k.extent.z.toNat, ∑ w' ∈ range m.toNat, Pi.single [(w' : Int)] (∑ i ∈ range k.side.toNat,
      ∑ j ∈ range k.side.toNat, k.term (spot a u w').1 (spot a u w').2 z c i j) : List Int → ℚ) [w] =
      k.total (spot a u w).1 (spot a u w).2 z := by
  lift w to Nat using h0
  have hmem : w ∈ range m.toNat := by
    rw [mem_range]
    omega
  -- Of the terms of each channel only those of position `w` are added to its sum.
  simp only [Finset.sum_apply, Pi.single_apply, List.cons.injEq, and_true, Nat.cast_inj, sum_ite_eq, hmem, if_true,
    Convolution.total]

theorem within_singleton {m : Int} {js : List Int} (h : Within [m] js) : ∃ w, 0 ≤ w ∧ w < m ∧ js = [w] := by
  simp only [Within, List.forall₂_cons_right_iff, List.forall₂_nil_right_iff] at h
  obtain ⟨w, _, ⟨h0, hw⟩, rfl, rfl⟩ := h
  exact ⟨w, h0, hw, rfl⟩

theorem row_set (hs : s.IsConv g n) (hr : s.Ready g n σ₀) (ha : a = .ox ∨ a = .oy) (hrow : RowAt ρ g n a u z) :
    Ensures μ (actionsAll [.stmt (.declare ⟨.sum s.number, .sum s.number, [some (extentOf g n a)]⟩ true), .blank,
        .loop (s.shortLoop ⟨g.input, g.output⟩ a "I") .sameLine
          [.stmt (.assign ⟨.sum s.number, [.index (a.index .conv)]⟩ (s.initial .outputZ))], .blank] ρ)
      (s.Storing g.output.dims v σ₀ T)
      (s.Keeping g.output.dims v σ₀ T [extentOf g n a] fun _ => (s.convolution g n σ₀).bias z) := by
  have hset : Marks μ ((Tree.loop (s.shortLoop ⟨g.input, g.output⟩ a "I") .sameLine
      [.stmt (.assign ⟨.sum s.number, [.index (a.index .conv)]⟩ (s.initial .outputZ))]).actions ρ)
      (fun P σ => s.Storing g.output.dims v σ₀ T σ ∧ s.Setting [extentOf g n a] ((s.convolution g n σ₀).bias z) P σ)
      {js | ∃ w, 0 ≤ w ∧ w < extentOf g n a ∧ js ∈ ({[w]} : Set (List Int))} :=
    Marks.loop (hs.short_index _ a "I") (hs.short_bound a "I") rfl fun w h0 hw =>
      set_marks hr rfl ((hrow.at ha h0 hw).along ha) (hrow.at ha h0 hw).z
  simp only [actionsAll_cons, actionsAll_nil, actions_stmt, actions_blank, scope_blank, scope_loop, List.nil_append,
    List.append_nil]
  refine ((declare_sum [extentOf g n a] _).append (hset ∅)).mono (fun _ => id) ?_
  rintro σ ⟨hst, hset⟩
  refine ⟨hst, hset.summing fun js hjs => .inr ?_⟩
  obtain ⟨w, h0, hw, rfl⟩ := within_singleton hjs
  exact ⟨w, h0, hw, rfl⟩

theorem row_store (hs : s.IsConv g n) (ha : a = .ox ∨ a = .oy) (hrow : RowAt ρ g n a u z) {c : List Int → ℚ}
    (hc : ∀ w, 0 ≤ w → w < extentOf g n a →
      c [w] = (s.convolution g n σ₀).value (spot a u w).1 (spot a u w).2 z) :
    Marks μ ((Tree.loop (s.shortLoop ⟨g.input, g.output⟩ a "O") .sameLine [.stmt (.assign ⟨s.base, outputSubscripts⟩
        (s.activate (.element ⟨.sum s.number, [.index (a.index .conv)]⟩)))]).actions ρ)
      (fun T => s.Keeping g.output.dims (s.result g n σ₀) σ₀ T [extentOf g n a] c)
      {js | ∃ w, 0 ≤ w ∧ w < extentOf g n a ∧ js ∈ ({[(spot a u w).1, (spot a u w).2, z]} : Set (List Int))} :=
  Marks.loop (hs.short_index _ a "O") (hs.short_bound a "O") rfl fun w h0 hw =>
    store_marks (hrow.at ha h0 hw) rfl ((hrow.at ha h0 hw).along ha) (hc w h0 hw)

theorem vectorBody_marks (hs : s.IsConv g n) (hr : s.Ready g n σ₀) (hp : s.Plain) (hq : s.config.quantized = false)
    (ho : s.convOperands ⟨g.input, g.output⟩ = .ok o) {l : ConvLoops} (hl : l.l2 = .iz ∧ l.l4 = .kx ∧ l.l5 = .ky)
    (h3 : l.l3 = a) (ha : a = .ox ∨ a = .oy) (hrow : RowAt ρ g n a u z) :
    Marks μ (actionsAll (s.vectorBody ⟨g.input, g.output⟩ l o) ρ)
      (s.Storing g.output.dims (s.result g n σ₀) σ₀)
      {js | ∃ w, 0 ≤ w ∧ w < extentOf g n a ∧ js ∈ ({[(spot a u w).1, (spot a u w).2, z]} : Set (List Int))} := by
  intro T
  have hbase : s.output = s.base := (base_of_not_rescales (by simp [rescales, hq])).symm
  have hb : (s.loop ⟨g.input, g.output⟩ a).bound = some (extentOf g n a) := hs.bound a
  simp only [vectorBody, hl, h3, hs.index, hb, hbase]
  rw [actionsAll_append, actionsAll_append]
  refine ((row_set hs hr ha hrow).append (row_adds hs hr hp ho ha hrow _)).append ?_
  simp only [actionsAll_cons, actionsAll_nil, actions_blank, scope_blank, List.nil_append, List.append_nil]
  refine (row_store hs ha hrow (fun w h0 hw => ?_) T).mono (fun _ => id) fun _ h => h.1
  exact congrArg ((s.convolution g n σ₀).bias z + ·) (row_total (s.convolution g n σ₀) h0 hw)

end Vector

/-! ## One sum for each spatial element -/

theorem spot_eq_iff {a : Axis} {u w u' w' : Int} :
    [(spot a u w).1, (spot a u w).2] = [(spot a u' w').1, (spot a u' w').2] ↔ u = u' ∧ w = w' := by
  unfold spot
  split <;> simp [and_comm]

theorem exists_spot {a : Axis} (ha : a = .ox ∨ a = .oy) {g : Geometry} {n x y : Int} (hx : 0 ≤ x ∧ x < g.output.x)
    (hy : 0 ≤ y ∧ y < g.output.y) : ∃ u w, 0 ≤ u ∧ u < extentOf g n (across a) ∧ 0 ≤ w ∧ w < extentOf g n a ∧
      (spot a u w).1 = x ∧ (spot a u w).2 = y := by
  rcases ha with rfl | rfl
  · exact ⟨y, x, hy.1, hy.2, hx.1, hx.2, rfl, rfl⟩
  · exact ⟨x, y, hx.1, hx.2, hy.1, hy.2, rfl, rfl⟩

section Tile

variable {μ : Multipliers} {s : Site} {g : Geometry} {n : Int} {v : List Int → ℚ} {σ₀ : Memory}
  {T : Set (List Int)} {ρ : Scope} {a : Axis} {z : Int}

theorem rowAt_set (ha : a = .ox ∨ a = .oy) (hz : ρ.Holds .outputZ z g.output.z) {u : Int} (h0 : 0 ≤ u)
    (hu : u < extentOf g n (across a)) :
    RowAt (ρ.set ((across a).index .conv) (some u)) g n a u z :=
  ⟨ρ.holds_set _ h0 hu, hz.set_of_ne (by rcases ha with rfl | rfl <;> decide) _⟩

theorem tile_adds (hs : s.IsConv g n) (hr : s.Ready g n σ₀) (hp : s.Plain)
    {o : Operands} (ho : s.convOperands ⟨g.input, g.output⟩ = .ok o) (ha : a = .ox ∨ a = .oy)
    (hz : ρ.Holds .outputZ z g.output.z) :
    Adds μ (actionsAll (s.reduction [s.loop ⟨g.input, g.output⟩ .iz, s.loop ⟨g.input, g.output⟩ (across a),
        s.loop ⟨g.input, g.output⟩ a, s.loop ⟨g.input, g.output⟩ .kx]
        (s.loop ⟨g.input, g.output⟩ .ky) ⟨.sum s.number, [.index .outputX, .index .outputY]⟩ o) ρ)
      (s.Keeping g.output.dims v σ₀ T [g.output.x, g.output.y])
      (∑ c ∈ range g.input.z.toNat, ∑ u ∈ range (extentOf g n (across a)).toNat,
        ∑ w ∈ range (extentOf g n a).toNat, Pi.single [(spot a u w).1, (spot a u w).2]
          (∑ i ∈ range n.toNat, ∑ j ∈ range n.toNat,
            (s.convolution g n σ₀).term (spot a u w).1 (spot a u w).2 z c i j)) := by
  refine nest_adds (hs.index _ .iz) (hs.bound .iz) (isSingle_multiplyAdd s _ _ o) fun c hc => ?_
  refine nest_adds (hs.index _ (across a)) (hs.bound (across a)) (isSingle_multiplyAdd s _ _ o) fun u hu => ?_
  have hz' : (ρ.set .inputZ (some (c : Int))).Holds .outputZ z g.output.z := hz.set_of_ne (by decide) _
  have hc' : ((ρ.set .inputZ (some (c : Int))).set ((across a).index .conv) (some (u : Int))).Holds .inputZ c
      g.input.z :=
    (ρ.holds_set .inputZ (Int.natCast_nonneg c) hc).set_of_ne (by rcases ha with rfl | rfl <;> decide) _
  exact axis_adds hs hr hp ho ha (rowAt_set ha hz' (Int.natCast_nonneg u) hu) hc'
    ⟨.sum s.number, [.index .outputX, .index .outputY]⟩ rfl (fun w => [(spot a u w).1, (spot a u w).2])
    fun ρ' w h => .index h.x (.index h.y (.nil ρ'))

theorem tile_total (ha : a = .ox ∨ a = .oy) (k : Convolution) {x y : Int} (hx : 0 ≤ x ∧ x < g.output.x)
    (hy : 0 ≤ y ∧ y < g.output.y) :
    (∑ c ∈ range k.extent.z.toNat, ∑ u ∈ range (extentOf g n (across a)).toNat,
      ∑ w ∈ range (extentOf g n a).toNat, Pi.single [(spot a u w).1, (spot a u w).2]
        (∑ i ∈ range k.side.toNat, ∑ j ∈ range k.side.toNat,
          k.term (spot a u w).1 (spot a u w).2 z c i j) : List Int → ℚ) [x, y] = k.total x y z := by
  obtain ⟨u, w, hu0, hu, hw0, hw, h1, h2⟩ := exists_spot (n := n) ha hx hy
  lift u to Nat using hu0
  lift w to Nat using hw0
  subst h1 h2
  have hmu : u ∈ range (extentOf g n (across a)).toNat := by
    rw [mem_range]
    omega
  have hmw : w ∈ range (extentOf g n a).toNat := by
    rw [mem_range]
    omega
  simp only [Finset.sum_apply, Pi.single_apply, spot_eq_iff, Nat.cast_inj, ite_and, sum_ite_eq, sum_ite_irrel, hmu, hmw,
    if_true, sum_const_zero, Convolution.total]

theorem outputAt_set (hz : ρ.Holds .outputZ z g.output.z) {x y : Int} (hx0 : 0 ≤ x) (hx : x < g.output.x) (hy0 : 0 ≤ y)
    (hy : y < g.output.y) : OutputAt ((ρ.set .outputX (some x)).set .outputY (some y)) g x y z :=
  ⟨(ρ.holds_set .outputX hx0 hx).set_of_ne (by decide) _, Scope.holds_set _ .outputY hy0 hy,
    (hz.set_of_ne (by decide) _).set_of_ne (by decide) _⟩

theorem within_pair {m m' : Int} {js : List Int} (h : Within [m, m'] js) :
    ∃ x y, 0 ≤ x ∧ x < m ∧ 0 ≤ y ∧ y < m' ∧ js = [x, y] := by
  simp only [Within, List.forall₂_cons_right_iff, List.forall₂_nil_right_iff] at h
  obtain ⟨x, _, ⟨hx0, hx⟩, ⟨y, _, ⟨hy0, hy⟩, rfl, rfl⟩, rfl⟩ := h
  exact ⟨x, y, hx0, hx, hy0, hy, rfl⟩

theorem tile_set (hs : s.IsConv g n) (hr : s.Ready g n σ₀) (hz : ρ.Holds .outputZ z g.output.z) :
    Ensures μ (actionsAll (nest [s.shortLoop ⟨g.input, g.output⟩ .ox "I", s.shortLoop ⟨g.input, g.output⟩ .oy "I"]
        [.stmt (.assign ⟨.sum s.number, [.index .outputX, .index .outputY]⟩ (s.initial .outputZ))]) ρ)
      (fun σ => s.Storing g.output.dims v σ₀ T σ ∧
        s.Setting [g.output.x, g.output.y] ((s.convolution g n σ₀).bias z) ∅ σ)
      (s.Keeping g.output.dims v σ₀ T [g.output.x, g.output.y] fun _ => (s.convolution g n σ₀).bias z) := by
  have hset : Marks μ (actionsAll (nest
      [s.shortLoop ⟨g.input, g.output⟩ .ox "I", s.shortLoop ⟨g.input, g.output⟩ .oy "I"]
      [.stmt (.assign ⟨.sum s.number, [.index .outputX, .index .outputY]⟩ (s.initial .outputZ))]) ρ)
      (fun P σ => s.Storing g.output.dims v σ₀ T σ ∧
        s.Setting [g.output.x, g.output.y] ((s.convolution g n σ₀).bias z) P σ)
      {js | ∃ x, 0 ≤ x ∧ x < g.output.x ∧
        js ∈ {js | ∃ y, 0 ≤ y ∧ y < g.output.y ∧ js ∈ ({[x, y]} : Set (List Int))}} := by
    refine nest_marks (hs.short_index _ .ox "I") (hs.short_bound .ox "I") rfl fun x hx0 hx => ?_
    refine nest_marks (hs.short_index _ .oy "I") (hs.short_bound .oy "I") rfl fun y hy0 hy => ?_
    have hat := outputAt_set hz hx0 hx hy0 hy
    exact set_marks hr rfl (.index hat.x (.index hat.y (.nil _))) hat.z
  refine (hset ∅).mono (fun _ => id) ?_
  rintro σ ⟨hst, hset⟩
  refine ⟨hst, hset.summing fun js hjs => .inr ?_⟩
  obtain ⟨x, y, hx0, hx, hy0, hy, rfl⟩ := within_pair hjs
  exact ⟨x, hx0, hx, y, hy0, hy, rfl⟩

theorem tile_store (hs : s.IsConv g n) (hz : ρ.Holds .outputZ z g.output.z) {c : List Int → ℚ}
    (hc : ∀ x y, 0 ≤ x → x < g.output.x → 0 ≤ y → y < g.output.y →
      c [x, y] = (s.convolution g n σ₀).value x y z) :
    Marks μ (actionsAll (nest [s.shortLoop ⟨g.input, g.output⟩ .ox "O", s.shortLoop ⟨g.input, g.output⟩ .oy "O"]
        [.stmt (.assign ⟨s.base, outputSubscripts⟩
          (s.activate (.element ⟨.sum s.number, [.index .outputX, .index .outputY]⟩)))]) ρ)
      (fun T => s.Keeping g.output.dims (s.result g n σ₀) σ₀ T [g.output.x, g.output.y] c)
      {js | ∃ x, 0 ≤ x ∧ x < g.output.x ∧
        js ∈ {js | ∃ y, 0 ≤ y ∧ y < g.output.y ∧ js ∈ ({[x, y, z]} : Set (List Int))}} := by
  refine nest_marks (hs.short_index _ .ox "O") (hs.short_bound .ox "O") rfl fun x hx0 hx => ?_
  refine nest_marks (hs.short_index _ .oy "O") (hs.short_bound .oy "O") rfl fun y hy0 hy => ?_
  have hat := outputAt_set hz hx0 hx hy0 hy
  exact store_marks hat rfl (.index hat.x (.index hat.y (.nil _))) (hc x y hx0 hx hy0 hy)

theorem tileBody_marks (hs : s.IsConv g n) (hr : s.Ready g n σ₀) (hp : s.Plain) (hq : s.config.quantized = false)
    {o : Operands} (ho : s.convOperands ⟨g.input, g.output⟩ = .ok o) {l : ConvLoops}
    (hl : l.l1 = .iz ∧ l.l4 = .kx ∧ l.l5 = .ky) (h2 : l.l2 = across a) (h3 : l.l3 = a) (ha : a = .ox ∨ a = .oy)
    (hz : ρ.Holds .outputZ z g.output.z) :
    Marks μ (actionsAll (s.tileBody ⟨g.input, g.output⟩ l o) ρ)
      (s.Storing g.output.dims (s.result g n σ₀) σ₀)
      {js | ∃ x, 0 ≤ x ∧ x < g.output.x ∧
        js ∈ {js | ∃ y, 0 ≤ y ∧ y < g.output.y ∧ js ∈ ({[x, y, z]} : Set (List Int))}} := by
  intro T
  have hbase : s.output = s.base := (base_of_not_rescales (by simp [rescales, hq])).symm
  simp only [tileBody, hl, h2, h3, hbase, List.append_assoc, List.cons_append, List.nil_append]
  rw [actionsAll_cons, actionsAll_cons, actionsAll_append, actionsAll_cons, actionsAll_append, actionsAll_cons]
  refine (declare_sum [g.output.x, g.output.y] ((s.convolution g n σ₀).bias z)).append ?_
  refine (tile_set hs hr hz).append ((tile_adds hs hr hp ho ha hz _).append ?_)
  refine (tile_store hs hz (fun x y hx0 hx hy0 hy => ?_) T).mono (fun _ => id) fun _ h => h.1
  exact congrArg ((s.convolution g n σ₀).bias z + ·) (tile_total ha (s.convolution g n σ₀) ⟨hx0, hx⟩ ⟨hy0, hy⟩)

end Tile

/-! ## The whole nest -/

section Nest

variable {dims : List Int} {k : Accumulator} {μ : Multipliers} {s : Site} {g : Geometry} {n : Int} {σ₀ : Memory}
  {a : Axis}

def plane (g : Geometry) (z : Int) : Set (List Int) :=
  {js | ∃ x y, 0 ≤ x ∧ x < g.output.x ∧ 0 ≤ y ∧ y < g.output.y ∧ js = [x, y, z]}

theorem Storing.mono {v : List Int → ℚ} {T T' : Set (List Int)} {σ : Memory} (hT : T ⊆ T')
    (h : s.Storing dims v σ₀ T' σ) : s.Storing dims v σ₀ T σ :=
  ⟨h.frame, h.base, h.output, fun js hjs => h.stored js (hT hjs)⟩

theorem Storing.marks_mono {v : List Int → ℚ} {as : List Action} {S S' : Set (List Int)} (hS : S ⊆ S')
    (h : Marks μ as (s.Storing dims v σ₀) S') : Marks μ as (s.Storing dims v σ₀) S :=
  fun T => (h T).mono (fun _ => id) fun _ => .mono (Set.union_subset_union_right T hS)

theorem plane_subset (ha : a = .ox ∨ a = .oy) (z : Int) :
    plane g z ⊆ {js | ∃ u, 0 ≤ u ∧ u < extentOf g n (across a) ∧ js ∈ {js | ∃ w, 0 ≤ w ∧ w < extentOf g n a ∧
      js ∈ ({[(spot a u w).1, (spot a u w).2, z]} : Set (List Int))}} := by
  rintro js ⟨x, y, hx0, hx, hy0, hy, rfl⟩
  obtain ⟨u, w, hu0, hu, hw0, hw, rfl, rfl⟩ := exists_spot (n := n) ha ⟨hx0, hx⟩ ⟨hy0, hy⟩
  exact ⟨u, hu0, hu, w, hw0, hw, rfl⟩

variable (μ) in
theorem convNest_plane (hs : s.IsConv g n) (hr : s.Ready g n σ₀) (hp : s.Plain) {o : Operands}
    (ho : s.convOperands ⟨g.input, g.output⟩ = .ok o) (ha : a = .ox ∨ a = .oy)
    (hq : s.config.quantized = true → k = .scalar) (ρ : Scope) :
    Marks μ (actionsAll (s.convNest ⟨g.input, g.output⟩ o (loopsOf a k) k) ρ)
      (s.Storing g.output.dims (s.result g n σ₀) σ₀) {js | ∃ z, 0 ≤ z ∧ z < g.output.z ∧ js ∈ plane g z} := by
  have hplain (hne : k ≠ .scalar) : s.config.quantized = false := by
    cases h : s.config.quantized
    · rfl
    · exact absurd (hq h) hne
  have hchannel (z : Int) (hz0 : 0 ≤ z) (hz : z < g.output.z) := ρ.holds_set .outputZ hz0 hz
  cases k with
  | scalar =>
    rw [convNest, convScalar_eq]
    refine nest_marks (hs.index _ .oz) (hs.bound .oz) rfl fun z hz0 hz => ?_
    refine Storing.marks_mono (plane_subset (n := n) ha z) ?_
    refine nest_marks (hs.index _ (across a)) (hs.bound (across a)) rfl fun u hu0 hu => ?_
    have hrow := rowAt_set (n := n) ha (hchannel z hz0 hz) hu0 hu
    refine Marks.braced (hs.index _ a) (hs.bound a) fun w hw0 hw => ?_
    exact scalarBody_marks hs hr hp ho ⟨rfl, rfl, rfl⟩ (hrow.at ha hw0 hw)
  | vector =>
    rw [convNest, convVector_eq]
    refine nest_marks (hs.index _ .oz) (hs.bound .oz) rfl fun z hz0 hz => ?_
    refine Storing.marks_mono (plane_subset (n := n) ha z) ?_
    refine Marks.braced (hs.index _ (across a)) (hs.bound (across a)) fun u hu0 hu => ?_
    have hrow := rowAt_set (n := n) ha (hchannel z hz0 hz) hu0 hu
    exact vectorBody_marks hs hr hp (hplain (by decide)) ho ⟨rfl, rfl, rfl⟩ rfl ha hrow
  | tile =>
    rw [convNest, convTile_eq]
    refine Marks.braced (hs.index _ .oz) (hs.bound .oz) fun z hz0 hz => ?_
    refine Storing.marks_mono ?_ (tileBody_marks hs hr hp (hplain (by decide)) ho ⟨rfl, rfl, rfl⟩ rfl rfl ha
      (hchannel z hz0 hz))
    rintro js ⟨x, y, hx0, hx, hy0, hy, rfl⟩
    exact ⟨x, hx0, hx, y, hy0, hy, rfl⟩

/-- After the declaration of the wide buffer the output is still as it was. -/
def Widened (s : Site) (dims : List Int) (σ₀ σ : Memory) : Prop :=
  (∀ b, ¬ s.Writes b → σ.extents b = σ₀.extents b ∧ σ.cells b = σ₀.cells b) ∧
    (s.rescales = true → σ.extents s.base = some dims) ∧ σ.extents s.output = σ₀.extents s.output

theorem widen_ensures (dims : List Int) (ρ : Scope) :
    Ensures μ ((if s.rescales then [Stmt.declare ⟨s.type, s.base, dims.map some⟩ true] else []).map (.perform ρ))
      (· = σ₀) (s.Widened dims σ₀) := by
  rintro σ rfl
  cases hres : s.rescales with
  | false => exact ⟨σ, rfl, fun _ _ => ⟨rfl, rfl⟩, by simp [hres], rfl⟩
  | true =>
    refine ⟨σ.declare s.base dims, ?_, fun b hb => ?_, ?_, ?_⟩
    · simp [runAll, Action.run, Stmt.run_declare]
    · have hne : b ≠ s.base := fun h => hb (.inr (.inl h))
      exact ⟨Memory.extents_declare_of_ne σ hne _, Memory.cells_declare_of_ne σ hne _⟩
    · exact fun _ => Memory.extents_declare_self σ _ _
    · exact Memory.extents_declare_of_ne σ (base_ne_output hres).symm _

theorem own_ensures (hout : s.writesOutput = true ∨ s.isLocal = false → σ₀.extents s.output = some dims)
    (v : List Int → ℚ) (ρ : Scope) :
    Ensures μ ((if s.writesOutput then [] else [Stmt.declare ⟨s.outputType, s.output, dims.map some⟩ s.isLocal]).map
      (.perform ρ)) (s.Widened dims σ₀) (s.Storing dims v σ₀ ∅) := by
  rintro σ ⟨hframe, hbase, hsame⟩
  -- Everywhere else the output is a parameter, and what stands here is a comment or nothing.
  by_cases hdecl : s.writesOutput = false ∧ s.isLocal = true
  · refine ⟨σ.declare s.output dims, ?_, ?_⟩
    · simp [hdecl.1, hdecl.2, runAll, Action.run, Stmt.run_declare]
    · have hself := Memory.extents_declare_self σ s.output dims
      refine ⟨fun b hb => ?_, ?_, hself, fun js hjs => absurd hjs (Set.notMem_empty js)⟩
      · have hne : b ≠ s.output := fun h => hb (.inr (.inr h))
        rw [Memory.extents_declare_of_ne σ hne, Memory.cells_declare_of_ne σ hne]
        exact hframe b hb
      · cases hres : s.rescales with
        | false => rw [base_of_not_rescales hres, hself]
        | true => rw [Memory.extents_declare_of_ne σ (base_ne_output hres), hbase hres]
  · have hkept : s.writesOutput = true ∨ s.isLocal = false := by grind
    have hdims : σ.extents s.output = some dims := hsame.trans (hout hkept)
    refine ⟨σ, ?_, hframe, ?_, hdims, fun js hjs => absurd hjs (Set.notMem_empty js)⟩
    · cases hw : s.writesOutput with
      | true => rfl
      | false => simp [hkept.resolve_left (by simp [hw]), runAll, Action.run, Stmt.run]
    · cases hres : s.rescales with
      | false => rw [base_of_not_rescales hres, hdims]
      | true => exact hbase hres

variable (μ) in
theorem prelude_ensures (hr : s.Ready g n σ₀) (v : List Int → ℚ) (ρ : Scope) :
    Ensures μ (actionsAll (s.header ⟨g.input, g.output⟩ ++ s.declarations g.output.dims) ρ) (· = σ₀)
      (s.Storing g.output.dims v σ₀ ∅) := by
  have hheader : Ensures μ (actionsAll (s.header ⟨g.input, g.output⟩) ρ) (· = σ₀) (· = σ₀) :=
    fun σ hσ => ⟨σ, rfl, hσ⟩
  rw [actionsAll_append]
  refine hheader.append ?_
  rw [declarations, actionsAll_ofStmts, List.map_append]
  · exact (widen_ensures _ _).append (own_ensures hr.output v _)
  · intro st hst
    grind

theorem scalarOnly_of_plain (hp : s.Plain) (hq : s.config.quantized = true → k = .scalar) :
    s.scalarOnly = [] ∨ k = .scalar := by
  cases h : s.config.quantized with
  | true => exact .inr (hq h)
  | false => exact .inl (by simp [scalarOnly, h, hp.quiet])

theorem conv_stores (hs : s.IsConv g n) (hp : s.Plain) (hsup : s.order.Supported k)
    (hq : s.config.quantized = true → k = .scalar) {code : List Tree} (hcode : s.conv = .ok code)
    (hr : s.Ready g n σ₀) :
    ∃ σ, runAll μ (actionsAll code Scope.empty) σ₀ = some σ ∧ ∀ x y z, 0 ≤ x → x < g.output.x → 0 ≤ y →
      y < g.output.y → 0 ≤ z → z < g.output.z → σ.cells s.base [x, y, z] = some (s.result g n σ₀ [x, y, z]) := by
  obtain ⟨a, o, ha, ho, hconv⟩ := conv_eq_ok hs hsup (scalarOnly_of_plain hp hq)
  obtain ⟨-, rfl⟩ := (hconv code).mp hcode
  have hprelude := prelude_ensures μ hr (s.result g n σ₀) Scope.empty
  have hnest := convNest_plane μ hs hr hp ho ha hq
    (scopeAll Scope.empty (s.header ⟨g.input, g.output⟩ ++ s.declarations g.output.dims))
  rw [actionsAll_append]
  obtain ⟨σ, hrun, hσ⟩ := (hprelude.append (hnest ∅)) σ₀ rfl
  refine ⟨σ, hrun, fun x y z hx0 hx hy0 hy hz0 hz => hσ.stored _ (.inr ?_)⟩
  exact ⟨z, hz0, hz, x, y, hx0, hx, hy0, hy, rfl⟩

end Nest

end Site

open Site

/-- Whichever supported order a convolution of an inferred network is written in, its code runs to its end and
stores the convolution of its input at every output position, so that all orders compute the same. -/
theorem conv_computes_convolution {ss : List Source.Statement} {net : Network}
    (hdecl : (Network.ofStatements ss).outcome = .ok net) (hinfer : net.infer.2.outcome = .ok true)
    {s : Site} (hnet : s.net = net.infer.1) (hmem : (s.layer, s.number) ∈ s.net.numbered)
    (hkind : s.layer.kind = .conv) (hplain : s.Plain) :
    ∃ g n, s.IsConv g n ∧ ∀ (o : LoopOrder) (k : Accumulator), o.Supported k →
      (s.config.quantized = true → k = .scalar) →
      ((∃ code, { s with order := o }.conv = .ok code) ↔ s.layer.Writable) ∧
      ∀ code, { s with order := o }.conv = .ok code → ∀ (μ : Multipliers) (σ : Memory), s.Ready g n σ →
        ∃ σ', runAll μ (actionsAll code Scope.empty) σ = some σ' ∧
          ∀ x y z, 0 ≤ x → x < g.output.x → 0 ≤ y → y < g.output.y → 0 ≤ z → z < g.output.z →
            σ'.cells s.base [x, y, z] = some (Code.activate (s.net.emitted s.number s.layer.activation)
              ((s.convolution g n σ).value x y z)) := by
  obtain ⟨_, hnet', hl⟩ := Network.ofStatements_declared (P := (0 < ·)) Int.one_pos fun st _ => st.allows_pos
  cases hdecl.symm.trans hnet'
  have hcompletion := Network.infer_completion Int.one_pos (fun _ => id) hl hinfer
  obtain ⟨g, hg⟩ := hcompletion.complete s.layer (hnet ▸ Network.mem_layers hmem)
  obtain ⟨n, -, hs⟩ := isConv_of_complete (fun _ => id) hg hmem hkind
  refine ⟨g, n, hs, fun o k hsup hq => ⟨?_, fun code hcode μ σ hr => ?_⟩⟩
  · obtain ⟨_, _, -, -, hconv⟩ := conv_eq_ok (hs.withOrder o) hsup (scalarOnly_of_plain (hplain.withOrder o) hq)
    simp only [hconv, exists_and_left, exists_eq, and_true]
  · exact conv_stores (hs.withOrder o) (hplain.withOrder o) hsup hq hcode (hr.withOrder o)

/-! A layer of stride two whose padded windows hang over the border of its input. -/

section Corner

private def origin : Location := { line := 1, column := 1 }

/-- Two filters of side 3 over an input of 3 by 3, read from a call. -/
def cornerCall : Source.Call where
  path := ["Conv2D"]
  args := [.integer 2 origin, .integer 3 origin]
  kwargs := [⟨"strides", .integer 2 origin, origin⟩, ⟨"padding", .text "same" origin, origin⟩,
    ⟨"activation", .text "relu" origin, origin⟩,
    ⟨"input_shape", .tuple [.integer 3 origin, .integer 3 origin, .integer 1 origin] origin, origin⟩]
  location := origin

def cornerLayer : Layer where
  form := .conv (some 2) ⟨some 3, some 3⟩ .same
  input := some ⟨3, 3, 1⟩
  output := some ⟨2, 2, 2⟩
  stride := some 2
  activation := .relu
  location := some origin

def cornerSite : Site where
  net := ⟨[cornerLayer]⟩
  number := 1
  layer := cornerLayer
  config := { dataMode := .floating }
  order := .canonical .conv

def cornerGeometry : Geometry where
  stride := 2
  input := ⟨3, 3, 1⟩
  output := ⟨2, 2, 2⟩
  stride_pos := by decide
  input_pos := by decide
  output_pos := by decide

/-- Every input, weight and bias is 1. -/
def cornerMemory : Memory where
  extents
    | .inputs => some [3, 3, 1]
    | .weights 1 => some [3, 3, 1, 2]
    | .biases 1 => some [2]
    | .outputs => some [2, 2, 2]
    | _ => none
  cells _ _ := some 1

theorem cornerLayer_writable : cornerLayer.Writable where
  input := by
    rintro _ ⟨⟩
    refine ⟨?_, ?_, ?_⟩ <;> exact Decimal.fits_of_lt_thousand (by decide)
  output := by
    rintro _ ⟨⟩
    refine ⟨?_, ?_, ?_⟩ <;> exact Decimal.fits_of_lt_thousand (by decide)
  stride := by
    rintro - _ ⟨⟩
    exact Decimal.fits_of_lt_thousand (by decide)
  rows := by
    rintro _ ⟨⟩
    exact Decimal.fits_of_lt_thousand (by decide)
  cols := by
    rintro _ ⟨⟩
    exact Decimal.fits_of_lt_thousand (by decide)

theorem cornerMemory_ready : cornerSite.Ready cornerGeometry 3 cornerMemory where
  input := ⟨rfl, fun _ _ => rfl⟩
  weights := ⟨rfl, fun _ _ => rfl⟩
  biases _ := ⟨rfl, fun _ _ => rfl⟩
  scales h := by simp [cornerSite, Config.quantized, Config.fixedSingle] at h
  factors h := by simp [cornerSite, Config.quantized, Config.fixedSingle] at h
  output _ := rfl

theorem cornerGeometry_unique {g : Geometry} {n : Int} (h : cornerSite.IsConv g n) : g = cornerGeometry ∧ n = 3 := by
  obtain ⟨stride, input, output, _, _, _⟩ := g
  cases h.input
  cases h.output
  cases h.form
  cases h.stride
  exact ⟨rfl, rfl⟩

/-- With a tile of sums, four cells at a corner of the input, and the bias, are added up. -/
theorem conv_computes_convolution_corner :
    ∃ code σ, { cornerSite with order := ⟨.conv, ["oz", "iz", "ox", "oy", "kx", "ky"]⟩ }.conv = .ok code ∧
      runAll (fun _ => (· * ·)) (actionsAll code Scope.empty) cornerMemory = some σ ∧
      σ.cells .outputs [0, 1, 1] = some 5 := by
  have hdecl : (Network.ofStatements [⟨cornerCall, origin, ""⟩]).outcome =
      .ok ⟨[{ cornerLayer with output := none }]⟩ := rfl
  have hinfer : (Network.infer ⟨[{ cornerLayer with output := none }]⟩).2.outcome = .ok true := rfl
  obtain ⟨g, n, hs, hall⟩ :=
    conv_computes_convolution hdecl hinfer (s := cornerSite) rfl (by decide) rfl ⟨rfl, rfl⟩
  obtain ⟨rfl, rfl⟩ := cornerGeometry_unique hs
  have horder : LoopOrder.Supported ⟨.conv, ["oz", "iz", "ox", "oy", "kx", "ky"]⟩ .tile :=
    ⟨["iz", "ox", "oy"], by decide, rfl⟩
  obtain ⟨hwrite, hrun⟩ := hall _ .tile horder (by decide)
  obtain ⟨code, hcode⟩ := hwrite.mpr cornerLayer_writable
  obtain ⟨σ, hσ, hcells⟩ := hrun code hcode (fun _ => (· * ·)) cornerMemory cornerMemory_ready
  refine ⟨code, σ, hcode, hσ, ?_⟩
  refine (hcells 0 1 1 (by decide) (by decide) (by decide) (by decide) (by decide) (by decide)).trans ?_
  decide +kernel

end Corner

end LayerLoops
