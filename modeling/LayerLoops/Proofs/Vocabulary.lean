import LayerLoops.Proofs.Mentions
import LayerLoops.Proofs.Programs

/-! # The vocabulary of a program

The code of a layer refers to the buffers it reads and writes, to its own weights and sums, and to what the settings
ask for. The body of the generated function adds what stores the input and what injects faults between layers. -/

namespace LayerLoops

open Code Text

namespace Site

variable {code : List Tree}

/-- The names in the code of a layer. -/
inductive Uses (s : Site) : Name → Prop
  | input : s.Uses (.symbol (.buffer s.input))
  | output : s.Uses (.symbol (.buffer s.output))
  | base : s.Uses (.symbol (.buffer s.base))
  | type : s.Uses (.type s.type)
  | outputType : s.Uses (.type s.outputType)
  | sum : s.layer.weighted = true → s.Uses (.symbol (.buffer (.sum s.number)))
  | sumType : s.layer.weighted = true → s.Uses (.type (.sum s.number))
  | weights : s.layer.weighted = true → s.Uses (.symbol (.buffer (.weights s.number)))
  | biases : s.layer.weighted = true → s.config.biases = true → s.Uses (.symbol (.buffer (.biases s.number)))
  | scales : s.rescales = true → s.Uses (.symbol (.buffer (.weightScales s.number)))
  | factor {b : Buffer} : s.rescales = true → b ∈ factorBuffers → s.Uses (.symbol (.buffer b))
  | cell : s.layer.kind = .pooling → s.Uses (.symbol (.buffer .cell))
  | maximum : s.layer.kind = .pooling → s.Uses (.symbol (.buffer .maximum))
  | activation {x : Symbol} : x ∈ callee (s.net.emitted s.number s.layer.activation) → s.Uses (.symbol x)
  | multiplier : s.layer.weighted = true → s.config.approximate = true → s.Uses (.symbol (.multiplier s.number))
  | store : s.config.capture = true → s.Uses (.symbol .store)

variable {s : Site}

theorem loop_worded (s : Site) (shape : Shape) (a : Axis) : (s.loop shape a).Worded := by
  have hsuffix : ∀ k ∈ [Kind.conv, .pooling, .flatten, .dense], ∀ a ∈ Axis.all, ∀ p ∈ a.suffix? k,
      p.1.toList.all isWordChar = true ∧ p.2.toList.all isWordChar = true := by
    decide +kernel
  rintro _ ⟨⟩
  cases hs : a.suffix? s.layer.kind with
  | none => rfl
  | some p =>
    obtain ⟨hnamed, hnumbered⟩ := hsuffix s.layer.kind (by cases s.layer.kind <;> decide) a (by cases a <;> decide) p hs
    cases s.config.numberedLabels with
    | true => exact hnumbered
    | false => exact hnamed

theorem shortLoop_worded (s : Site) (shape : Shape) (a : Axis) {mark : String}
    (h : mark.toList.all isWordChar = true) : (s.shortLoop shape a mark).Worded := by
  have hcapital : ∀ a ∈ Axis.all, a.capitalized.toList.all isWordChar = true := by decide +kernel
  rintro _ ⟨⟩
  exact all_wordChar_append (hcapital a (by cases a <;> decide)) h

/-! ## Parts that layers share -/

theorem mentions_extents {A : Name → Prop} {what : String} (hw : isSilent what = true) (hc : closes what = true)
    (v : Volume) : Mentions A (what ++ s!"X:{v.x}, Y: {v.y}, Z: {v.z}") := by
  have hx : Mentions A ("X:" ++ toString v.x) :=
    (mentions_int v.x).start (isSilent_ofList (by decide)) (by decide)
  have hy : isSilent ", Y: " = true := isSilent_ofList (by decide)
  have hz : isSilent ", Z: " = true := isSilent_ofList (by decide)
  have hv := (hx.glueText hy (by decide) (by decide) (by decide) (mentions_int v.y)).glueText hz (by decide) (by decide)
    (by decide) (mentions_int v.z)
  exact hv.start hw hc

theorem mentions_describe {A : Name → Prop} (l : Layer) : Mentions A l.describe := by
  unfold Layer.describe
  cases l.form with
  | conv filters k padding =>
    have hlabel : isSilent padding.label = true := by cases padding <;> exact isSilent_ofList (by decide)
    have hpadding : Mentions A ("Conv2D(Padding: " ++ padding.label) :=
      (mentions_silent hlabel).start (isSilent_ofList (by decide)) (by decide)
    exact (hpadding.glueText (isSilent_ofList (by decide)) (by decide) (by decide) (by decide)
      (mentions_dim l.stride)).stop (by decide)
  | pooling type channels k =>
    have hshort : isSilent type.short = true := by cases type <;> exact isSilent_ofList (by decide)
    exact (mentions_silent hshort).append_opens (mentions_plain (by decide)) (by decide)
  | flatten nodes => exact mentions_plain (by decide)
  | dense nodes => exact mentions_plain (by decide)

theorem header_within {A : Name → Prop} (s : Site) (shape : Shape) : Tree.AllWithin A (s.header shape) := by
  have htitle : Mentions A ("Layer " ++ toString s.number ++ ": " ++ s.layer.describe) :=
    ((mentions_nat s.number).start (isSilent_ofList (by decide)) (by decide)).glue (by decide)
      (mentions_describe s.layer)
  exact ⟨htitle, mentions_extents (isSilent_ofList (by decide)) (by decide) shape.input,
    mentions_extents (isSilent_ofList (by decide)) (by decide) shape.output, trivial⟩

theorem declarations_within {A : Name → Prop} (htype : A (.type s.type)) (hbase : A (.symbol (.buffer s.base)))
    (houtputType : A (.type s.outputType)) (houtput : A (.symbol (.buffer s.output))) (dims : List Int) :
    Tree.AllWithin A (s.declarations dims) := by
  rw [declarations, Tree.allWithin_ofStmts]
  intro st hst
  rcases List.mem_append.mp hst with hst | hst
  · split at hst
    · cases List.mem_singleton.mp hst
      exact ⟨htype, hbase⟩
    · cases hst
  · split at hst
    · cases hst
    · cases List.mem_singleton.mp hst
      exact ⟨houtputType, houtput⟩

theorem uses_declarations (s : Site) (dims : List Int) : Tree.AllWithin s.Uses (s.declarations dims) :=
  declarations_within .type .base .outputType .output dims

/-! ## Parts that weighted layers share -/

/-- The given names include those in the code of a weighted layer, the arrays of factors and the scales apart. -/
structure Admits (s : Site) (A : Name → Prop) : Prop where
  input : A (.symbol (.buffer s.input))
  output : A (.symbol (.buffer s.output))
  base : A (.symbol (.buffer s.base))
  type : A (.type s.type)
  outputType : A (.type s.outputType)
  sum : A (.symbol (.buffer (.sum s.number)))
  sumType : A (.type (.sum s.number))
  weights : A (.symbol (.buffer (.weights s.number)))
  biases : s.config.biases = true → A (.symbol (.buffer (.biases s.number)))
  activation : ∀ x ∈ callee (s.net.emitted s.number s.layer.activation), A (.symbol x)
  multiplier : s.config.approximate = true → A (.symbol (.multiplier s.number))
  store : s.config.capture = true → A (.symbol .store)

theorem uses_admits (hw : s.layer.weighted = true) : s.Admits s.Uses where
  input := .input
  output := .output
  base := .base
  type := .type
  outputType := .outputType
  sum := .sum hw
  sumType := .sumType hw
  weights := .weights hw
  biases := .biases hw
  activation _ := .activation
  multiplier := .multiplier hw
  store := .store

section Admitted

variable {A : Name → Prop} (h : s.Admits A)
include h

variable (i : Index)

theorem storeOutput_within {es : List Expr} {x y z : Expr} : ∀ st ∈ s.storeOutput es x y z, st.Within A := by
  intro st hst
  unfold storeOutput at hst
  by_cases hc : s.config.capture = true
  · rw [if_neg (by simp [hc])] at hst
    rcases List.mem_append.mp hst with hst | hst
    · split at hst
      · cases List.mem_singleton.mp hst
        exact ⟨h.store hc, mentions_plain (by decide), h.base⟩
      · cases hst
    · cases List.mem_singleton.mp hst
      exact ⟨h.store hc, mentions_plain (by decide), h.output⟩
  · rw [if_pos (by simp [hc])] at hst
    cases hst

theorem storeWeight_within {weight : Element} (hb : weight.buffer = .weights s.number) :
    ∀ st ∈ s.storeWeight weight, st.Within A := by
  intro st hst
  unfold storeWeight at hst
  by_cases hc : s.config.capture = true
  · rw [if_neg (by simp [hc])] at hst
    rcases List.mem_cons.mp hst with rfl | hst
    · exact ⟨h.store hc, mentions_plain (by decide), hb ▸ h.weights⟩
    · cases List.mem_singleton.mp hst
      exact ⟨h.store hc, mentions_plain (by decide), h.sum⟩
  · rw [if_pos (by simp [hc])] at hst
    cases hst

theorem storeBias_within (x z : Expr) : ∀ st ∈ s.storeBias i x z, st.Within A := by
  intro st hst
  unfold storeBias at hst
  split at hst
  · rename_i hon
    obtain ⟨hc, hb⟩ := Bool.and_eq_true_iff.mp hon
    cases List.mem_singleton.mp hst
    exact ⟨h.store hc, mentions_plain (by decide), h.biases hb⟩
  · cases hst

theorem product_within {a b : Element} (ha : A (.symbol (.buffer a.buffer))) (hb : A (.symbol (.buffer b.buffer))) :
    (s.product a b).Within A := by
  unfold product
  split
  · rename_i happrox
    exact ⟨h.multiplier happrox, ha, hb⟩
  · exact ⟨ha, hb⟩

theorem initial_within : (s.initial i).Within A := by
  unfold initial
  split
  · rename_i hb
    exact h.biases hb
  · trivial

theorem activate_within {t : Term} (ht : t.Within A) : (s.activate t).Within A := ⟨h.activation, ht⟩

theorem startSum_within :
    ∀ st ∈ [Stmt.declare ⟨.sum s.number, .sum s.number, []⟩ true, .assign ⟨.sum s.number, []⟩ (s.initial i)],
      st.Within A := by
  simp only [List.forall_mem_cons]
  exact ⟨⟨h.sumType, h.sum⟩, ⟨h.sum, initial_within h i⟩, by simp⟩

theorem finish_within (es : List Expr) :
    (Stmt.assign ⟨s.base, es⟩ (s.activate (.element ⟨.sum s.number, []⟩))).Within A :=
  ⟨h.base, activate_within h h.sum⟩

end Admitted

theorem requantize_within (hw : s.layer.weighted = true) {es : List Expr} {i : Index} :
    ∀ st ∈ s.requantize es i, st.Within s.Uses := by
  intro st hst
  unfold requantize at hst
  split at hst
  · rename_i hq
    have hr : s.rescales = true := by rw [rescales, hq, hw, Bool.true_and]
    have htype : s.narrowType = s.outputType := by rw [outputType, if_pos hq]
    cases List.mem_singleton.mp hst
    exact ⟨.output, htype ▸ .outputType, .base, .scales hr, .factor hr (by simp [factorBuffers]),
      .factor hr (by simp [factorBuffers]), .factor hr (by simp [factorBuffers])⟩
  · cases hst

theorem innermost_within {A : Name → Prop} {h : Head} (hh : h.Worded) {body : Stmt} (hb : body.Within A)
    {stored : List Stmt} (hs : ∀ st ∈ stored, st.Within A) : (innermost h body stored).Within A := by
  unfold innermost
  split
  · exact ⟨hh, ⟨hb, trivial⟩, by rintro ⟨⟩⟩
  · exact ⟨hh, ⟨⟨hb, hs⟩, trivial⟩, by rintro ⟨⟩⟩

theorem finishSum_within (hw : s.layer.weighted = true) (es : List Expr) (i : Index) (x y z : Expr) :
    ∀ st ∈ [Stmt.assign ⟨s.base, es⟩ (s.activate (.element ⟨.sum s.number, []⟩))] ++ s.requantize es i ++
      s.storeOutput es x y z, st.Within s.Uses := by
  have hadmits := uses_admits hw
  intro st hst
  rcases List.mem_append.mp hst with hst | hst
  · rcases List.mem_append.mp hst with hst | hst
    · rw [List.mem_singleton.mp hst]
      exact finish_within hadmits es
    · exact requantize_within hw st hst
  · exact storeOutput_within hadmits st hst

/-! ## The code of a layer -/

theorem convOperands_buffers {shape : Shape} {o : Operands} (h : s.convOperands shape = .ok o) :
    o.input.buffer = s.input ∧ o.weight.buffer = .weights s.number ∧
      ∀ defs bounds, o.padded = some (defs, bounds) → ∀ st ∈ defs, ∃ i e, st = .define i e := by
  unfold convOperands at h
  dsimp only at h
  split at h
  · cases h
    exact ⟨rfl, rfl, nofun⟩
  · split at h
    · cases h
      refine ⟨rfl, rfl, ?_⟩
      rintro defs bounds ⟨⟩ st hst
      rcases List.mem_cons.mp hst with rfl | hst
      · exact ⟨_, _, rfl⟩
      · cases List.mem_singleton.mp hst
        exact ⟨_, _, rfl⟩
    · cases h

theorem multiplyAdd_within (hw : s.layer.weighted = true) {shape : Shape} {o : Operands}
    (ho : s.convOperands shape = .ok o) {h : Head} (hh : h.Worded) {sum : Element} (hsum : sum.buffer = .sum s.number) :
    (s.multiplyAdd h sum o).Within s.Uses := by
  obtain ⟨hinput, hweight, hdefs⟩ := convOperands_buffers ho
  have hsums : s.Uses (.symbol (.buffer sum.buffer)) := hsum ▸ .sum hw
  have hweights : s.Uses (.symbol (.buffer o.weight.buffer)) := hweight ▸ .weights hw
  have hbody : (Stmt.accumulate sum (s.product o.input o.weight)).Within s.Uses :=
    ⟨hsums, product_within (uses_admits hw) (hinput ▸ .input) hweights⟩
  have hstored := storeWeight_within (uses_admits hw) hweight
  unfold multiplyAdd
  dsimp only
  split
  · exact innermost_within hh hbody hstored
  · rename_i defs bounds hpadded
    have hdefined : ∀ st ∈ defs, st.Within s.Uses := by
      intro st hst
      obtain ⟨i, e, rfl⟩ := hdefs defs bounds hpadded st hst
      trivial
    have hchoose : ∀ st ∈ (if s.config.quantized then some (Stmt.accumulate sum (.product
        ⟨.inputZeroPoints, [.number (some (s.net.ordinal s.number))]⟩ o.weight)) else none), st.Within s.Uses := by
      intro st hst
      split at hst
      · rename_i hq
        have hr : s.rescales = true := by rw [rescales, hq, hw, Bool.true_and]
        cases hst
        exact ⟨hsums, .factor hr (by simp [factorBuffers]), hweights⟩
      · cases hst
    refine ⟨hh, ?_, by rintro ⟨⟩⟩
    simp only [Tree.allWithin_append, Tree.allWithin_ofStmts]
    refine ⟨⟨hdefined, ⟨hbody, hchoose⟩, trivial⟩, ?_⟩
    split
    · trivial
    · exact ⟨Tree.allWithin_ofStmts.mpr hstored, trivial⟩

section Convolution

variable {shape : Shape} {o : Operands} (hw : s.layer.weighted = true) (ho : s.convOperands shape = .ok o)
include hw ho

theorem reduction_within {heads : List Head} (hheads : ∀ h ∈ heads, h.Worded) {last : Head} (hlast : last.Worded)
    {sum : Element} (hsum : sum.buffer = .sum s.number) : Tree.AllWithin s.Uses (s.reduction heads last sum o) :=
  Tree.allWithin_nest hheads ⟨multiplyAdd_within hw ho hlast hsum, trivial⟩

theorem convScalar_within (c : ConvLoops) : Tree.AllWithin s.Uses (s.convScalar shape c o) := by
  have hloop := s.loop_worded shape
  have hreduction : Tree.AllWithin s.Uses (s.reduction [s.loop shape c.l3, s.loop shape c.l4] (s.loop shape c.l5)
      ⟨.sum s.number, []⟩ o) :=
    reduction_within hw ho (by simp [hloop]) (hloop _) rfl
  have hstart := List.forall_mem_append.mpr
    ⟨storeBias_within (uses_admits hw) .outputZ nowhere (.index .outputZ), startSum_within (uses_admits hw) .outputZ⟩
  have hfinish := finishSum_within hw outputSubscripts .outputZ (.index .outputX) (.index .outputY) (.index .outputZ)
  have hbody := Tree.allWithin_append.mpr ⟨Tree.allWithin_append.mpr ⟨Tree.allWithin_ofStmts.mpr hstart, hreduction⟩,
    Tree.allWithin_ofStmts.mpr hfinish⟩
  exact Tree.allWithin_nest (by simp [hloop]) ⟨⟨hloop _, hbody, by rintro ⟨⟩⟩, trivial⟩

theorem convVector_within (c : ConvLoops) : Tree.AllWithin s.Uses (s.convVector shape c o) := by
  have hloop := s.loop_worded shape
  have hbefore : (s.shortLoop shape c.l3 "I").Worded := s.shortLoop_worded shape c.l3 (by decide)
  have hafter : (s.shortLoop shape c.l3 "O").Worded := s.shortLoop_worded shape c.l3 (by decide)
  have hreduction : Tree.AllWithin s.Uses (s.reduction [s.loop shape c.l2, s.loop shape c.l3, s.loop shape c.l4]
      (s.loop shape c.l5) ⟨.sum s.number, [.index (s.loop shape c.l3).index]⟩ o) :=
    reduction_within hw ho (by simp [hloop]) (hloop _) rfl
  have hstart : (Stmt.assign ⟨.sum s.number, [.index (s.loop shape c.l3).index]⟩ (s.initial .outputZ)).Within s.Uses :=
    ⟨.sum hw, initial_within (uses_admits hw) .outputZ⟩
  have hfinish : (Stmt.assign ⟨s.output, outputSubscripts⟩
      (s.activate (.element ⟨.sum s.number, [.index (s.loop shape c.l3).index]⟩))).Within s.Uses :=
    ⟨.output, activate_within (uses_admits hw) (Uses.sum hw)⟩
  unfold convVector
  refine Tree.allWithin_nest (by simp [hloop]) ⟨⟨hloop _, ?_, by rintro ⟨⟩⟩, trivial⟩
  simp only [Tree.allWithin_append]
  exact ⟨⟨⟨⟨.sumType hw, .sum hw⟩, trivial, ⟨hbefore, ⟨hstart, trivial⟩, fun _ => ⟨_, rfl⟩⟩, trivial, trivial⟩,
    hreduction⟩, trivial, ⟨hafter, ⟨hfinish, trivial⟩, fun _ => ⟨_, rfl⟩⟩, trivial⟩

theorem convTile_within (c : ConvLoops) : Tree.AllWithin s.Uses (s.convTile shape c o) := by
  have hloop := s.loop_worded shape
  have hshort (mark : String) (hm : mark.toList.all isWordChar = true) :
      ∀ h ∈ [s.shortLoop shape .ox mark, s.shortLoop shape .oy mark], h.Worded := by
    simp [s.shortLoop_worded shape _ hm]
  have hreduction : Tree.AllWithin s.Uses (s.reduction
      [s.loop shape c.l1, s.loop shape c.l2, s.loop shape c.l3, s.loop shape c.l4] (s.loop shape c.l5)
      ⟨.sum s.number, [.index .outputX, .index .outputY]⟩ o) :=
    reduction_within hw ho (by simp [hloop]) (hloop _) rfl
  have hstart : Tree.AllWithin s.Uses (nest [s.shortLoop shape .ox "I", s.shortLoop shape .oy "I"]
      [.stmt (.assign ⟨.sum s.number, [.index .outputX, .index .outputY]⟩ (s.initial .outputZ))]) :=
    Tree.allWithin_nest (hshort "I" (by decide)) ⟨⟨.sum hw, initial_within (uses_admits hw) .outputZ⟩, trivial⟩
  have hfinish : Tree.AllWithin s.Uses (nest [s.shortLoop shape .ox "O", s.shortLoop shape .oy "O"]
      [.stmt (.assign ⟨s.output, outputSubscripts⟩
        (s.activate (.element ⟨.sum s.number, [.index .outputX, .index .outputY]⟩)))]) :=
    Tree.allWithin_nest (hshort "O" (by decide)) ⟨⟨.output, activate_within (uses_admits hw) (Uses.sum hw)⟩, trivial⟩
  unfold convTile
  refine ⟨⟨hloop _, ?_, by rintro ⟨⟩⟩, trivial⟩
  simp only [Tree.allWithin_append]
  exact ⟨⟨⟨⟨⟨⟨⟨.sumType hw, .sum hw⟩, trivial, trivial⟩, hstart⟩, trivial, trivial⟩, hreduction⟩, trivial, trivial⟩,
    hfinish⟩

end Convolution

theorem conv_within (hk : s.layer.kind = .conv) (h : s.conv = .ok code) : Tree.AllWithin s.Uses code := by
  have hw : s.layer.weighted = true := by rw [Layer.weighted, hk, Kind.weighted]
  simp only [conv, bind_eq_ok, pure_eq_ok] at h
  obtain ⟨a, -, shape, -, c, -, o, ho, rfl⟩ := h
  simp only [Tree.allWithin_append]
  refine ⟨⟨s.header_within shape, s.uses_declarations _⟩, ?_⟩
  cases a with
  | scalar => exact convScalar_within hw ho c
  | vector => exact convVector_within hw ho c
  | tile => exact convTile_within hw ho c

theorem pooling_within (hk : s.layer.kind = .pooling) (h : s.pooling = .ok code) : Tree.AllWithin s.Uses code := by
  simp only [pooling, bind_eq_ok, pure_eq_ok] at h
  obtain ⟨_, -, shape, -, seed, -, rfl⟩ := h
  have hloop := s.loop_worded shape
  have hstored : ∀ st ∈ (if s.config.capture then [Stmt.store s.number "LayerOutput" ⟨.maximum, []⟩ (.index .outputX)
      (.index .outputY) (.index .outputZ)] else []), st.Within s.Uses := by
    intro st hst
    split at hst
    · rename_i hc
      cases List.mem_singleton.mp hst
      exact ⟨.store hc, mentions_plain (by decide), .maximum hk⟩
    · cases hst
  have hwindow : Tree.AllWithin s.Uses (nest [s.loop shape .kx] [.loop (s.loop shape .ky) .braced
      [.stmt (.assign ⟨.cell, []⟩ (.element ⟨s.input, [.add (s.strided .outputX) (.index .kernelX),
        .add (s.strided .outputY) (.index .kernelY), .index .outputZ]⟩)), .stmt .keepMaximum]]) :=
    Tree.allWithin_nest (by simp [hloop])
      ⟨⟨hloop _, ⟨⟨.cell hk, .input⟩, ⟨.cell hk, .maximum hk⟩, trivial⟩, by rintro ⟨⟩⟩, trivial⟩
  simp only [Tree.allWithin_append]
  refine ⟨⟨s.header_within shape, s.uses_declarations _⟩, Tree.allWithin_nest (by simp [hloop]) ?_⟩
  refine ⟨⟨hloop _, ?_, by rintro ⟨⟩⟩, trivial⟩
  simp only [Tree.allWithin_append, Tree.allWithin_ofStmts]
  exact ⟨⟨⟨⟨⟨.outputType, .cell hk, .maximum hk⟩, trivial, ⟨.maximum hk, trivial⟩, trivial⟩, hwindow⟩,
    ⟨.output, .maximum hk⟩, trivial⟩, hstored⟩

theorem flatten_within (h : s.flatten = .ok code) : Tree.AllWithin s.Uses code := by
  simp only [flatten, bind_eq_ok, pure_eq_ok] at h
  obtain ⟨_, -, shape, -, rfl⟩ := h
  have hloop := s.loop_worded shape
  have hstored : ∀ st ∈ (if s.config.capture then [Stmt.store s.number "LayerOutput"
      ⟨s.output, [flatPosition shape.input]⟩ (flatPosition shape.input) nowhere nowhere] else []),
      st.Within s.Uses := by
    intro st hst
    split at hst
    · rename_i hc
      cases List.mem_singleton.mp hst
      exact ⟨.store hc, mentions_plain (by decide), .output⟩
    · cases hst
  have hcopy : (Stmt.assign ⟨s.output, [flatPosition shape.input]⟩
      (.element ⟨s.input, [.index .inputX, .index .inputY, .index .inputZ]⟩)).Within s.Uses :=
    ⟨.output, Uses.input⟩
  simp only [Tree.allWithin_append]
  refine ⟨⟨s.header_within shape, s.uses_declarations _⟩, Tree.allWithin_nest (by simp [hloop]) ?_⟩
  exact ⟨innermost_within (hloop _) hcopy hstored, trivial⟩

theorem dense_within (hk : s.layer.kind = .dense) (h : s.dense = .ok code) : Tree.AllWithin s.Uses code := by
  have hw : s.layer.weighted = true := by rw [Layer.weighted, hk, Kind.weighted]
  simp only [dense, bind_eq_ok, pure_eq_ok] at h
  obtain ⟨shape, -, rfl⟩ := h
  have hloop := s.loop_worded shape
  have hstart := List.forall_mem_append.mpr ⟨startSum_within (uses_admits hw) .outputX,
    storeBias_within (uses_admits hw) .outputX (.index .outputX) nowhere⟩
  have hadd : (Stmt.accumulate ⟨.sum s.number, []⟩ (s.product ⟨s.input, [.index .inputX]⟩
      ⟨.weights s.number, [.index .inputX, .index .outputX]⟩)).Within s.Uses :=
    ⟨.sum hw, product_within (uses_admits hw) .input (.weights hw)⟩
  have hstored : ∀ st ∈ s.storeWeight ⟨.weights s.number, [.index .inputX, .index .outputX]⟩, st.Within s.Uses :=
    storeWeight_within (uses_admits hw) rfl
  have hsum : Tree.AllWithin s.Uses [innermost (s.loop shape .ix) _ _] :=
    ⟨innermost_within (hloop .ix) hadd hstored, trivial⟩
  have hfinish := finishSum_within hw [.index .outputX] .outputX (.index .outputX) nowhere nowhere
  have hbody := Tree.allWithin_append.mpr ⟨Tree.allWithin_append.mpr ⟨Tree.allWithin_ofStmts.mpr hstart, hsum⟩,
    Tree.allWithin_ofStmts.mpr hfinish⟩
  simp only [Tree.allWithin_append]
  exact ⟨⟨s.header_within shape, s.uses_declarations _⟩, ⟨hloop _, hbody, by rintro ⟨⟩⟩, trivial⟩

theorem code_within (h : s.code = .ok code) : Tree.AllWithin s.Uses code := by
  unfold Site.code at h
  cases hk : s.layer.kind with
  | conv =>
    rw [hk] at h
    exact conv_within hk h
  | pooling =>
    rw [hk] at h
    exact pooling_within hk h
  | flatten =>
    rw [hk] at h
    exact flatten_within h
  | dense =>
    rw [hk] at h
    exact dense_within hk h

theorem code_mentions (h : s.code = .ok code) : Tree.AllMention s.Uses code :=
  mentions_trees code (code_within h)

end Site

/-! ## The body of the generated function -/

namespace Forward

variable {net : Network} {c : Config} {orders : List LoopOrder} {profile : String} {layers : List (Layer × Nat)}

/-- The names in the code of the given layers, and in what stands before and between them. -/
inductive Uses (net : Network) (c : Config) (orders : List LoopOrder) (profile : String)
    (layers : List (Layer × Nat)) : Name → Prop
  | layer {l : Layer} {n : Nat} {s : Site} {x : Name} : (l, n) ∈ layers → site net c orders profile l n = .ok s →
      s.Uses x → Uses net c orders profile layers x
  | captured : Uses net c orders profile layers (.symbol (.buffer .inputs))
  | store : c.capture = true → Uses net c orders profile layers (.symbol .store)
  | faulty {l : Layer} {n : Nat} : c.faultSimulation = true → (l, n) ∈ layers.dropLast →
      Uses net c orders profile layers (.symbol (.buffer (.between n)))
  | inject {l : Layer} {n : Nat} : c.faultSimulation = true → (l, n) ∈ layers.dropLast →
      Uses net c orders profile layers (.symbol .inject)

theorem Uses.cons {x : Layer × Nat} {n : Name} (h : Uses net c orders profile layers n) :
    Uses net c orders profile (x :: layers) n := by
  have hdrop {y : Layer × Nat} (hy : y ∈ layers.dropLast) : y ∈ (x :: layers).dropLast := by
    rw [List.dropLast_cons_of_ne_nil (by rintro rfl; cases hy)]
    exact List.mem_cons_of_mem x hy
  cases h with
  | layer hmem hs hu => exact .layer (List.mem_cons_of_mem x hmem) hs hu
  | captured => exact .captured
  | store hc => exact .store hc
  | faulty hf hmem => exact .faulty hf (hdrop hmem)
  | inject hf hmem => exact .inject hf (hdrop hmem)

theorem inputCapture_mentions {l : Layer} {n : Nat} {capture : List Tree} (h : inputCapture c l n = .ok capture) :
    Tree.AllMention (Uses net c orders profile layers) capture := by
  apply mentions_trees
  have hinputs : Mentions (Uses net c orders profile layers) "inputs" :=
    mentions_literal [.symbol (.buffer .inputs)] (by decide +kernel) (by simpa using Uses.captured)
  unfold inputCapture at h
  cases hc : c.capture with
  | false =>
    simp only [hc, Bool.not_false, if_true, pure_eq_ok] at h
    rw [← h]
    trivial
  | true =>
    have hplain (i : Index) (b : Option Int) : (Head.mk none true i b).Worded := by rintro _ ⟨⟩
    by_cases hk : l.kind = .dense
    · simp only [hc, hk, Bool.not_true, Bool.false_eq_true, if_false, if_true, bind_eq_ok, pure_eq_ok] at h
      obtain ⟨v, -, x, -, loops, rfl, rfl⟩ := h
      refine ⟨?_, trivial, trivial, trivial⟩
      exact Tree.allWithin_nest (by simp [hplain]) ⟨⟨.store hc, hinputs, .captured⟩, trivial⟩
    · simp only [hc, hk, Bool.not_true, Bool.false_eq_true, if_false, bind_eq_ok, pure_eq_ok] at h
      obtain ⟨v, -, x, -, y, -, z, -, loops, rfl, rfl⟩ := h
      refine ⟨?_, trivial, trivial, trivial⟩
      exact Tree.allWithin_nest (by simp [hplain]) ⟨⟨.store hc, hinputs, .captured⟩, trivial⟩

theorem layersCode_mentions {code : List Tree} (h : layersCode net c orders profile layers = .ok code) :
    Tree.AllMention (Uses net c orders profile layers) code := by
  -- A fault is injected behind each layer but the last of those that are left.
  induction layers generalizing code with
  | nil =>
    cases h
    exact nofun
  | cons x rest ih =>
    obtain ⟨s, own, more, hs, hown, hmore, rfl⟩ := layersCode_cons.mp h
    have hself : Tree.AllMention (Uses net c orders profile (x :: rest)) own :=
      (Site.code_mentions hown).mono fun n hn => .layer List.mem_cons_self hs hn
    have hrest : Tree.AllMention (Uses net c orders profile (x :: rest)) more :=
      (ih hmore).mono fun n hn => hn.cons
    refine (hself.append (mentions_trees _ ?_)).append hrest
    split
    · trivial
    · rename_i hne
      have hmem : x ∈ (x :: rest).dropLast := by
        rw [List.dropLast_cons_of_ne_nil (by simpa using hne)]
        exact List.mem_cons_self
      unfold separator
      split
      · rename_i hf
        exact ⟨trivial, ⟨.inject hf hmem, .faulty hf hmem⟩, trivial, trivial⟩
      · exact ⟨trivial, trivial, trivial⟩

end Forward

open Forward in
theorem Network.body_mentions {net : Network} {c : Config} {orders : List LoopOrder} {profile : String} {p : Program}
    (h : net.program c orders profile = .ok p) : ∃ layers, emittedLayers net c = .ok layers ∧
      Tree.AllMention (Uses net c orders profile layers) p.body := by
  obtain ⟨-, layers, first, n, last, m, types, parameters, capture, code, hlayers, -, -, -, -, hcapture, hcode, rfl⟩ :=
    Network.program_eq_ok.mp h
  exact ⟨layers, hlayers, (inputCapture_mentions hcapture).append (layersCode_mentions hcode)⟩

end LayerLoops
