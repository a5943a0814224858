import LayerLoops.Proofs.Programs
import LayerLoops.Proofs.Subscripts

/-! # Extents of a generated program

The arrays that a layer subscripts are its input and its output, parameters of the generated function, and what
the code of the layer declares. Each of them has the extents that the loops of the layer stay inside. -/

namespace LayerLoops

namespace Code

/-- The arrays and scalars that trees declare, with whether the declarations are active. -/
def declaredIn (ts : List Tree) : List (Declaration × Bool) := (stmtsAll ts).flatMap Stmt.declarations

@[simp] theorem declaredIn_nil : declaredIn [] = [] := rfl

@[simp] theorem declaredIn_append (ts us : List Tree) : declaredIn (ts ++ us) = declaredIn ts ++ declaredIn us := by
  simp [declaredIn]

@[simp] theorem declaredIn_ofStmts (ss : List Stmt) : declaredIn (Tree.ofStmts ss) = ss.flatMap Stmt.declarations := by
  simp [declaredIn]

@[simp] theorem declaredIn_nest (hs : List Head) (body : List Tree) :
    declaredIn (Site.nest hs body) = declaredIn body := by
  simp [declaredIn]

@[simp] theorem declaredIn_stmt (s : Stmt) (ts : List Tree) :
    declaredIn (.stmt s :: ts) = s.declarations ++ declaredIn ts :=
  rfl

@[simp] theorem declaredIn_blank (ts : List Tree) : declaredIn (.blank :: ts) = declaredIn ts := rfl

@[simp] theorem declaredIn_loop (h : Head) (layout : Layout) (body ts : List Tree) :
    declaredIn (.loop h layout body :: ts) = declaredIn body ++ declaredIn ts :=
  List.flatMap_append

/-- What a buffer is for. -/
inductive Role
  /-- Holds the input or the result of a layer. -/
  | passed
  /-- Holds results before they are scaled. -/
  | wide
  | parameter
  /-- Is kept for one output element, or for those of one channel. -/
  | scratch
  deriving DecidableEq, Repr

def Buffer.role : Buffer → Role
  | .inputs | .outputs | .between _ => .passed
  | .outputsBase | .betweenBase _ => .wide
  | .weights _ | .biases _ | .weightScales _ => .parameter
  | .inputZeroPoints | .outputZeroPoints | .inputScales | .outputScales => .parameter
  | .sum _ | .cell | .maximum => .scratch

theorem Buffer.ne_of_role {a b : Buffer} {r : Role} (ha : a.role = r) (hb : b.role ≠ r) : a ≠ b := by
  rintro rfl
  exact hb ha

end Code

open Code

namespace Site

@[simp] theorem role_input (s : Site) : s.input.role = .passed := by
  rcases s.input_cases with h | h <;> rw [h] <;> rfl

@[simp] theorem role_output (s : Site) : s.output.role = .passed := by
  rcases s.output_cases with h | h <;> rw [h] <;> rfl

theorem role_base {s : Site} (h : s.rescales = true) : s.base.role = .wide := by
  rcases base_of_rescales h with h | h <;> rw [h] <;> rfl

theorem role_base_ne (s : Site) : s.base.role ≠ .parameter ∧ s.base.role ≠ .scratch := by
  rcases s.base_cases with h | h | h | h <;> simp [h, Buffer.role]

theorem IsParameter.role {n : Nat} {b : Buffer} (h : IsParameter n b) : b.role = .parameter := by
  cases h with
  | weights | biases | weightScales => rfl
  | factor hb =>
    simp only [factorBuffers, List.mem_cons, List.not_mem_nil, or_false] at hb
    rcases hb with rfl | rfl | rfl | rfl <;> rfl

end Site

theorem Forward.mem_factorBuffers {t : TypeName} {b : Buffer} (h : (t, b) ∈ factorTypes) : b ∈ Site.factorBuffers :=
  List.mem_map_of_mem (f := Prod.snd) h

theorem Forward.exists_factorType {b : Buffer} (h : b ∈ Site.factorBuffers) : ∃ t, (t, b) ∈ factorTypes := by
  obtain ⟨⟨t, _⟩, ht, rfl⟩ := List.mem_map.mp (show b ∈ factorTypes.map Prod.snd from h)
  exact ⟨t, ht⟩

theorem Forward.factor_role {t : TypeName} {b : Buffer} (h : (t, b) ∈ factorTypes) : b.role = .parameter :=
  (show Site.IsParameter 0 b from .factor (mem_factorBuffers h)).role

theorem Forward.Signature.role {net : Network} {c : Config} {orders : List LoopOrder} {profile : String}
    {d : Declaration} {active : Bool} (h : Signature net c orders profile d active) :
    d.buffer.role = .parameter ∨ d.buffer.role = .passed := by
  cases h with
  | factor _ _ hb => exact .inl (factor_role hb)
  | scales | weights | biases => exact .inl rfl
  | between => exact .inr rfl

namespace Site

/-! ## What the loops of a layer declare -/

variable {s : Site} {g : Geometry}

@[simp] theorem declared_storeBias (i : Index) (x z : Expr) : (s.storeBias i x z).flatMap Stmt.declarations = [] := by
  unfold storeBias
  split <;> rfl

@[simp] theorem declared_storeWeight (weight : Element) : (s.storeWeight weight).flatMap Stmt.declarations = [] := by
  unfold storeWeight
  split <;> rfl

@[simp] theorem declared_requantize (es : List Expr) (i : Index) :
    (s.requantize es i).flatMap Stmt.declarations = [] := by
  unfold requantize
  split <;> rfl

@[simp] theorem declared_storeOutput (es : List Expr) (x y z : Expr) :
    (s.storeOutput es x y z).flatMap Stmt.declarations = [] := by
  unfold storeOutput
  split
  · rfl
  · cases s.rescales <;> rfl

@[simp] theorem declaredIn_innermost (h : Head) (body : Stmt) (stored : List Stmt) (ts : List Tree) :
    declaredIn (innermost h body stored :: ts) =
      body.declarations ++ stored.flatMap Stmt.declarations ++ declaredIn ts := by
  unfold innermost
  cases stored <;> simp [declaredIn, stmtsAll, Tree.stmts]

theorem IsConv.declaredIn_multiplyAdd {n : Int} (hs : s.IsConv g n) {shape : Shape} {o : Operands}
    (ho : s.convOperands shape = .ok o) (h : Head) (sum : Element) : declaredIn [s.multiplyAdd h sum o] = [] := by
  rcases hs.window with ⟨hpad, -⟩ | ⟨hpad, -⟩
  · rw [operands_valid hpad] at ho
    cases ho
    simp [multiplyAdd, Stmt.declarations]
  · rw [hs.operands_same hpad] at ho
    cases ho
    have hstored : declaredIn (if (s.storeWeight s.convWeight).isEmpty = true then []
        else [.simulated (Tree.ofStmts (s.storeWeight s.convWeight))]) = [] := by
      split
      · rfl
      · simp [declaredIn, stmtsAll, Tree.stmts]
    have hchoose (b : Bounds) : declaredIn [.choose b (.accumulate sum (s.product s.paddedElement s.convWeight))
        (s.outsideAdd sum)] = [] := by
      unfold outsideAdd
      split <;> rfl
    simp only [multiplyAdd, declaredIn_loop, declaredIn_append, declaredIn_ofStmts, hstored, declaredIn_nil,
      List.append_nil]
    exact hchoose ⟨shape.input.x, shape.input.y⟩

theorem IsConv.declaredIn_convNest {n : Int} (hs : s.IsConv g n) {o : Operands}
    (ho : s.convOperands ⟨g.input, g.output⟩ = .ok o) (a : Axis) (k : Accumulator) :
    declaredIn (s.convNest ⟨g.input, g.output⟩ o (loopsOf a k) k) =
      [(⟨.sum s.number, .sum s.number, (sumDims g n a k).map some⟩, true)] := by
  have hbound : (s.loop ⟨g.input, g.output⟩ a).bound = some (extentOf g n a) := hs.bound a
  cases k <;> simp [convNest, convScalar, convVector, convTile, reduction, hs.declaredIn_multiplyAdd ho,
    Stmt.declarations, sumDims, loopsOf, hbound]

theorem declaredIn_poolingNest (s : Site) (shape : Shape) (seed : Int) :
    declaredIn (s.poolingNest shape seed) =
      [(⟨s.outputType, .cell, []⟩, true), (⟨s.outputType, .maximum, []⟩, true)] := by
  cases hc : s.config.capture <;> simp [poolingNest, hc, Stmt.declarations]

theorem declaredIn_flattenNest (s : Site) (shape : Shape) : declaredIn (s.flattenNest shape) = [] := by
  cases hc : s.config.capture <;> simp [flattenNest, hc, Stmt.declarations]

theorem declaredIn_denseNest (s : Site) (shape : Shape) :
    declaredIn (s.denseNest shape) = [(⟨.sum s.number, .sum s.number, []⟩, true)] := by
  simp [denseNest, Stmt.declarations]

theorem Body.locals {body : List Tree} (h : s.Body g body) :
    ((declaredIn body).map (·.1.buffer)).Nodup ∧ ∀ d ∈ declaredIn body, d.1.buffer.role = .scratch := by
  cases h with
  | conv hs _ _ _ ho => simp [hs.declaredIn_convNest ho, Buffer.role]
  | pooling => simp [declaredIn_poolingNest, Buffer.role]
  | flatten => simp [declaredIn_flattenNest]
  | dense => simp [declaredIn_denseNest, Buffer.role]

theorem Body.safe {body : List Tree} (h : s.Body g body) {extents : Buffer → Option (List Int)}
    (hc : s.Covers g extents) (hi : s.layer.input = some g.input) (ho : s.layer.output = some g.output)
    (hmem : (s.layer, s.number) ∈ s.net.numbered) (hw : s.layer.Writable)
    (hlocal : ∀ d, (d, true) ∈ declaredIn body → extents d.buffer = d.dims.mapM id) :
    ∀ t ∈ body, t.SafeUnder extents [] := by
  have hin := hw.input _ hi
  have hout := hw.output _ ho
  cases h with
  | conv hs hsup hplain ha hoperands =>
    rename_i n k a o
    have hsum := hlocal ⟨.sum s.number, .sum s.number, (sumDims g n a k).map some⟩
      (by simp [hs.declaredIn_convNest hoperands])
    rw [mapM_id_some] at hsum
    have hkernels := hc.weights hs.weighted [n, n, g.input.z, g.output.z]
      ((Layer.weightDims_conv hs.form hi ho).mpr ⟨rfl, ?_⟩)
    · refine ConvCovers.safe_convNest ⟨hc, hs, hmem, hkernels, fun hcapture => ?_⟩ hoperands ha hsum
      rcases hplain with hplain | rfl
      · simp [scalarOnly, hcapture] at hplain
      · exact hsum
    · have hside : Decimal.Fits n := hw.rows n (by rw [hs.form, Form.kernel])
      simpa using ⟨hside, hin.2.2, hout.2.2⟩
  | pooling form stride depth window _ _ =>
    rw [declaredIn_poolingNest] at hlocal
    exact pooling_safe hc form stride depth window (hlocal ⟨s.outputType, .cell, []⟩ (by simp))
      (hlocal ⟨s.outputType, .maximum, []⟩ (by simp))
  | flatten form output => exact flatten_safe hc form output
  | dense form =>
    have hsum := hlocal ⟨.sum s.number, .sum s.number, []⟩ (by simp [declaredIn_denseNest])
    have hweighted : s.layer.weighted = true := by rw [Layer.weighted, Layer.kind, form, Form.kind, Kind.weighted]
    refine dense_safe hc hmem form (hc.weights hweighted _ ((Layer.weightDims_dense form hi ho).mpr ⟨rfl, ?_⟩)) hsum
    simpa using ⟨hin.1, hout.1⟩

theorem declaredIn_header (s : Site) (shape : Shape) : declaredIn (s.header shape) = [] := rfl

theorem mem_declaredIn_declarations {dims : List Int} {d : Declaration} {active : Bool} :
    (d, active) ∈ declaredIn (s.declarations dims) ↔
      (s.rescales = true ∧ d = ⟨s.type, s.base, dims.map some⟩ ∧ active = true) ∨
        (s.writesOutput = false ∧ d = ⟨s.outputType, s.output, dims.map some⟩ ∧ active = s.isLocal) := by
  unfold declarations
  rw [declaredIn_ofStmts, List.flatMap_append, List.mem_append]
  cases s.rescales <;> cases s.writesOutput <;> simp [Stmt.declarations]

end Site

/-! ## The extents that a layer sees -/

namespace Program

/-- The parameters of the generated function, with whether they are active. -/
def signature (p : Program) : List (Declaration × Bool) := p.parameters.flatMap Group.declarations

/-- The extents while the code of a layer runs: its input and its output have those of its volumes, and all else
has those of its declaration. -/
def extents (p : Program) (s : Site) (i o : Volume) (code : List Tree) (b : Buffer) : Option (List Int) :=
  if b = s.input then some (s.layer.readDims i)
  else if b = s.output then some (s.layer.writtenDims o)
  else extentsIn (p.signature ++ declaredIn code) b

end Program

namespace Site

section Seen

variable {net : Network} {c : Config} {orders : List LoopOrder} {profile : String} {p : Program} {s : Site}
  {g : Geometry} {body : List Tree}

def codeOf (s : Site) (g : Geometry) (body : List Tree) : List Tree :=
  s.header ⟨g.input, g.output⟩ ++ s.declarations (s.layer.writtenDims g.output) ++ body

theorem mem_declaredIn_codeOf {d : Declaration × Bool} : d ∈ declaredIn (s.codeOf g body) ↔
    d ∈ declaredIn (s.declarations (s.layer.writtenDims g.output)) ∨ d ∈ declaredIn body := by
  rw [codeOf, declaredIn_append, declaredIn_append, declaredIn_header, List.nil_append, List.mem_append]

theorem mem_seen (hp : Forward.groups net c orders profile = .ok p.parameters) {d : Declaration} {active : Bool} :
    (d, active) ∈ p.signature ++ declaredIn (s.codeOf g body) ↔ Forward.Signature net c orders profile d active ∨
      (d, active) ∈ declaredIn (s.declarations (s.layer.writtenDims g.output)) ∨ (d, active) ∈ declaredIn body := by
  rw [List.mem_append, Program.signature, Forward.mem_groups_iff hp, mem_declaredIn_codeOf]

theorem extents_parameter (hp : Forward.groups net c orders profile = .ok p.parameters) (hb : s.Body g body)
    {t : TypeName} {b : Buffer} (hparam : IsParameter s.number b) {dims : List Int}
    (hd : Forward.Signature net c orders profile ⟨t, b, dims.map some⟩ true) :
    p.extents s g.input g.output (s.codeOf g body) b = some dims := by
  have hne {b' : Buffer} (h : b'.role ≠ .parameter) : b ≠ b' := Buffer.ne_of_role hparam.role h
  rw [Program.extents, if_neg (hne (by simp)), if_neg (hne (by simp))]
  have hmem := (Forward.mem_groups_iff hp).mpr hd
  refine extentsIn_eq ⟨_, List.mem_append_left _ hmem, rfl⟩ fun e he hbuffer => ?_
  rw [mem_seen hp, mem_declaredIn_declarations] at he
  rcases he with he | (⟨-, rfl, -⟩ | ⟨-, rfl, -⟩) | he
  · exact (hbuffer ▸ he.parameterDims).unique hd.parameterDims
  · exact absurd hbuffer.symm (hne s.role_base_ne.1)
  · exact absurd hbuffer.symm (hne (by simp))
  · exact absurd hbuffer.symm (hne (by simp [hb.locals.2 _ he]))

theorem extents_scratch (hp : Forward.groups net c orders profile = .ok p.parameters) (hb : s.Body g body)
    {d : Declaration} (hd : (d, true) ∈ declaredIn body) :
    p.extents s g.input g.output (s.codeOf g body) d.buffer = d.dims.mapM id := by
  have hne {b : Buffer} (h : b.role ≠ .scratch) : d.buffer ≠ b := Buffer.ne_of_role (hb.locals.2 _ hd) h
  rw [Program.extents, if_neg (hne (by simp)), if_neg (hne (by simp)), codeOf, declaredIn_append, ← List.append_assoc]
  refine extentsIn_of_mem hd hb.locals.1 fun e he => (hne ?_).symm
  rw [declaredIn_append, declaredIn_header, List.nil_append, List.mem_append, Program.signature,
    Forward.mem_groups_iff hp, mem_declaredIn_declarations] at he
  rcases he with he | ⟨-, rfl, -⟩ | ⟨-, rfl, -⟩
  · rcases he.role with h | h <;> simp [h]
  · exact s.role_base_ne.2
  · simp

theorem extents_base (hp : Forward.groups net c orders profile = .ok p.parameters) (hb : s.Body g body)
    (hn : 0 < s.number) :
    p.extents s g.input g.output (s.codeOf g body) s.base = some (s.layer.writtenDims g.output) := by
  have hinput : s.base ≠ s.input := fun h => not_writes_input hn (.inr (.inl h.symm))
  rw [Program.extents, if_neg hinput]
  cases hr : s.rescales with
  | false => rw [base_of_not_rescales hr, if_pos rfl]
  | true =>
    have hne {b : Buffer} (h : b.role ≠ .wide) : s.base ≠ b := Buffer.ne_of_role (role_base hr) h
    have hown : (⟨s.type, s.base, (s.layer.writtenDims g.output).map some⟩, true) ∈ declaredIn (s.codeOf g body) :=
      mem_declaredIn_codeOf.mpr (.inl (mem_declaredIn_declarations.mpr (.inl ⟨hr, rfl, rfl⟩)))
    rw [if_neg (hne (by simp))]
    refine extentsIn_eq ⟨_, List.mem_append_right _ hown, rfl⟩ fun d hd hbuffer => ?_
    rw [mem_seen hp, mem_declaredIn_declarations] at hd
    rcases hd with hd | (⟨-, rfl, -⟩ | ⟨-, rfl, -⟩) | hd
    · exact absurd hbuffer.symm (hne (by rcases hd.role with h | h <;> simp [h]))
    · rfl
    · exact absurd hbuffer.symm (hne (by simp))
    · exact absurd hbuffer.symm (hne (by simp [hb.locals.2 _ hd]))

end Seen

theorem Emitted.covers {p : Program} {s : Site} {P : Int → Prop} {g : Geometry} {orders : List LoopOrder}
    {profile : String} {body : List Tree} (h : s.Emitted P g) (hw : s.layer.Writable)
    (hp : Forward.groups s.net s.config orders profile = .ok p.parameters)
    (hactive : s.config.isolated = false ∨ s.config.singleLayer = s.number) (hb : s.Body g body) :
    s.Covers g (p.extents s g.input g.output (s.codeOf g body)) := by
  have hpos := (Network.mem_numbered_iff.mp h.mem).1
  have hflag : (!s.config.isolated || s.config.singleLayer == s.number) = true := by
    rcases hactive with hi | hi <;> simp [hi]
  have hmem (hweighted : s.layer.weighted = true) : (s.layer, s.number) ∈ s.net.weighted :=
    List.mem_filter.mpr ⟨h.mem, hweighted⟩
  have hchannels : s.layer.channelDim = .ok (some (s.layer.channels g.output)) := by
    refine (Layer.channelDim_eq_ok h.complete.output).mpr ⟨rfl, ?_⟩
    have hfits := hw.output _ h.complete.output
    unfold Layer.channels
    split
    · exact hfits.2.2
    · exact hfits.1
  refine ⟨if_pos rfl, ?_, extents_base hp hb hpos, fun hweighted dims hdims => ?_, fun hbias hweighted => ?_,
    fun hq hweighted => ?_, fun hq hweighted b hfactor => ?_⟩
  · have hne : s.output ≠ s.input := fun hio => not_writes_input hpos (.inr (.inr hio.symm))
    rw [Program.extents, if_neg hne, if_pos rfl]
  · refine extents_parameter hp hb .weights (t := .weights) ?_
    rw [← hflag]
    exact .weights (hmem hweighted) hdims
  · refine extents_parameter hp hb .biases (t := .biases) ?_
    rw [← hflag]
    exact .biases hbias (hmem hweighted) hchannels
  · exact extents_parameter hp hb .weightScales (.scales hq (hmem hweighted) hchannels)
  · obtain ⟨t, ht⟩ := Forward.exists_factorType hfactor
    exact extents_parameter hp hb (.factor hfactor) (.factor hq (List.ne_nil_of_mem (hmem hweighted)) ht)

theorem Emitted.safe {p : Program} {s : Site} {P : Int → Prop} (pos : ∀ n, P n → 0 < n) {g : Geometry}
    {orders : List LoopOrder} {profile : String} (h : s.Emitted P g)
    (hp : Forward.groups s.net s.config orders profile = .ok p.parameters)
    (hactive : s.config.isolated = false ∨ s.config.singleLayer = s.number) {code : List Tree}
    (hcode : s.code = .ok code) :
    ∀ a ∈ actionsAll code Scope.empty, a.Safe (p.extents s g.input g.output code) := by
  obtain ⟨hw, body, hbody, rfl⟩ := h.code_cases pos hcode
  have hcovers := h.covers hw hp hactive hbody
  refine safe_of_safeUnder (l := []) ?_ (by simp [Scope.Under])
  simp only [List.forall_mem_append]
  refine ⟨⟨?_, Tree.SafeUnder.ofStmts ?_⟩, ?_⟩
  · simp only [header, List.forall_mem_cons]
    exact ⟨.stmt (.inert (by simp) rfl), .stmt (.inert (by simp) rfl), .stmt (.inert (by simp) rfl), by simp⟩
  · intro st hst
    have hdeclare : ∃ d active, st = .declare d active := by
      grind
    obtain ⟨d, active, rfl⟩ := hdeclare
    exact .inert (by simp) rfl
  · exact hbody.safe hcovers h.complete.input h.complete.output h.mem hw fun d hd => extents_scratch hp hbody hd

end Site

open Forward in
/-- In every layer that a successful compilation emits, and in every iteration of its loops, each subscript lies
inside the extents of its array: the volumes of the layer, and the declarations of the generated function. -/
theorem emitted_subscripts_in_bounds {c : Config} {file : Option String} {doc : Step Source.Document} {prior : Journal}
    {r : Compilation} (h : compile c file doc true prior = .ok r) (hs : r.success = true) :
    ∃ net p src layers, r.network = some net ∧ net.program r.config r.orders r.profile = .ok p ∧
      r.sources = some src ∧ src.main = p.text ∧ emittedLayers net r.config = .ok layers ∧
      ∀ l n, (l, n) ∈ layers → ∃ s code i o, site net r.config r.orders r.profile l n = .ok s ∧
        s.code = .ok code ∧ code <:+: p.body ∧ l.input = some i ∧ l.output = some o ∧
        ∀ a ∈ actionsAll code Scope.empty, a.Safe (p.extents s i o code) := by
  obtain ⟨d, declared, net, p, src, -, -, hcompletion, ha, hp, hsrc, hmain⟩ := compile_emits h hs
  obtain ⟨-, layers, first, k, last, m, types, parameters, capture, code, hlayers, -, -, -, hgroups, -, hcode, rfl⟩ :=
    Network.program_eq_ok.mp hp
  refine ⟨net, _, src, layers, ha.network, hp, hsrc, hmain, hlayers, fun l n hmem => ?_⟩
  obtain ⟨hnumbered, hactive⟩ := mem_emittedLayers hlayers hmem
  obtain ⟨s, own, hsite, hown, hin⟩ := layersCode_infix hcode hmem
  obtain ⟨g, hg⟩ := ha.emitted hcompletion.complete hnumbered hsite
  obtain ⟨_, hiff⟩ := exists_site net r.config r.orders r.profile l n
  obtain rfl := (hiff s).mp hsite
  refine ⟨_, own, g.input, g.output, hsite, hown, hin.trans (List.suffix_append _ _).isInfix, hg.complete.input,
    hg.complete.output, ?_⟩
  exact hg.safe (fun _ => id) hgroups hactive hown

/-- Windows of side 3 move by 2 over 5 rows and 4 columns, and hang over the border of the input. -/
def stridedLines : List String :=
  ["model.add(Conv2D(2, kernel_size=3, strides=2, padding='same', input_shape=(5, 4, 1)))", "model.add(Flatten())",
    "model.add(Dense(3))"]

open Forward in
theorem emitted_subscripts_in_bounds_strided : ∃ r net p l s code,
    compile {} none (Source.Document.ofLines none stridedLines) true = .ok r ∧ r.success = true ∧
      r.network = some net ∧ net.program r.config r.orders r.profile = .ok p ∧
      site net r.config r.orders r.profile l 1 = .ok s ∧ s.code = .ok code ∧ code <:+: p.body ∧
      ∀ a ∈ actionsAll code Scope.empty, a.Safe (p.extents s ⟨5, 4, 1⟩ ⟨3, 2, 2⟩ code) := by
  have hrun : compiledOutline {} (Source.Document.ofLines none stridedLines) = some [
      (.conv, some ⟨5, 4, 1⟩, some ⟨3, 2, 2⟩), (.flatten, some ⟨3, 2, 2⟩, some (.flat 12)),
      (.dense, some (.flat 12), some (.flat 3))] := by
    decide +kernel
  obtain ⟨r, net, hr, hs, hnet, houtline⟩ := exists_of_compiledOutline hrun
  obtain ⟨net', p, src, layers, hnet', hp, -, -, hlayers, hall⟩ := emitted_subscripts_in_bounds hr hs
  cases hnet.symm.trans hnet'
  obtain ⟨_, _, -, -, -, ha⟩ := compile_accepts hr hs
  rw [emittedLayers, Config.isolated, ha.single] at hlayers
  cases hlayers
  obtain ⟨l, hmem, -, hin, hout⟩ := Network.exists_of_outline houtline (k := 0) rfl
  obtain ⟨s, code, i, o, hsite, hcode, hbody, hi, ho, hsafe⟩ := hall l 1 hmem
  cases hi.symm.trans hin
  cases ho.symm.trans hout
  exact ⟨r, net, p, l, s, code, hr, hs, hnet, hp, hsite, hcode, hbody, hsafe⟩

end LayerLoops
