import LayerLoops.Inference
import LayerLoops.Proofs.Declared

/-! # Completed layers

Inference that comes to its end leaves every layer with a complete geometry: a positive stride, positive input
and output volumes, a square kernel, and an output whose extents are those of the window over the input. A
layer keeps the input it declares, and any other one reads what its predecessor gives. -/

namespace LayerLoops

variable {P : Int → Prop} {input : Volume} {k : Kernel} {l : Layer} {number : Nat} {predecessor : Option Layer}

/-- The stride and the volumes of a layer, once they are known. -/
structure Geometry where
  stride : Int
  input : Volume
  output : Volume
  stride_pos : 0 < stride
  input_pos : input.Positive
  output_pos : output.Positive

namespace Geometry

/-- The output has the extents of a window of side `n` that stays inside the input. -/
def IsValid (g : Geometry) (n : Int) : Prop :=
  g.output.x = Extent.valid g.input.x n g.stride ∧ g.output.y = Extent.valid g.input.y n g.stride

/-- The output has the extents of a window of odd side `n` that may reach over the margins. -/
def IsSame (g : Geometry) (n : Int) : Prop :=
  n.fmod 2 ≠ 0 ∧ g.output.x = Extent.same g.input.x n g.stride ∧ g.output.y = Extent.same g.input.y n g.stride

end Geometry

def Form.Completes (P : Int → Prop) (g : Geometry) : Form → Prop
  | .conv filters k padding => filters = some g.output.z ∧ ∃ n, k = ⟨some n, some n⟩ ∧ P n ∧
      (padding = .valid ∧ g.IsValid n ∨ padding = .same ∧ g.IsSame n)
  | .pooling _ channels k => channels = some g.output.z ∧ g.output.z = g.input.z ∧
      ∃ n, k = ⟨some n, some n⟩ ∧ P n ∧ g.IsValid n
  | .flatten nodes => nodes = some g.input.size ∧ g.output = .flat g.input.size
  | .dense nodes => nodes = some g.output.x ∧ g.output = .flat g.output.x

/-- A layer with the geometry `g`. -/
structure Layer.Complete (P : Int → Prop) (l : Layer) (g : Geometry) : Prop where
  stride : l.stride = some g.stride
  input : l.input = some g.input
  output : l.output = some g.output
  step : P g.stride
  form : l.form.Completes P g

theorem Layer.settledStride_of_declared (one : P 1) (hl : l.Declared P) : P l.settledStride := by
  unfold Layer.settledStride
  cases hs : l.stride with
  | some n => exact hl.stride n hs
  | none =>
    have form := hl.form
    cases hf : l.form with
    | pooling t c k =>
      rw [hf] at form
      obtain rfl | ⟨a, b, rfl, ha, -⟩ := form.2
      · exact one
      · exact ha
    | conv _ _ _ | flatten _ | dense _ => exact one

theorem Layer.settleKernel_of_declared (hk : k.Declared P) {stride : Int} (hs : P stride) :
    ∃ a b, Layer.settleKernel stride k = ⟨some a, some b⟩ ∧ P a ∧ P b := by
  obtain rfl | ⟨a, b, rfl, ha, hb⟩ := hk
  · exact ⟨stride, stride, rfl, hs, hs⟩
  · exact ⟨a, b, rfl, ha, hb⟩

theorem warnUnaligned_reports (number : Nat) (l : Layer) (axis : String) {size : Int} (kernel : Int)
    {stride : Int} (hs : stride ≠ 0) (hf : Decimal.Fits size) :
    (warnUnaligned number l axis size kernel stride).Reports := by
  refine Step.Reports.bind (Step.reports_of_ok (by simp [Step.ofExcept, Extent.unaligned?, hs]; rfl)) ?_
  intro b _
  split
  · refine Step.Reports.bind (Step.reports_of_ok (by simp [Step.ofExcept, writable, hf]; rfl)) ?_
    exact fun n _ => Step.reports_of_ok rfl
  · exact Step.reports_pure _

theorem Obstacle.fault_reported {o : Obstacle} (h : ∀ v ∈ o.volumes, v.Fits) (l : Option Location) :
    ∃ d, o.fault l = .reported d :=
  ⟨_, if_pos h⟩

theorem windowed_ok {padded : Bool} {channels : Step Int} {v : Volume}
    (h : (windowed number l k padded channels input).outcome = .ok v) :
    ∃ n c, k = ⟨some n, some n⟩ ∧ channels.outcome = .ok c ∧ v.z = c ∧
      (if padded then n.fmod 2 ≠ 0 ∧ v.x = Extent.same input.x n l.settledStride ∧
          v.y = Extent.same input.y n l.settledStride
        else v.x = Extent.valid input.x n l.settledStride ∧ v.y = Extent.valid input.y n l.settledStride) := by
  obtain ⟨rows, cols⟩ := k
  cases rows with
  | none => cases h
  | some n =>
    simp only [windowed] at h
    split at h
    · cases h
    · rename_i hc
      cases not_not.mp hc
      obtain ⟨c, hc, h⟩ := Step.outcome_bind_eq_ok.mp h
      refine ⟨n, c, rfl, hc, ?_⟩
      cases padded with
      | true =>
        simp only [if_true] at h ⊢
        split at h
        · cases h
        · obtain ⟨_, -, h⟩ := Step.outcome_bind_eq_ok.mp h
          obtain ⟨_, -, h⟩ := Step.outcome_bind_eq_ok.mp h
          cases h
          exact ⟨rfl, by assumption, rfl, rfl⟩
      | false =>
        obtain ⟨x, hx, h⟩ := Step.outcome_bind_eq_ok.mp h
        obtain ⟨y, hy, h⟩ := Step.outcome_bind_eq_ok.mp h
        cases h
        simp only [Step.ofExcept, Extent.valid?] at hx hy
        split at hx <;> cases hx
        split at hy <;> cases hy
        exact ⟨rfl, rfl, rfl⟩

theorem windowed_reports (hs : l.settledStride ≠ 0) {padded : Bool} {channels : Step Int} (hc : channels.Reports)
    (hi : input.Fits) : (windowed number l k padded channels input).Reports := by
  obtain ⟨rows, cols⟩ := k
  cases rows with
  | none => exact Step.reports_fail _
  | some n =>
    simp only [windowed]
    split
    · exact Step.reports_fail _
    · refine hc.bind fun c _ => ?_
      cases padded with
      | true =>
        simp only [if_true]
        split
        · exact Step.reports_fail _
        · refine (warnUnaligned_reports _ _ _ _ hs hi.1).bind fun _ _ => ?_
          refine (warnUnaligned_reports _ _ _ _ hs hi.2.1).bind fun _ _ => ?_
          exact Step.reports_pure _
      | false => exact Step.reports_of_ok (by simp [Step.ofExcept, Extent.valid?, hs]; rfl)

/-- A form that has settled and has taken the volume `input`. -/
def Form.Received (P : Int → Prop) (input : Volume) : Form → Prop
  | .conv _ k padding => (∃ a b, k = ⟨some a, some b⟩ ∧ P a ∧ P b) ∧ padding ≠ .none
  | .pooling _ channels k => channels = some input.z ∧ ∃ a b, k = ⟨some a, some b⟩ ∧ P a ∧ P b
  | .flatten nodes => nodes = some input.size
  | .dense nodes => ∀ n, nodes = some n → P n

theorem Layer.receive_settle (one : P 1) (hl : l.Declared P) (input : Volume) :
    (l.settle.receive input).form.Received P input := by
  have hs := Layer.settledStride_of_declared one hl
  have form := hl.form
  unfold Layer.receive Layer.settle
  cases hf : l.form with
  | conv filters k padding =>
    rw [hf] at form
    exact ⟨Layer.settleKernel_of_declared form.2 hs, by split <;> simp_all⟩
  | pooling t channels k =>
    rw [hf] at form
    exact ⟨by rw [form.1]; rfl, Layer.settleKernel_of_declared form.2 hs⟩
  | flatten nodes => rfl
  | dense nodes =>
    rw [hf] at form
    exact form

theorem Layer.computeOutput_ok {g : Geometry} (hs : l.settledStride = g.stride) (hf : l.form.Received P g.input)
    (h : (l.computeOutput number g.input).outcome = .ok g.output) : l.form.Completes P g := by
  unfold Layer.computeOutput at h
  cases hform : l.form with
  | conv filters k padding =>
    rw [hform] at h hf
    obtain ⟨n, c, rfl, hc, hz, hw⟩ := windowed_ok h
    obtain ⟨⟨a, b, hk, ha, -⟩, hp⟩ := hf
    cases hk
    refine ⟨?_, n, rfl, ha, ?_⟩
    · cases filters with
      | none => cases hc
      | some m =>
        cases hc
        rw [hz]
    · rw [hs] at hw
      cases padding with
      | none => exact absurd rfl hp
      | valid => exact .inl ⟨rfl, hw⟩
      | same => exact .inr ⟨rfl, hw⟩
  | pooling t channels k =>
    rw [hform] at h hf
    obtain ⟨rfl, a, b, hk, ha, -⟩ := hf
    obtain ⟨n, c, rfl, hc, hz, hw⟩ := windowed_ok h
    cases hc
    cases hk
    rw [hs] at hw
    exact ⟨by rw [hz]; rfl, hz, _, rfl, ha, hw⟩
  | flatten nodes =>
    rw [hform] at h hf
    cases hf
    exact ⟨rfl, (Except.ok.inj h).symm⟩
  | dense nodes =>
    rw [hform] at h
    cases nodes with
    | none => cases h
    | some n =>
      simp only [Step.outcome_pure, Except.ok.injEq] at h
      simp [Form.Completes, ← h, Volume.flat]

theorem Layer.computeOutput_reports (hs : l.settledStride ≠ 0) (hi : l.kind = .dense ∨ l.kind = .flatten ∨ input.Fits) :
    (l.computeOutput number input).Reports := by
  unfold Layer.computeOutput
  unfold Layer.kind at hi
  cases hform : l.form with
  | conv filters k padding =>
    rw [hform] at hi
    refine windowed_reports hs ?_ (by simpa [Form.kind] using hi)
    cases filters with
    | none => exact Step.reports_fail _
    | some n => exact Step.reports_pure _
  | pooling t channels k =>
    rw [hform] at hi
    exact windowed_reports hs (Step.reports_pure _) (by simpa [Form.kind] using hi)
  | flatten nodes => exact Step.reports_pure _
  | dense nodes =>
    cases nodes with
    | none => exact Step.reports_fail _
    | some n => exact Step.reports_pure _

/-- What inference did with a layer `l` behind `predecessor`, where `m` is the completed layer. -/
structure Layer.Completes (P : Int → Prop) (predecessor : Option Layer) (l m : Layer) (g : Geometry) : Prop where
  complete : m.Complete P g
  source : (l.input <|> predecessor.bind Layer.output) = some g.input
  kind : m.kind = l.kind
  activation : m.activation = l.activation

theorem Layer.kind_receive_settle (l : Layer) (input : Volume) : (l.settle.receive input).kind = l.kind := by
  unfold Layer.receive Layer.settle Layer.kind
  cases l.form <;> rfl

theorem Layer.infer_completes (one : P 1) (pos : ∀ n, P n → 0 < n) (hl : l.Declared P)
    (hp : ∀ v, predecessor.bind Layer.output = some v → v.Positive)
    (h : (l.infer number predecessor).2.outcome = .ok ()) :
    ∃ g, l.Completes P predecessor (l.infer number predecessor).1 g := by
  have hs := Layer.settledStride_of_declared one hl
  unfold Layer.infer at h ⊢
  dsimp only at h ⊢
  split at h
  · cases h
  · rename_i input hin
    split at h
    · cases h
    · rename_i v hv
      split at h
      · rename_i hpos
        have hipos : input.Positive := by
          cases hi : l.settle.input with
          | none =>
            rw [hi] at hin
            exact hp input hin
          | some w =>
            rw [hi] at hin
            cases hin
            exact (hl.input input hi).1
        let g : Geometry := ⟨l.settledStride, input, v, pos _ hs, hipos, hpos⟩
        have hform : (l.settle.receive input).form.Completes P g :=
          Layer.computeOutput_ok rfl (Layer.receive_settle one hl input) hv
        simp only [hpos, if_true]
        exact ⟨g, ⟨rfl, rfl, rfl, hs, hform⟩, hin, Layer.kind_receive_settle l input, rfl⟩
      · cases h

theorem Layer.infer_reports (one : P 1) (pos : ∀ n, P n → 0 < n) (fits : ∀ n, P n → Decimal.Fits n)
    (hl : l.Declared P) (hp : ∀ v, predecessor.bind Layer.output = some v → v.Fits)
    (hv : ∀ i o, (l.infer number predecessor).1.input = some i → (l.infer number predecessor).1.output = some o →
      i.Fits ∧ o.Fits) :
    (l.infer number predecessor).2.Reports := by
  have hs : l.settledStride ≠ 0 := Int.ne_of_gt (pos _ (Layer.settledStride_of_declared one hl))
  unfold Layer.infer at hv ⊢
  dsimp only at hv ⊢
  split
  · exact Step.reports_fail _
  · rename_i input hin
    have hfit : l.kind = .dense ∨ l.kind = .flatten ∨ input.Fits := by
      cases hi : l.settle.input with
      | none =>
        rw [hi] at hin
        exact .inr (.inr (hp input hin))
      | some w =>
        rw [hi] at hin
        cases hin
        obtain h | ⟨hx, hy, hz⟩ := (hl.input input hi).2
        · exact .inl h
        · exact .inr (.inr ⟨fits _ hx, fits _ hy, fits _ hz⟩)
    rw [← Layer.kind_receive_settle l input] at hfit
    have hr : ((l.settle.receive input).computeOutput number input).Reports :=
      Layer.computeOutput_reports (l := l.settle.receive input) hs hfit
    split
    · rename_i f hf
      rintro _ ⟨⟩
      exact hr f hf
    · rename_i v hout
      rw [hin] at hv
      simp only [hout] at hv
      split
      · exact Step.reports_of_ok rfl
      · rename_i hpos
        simp only [hpos, if_false] at hv
        obtain ⟨hif, hof⟩ := hv input v rfl rfl
        obtain ⟨d, hd⟩ := Obstacle.fault_reported (o := .empty number l.kind v input)
          (by simp [Obstacle.volumes, hif, hof]) l.location
        exact fun f hf => ⟨d, (Except.error.inj hf).symm.trans hd⟩

/-- What inference did with the layers behind `predecessor`, one after the other. -/
inductive Completion (P : Int → Prop) : Option Layer → List Layer → List Layer → Prop
  | nil {predecessor : Option Layer} : Completion P predecessor [] []
  | cons {predecessor : Option Layer} {l m : Layer} {ls ms : List Layer} {g : Geometry} :
      l.Completes P predecessor m g → Completion P (some m) ls ms → Completion P predecessor (l :: ls) (m :: ms)

namespace Completion

theorem complete {predecessor : Option Layer} {ls ms : List Layer} (h : Completion P predecessor ls ms) :
    ∀ m ∈ ms, ∃ g, m.Complete P g := by
  induction h with
  | nil => simp
  | cons hm _ ih =>
    rintro m (_ | ⟨_, hmem⟩)
    · exact ⟨_, hm.complete⟩
    · exact ih m hmem

end Completion

theorem inferFrom_completion (one : P 1) (pos : ∀ n, P n → 0 < n) {ls : List Layer} (hl : ∀ l ∈ ls, l.Declared P)
    (hp : ∀ v, predecessor.bind Layer.output = some v → v.Positive)
    (h : (inferFrom number predecessor ls).2.outcome = .ok true) :
    Completion P predecessor ls (inferFrom number predecessor ls).1 := by
  induction ls generalizing number predecessor with
  | nil => exact .nil
  | cons l ls ih =>
    unfold inferFrom at h ⊢
    dsimp only at h ⊢
    split at h
    · rename_i hok
      obtain ⟨g, hg⟩ := Layer.infer_completes one pos (hl l List.mem_cons_self) hp hok
      refine .cons hg (ih (fun m hm => hl m (List.mem_cons_of_mem l hm)) ?_ h)
      intro v hv
      cases hg.complete.output.symm.trans hv
      exact g.output_pos
    · cases h
    · cases h

theorem Network.infer_completion (one : P 1) (pos : ∀ n, P n → 0 < n) {net : Network}
    (hl : ∀ l ∈ net.layers, l.Declared P) (h : net.infer.2.outcome = .ok true) :
    Completion P none net.layers net.infer.1.layers :=
  inferFrom_completion one pos hl (by simp) h

theorem inferFrom_ok (one : P 1) (pos : ∀ n, P n → 0 < n) (fits : ∀ n, P n → Decimal.Fits n) {ls : List Layer}
    (hl : ∀ l ∈ ls, l.Declared P) (hp : ∀ v, predecessor.bind Layer.output = some v → v.Positive ∧ v.Fits)
    (hv : ∀ m ∈ (inferFrom number predecessor ls).1, ∀ i o, m.input = some i → m.output = some o → i.Fits ∧ o.Fits) :
    ∃ b, (inferFrom number predecessor ls).2.outcome = .ok b := by
  -- The volume behind each layer is positive and can be written, which is what the next one starts from.
  induction ls generalizing number predecessor with
  | nil => exact ⟨true, rfl⟩
  | cons l ls ih =>
    have hdecl := hl l List.mem_cons_self
    have hself : ∀ i o, (l.infer number predecessor).1.input = some i →
        (l.infer number predecessor).1.output = some o → i.Fits ∧ o.Fits :=
      hv _ (by unfold inferFrom; dsimp only; split <;> exact List.mem_cons_self)
    have hr := Layer.infer_reports one pos fits hdecl (fun v h => (hp v h).2) hself
    unfold inferFrom at hv ⊢
    dsimp only at hv ⊢
    split
    · rename_i hok
      obtain ⟨g, hg⟩ := Layer.infer_completes one pos hdecl (fun v h => (hp v h).1) hok
      rw [hok] at hv
      refine ih (fun m hm => hl m (List.mem_cons_of_mem l hm)) ?_ fun m hm => hv m (List.mem_cons_of_mem _ hm)
      intro v h
      cases hg.complete.output.symm.trans h
      exact ⟨g.output_pos, (hself _ _ hg.complete.input hg.complete.output).2⟩
    · exact ⟨false, rfl⟩
    · rename_i f hf hnot
      obtain ⟨d, rfl⟩ := hr f hnot
      exact absurd rfl (hf d)

end LayerLoops
