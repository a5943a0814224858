import LayerLoops.Proofs.Completed

/-! # Repeated inference

What inference settles of a layer it finds settled when it comes again, whether the layer was completed or not. So a
second run over the layers goes the same way as the first one: it stops where that one stopped, says what that one
said, and leaves the layers alone. -/

namespace LayerLoops

namespace Layer

variable (number : Nat) (l : Layer) (input : Volume)

/-! ## What is settled stays settled -/

theorem settleKernel_settleKernel (stride : Int) (k : Kernel) :
    settleKernel stride (settleKernel stride k) = settleKernel stride k := by
  cases h : k.rows.isSome with
  | true => simp [settleKernel, h]
  | false => simp [settleKernel, h]

theorem settle_settle : l.settle.settle = l.settle := by
  obtain ⟨form, input, output, stride, activation, location⟩ := l
  cases form with
  | conv filters k padding => cases padding <;> simp [settle, settledStride, settleKernel_settleKernel]
  | pooling type channels k => simp [settle, settledStride, settleKernel_settleKernel]
  | flatten nodes | dense nodes => rfl

theorem settle_receive_settle : (l.settle.receive input).settle = l.settle.receive input := by
  have hstep : (l.settle.receive input).settle = l.settle.settle.receive input := by
    obtain ⟨form, _, output, stride, activation, location⟩ := l
    cases form <;> rfl
  rw [hstep, settle_settle]

theorem receive_receive : (l.receive input).receive input = l.receive input := by
  obtain ⟨form, _, output, stride, activation, location⟩ := l
  cases form <;> rfl

theorem kind_settle : l.settle.kind = l.kind := by
  obtain ⟨form, input, output, stride, activation, location⟩ := l
  cases form <;> rfl

theorem computeOutput_withOutput (output : Option Volume) (input : Volume) :
    { l with output := output }.computeOutput number input = l.computeOutput number input := by
  obtain ⟨form, _, _, stride, activation, location⟩ := l
  cases form <;> rfl

/-! ## One layer -/

def conclude (number : Nat) (l : Layer) (input : Volume) : Layer × Step Unit :=
  let output := l.computeOutput number input
  match output.outcome with
  | .error f => (l, ⟨output.journal, .error f⟩)
  | .ok v =>
    if v.Positive then ({ l with output := some v }, ⟨output.journal, .ok ()⟩)
    else ({ l with output := some v },
      ⟨output.journal, .error ((Obstacle.empty number l.kind v input).fault l.location)⟩)

theorem infer_of_no_source {number : Nat} {predecessor : Option Layer} {l : Layer}
    (h : (l.settle.input <|> predecessor.bind Layer.output) = none) :
    l.infer number predecessor = (l.settle, Step.fail ((Obstacle.noInput l.kind).fault l.location)) := by
  simp only [infer, h]

theorem infer_of_source {number : Nat} {predecessor : Option Layer} {l : Layer} {input : Volume}
    (h : (l.settle.input <|> predecessor.bind Layer.output) = some input) :
    l.infer number predecessor = (l.settle.receive input).conclude number input := by
  simp only [infer, h, conclude, kind_receive_settle]
  rfl

theorem conclude_conclude : (l.conclude number input).1.conclude number input = l.conclude number input := by
  cases h : (l.computeOutput number input).outcome with
  | error f => simp only [conclude, h]
  | ok v =>
    have hdone : (l.conclude number input).1 = { l with output := some v } := by
      simp only [conclude, h]
      split <;> rfl
    rw [hdone]
    simp only [conclude, computeOutput_withOutput, h]
    rfl

theorem exists_conclude_eq : ∃ output, (l.conclude number input).1 = { l with output := output } := by
  unfold conclude
  dsimp only
  split
  · exact ⟨l.output, rfl⟩
  · split
    · exact ⟨_, rfl⟩
    · exact ⟨_, rfl⟩

theorem infer_infer (predecessor : Option Layer) (l : Layer) :
    (l.infer number predecessor).1.infer number predecessor = l.infer number predecessor := by
  cases h : (l.settle.input <|> predecessor.bind Layer.output) with
  | none =>
    rw [infer_of_no_source h]
    have hagain : (l.settle.settle.input <|> predecessor.bind Layer.output) = none := by
      rw [settle_settle, h]
    rw [infer_of_no_source hagain, settle_settle, kind_settle]
    rfl
  | some input =>
    rw [infer_of_source h]
    obtain ⟨output, hdone⟩ := exists_conclude_eq number (l.settle.receive input) input
    have hsettle : ((l.settle.receive input).conclude number input).1.settle =
        ((l.settle.receive input).conclude number input).1 := by
      rw [hdone]
      exact congrArg (fun m : Layer => { m with output := output }) (settle_receive_settle l input)
    have hreceive : ((l.settle.receive input).conclude number input).1.receive input =
        ((l.settle.receive input).conclude number input).1 := by
      rw [hdone]
      exact congrArg (fun m : Layer => { m with output := output }) (receive_receive l.settle input)
    have hagain : (((l.settle.receive input).conclude number input).1.settle.input <|>
        predecessor.bind Layer.output) = some input := by
      rw [hsettle, hdone]
      rfl
    rw [infer_of_source hagain, hsettle, hreceive, conclude_conclude]

end Layer

/-! ## All layers -/

theorem inferFrom_inferFrom (number : Nat) (predecessor : Option Layer) (ls : List Layer) :
    inferFrom number predecessor (inferFrom number predecessor ls).1 = inferFrom number predecessor ls := by
  induction ls generalizing number predecessor with
  | nil => rfl
  | cons l ls ih =>
    have hl := l.infer_infer number predecessor
    cases h : (l.infer number predecessor).2.outcome with
    | ok u =>
      have hfirst : (inferFrom number predecessor (l :: ls)).1 =
          (l.infer number predecessor).1 :: (inferFrom (number + 1) (some (l.infer number predecessor).1) ls).1 := by
        simp only [inferFrom, h]
      rw [hfirst]
      simp only [inferFrom, hl, h, ih]
    | error f =>
      have hfirst : (inferFrom number predecessor (l :: ls)).1 = (l.infer number predecessor).1 :: ls := by
        simp only [inferFrom, h]
        split <;> simp_all
      rw [hfirst]
      simp only [inferFrom, hl, h]

theorem Network.infer_infer (net : Network) : net.infer.1.infer = net.infer := by
  simp only [Network.infer, inferFrom_inferFrom]

/-- A network that inference has been through, to its end or not, is left as it is by a second run, which ends the
same way and records the same errors and warnings. -/
theorem Network.inference_repeats (net : Network) :
    net.infer.1.infer.1 = net.infer.1 ∧ net.infer.1.infer.2.outcome = net.infer.2.outcome ∧
      Journal.errors net.infer.1.infer.2.journal = Journal.errors net.infer.2.journal ∧
      Journal.warnings net.infer.1.infer.2.journal = Journal.warnings net.infer.2.journal := by
  rw [Network.infer_infer]
  exact ⟨rfl, rfl, rfl, rfl⟩

end LayerLoops
