import LayerLoops.Proofs.Completed

/-! # Inference that stops

Completing a layer only ever warns, so the errors of inference are those of the layer it stops at: none if it
comes to the end of the network, and one otherwise. The layers in front of that layer are complete, the layer
keeps what was settled of it, and the layers behind it are as they were declared. -/

namespace LayerLoops

variable {P : Int → Prop} {α β : Type}

namespace Step

/-- The step records no error, whatever its outcome is. -/
def Silent (s : Step α) : Prop := Journal.errors s.journal = []

theorem silent_pure (a : α) : (pure a : Step α).Silent := rfl

theorem silent_fail (f : Fault) : (fail f : Step α).Silent := rfl

theorem silent_ofExcept (x : Except Fault α) : (ofExcept x).Silent := rfl

theorem Silent.bind {s : Step α} {f : α → Step β} (hs : s.Silent) (hf : ∀ a, (f a).Silent) :
    (s >>= f).Silent := by
  cases h : s.outcome with
  | ok a =>
    have happ := Journal.errors_append s.journal (f a).journal
    rw [bind_of_ok h]
    exact happ.trans (by rw [hs, hf a]; rfl)
  | error e =>
    change (s.andThen f).Silent
    simp only [andThen, h]
    exact hs

end Step

theorem warnUnaligned_silent (number : Nat) (l : Layer) (axis : String) (size kernel stride : Int) :
    (warnUnaligned number l axis size kernel stride).Silent := by
  apply (Step.silent_ofExcept _).bind
  intro unaligned
  cases unaligned with
  | false => exact Step.silent_pure _
  | true => exact (Step.silent_ofExcept _).bind fun _ => rfl

theorem windowed_silent {number : Nat} {l : Layer} {k : Kernel} {padded : Bool} {channels : Step Int}
    (hc : channels.Silent) (input : Volume) : (windowed number l k padded channels input).Silent := by
  unfold windowed
  dsimp only
  split
  · exact Step.silent_fail _
  · split
    · exact Step.silent_fail _
    · apply hc.bind
      intro c
      cases padded with
      | false =>
        apply (Step.silent_ofExcept _).bind
        intro x
        apply (Step.silent_ofExcept _).bind
        intro y
        exact Step.silent_pure _
      | true =>
        simp only [if_true]
        split
        · exact Step.silent_fail _
        · apply (warnUnaligned_silent ..).bind
          intro _
          apply (warnUnaligned_silent ..).bind
          intro _
          exact Step.silent_pure _

theorem Layer.computeOutput_silent (number : Nat) (l : Layer) (input : Volume) :
    (l.computeOutput number input).Silent := by
  unfold Layer.computeOutput
  split
  · apply windowed_silent
    split
    · exact Step.silent_pure _
    · exact Step.silent_fail _
  · exact windowed_silent (Step.silent_pure _) input
  · exact Step.silent_pure _
  · split
    · exact Step.silent_pure _
    · exact Step.silent_fail _

theorem Layer.infer_silent (number : Nat) (predecessor : Option Layer) (l : Layer) :
    (l.infer number predecessor).2.Silent := by
  unfold Layer.infer
  dsimp only
  split
  · exact Step.silent_fail _
  · rename_i input hin
    have h := Layer.computeOutput_silent number (l.settle.receive input) input
    split
    · exact h
    · split
      · exact h
      · exact h

theorem inferFrom_silent {ls : List Layer} {number : Nat} {predecessor : Option Layer}
    (h : (inferFrom number predecessor ls).2.outcome = .ok true) :
    (inferFrom number predecessor ls).2.Silent := by
  induction ls generalizing number predecessor with
  | nil => exact Step.silent_pure _
  | cons l ls ih =>
    have hl := Layer.infer_silent number predecessor l
    unfold inferFrom at h ⊢
    dsimp only at h ⊢
    split at h
    · have hrest := ih h
      unfold Step.Silent at hl hrest ⊢
      rw [Journal.errors_append, hl]
      exact hrest
    · cases h
    · cases h

/-- Where inference stopped in `ls`: `front` is completed to `done`, and the layer behind it ends in `d` and is
left as `m`. -/
structure Stop (P : Int → Prop) (number : Nat) (predecessor : Option Layer) (front : List Layer) (l : Layer)
    (done : List Layer) (m : Layer) (d : Diagnostic) : Prop where
  completed : Completion P predecessor front done
  left : (l.infer (number + front.length) (done.getLast? <|> predecessor)).1 = m
  reported : (l.infer (number + front.length) (done.getLast? <|> predecessor)).2.outcome = .error (.reported d)

theorem Stop.cons {number : Nat} {predecessor : Option Layer} {l m : Layer} {g : Geometry}
    (hm : l.Completes P predecessor m g) {front done : List Layer} {k left : Layer} {d : Diagnostic}
    (h : Stop P (number + 1) (some m) front k done left d) :
    Stop P number predecessor (l :: front) k (m :: done) left d := by
  have hlast : ((m :: done).getLast? <|> predecessor) = (done.getLast? <|> some m) := by
    rw [List.getLast?_cons]
    cases done.getLast? <;> rfl
  have hnumber : number + (l :: front).length = number + 1 + front.length := by
    rw [List.length_cons]
    omega
  refine ⟨.cons hm h.completed, ?_, ?_⟩
  · rw [hlast, hnumber]
    exact h.left
  · rw [hlast, hnumber]
    exact h.reported

theorem inferFrom_stop (one : P 1) (pos : ∀ n, P n → 0 < n) {ls : List Layer} (hl : ∀ l ∈ ls, l.Declared P)
    {number : Nat} {predecessor : Option Layer}
    (hp : ∀ v, predecessor.bind Layer.output = some v → v.Positive)
    (h : (inferFrom number predecessor ls).2.outcome = .ok false) :
    ∃ front l rest done m d, ls = front ++ l :: rest ∧
      (inferFrom number predecessor ls).1 = done ++ m :: rest ∧
      Stop P number predecessor front l done m d ∧
      Journal.errors (inferFrom number predecessor ls).2.journal = [d] := by
  induction ls generalizing number predecessor with
  | nil => cases h
  | cons l ls ih =>
    have hsilent := Layer.infer_silent number predecessor l
    unfold Step.Silent at hsilent
    unfold inferFrom at h ⊢
    dsimp only at h ⊢
    split at h
    · rename_i hok
      obtain ⟨g, hg⟩ := Layer.infer_completes one pos (hl l List.mem_cons_self) hp hok
      have hnext : ∀ v, (some (l.infer number predecessor).1).bind Layer.output = some v → v.Positive := by
        intro v hv
        cases hg.complete.output.symm.trans hv
        exact g.output_pos
      obtain ⟨front, k, rest, done, m, d, hls, hms, hstop, herr⟩ :=
        ih (fun k hk => hl k (List.mem_cons_of_mem l hk)) hnext h
      refine ⟨l :: front, k, rest, _ :: done, m, d, ?_, ?_, hstop.cons hg, ?_⟩
      · rw [hls]
        rfl
      · exact congrArg _ hms
      · rw [Journal.errors_append, hsilent]
        exact herr
    · rename_i d hd
      refine ⟨[], l, ls, [], _, d, rfl, rfl, ⟨.nil, rfl, hd⟩, ?_⟩
      rw [Journal.errors_append, hsilent]
      rfl
    · cases h

/-- A network that was declared is inferred completely and without an error, or inference stops at one layer with
one error: what is in front of that layer is complete, and what is behind it is as it was declared. -/
theorem inference_completes_or_stops (ss : List Source.Statement) :
    ∃ net, (Network.ofStatements ss).outcome = .ok net ∧
      (net.infer.2.outcome = .ok true →
        Completion (0 < ·) none net.layers net.infer.1.layers ∧ Journal.errors net.infer.2.journal = []) ∧
      (net.infer.2.outcome = .ok false →
        ∃ front l rest done m d, net.layers = front ++ l :: rest ∧
          net.infer.1.layers = done ++ m :: rest ∧
          Stop (0 < ·) 1 none front l done m d ∧
          Journal.errors net.infer.2.journal = [d]) := by
  have one : (0 : Int) < 1 := by decide
  have pos : ∀ n : Int, 0 < n → 0 < n := fun _ h => h
  have hallows : ∀ s ∈ ss, s.Allows (0 < ·) := fun s _ => s.allows_pos
  obtain ⟨net, hnet, hdecl⟩ := Network.ofStatements_declared one hallows
  refine ⟨net, hnet, ?_, ?_⟩
  · intro h
    exact ⟨Network.infer_completion one pos hdecl h, inferFrom_silent h⟩
  · intro h
    exact inferFrom_stop one pos hdecl (by simp) h

private def place : Location := { line := 1, column := 1 }

/-- A window of side 8 over an output of 4 by 4, with one layer on either side. -/
def wideWindow : List Source.Statement :=
  [⟨⟨["Conv2D"], [.integer 4 place, .integer 3 place],
      [⟨"input_shape", .tuple [.integer 6 place, .integer 6 place, .integer 1 place] place, place⟩], place⟩, place, ""⟩,
    ⟨⟨["MaxPooling2D"], [.integer 8 place], [], place⟩, place, ""⟩,
    ⟨⟨["Dense"], [.integer 2 place], [], place⟩, place, ""⟩]

theorem inference_stops_at_wide_window :
    ∃ net front l rest done m d, (Network.ofStatements wideWindow).outcome = .ok net ∧
      net.infer.2.outcome = .ok false ∧ net.layers = front ++ l :: rest ∧
      net.infer.1.layers = done ++ m :: rest ∧ Stop (0 < ·) 1 none front l done m d ∧
      Journal.errors net.infer.2.journal = [d] := by
  have hrun : (Network.ofStatements wideWindow).outcome.toOption.bind (·.infer.2.outcome.toOption) = some false := by
    decide +kernel
  obtain ⟨net, hnet, -, hstop⟩ := inference_completes_or_stops wideWindow
  have hfalse : net.infer.2.outcome = .ok false := by
    rw [hnet] at hrun
    cases h : net.infer.2.outcome <;> simp_all [Except.toOption]
  obtain ⟨front, l, rest, done, m, d, h⟩ := hstop hfalse
  exact ⟨net, front, l, rest, done, m, d, hnet, hfalse, h⟩

end LayerLoops
