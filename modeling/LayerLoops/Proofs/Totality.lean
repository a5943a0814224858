import LayerLoops.Proofs.Literals
import LayerLoops.Proofs.Programs

/-! # Compilation always returns

Lines whose literals are short enough to be read are compiled without a fault, as long as the volumes that are
inferred can be written. What stands in the way of code is recorded as an error before code is generated, so
generation of an accepted network cannot fail. -/

namespace LayerLoops

open Code

variable {P : Int → Prop}

/-! ## Generation -/

theorem Config.singleLayer_nonneg {c d : Config} (h : c.checked = .ok d) : 0 ≤ c.singleLayer := by
  unfold Config.checked at h
  split at h
  · cases h
  · omega

theorem poolingSeed_fits {net : Network} {number : Nat} {place : Option Location} {c : Config} {seed : Int}
    (h : poolingSeed net number place c = .ok seed) (hc : ∀ n, c.poolingSeed = some n → Decimal.Fits n) :
    Decimal.Fits seed := by
  unfold poolingSeed at h
  dsimp only at h
  split at h
  · cases h
    exact Decimal.fits_of_lt_thousand (by decide)
  · split at h
    · cases h
      exact Decimal.fits_of_lt_thousand (by decide)
    · split at h <;> cases h
      exact hc _ (by assumption)

namespace Layer

variable {l : Layer} {g : Geometry}

theorem Complete.writable (h : l.Complete P g) (fits : ∀ n, P n → Decimal.Fits n) (hi : g.input.Fits)
    (ho : g.output.Fits) : l.Writable := by
  obtain ⟨stride, input, output, step, form⟩ := h
  have hkernel : l.form.kernel = {} ∨ ∃ n, l.form.kernel = ⟨some n, some n⟩ ∧ Decimal.Fits n := by
    cases hf : l.form with
    | conv f k p =>
      rw [hf] at form
      obtain ⟨-, n, rfl, hn, -⟩ := form
      exact .inr ⟨n, rfl, fits n hn⟩
    | pooling t c k =>
      rw [hf] at form
      obtain ⟨-, -, n, rfl, hn, -⟩ := form
      exact .inr ⟨n, rfl, fits n hn⟩
    | flatten nodes | dense nodes => exact .inl rfl
  refine ⟨?_, ?_, ?_, ?_, ?_⟩
  · rintro v hv
    cases input.symm.trans hv
    exact hi
  · rintro v hv
    cases output.symm.trans hv
    exact ho
  · rintro - n hn
    cases stride.symm.trans hn
    exact fits _ step
  · intro n hn
    obtain hk | ⟨m, hk, hm⟩ := hkernel <;> rw [hk] at hn <;> cases hn
    exact hm
  · intro n hn
    obtain hk | ⟨m, hk, hm⟩ := hkernel <;> rw [hk] at hn <;> cases hn
    exact hm

theorem Complete.inputDims_returns (h : l.Complete P g) (hw : l.Writable) : ∃ ds, l.inputDims = .ok ds :=
  ⟨_, (inputDims_eq_ok h.input).mpr ⟨rfl, l.fits_readDims (hw.input _ h.input)⟩⟩

theorem Complete.outputDims_returns (h : l.Complete P g) (hw : l.Writable) : ∃ ds, l.outputDims = .ok ds :=
  ⟨_, (outputDims_eq_ok h.output).mpr ⟨rfl, l.fits_writtenDims (hw.output _ h.output)⟩⟩

theorem Complete.channelDim_returns (h : l.Complete P g) (hw : l.Writable) : ∃ d, l.channelDim = .ok d := by
  obtain ⟨hx, -, hz⟩ := hw.output _ h.output
  refine ⟨_, (channelDim_eq_ok h.output).mpr ⟨rfl, ?_⟩⟩
  unfold channels
  split
  · exact hz
  · exact hx

theorem Complete.weightDims_returns (h : l.Complete P g) (hw : l.Writable) (hl : l.weighted = true) :
    ∃ ds, l.weightDims = .ok ds := by
  obtain ⟨hix, -, hiz⟩ := hw.input _ h.input
  obtain ⟨hox, -, hoz⟩ := hw.output _ h.output
  cases hf : l.form with
  | conv f k p =>
    have form := h.form
    rw [hf] at form
    obtain ⟨-, n, rfl, -, -⟩ := form
    have hn : Decimal.Fits n := hw.rows n (by rw [hf]; rfl)
    exact ⟨_, (weightDims_conv hf h.input h.output).mpr ⟨rfl, by simp [hn, hiz, hoz]⟩⟩
  | dense nodes => exact ⟨_, (weightDims_dense hf h.input h.output).mpr ⟨rfl, by simp [hix, hox]⟩⟩
  | pooling _ _ _ | flatten _ => simp [Layer.weighted, Layer.kind, hf, Form.kind, Kind.weighted] at hl

end Layer

/-- Every layer has its geometry, and all numbers of it can be written. -/
def Network.Settled (P : Int → Prop) (net : Network) : Prop := ∀ l ∈ net.layers, ∃ g, l.Complete P g ∧ l.Writable

namespace Network.Settled

open Forward

variable {net : Network} {l : Layer} {n : Nat}

theorem layer (h : net.Settled P) (hl : (l, n) ∈ net.numbered) : ∃ g, l.Complete P g ∧ l.Writable :=
  h l (Network.mem_layers hl)

theorem weightedLayer (h : net.Settled P) (hl : (l, n) ∈ net.weighted) :
    ∃ dims d, l.weightDims = .ok dims ∧ l.channelDim = .ok d := by
  obtain ⟨hl, hw⟩ := List.mem_filter.mp hl
  obtain ⟨g, hg, hwritable⟩ := h.layer hl
  obtain ⟨dims, hdims⟩ := hg.weightDims_returns hwritable hw
  obtain ⟨d, hd⟩ := hg.channelDim_returns hwritable
  exact ⟨dims, d, hdims, hd⟩

theorem factorGroups_returns (h : net.Settled P) : ∃ gs, factorGroups net = .ok gs := by
  have hscale : ∀ x ∈ net.weighted, ∃ d : Declaration, (do
      pure (Declaration.mk .weightScale (.weightScales x.2) [← x.1.channelDim])) = Except.ok d := by
    intro x hx
    obtain ⟨-, d, -, hd⟩ := h.weightedLayer hx
    simp [hd]
  obtain ⟨scales, hscales⟩ := mapM_returns hscale
  exact ⟨_, bind_eq_ok.mpr ⟨scales, hscales, rfl⟩⟩

theorem weightGroup_returns (h : net.Settled P) (c : Config) (hl : (l, n) ∈ net.weighted) :
    ∃ w, weightGroup c l n = .ok w := by
  obtain ⟨dims, d, hdims, hd⟩ := h.weightedLayer hl
  cases hb : c.biases with
  | true => exact ⟨_, weightGroup_eq_ok.mpr ⟨dims, _, hdims, by rw [hb]; exact ⟨d, hd, rfl⟩, rfl⟩⟩
  | false => exact ⟨_, weightGroup_eq_ok.mpr ⟨dims, _, hdims, by rw [hb]; rfl, rfl⟩⟩

theorem bufferGroup_returns (h : net.Settled P) (c : Config) (orders : List LoopOrder) (profile : String)
    (hl : (l, n) ∈ net.numbered) : ∃ b, (do bufferGroup (← site net c orders profile l n)) = .ok b := by
  obtain ⟨_, hsite⟩ := exists_site net c orders profile l n
  obtain ⟨g, hg, hw⟩ := h.layer hl
  obtain ⟨dims, hdims⟩ := hg.outputDims_returns hw
  simp only [bind_eq_ok, hsite, exists_eq_left, bufferGroup, hdims]
  exact ⟨_, _, rfl, rfl⟩

theorem groups_returns (h : net.Settled P) (c : Config) (orders : List LoopOrder) (profile : String) :
    ∃ gs, groups net c orders profile = .ok gs := by
  obtain ⟨factors, hfactors⟩ := h.factorGroups_returns
  obtain ⟨weights, hweights⟩ := mapM_returns fun (x : Layer × Nat) hx => h.weightGroup_returns c hx
  obtain ⟨buffers, hbuffers⟩ := mapM_returns fun (x : Layer × Nat) hx =>
    h.bufferGroup_returns c orders profile (List.mem_of_mem_dropLast hx)
  refine ⟨_, groups_eq_ok.mpr ⟨if c.quantized && !net.weighted.isEmpty then factors else [], weights,
    if c.isolated then [] else buffers, ?_, hweights, ?_, rfl⟩⟩
  · split
    · exact hfactors
    · rfl
  · split
    · rfl
    · exact hbuffers

end Network.Settled

namespace Forward

variable {net : Network} {c : Config} {l : Layer} {g : Geometry}

theorem interfaceTypes_returns {first last : Layer} {i o : List (Option Int)} (hi : first.inputDims = .ok i)
    (ho : last.outputDims = .ok o) (c : Config) : ∃ types, interfaceTypes c first last = .ok types := by
  simp only [interfaceTypes, hi, ho]
  exact ⟨_, rfl⟩

theorem inputCapture_returns (h : l.Complete P g) (hw : l.Writable) (c : Config) (n : Nat) :
    ∃ code, inputCapture c l n = .ok code := by
  have hdim {m : Int} (hm : Decimal.Fits m) : writableDim (some m) = .ok (some m) :=
    writableDim_eq_ok.mpr ⟨rfl, by rintro _ ⟨⟩; exact hm⟩
  obtain ⟨hx, hy, hz⟩ := hw.input _ h.input
  unfold inputCapture
  split
  · exact ⟨_, rfl⟩
  · by_cases hk : l.kind = .dense <;>
      simp [Layer.inputFor, h.input, hdim hx, hdim hy, hdim hz, hk]

theorem emittedLayers_returns (hne : net.layers ≠ []) (h0 : 0 ≤ c.singleLayer) (hsize : c.singleLayer ≤ net.size) :
    ∃ layers, emittedLayers net c = .ok layers ∧ layers ≠ [] := by
  unfold emittedLayers
  split
  · rename_i hi
    have hpos : 0 < c.singleLayer := by
      simp [Config.isolated] at hi
      omega
    have hlt : c.singleLayer.toNat - 1 < net.layers.length := by
      simp only [Network.size] at hsize
      omega
    have hlayer : net.layer c.singleLayer = .ok (net.layers[c.singleLayer.toNat - 1]) := by
      rw [Network.layer, Network.layer?, if_pos (by omega), List.getElem?_eq_getElem hlt]
    rw [hlayer]
    exact ⟨_, rfl, List.cons_ne_nil _ _⟩
  · refine ⟨_, rfl, ?_⟩
    simpa [Network.numbered] using hne

end Forward

theorem ParamList.text_returns {net : Network} (h : net.Settled P) (c : Config) :
    ∃ t, ParamList.text net c = .ok t := by
  have hlayer : ∀ x ∈ net.numbered, ∃ ps, layerPieces x.1 x.2 c.quantized = .ok ps := by
    intro x hx
    simp only [layerPieces, sources]
    split
    · rename_i hw
      obtain ⟨dims, d, hdims, hd⟩ := h.weightedLayer (List.mem_filter.mpr ⟨hx, hw⟩)
      rw [hdims, hd]
      exact ⟨_, rfl⟩
    · exact ⟨_, rfl⟩
  obtain ⟨layers, hlayers⟩ := mapM_returns hlayer
  obtain ⟨ps, hps⟩ : ∃ ps, pieces net c = .ok ps := by
    unfold pieces
    split
    · exact ⟨_, bind_eq_ok.mpr ⟨layers, hlayers, rfl⟩⟩
    · exact ⟨_, rfl⟩
  exact ⟨_, bind_eq_ok.mpr ⟨ps, hps, rfl⟩⟩

namespace Compilation

variable {r q : Compilation} {net : Network}

theorem Accepts.program_returns {c : Config} {emit : Bool} (ha : r.Accepts c net emit) (pos : ∀ n, P n → 0 < n)
    (h : net.Settled P) (h0 : 0 ≤ c.singleLayer) (hseed : ∀ n, c.poolingSeed = some n → Decimal.Fits n) :
    ∃ p, net.program r.config r.orders r.profile = .ok p := by
  have hlen : r.orders.length = net.size := ha.fits.length_eq.symm
  obtain ⟨layers, hlayers, hne⟩ := Forward.emittedLayers_returns ha.valid.nonempty (ha.single ▸ h0) ha.valid.single
  have hnumbered (x : Layer × Nat) (hx : x ∈ layers) := (Forward.mem_emittedLayers hlayers hx).1
  obtain ⟨g, hg, hw⟩ := h.layer (hnumbered _ (List.head_mem hne))
  obtain ⟨g', hg', hw'⟩ := h.layer (hnumbered _ (List.getLast_mem hne))
  obtain ⟨i, hi⟩ := hg.inputDims_returns hw
  obtain ⟨o, ho⟩ := hg'.outputDims_returns hw'
  obtain ⟨types, htypes⟩ := Forward.interfaceTypes_returns hi ho r.config
  obtain ⟨parameters, hparameters⟩ := h.groups_returns r.config r.orders r.profile
  obtain ⟨capture, hcapture⟩ := Forward.inputCapture_returns hg hw r.config (layers.head hne).2
  obtain ⟨code, hcode⟩ : ∃ code, Forward.layersCode net r.config r.orders r.profile layers = .ok code := by
    refine Forward.layersCode_returns fun l k hl s hs => ?_
    have hcomplete : ∀ l ∈ net.layers, ∃ g, l.Complete P g := fun l hl => (h l hl).imp fun _ => And.left
    obtain ⟨gl, hgl⟩ := ha.emitted hcomplete (hnumbered _ hl) hs
    obtain ⟨-, -, hlayer, hconfig⟩ := Forward.site_fields hs
    obtain ⟨-, -, hwl⟩ := h.layer (hnumbered _ hl)
    refine hgl.code_returns pos (hlayer ▸ hwl) fun seed hs => poolingSeed_fits hs ?_
    rw [hconfig, ha.seed]
    exact hseed
  exact ⟨_, Network.program_eq_ok.mpr ⟨hlen, layers, _, _, _, _, types, parameters, capture, code, hlayers,
    List.head?_eq_some_head hne, List.getLast?_eq_some_getLast hne, htypes, hparameters, hcapture, hcode, rfl⟩⟩

/-! ## What generation adds -/

def emission (q : Compilation) : Except Fault Compilation :=
  match q.network with
  | some net => if q.success then q.release net true else .ok q
  | none => .ok q

theorem emission_of_failed (h : q.success = false) : q.emission = .ok q := by
  unfold emission
  split
  · rw [h]
    rfl
  · rfl

theorem absorb_emission {α : Type} {s : Step α} {next next' : Compilation → α → Except Fault Compilation}
    (h : r.absorb s next = .ok q)
    (go : ∀ a, s.outcome = .ok a → next (r.write s.journal) a = .ok q → next' (r.write s.journal) a = q.emission) :
    r.absorb s next' = q.emission := by
  unfold absorb at h ⊢
  split at h
  · exact go _ (by assumption) h
  · cases h
    rw [emission_of_failed]
    simp [success, errors, write, Journal.errors]
  · cases h

theorem release_emission (hnet : r.network = some net) (h : r.release net false = .ok q) :
    r.release net true = q.emission := by
  cases hs : r.success with
  | true =>
    have hq : r = q := by simpa [release, hs] using h
    rw [← hq, emission, hnet, hs]
    rfl
  | false =>
    have hq : r.tell (.refused r.errors.length) = q := by simpa [release, hs] using h
    have hfailed : q.success = false := by
      rw [← hq]
      simpa [success, errors, tell, write, Journal.errors] using hs
    rw [emission_of_failed hfailed, ← hq, release, hs]
    rfl

theorem orderChecked_network (r : Compilation) : r.orderChecked.network = r.network := by
  unfold orderChecked
  split <;> rfl

theorem profiled_network (r : Compilation) : r.profiled.network = r.network := by
  unfold profiled
  split <;> rfl

theorem arrange_emission (hnet : r.network = some net) (h : r.arrange net false = .ok q) :
    r.arrange net true = q.emission := by
  refine absorb_emission h fun _ _ h => absorb_emission h fun _ _ h => release_emission ?_ h
  exact (orderChecked_network _).trans hnet

theorem describe_emission (hnet : r.network = some net) (h : r.describe net true false = .ok q) :
    r.describe net true true = q.emission := by
  rw [describe, if_neg (by decide)] at h ⊢
  exact absorb_emission h fun _ _ h => arrange_emission ((profiled_network _).trans hnet) h

theorem complete_emission (h : r.complete net false = .ok q) : r.complete net true = q.emission := by
  rw [complete_eq] at h ⊢
  refine absorb_emission h fun inferred hinferred h => ?_
  cases inferred with
  | true => exact describe_emission rfl h
  | false =>
    cases h
    -- An inference that stops early has recorded an error.
    refine (emission_of_failed (Bool.not_eq_true _ ▸ fun hs => ?_)).symm
    rw [success_iff, write, Journal.errors_append, List.append_eq_nil_iff] at hs
    cases inferFrom_passes ⟨hinferred, hs.2⟩

end Compilation

theorem compile_emission {c : Config} {file : Option String} {doc : Step Source.Document} {prior : Journal}
    {q : Compilation} (h : compile c file doc false prior = .ok q) : compile c file doc true prior = q.emission := by
  unfold compile Compilation.ofDocument at h ⊢
  refine Compilation.absorb_emission h fun _ _ h => ?_
  exact Compilation.absorb_emission h fun _ _ h => Compilation.complete_emission h

namespace Compilation

theorem absorb_unsourced {α : Type} {s : Step α} {next : Compilation → α → Except Fault Compilation} {r q : Compilation}
    (h : r.absorb s next = .ok q) (hr : r.sources = none)
    (go : ∀ r a, r.sources = none → next r a = .ok q → q.sources = none) : q.sources = none := by
  obtain ⟨d, rfl⟩ | ⟨a, -, hnext⟩ := absorb_cases h
  · exact hr
  · exact go (r.write s.journal) a hr hnext

theorem finish_unsourced {net : Network} {r q : Compilation} (h : r.finish net false = .ok q) (hr : r.sources = none) :
    q.sources = none := by
  refine absorb_unsourced h hr fun r _ hr h => ?_
  split at h <;> cases h <;> exact hr

theorem arrange_unsourced {net : Network} {r q : Compilation} (h : r.arrange net false = .ok q)
    (hr : r.sources = none) : q.sources = none := by
  refine absorb_unsourced h hr fun r orders hr h => finish_unsourced h ?_
  unfold orderChecked
  split <;> exact hr

theorem describe_unsourced {net : Network} {inferred : Bool} {r q : Compilation}
    (h : r.describe net inferred false = .ok q) (hr : r.sources = none) : q.sources = none := by
  unfold describe at h
  split at h
  · cases h
    exact hr
  · refine absorb_unsourced h hr fun r profile hr h => arrange_unsourced h ?_
    unfold profiled
    split <;> exact hr

end Compilation

theorem compile_unsourced {c : Config} {file : Option String} {doc : Step Source.Document} {prior : Journal}
    {q : Compilation} (h : compile c file doc false prior = .ok q) : q.sources = none := by
  unfold compile Compilation.ofDocument at h
  refine Compilation.absorb_unsourced h rfl fun r _ hr h => Compilation.absorb_unsourced h hr fun r net hr h => ?_
  rw [Compilation.complete_eq] at h
  exact Compilation.absorb_unsourced h hr fun _ _ hr h => Compilation.describe_unsourced h hr

/-! ## Stages -/

/-- The volumes of every layer that has an output can be written. -/
def Network.VolumesFit (net : Network) : Prop := ∀ l ∈ net.layers, ∀ i ∈ l.input, ∀ o ∈ l.output, i.Fits ∧ o.Fits

instance (net : Network) : Decidable net.VolumesFit :=
  inferInstanceAs (Decidable (∀ l ∈ net.layers, ∀ i ∈ l.input, ∀ o ∈ l.output, i.Fits ∧ o.Fits))

/-- The network that is inferred from a document, complete or not. -/
def inferredFrom (doc : Step Source.Document) : Option Network :=
  match doc.outcome with
  | .ok d => match (Network.ofStatements d.statements).outcome with
    | .ok net => some net.infer.1
    | .error _ => none
  | .error _ => none

theorem inferredFrom_eq {doc : Step Source.Document} {d : Source.Document} (hd : doc.outcome = .ok d) {net : Network}
    (hnet : (Network.ofStatements d.statements).outcome = .ok net) : inferredFrom doc = some net.infer.1 := by
  simp only [inferredFrom, hd, hnet]

namespace Compilation

theorem arrange_returns {net : Network} (h : net.Settled P) (r : Compilation) : ∃ q, r.arrange net false = .ok q := by
  obtain ⟨orders, horders, -⟩ := LoopOrder.normalizeAll_fits net r.config.loopOrders
  refine absorb_returns (Step.reports_of_ok horders) fun orders _ => ?_
  rw [finish_eq]
  have hinput : ∀ l ∈ net.layers, ∀ v, l.input = some v → v.Fits := fun l hl => by
    obtain ⟨-, -, hw⟩ := h l hl
    exact hw.input
  obtain ⟨b, hb⟩ := Network.validate_ok hinput _ _
  refine absorb_returns (Step.reports_of_ok hb) fun _ _ => ?_
  unfold release
  split <;> exact ⟨_, rfl⟩

theorem describe_returns {net : Network} {inferred : Bool} (h : inferred = true → net.Settled P) (r : Compilation) :
    ∃ q, r.describe net inferred false = .ok q := by
  unfold describe
  split
  · exact ⟨r, rfl⟩
  · rename_i hinferred
    refine absorb_returns ?_ fun _ _ => arrange_returns (h (by simpa using hinferred)) _
    unfold Network.profile
    split
    · exact Step.reports_pure _
    · exact Step.reports_of_ok rfl

end Compilation

theorem usable_one : Usable 1 := ⟨Int.one_pos, Decimal.fits_of_lt_thousand (by decide)⟩

section Lines

variable {c : Config} {file : Option String} {lines : List String} {prior : Journal}

theorem inferred_of_short (h : Source.ShortLiterals lines)
    (hv : ∀ net ∈ inferredFrom (Source.Document.ofLines file lines), net.VolumesFit) :
    ∃ d net b, (Source.Document.ofLines file lines).outcome = .ok d ∧
      (Network.ofStatements d.statements).outcome = .ok net ∧ net.infer.2.outcome = .ok b ∧
      (b = true → net.infer.1.Settled Usable) := by
  obtain ⟨d, hd, hallows⟩ := Source.Document.ofLines_allows file h
  obtain ⟨net, hnet, hdeclared⟩ := Network.ofStatements_declared usable_one hallows
  have hvolumes := hv _ (inferredFrom_eq hd hnet)
  obtain ⟨b, hb⟩ : ∃ b, net.infer.2.outcome = .ok b :=
    inferFrom_ok usable_one (fun _ => And.left) (fun _ => And.right) hdeclared (by simp) fun m hm i o hi ho =>
      hvolumes m hm i hi o ho
  refine ⟨d, net, b, hd, hnet, hb, ?_⟩
  rintro rfl l hl
  obtain ⟨g, hg⟩ := (Network.infer_completion usable_one (fun _ => And.left) hdeclared hb).complete l hl
  obtain ⟨hi, ho⟩ := hvolumes l hl _ hg.input _ hg.output
  exact ⟨g, hg, hg.writable (fun _ => And.right) hi ho⟩

theorem compile_validates (c : Config) (h : Source.ShortLiterals lines)
    (hv : ∀ net ∈ inferredFrom (Source.Document.ofLines file lines), net.VolumesFit) (prior : Journal) :
    ∃ q, compile c file (Source.Document.ofLines file lines) false prior = .ok q := by
  obtain ⟨d, net, b, hd, hnet, hb, hsettled⟩ := inferred_of_short h hv
  unfold compile Compilation.ofDocument
  refine Compilation.absorb_returns (Step.reports_of_ok hd) fun d' hd' => ?_
  cases hd.symm.trans hd'
  refine Compilation.absorb_returns (Step.reports_of_ok hnet) fun net' hnet' => ?_
  cases hnet.symm.trans hnet'
  rw [Compilation.complete_eq]
  refine Compilation.absorb_returns (Step.reports_of_ok hb) fun b' hb' => ?_
  cases hb.symm.trans hb'
  exact Compilation.describe_returns hsettled _

theorem compile_settles (h : Source.ShortLiterals lines)
    (hv : ∀ net ∈ inferredFrom (Source.Document.ofLines file lines), net.VolumesFit) {q : Compilation}
    (hq : compile c file (Source.Document.ofLines file lines) false prior = .ok q) (hs : q.success = true) :
    ∃ net, q.Accepts c net false ∧ net.Settled Usable := by
  obtain ⟨d, net, b, hd, hnet, hb, hsettled⟩ := inferred_of_short h hv
  obtain ⟨d', net', hd', hnet', hb', ha⟩ := compile_accepts hq hs
  cases hd.symm.trans hd'
  cases hnet.symm.trans hnet'
  cases hb.symm.trans hb'
  exact ⟨_, ha, hsettled rfl⟩

end Lines

/-- The compilation with the sources and the progress of generation. -/
def Compilation.released (q : Compilation) (net : Network) (p : Program) (params : String) : Compilation :=
  { q with
    sources := some ⟨p.text, DataTypes.text net q.config q.profile, params⟩
    journal := q.journal ++ [.event .generating, .event (.generated p.layerCount)] }

theorem Compilation.errors_released (q : Compilation) (net : Network) (p : Program) (params : String) :
    (q.released net p params).journal.errors = q.journal.errors := by
  simp [released, Journal.errors]

theorem Compilation.emission_of_ok {q : Compilation} {net : Network} {p : Program} {params : String}
    (hs : q.success = true) (hnet : q.network = some net) (hp : net.program q.config q.orders q.profile = .ok p)
    (hparams : ParamList.text net q.config = .ok params) : q.emission = .ok (q.released net p params) := by
  have hgenerate : generate net q.config q.orders q.profile =
      ⟨[.event (.generated p.layerCount)], .ok ⟨p.text, DataTypes.text net q.config q.profile, params⟩⟩ := by
    unfold generate
    rw [hp, hparams]
    rfl
  simp [emission, hnet, hs, release, hgenerate, absorb, tell, write, released]

/-- Compilation returns, with and without code, whatever the lines say and whatever was recorded before, as long as
all numbers can be read and written. It succeeds if and only if no error is recorded. A run with code has the sources
if and only if it succeeds: where validation leaves no error, the three files are generated and nothing is recorded
but this progress, and otherwise the run ends as it does without code. -/
theorem compile_returns {c : Config} (hc : c.checked = .ok c) (hseed : ∀ n, c.poolingSeed = some n → Decimal.Fits n)
    {file : Option String} {lines : List String} (hl : Source.ShortLiterals lines)
    (hv : ∀ net ∈ inferredFrom (Source.Document.ofLines file lines), net.VolumesFit) (prior : Journal) :
    ∃ q r, compile c file (Source.Document.ofLines file lines) false prior = .ok q ∧
      compile c file (Source.Document.ofLines file lines) true prior = .ok r ∧
      prior <+: q.journal ∧ q.journal <+: r.journal ∧
      (q.success = true ↔ Journal.errors q.journal = []) ∧ (r.success = true ↔ Journal.errors r.journal = []) ∧
      q.sources = none ∧ (r.sources.isSome = true ↔ r.success = true) ∧
      (q.success = true → ∃ net p params, q.network = some net ∧ net.program q.config q.orders q.profile = .ok p ∧
        ParamList.text net q.config = .ok params ∧ r = q.released net p params) ∧
      (q.success = false → r = q) := by
  obtain ⟨q, hq⟩ := compile_validates c hl hv prior
  have hextends : prior <+: q.journal := Compilation.ofDocument_extends hq
  have hnone := compile_unsourced hq
  by_cases hs : q.success = true
  · obtain ⟨net, ha, hsettled⟩ := compile_settles hl hv hq hs
    obtain ⟨p, hp⟩ := ha.program_returns (fun _ => And.left) hsettled (Config.singleLayer_nonneg hc) hseed
    obtain ⟨params, hparams⟩ := ParamList.text_returns hsettled q.config
    have hrun := (compile_emission hq).trans (Compilation.emission_of_ok hs ha.network hp hparams)
    have hsuccess : (q.released net p params).success = true := by
      rw [Compilation.success_iff, Compilation.errors_released]
      exact Compilation.success_iff.mp hs
    refine ⟨q, _, hq, hrun, hextends, List.prefix_append _ _, Compilation.success_iff, Compilation.success_iff, hnone,
      iff_of_true rfl hsuccess, fun _ => ⟨net, p, params, ha.network, hp, hparams, rfl⟩, fun h => ?_⟩
    cases hs.symm.trans h
  · have hrun := (compile_emission hq).trans (Compilation.emission_of_failed (Bool.eq_false_of_not_eq_true hs))
    refine ⟨q, q, hq, hrun, hextends, List.prefix_rfl, Compilation.success_iff, Compilation.success_iff, hnone, ?_,
      fun h => absurd h hs, fun _ => rfl⟩
    simp [hnone, hs]

/-- One layer of a quantized network is emitted, and intermediate values are asked for under an order of its own. -/
def isolatedConfig : Config :=
  { dataMode := .fixedSingle, dataDetail := "eight-bit-int", singleLayer := 2, capture := true
    loopOrders := ["", "oz-ox-oy", "", ""], poolingSeed := some (-128) }

def isolatedLines : List String :=
  ["model.add(Conv2D(4, kernel_size=3, padding='same', input_shape=(6, 6, 1)))", "model.add(MaxPooling2D(pool_size=2))",
    "model.add(Flatten())", "model.add(Dense(10, activation='softmax'))"]

theorem compile_returns_isolated : ∃ q r,
    compile isolatedConfig none (Source.Document.ofLines none isolatedLines) false = .ok q ∧
      compile isolatedConfig none (Source.Document.ofLines none isolatedLines) true = .ok r ∧
      q.sources = none ∧ r.success = true ∧ r.sources.isSome = true := by
  have hseed : ∀ n, isolatedConfig.poolingSeed = some n → Decimal.Fits n := by
    rintro _ ⟨⟩
    exact Decimal.fits_of_lt_thousand (by decide)
  have hshort : Source.ShortLiterals isolatedLines := by decide +kernel
  have hvolumes : ∀ net ∈ inferredFrom (Source.Document.ofLines none isolatedLines), net.VolumesFit := by decide +kernel
  obtain ⟨q, r, hq, hr, -, -, -, -, hnone, hsources, -, -⟩ := compile_returns rfl hseed hshort hvolumes []
  have hrun : (compile isolatedConfig none (Source.Document.ofLines none isolatedLines) true).toOption.map
      Compilation.success = some true := by
    decide +kernel
  have hs : r.success = true := by
    rw [hr] at hrun
    exact Option.some.inj hrun
  exact ⟨q, r, hq, hr, hnone, hs, hsources.mpr hs⟩

end LayerLoops
