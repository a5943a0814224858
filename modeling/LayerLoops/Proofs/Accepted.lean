import LayerLoops.Compilation
import LayerLoops.Proofs.Completed
import LayerLoops.Proofs.Orders
import LayerLoops.Proofs.Validated

/-! # Accepted networks

A compilation only ever adds to its journal, so one that succeeds has passed every stage without an error. Such
a compilation has inferred a complete network, has found orders that fit its layers, and has found it valid. -/

namespace LayerLoops

namespace Compilation

variable {emit : Bool} {net : Network} {α : Type} {r r' : Compilation} {s : Step α}
  {next : Compilation → α → Except Fault Compilation}

theorem success_iff : r.success = true ↔ Journal.errors r.journal = [] := List.isEmpty_iff

theorem success_of_prefix (h : r.journal <+: r'.journal) (hs : r'.success = true) : r.success = true := by
  rw [success_iff] at hs ⊢
  obtain ⟨j, hj⟩ := h
  rw [← hj, Journal.errors_append, List.append_eq_nil_iff] at hs
  exact hs.1

theorem absorb_cases (h : r.absorb s next = .ok r') :
    (∃ d, r' = r.write (s.journal ++ [Entry.event (.failed d), .error d])) ∨
      ∃ a, s.outcome = .ok a ∧ next (r.write s.journal) a = .ok r' := by
  unfold absorb at h
  split at h
  · exact .inr ⟨_, by assumption, h⟩
  · cases h
    exact .inl ⟨_, rfl⟩
  · cases h

theorem absorb_returns (hs : s.Reports)
    (go : ∀ a, s.outcome = .ok a → ∃ r', next (r.write s.journal) a = .ok r') : ∃ r', r.absorb s next = .ok r' := by
  unfold absorb
  cases ho : s.outcome with
  | ok a => exact go a ho
  | error f =>
    obtain ⟨d, rfl⟩ := hs f ho
    exact ⟨_, rfl⟩

theorem absorb_extends (h : r.absorb s next = .ok r')
    (go : ∀ q a, next q a = .ok r' → q.journal <+: r'.journal) : r.journal <+: r'.journal := by
  obtain ⟨d, rfl⟩ | ⟨a, -, hnext⟩ := absorb_cases h
  · exact List.prefix_append _ _
  · exact (List.prefix_append _ _).trans (go _ a hnext)

theorem absorb_success (h : r.absorb s next = .ok r') (hs : r'.success = true)
    (go : ∀ q a, next q a = .ok r' → q.journal <+: r'.journal) :
    ∃ a, s.Passes a ∧ next (r.write s.journal) a = .ok r' := by
  obtain ⟨d, rfl⟩ | ⟨a, ha, hnext⟩ := absorb_cases h
  · simp [success_iff, write, Journal.errors] at hs
  · have hw := success_of_prefix (go _ a hnext) hs
    rw [success_iff, write, Journal.errors_append, List.append_eq_nil_iff] at hw
    exact ⟨a, ⟨ha, hw.2⟩, hnext⟩

/-! ## Stages

Each stage is a step and what is done with its result. -/

def release (r : Compilation) (net : Network) (emit : Bool) : Except Fault Compilation :=
  if !r.success then .ok (r.tell (.refused r.errors.length))
  else if !emit then .ok r
  else (r.tell .generating).absorb (generate net r.config r.orders r.profile) fun r s =>
    .ok { r with sources := some s }

def arrange (r : Compilation) (net : Network) (emit : Bool) : Except Fault Compilation :=
  r.absorb (LoopOrder.normalizeAll net r.config.loopOrders) fun r orders =>
    { r with orders }.orderChecked.finish net emit

def describe (r : Compilation) (net : Network) (inferred emit : Bool) : Except Fault Compilation :=
  if !inferred then .ok r
  else r.absorb (net.profile r.config.networkName) fun r profile => arrange { r with profile }.profiled net emit

theorem finish_eq (r : Compilation) (net : Network) (emit : Bool) :
    r.finish net emit = r.absorb (net.validate r.config (some r.orders)) fun r _ => r.release net emit := rfl

theorem complete_eq (r : Compilation) (net : Network) (emit : Bool) :
    r.complete net emit =
      { { r with network := some net }.tell (.declared net.size) with network := some net.infer.1 }.absorb net.infer.2
        fun r inferred => r.describe net.infer.1 inferred emit := rfl

theorem release_extends (h : r.release net emit = .ok r') : r.journal <+: r'.journal := by
  unfold release at h
  split at h
  · cases h
    exact List.prefix_append _ _
  · split at h
    · cases h
      exact List.prefix_rfl
    · refine (List.prefix_append r.journal [.event .generating]).trans (absorb_extends h fun q src hq => ?_)
      cases hq
      exact List.prefix_rfl

theorem finish_extends (h : r.finish net emit = .ok r') : r.journal <+: r'.journal :=
  absorb_extends h fun _ _ => release_extends

theorem profiled_extends (r : Compilation) : r.journal <+: r.profiled.journal := by
  unfold profiled
  split
  · exact List.prefix_append _ _
  · exact List.prefix_rfl

theorem orderChecked_extends (r : Compilation) : r.journal <+: r.orderChecked.journal := by
  unfold orderChecked
  split
  · exact List.prefix_append _ _
  · exact List.prefix_rfl

theorem arrange_extends (h : r.arrange net emit = .ok r') : r.journal <+: r'.journal :=
  absorb_extends h fun q orders hq => (orderChecked_extends { q with orders }).trans (finish_extends hq)

theorem describe_extends {inferred : Bool} (h : r.describe net inferred emit = .ok r') : r.journal <+: r'.journal := by
  unfold describe at h
  split at h
  · cases h
    exact List.prefix_rfl
  · exact absorb_extends h fun q profile hq => (profiled_extends { q with profile }).trans (arrange_extends hq)

theorem complete_extends (h : r.complete net emit = .ok r') : r.journal <+: r'.journal := by
  rw [complete_eq] at h
  exact (List.prefix_append r.journal [_]).trans (absorb_extends h fun _ _ => describe_extends)

theorem ofDocument_extends {doc : Step Source.Document} (h : r.ofDocument doc emit = .ok r') :
    r.journal <+: r'.journal := by
  refine (List.prefix_append r.journal [.event (.parsing r.file)]).trans (absorb_extends h fun q doc hq => ?_)
  exact absorb_extends hq fun _ _ => complete_extends

/-! ## Success -/

theorem release_success (h : r.release net emit = .ok r') (hs : r'.success = true) :
    r' = { r with journal := r'.journal, sources := r'.sources } ∧
      if emit then ∃ src, r'.sources = some src ∧ (generate net r.config r.orders r.profile).outcome = .ok src
        else r'.sources = r.sources := by
  have hr := success_of_prefix (release_extends h) hs
  cases emit with
  | false =>
    simp only [release, hr, Bool.not_true, Bool.not_false, Bool.false_eq_true, if_false, if_true] at h
    cases h
    exact ⟨rfl, rfl⟩
  | true =>
    simp only [release, hr, Bool.not_true, Bool.false_eq_true, if_false] at h
    obtain ⟨src, hsrc, h⟩ := absorb_success h hs fun q src hq => by
      cases hq
      exact List.prefix_rfl
    cases h
    exact ⟨rfl, src, rfl, hsrc.1⟩

/-- What a successful compilation under the settings `c` knows of the network `net`. -/
structure Accepts (r : Compilation) (c : Config) (net : Network) (emit : Bool) : Prop where
  network : r.network = some net
  valid : net.Valid r.config r.orders
  fits : List.Forall₂ (fun l o => o.Fits l.kind) net.layers r.orders
  canonical : r.config.capture = true → ∀ o ∈ r.orders, o.isCanonical = true
  single : r.config.singleLayer = c.singleLayer
  seed : r.config.poolingSeed = c.poolingSeed
  multiplier : r.config.multiplier = c.multiplier
  sources : if emit then ∃ src, r.sources = some src ∧ (generate net r.config r.orders r.profile).outcome = .ok src
    else r.sources = none

theorem finish_accepts (h : r.finish net emit = .ok r') (hs : r'.success = true) (hnet : r.network = some net)
    (hsrc : r.sources = none) (hfits : List.Forall₂ (fun l o => o.Fits l.kind) net.layers r.orders)
    (hcan : r.config.capture = true → ∀ o ∈ r.orders, o.isCanonical = true) : r'.Accepts r.config net emit := by
  obtain ⟨b, hb, h⟩ := absorb_success h hs fun _ _ => release_extends
  obtain ⟨heq, hsources⟩ := release_success h hs
  rw [heq]
  refine ⟨hnet, (Network.validate_passes.mp hb).2, hfits, hcan, rfl, rfl, rfl, ?_⟩
  rw [← hsrc]
  exact hsources

theorem arrange_accepts (h : r.arrange net emit = .ok r') (hs : r'.success = true) (hnet : r.network = some net)
    (hsrc : r.sources = none) : r'.Accepts r.config net emit := by
  obtain ⟨orders, ho, h⟩ := absorb_success h hs fun q orders hq =>
    (orderChecked_extends { q with orders }).trans (finish_extends hq)
  obtain ⟨_, hos, hfits⟩ := LoopOrder.normalizeAll_fits net r.config.loopOrders
  cases ho.1.symm.trans hos
  unfold orderChecked at h
  split at h
  · have ha := finish_accepts h hs hnet hsrc hfits (by simp)
    exact ⟨ha.network, ha.valid, ha.fits, ha.canonical, ha.single, ha.seed, ha.multiplier, ha.sources⟩
  · rename_i hcan
    have hall : r.config.capture = true → ∀ o ∈ orders, o.isCanonical = true := by simpa [write] using hcan
    have ha := finish_accepts h hs hnet hsrc hfits hall
    exact ha

end Compilation

theorem inferFrom_passes {number : Nat} {predecessor : Option Layer} {ls : List Layer} {b : Bool}
    (h : (inferFrom number predecessor ls).2.Passes b) : b = true := by
  induction ls generalizing number predecessor with
  | nil => exact (Step.passes_pure.mp h).symm
  | cons l ls ih =>
    unfold inferFrom at h
    dsimp only at h
    split at h
    · obtain ⟨hok, herrors⟩ := h
      refine ih ⟨hok, ?_⟩
      simp only [Journal.errors_append, List.append_eq_nil_iff] at herrors
      exact herrors.2
    · simp [Step.Passes, Journal.errors] at h
    · cases h.1

namespace Compilation

theorem describe_accepts {r r' : Compilation} {net : Network} {emit : Bool} (h : r.describe net true emit = .ok r')
    (hs : r'.success = true) (hnet : r.network = some net) (hsrc : r.sources = none) :
    r'.Accepts r.config net emit := by
  rw [describe, if_neg (by decide)] at h
  obtain ⟨profile, -, h⟩ := absorb_success h hs fun q profile hq =>
    (profiled_extends { q with profile }).trans (arrange_extends hq)
  unfold profiled at h
  split at h
  · have ha := arrange_accepts h hs hnet hsrc
    exact ⟨ha.network, ha.valid, ha.fits, ha.canonical, ha.single, ha.seed, ha.multiplier, ha.sources⟩
  · have ha := arrange_accepts h hs hnet hsrc
    exact ha

theorem complete_accepts {r r' : Compilation} {net : Network} {emit : Bool} (h : r.complete net emit = .ok r')
    (hs : r'.success = true) (hsrc : r.sources = none) :
    net.infer.2.outcome = .ok true ∧ r'.Accepts r.config net.infer.1 emit := by
  rw [complete_eq] at h
  obtain ⟨b, hb, h⟩ := absorb_success h hs fun _ _ => describe_extends
  cases inferFrom_passes hb
  have ha := describe_accepts h hs rfl hsrc
  exact ⟨hb.1, ha⟩

end Compilation

theorem compile_accepts {c : Config} {file : Option String} {doc : Step Source.Document} {emit : Bool} {prior : Journal}
    {r : Compilation} (h : compile c file doc emit prior = .ok r) (hs : r.success = true) :
    ∃ d net, doc.outcome = .ok d ∧ (Network.ofStatements d.statements).outcome = .ok net ∧
      net.infer.2.outcome = .ok true ∧ r.Accepts c net.infer.1 emit := by
  unfold compile Compilation.ofDocument at h
  obtain ⟨d, hd, h⟩ := Compilation.absorb_success h hs fun q d hq =>
    Compilation.absorb_extends hq fun _ _ => Compilation.complete_extends
  obtain ⟨net, hnet, h⟩ := Compilation.absorb_success h hs fun _ _ => Compilation.complete_extends
  have ha := Compilation.complete_accepts h hs rfl
  exact ⟨d, net, hd.1, hnet.1, ha⟩

end LayerLoops
