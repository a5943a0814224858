import LayerLoops.Options.Settings
import LayerLoops.Proofs.Preprocessed
import LayerLoops.Proofs.Vocabulary

/-! # Settings that depend on the main function

Stored values and simulated faults need the prologue that the main function brings along. Options that ask for them
without it are switched off. A single layer switches off the main function after that, so that stored values may be
left without their prologue; faults are only injected between layers, of which a single one has none. -/

namespace LayerLoops

open Code Text

namespace Options

theorem dependent_eq_ok {active needed b : Bool} {message : String}
    (h : (dependent active needed message).outcome = .ok b) : b = (active && needed) := by
  unfold dependent at h
  cases active with
  | false =>
    rw [Bool.false_and, if_neg Bool.false_ne_true] at h
    exact (Except.ok.inj h).symm
  | true =>
    cases needed with
    | false => exact (Except.ok.inj h).symm
    | true => exact (Except.ok.inj h).symm

theorem checked_eq_ok {c d : Config} (h : c.checked = .ok d) : d = c := by
  unfold Config.checked at h
  split at h
  · cases h
  · split at h
    · cases h
    · split at h
      · cases h
      · exact (Except.ok.inj h).symm

theorem located_eq_ok {c d : Config} {place : Value} (h : located c place = .ok d) :
    ∃ b, d = { c with bufferLocation := b } := by
  simp only [located, bind_eq_ok, mapError_ok_iff] at h
  obtain ⟨c', hc, h⟩ := h
  obtain rfl := checked_eq_ok hc
  have hkeep : ∃ b, c' = { c' with bufferLocation := b } := ⟨c'.bufferLocation, rfl⟩
  split at h
  · obtain rfl := pure_eq_ok.mp h
    exact hkeep
  · split at h
    · exact ⟨_, checked_eq_ok ((mapError_ok_iff _ _ _).mp h)⟩
    · exact ⟨_, checked_eq_ok ((mapError_ok_iff _ _ _).mp h)⟩
    · obtain ⟨_, -, h⟩ := bind_eq_ok.mp h
      obtain rfl := pure_eq_ok.mp h
      exact hkeep

/-- A main function that was asked for is emitted unless a single layer is; stored values and faults are only
accepted along with the request. -/
theorem config_requests {o : Entries} {c : Config} (h : (config o).outcome = .ok c) :
    ∃ wanted, c.mainFunction = (wanted && c.singleLayer == 0) ∧ (c.capture = true → wanted = true) ∧
      (c.faultSimulation = true → wanted = true) := by
  unfold config at h
  simp only [Step.outcome_bind_eq_ok] at h
  obtain ⟨wanted, -, capture, -, faults, -, single, -, capture', hcapture, faults', hfaults, main, hmain, labels, -,
    h⟩ := h
  split at h
  · obtain ⟨_, hfail, -⟩ := Step.outcome_bind_eq_ok.mp h
    cases hfail
  simp only [Step.outcome_bind_eq_ok] at h
  obtain ⟨mode, -, withoutBiases, -, approximate, -, orders, -, seed, -, h⟩ := h
  obtain ⟨place, rfl⟩ := located_eq_ok h
  have hcapture := dependent_eq_ok hcapture
  have hfaults := dependent_eq_ok hfaults
  have hmain := dependent_eq_ok hmain
  refine ⟨wanted, hmain, fun hon => ?_, fun hon => ?_⟩
  · exact (Bool.and_eq_true_iff.mp (hcapture.symm.trans hon)).2
  · exact (Bool.and_eq_true_iff.mp (hfaults.symm.trans hon)).2

end Options

/-- Stored values and faults come with the main function exactly where the whole network is emitted. -/
def Config.Supported (c : Config) : Prop :=
  c.capture = true ∨ c.faultSimulation = true → (c.mainFunction = true ↔ c.isolated = false)

theorem Options.config_supported {o : Options.Entries} {c : Config} (h : (Options.config o).outcome = .ok c) :
    c.Supported := by
  obtain ⟨wanted, hmain, hcapture, hfaults⟩ := Options.config_requests h
  intro hon
  have hwanted : wanted = true := by
    rcases hon with hon | hon
    · exact hcapture hon
    · exact hfaults hon
  rw [hmain, hwanted, Bool.true_and, Config.isolated]
  simp

/-! ## Settings that a compilation adapts -/

/-- Stored values may be given up; what they depend on stays. -/
structure Config.Adapts (c d : Config) : Prop where
  mainFunction : d.mainFunction = c.mainFunction
  faultSimulation : d.faultSimulation = c.faultSimulation
  singleLayer : d.singleLayer = c.singleLayer
  capture : d.capture = true → c.capture = true

namespace Config.Adapts

variable {c d e : Config}

theorem refl (c : Config) : c.Adapts c := ⟨rfl, rfl, rfl, id⟩

theorem trans (h : c.Adapts d) (h' : d.Adapts e) : c.Adapts e :=
  ⟨h'.mainFunction.trans h.mainFunction, h'.faultSimulation.trans h.faultSimulation,
    h'.singleLayer.trans h.singleLayer, fun hon => h.capture (h'.capture hon)⟩

theorem supported (h : c.Adapts d) (hc : c.Supported) : d.Supported := by
  intro hon
  rw [h.mainFunction, isolated, h.singleLayer]
  apply hc
  rcases hon with hon | hon
  · exact .inl (h.capture hon)
  · exact .inr (h.faultSimulation.symm.trans hon)

end Config.Adapts

namespace Compilation

variable {α : Type} {r r' : Compilation} {net : Network} {emit : Bool}

theorem absorb_adapts {s : Step α} {next : Compilation → α → Except Fault Compilation} (h : r.absorb s next = .ok r')
    (go : ∀ q a, next q a = .ok r' → q.config.Adapts r'.config) : r.config.Adapts r'.config := by
  obtain ⟨d, rfl⟩ | ⟨a, -, hnext⟩ := absorb_cases h
  · exact .refl _
  · exact go (r.write s.journal) a hnext

theorem release_adapts (h : r.release net emit = .ok r') : r.config.Adapts r'.config := by
  unfold release at h
  split at h
  · cases h
    exact .refl _
  · split at h
    · cases h
      exact .refl _
    · have hgenerated := absorb_adapts h fun q src hq => by
        cases hq
        exact .refl _
      exact hgenerated

theorem orderChecked_adapts (r : Compilation) : r.config.Adapts r.orderChecked.config := by
  unfold orderChecked
  split
  · exact ⟨rfl, rfl, rfl, nofun⟩
  · exact .refl _

theorem profiled_adapts (r : Compilation) : r.config.Adapts r.profiled.config := by
  unfold profiled
  split
  · exact ⟨rfl, rfl, rfl, id⟩
  · exact .refl _

theorem arrange_adapts (h : r.arrange net emit = .ok r') : r.config.Adapts r'.config := by
  refine absorb_adapts h fun q orders hq => (orderChecked_adapts { q with orders }).trans ?_
  rw [finish_eq] at hq
  exact absorb_adapts hq fun _ _ => release_adapts

theorem describe_adapts {inferred : Bool} (h : r.describe net inferred emit = .ok r') : r.config.Adapts r'.config := by
  unfold describe at h
  split at h
  · cases h
    exact .refl _
  · exact absorb_adapts h fun q profile hq => (profiled_adapts { q with profile }).trans (arrange_adapts hq)

theorem complete_adapts (h : r.complete net emit = .ok r') : r.config.Adapts r'.config := by
  rw [complete_eq] at h
  have hinferred := absorb_adapts h fun _ _ => describe_adapts
  exact hinferred

end Compilation

open Compilation in
theorem compile_adapts {c : Config} {file : Option String} {doc : Step Source.Document} {emit : Bool} {prior : Journal}
    {r : Compilation} (h : compile c file doc emit prior = .ok r) : c.Adapts r.config := by
  unfold compile ofDocument at h
  have hread := absorb_adapts h fun q d hq => absorb_adapts hq fun _ _ => complete_adapts
  exact hread

/-! ## The prologue -/

namespace Forward

variable {c : Config}

def storeLine : String := "#define STORE_DATA("

/-- What provides the injection of faults: a header, or an empty function under synthesis. -/
def injectLine (synthesis : Bool) : String :=
  if synthesis then "void fault_injection(" else "#include \"fault_simulation.h\""

theorem prologue_stores (hm : c.mainFunction = true) (hc : c.capture = true) (on : String → Bool) :
    HasLine on (prologue c) storeLine := by
  cases hs : on "_HLS_RUN" with
  | true =>
    refine ⟨"#define STORE_DATA(p1, p2, p3, p4, p5, p6)", ?_, begins_ofList (by decide)⟩
    simp [prologue, hm, hc, hs, Piece.kept, simulation, lineIf, plainLines]
  | false =>
    refine ⟨"#define STORE_DATA(p1, p2, p3, p4, p5, p6) " ++
      "\x7bStoreData(p1, p2, p3, RunCounter < 1, p4, p5, p6);\x7d", ?_, ?_⟩
    · simp [prologue, hm, hc, hs, Piece.kept, simulation, lineIf, plainLines]
    · rw [String.toList_append]
      exact (begins_ofList (by decide)).trans (List.prefix_append _ _)

theorem prologue_injects (hm : c.mainFunction = true) (hf : c.faultSimulation = true) (on : String → Bool) :
    HasLine on (prologue c) (injectLine (on "_HLS_RUN")) := by
  cases hs : on "_HLS_RUN" with
  | true =>
    refine ⟨"void fault_injection(void *activation, int current_layer, " ++
      "int faulty_layer, int faulty_fmap, int faulty_bit) \x7b\x7d;", ?_, ?_⟩
    · simp [prologue, hm, hf, hs, Piece.kept, simulation, lineIf, plainLines]
    · rw [String.toList_append]
      exact (begins_ofList (by decide)).trans (List.prefix_append _ _)
  | false =>
    refine ⟨"#include \"fault_simulation.h\"", ?_, List.prefix_refl _⟩
    simp [prologue, hm, hf, hs, Piece.kept, simulation, lineIf, plainLines]

theorem not_prologue_stores (hm : c.mainFunction = false) (on : String → Bool) :
    ¬ HasLine on (prologue c) storeLine := by
  have hplain : ∀ t ∈ ["#define _HLS_RUN", "#include \"param-list.h\""], ¬ storeLine.toList <+: t.toList := by
    decide +kernel
  rintro ⟨t, ht, hbegin⟩
  refine hplain t ?_ hbegin
  simpa [prologue, hm, Piece.kept, plainLines] using ht

end Forward

/-! ## Calls in the body -/

namespace Code

theorem mem_words_render {ts : List Tree} {t w : String} (ht : t ∈ Instr.textsAll (instrsAll ts)) (hw : w ∈ words t) :
    w ∈ words (render (instrsAll ts)) := by
  rw [words_render (instrsAll_steady ts)]
  exact List.mem_flatMap.mpr ⟨t, ht, hw⟩

theorem store_mem_words (n : Nat) (what : String) (value : Element) (x y z : Expr) :
    Symbol.store.text ∈ words (Stmt.store n what value x y z).text := by
  have hname : Symbol.store.text ∈ words "STORE_DATA" :=
    words_name (.symbol .store) ▸ List.mem_singleton_self _
  have hnumber := mem_words_glue "(" (by decide) (by decide) (by decide) (toString n) hname
  have hcall := mem_words_glue ", \"" (by decide) (by decide) (by decide) what hnumber
  have hvalue := mem_words_glue "\", (float)" (by decide) (by decide) (by decide) value.text hcall
  have hx := mem_words_glue ", " (by decide) (by decide) (by decide) x.text hvalue
  have hy := mem_words_glue ", " (by decide) (by decide) (by decide) y.text hx
  have hz := mem_words_glue ", " (by decide) (by decide) (by decide) z.text hy
  have hend := mem_words_glue ");" (by decide) (by decide) (by decide) "" hz
  rw [String.append_empty] at hend
  exact hend

theorem inject_mem_words (n : Nat) : Symbol.inject.text ∈ words (Stmt.injectFault n).text := by
  have hname : Symbol.inject.text ∈ words "fault_injection" :=
    words_name (.symbol .inject) ▸ List.mem_singleton_self _
  have hbuffer := mem_words_glue "(&" (by decide) (by decide) (by decide) (Buffer.between n).text hname
  have hnumber := mem_words_glue ", " (by decide) (by decide) (by decide) (toString n) hbuffer
  have hend := mem_words_glue ", faulty_layer, faulty_fmap, faulty_bit);" (by decide) (by decide) (by decide) "" hnumber
  rw [String.append_empty] at hend
  exact hend

theorem mem_texts_nest {heads : List Head} {body : List Tree} {t : String}
    (h : t ∈ Instr.textsAll (instrsAll body)) : t ∈ Instr.textsAll (instrsAll (Site.nest heads body)) := by
  induction heads with
  | nil => exact h
  | cons hd heads ih =>
    change t ∈ Instr.textsAll (instrsAll [.loop hd .deeper (Site.nest heads body)])
    simp only [instrsAll, Tree.instrs, Instr.textsAll, Instr.texts, List.append_nil, List.mem_append]
    exact .inr ih

end Code

namespace Forward

variable {net : Network} {c : Config} {orders : List LoopOrder} {profile : String}

theorem inputCapture_stores {l : Layer} {n : Nat} {capture : List Tree} (h : inputCapture c l n = .ok capture)
    (hc : c.capture = true) : ∃ t ∈ Instr.textsAll (instrsAll capture), Symbol.store.text ∈ words t := by
  have hloops {loops : List Tree} {t : String} (ht : t ∈ Instr.textsAll (instrsAll loops)) :
      t ∈ Instr.textsAll (instrsAll [.simulated loops, .blank, .blank]) := by
    simp [instrsAll, Tree.instrs, Instr.textsAll, ht]
  unfold inputCapture at h
  by_cases hk : l.kind = .dense
  · simp only [hc, hk, Bool.not_true, Bool.false_eq_true, if_false, if_true, bind_eq_ok, pure_eq_ok] at h
    obtain ⟨v, -, x, -, loops, rfl, rfl⟩ := h
    exact ⟨_, hloops (mem_texts_nest List.mem_cons_self), store_mem_words ..⟩
  · simp only [hc, hk, Bool.not_true, Bool.false_eq_true, if_false, bind_eq_ok, pure_eq_ok] at h
    obtain ⟨v, -, x, -, y, -, z, -, loops, rfl, rfl⟩ := h
    exact ⟨_, hloops (mem_texts_nest List.mem_cons_self), store_mem_words ..⟩

theorem layersCode_injects {x y : Layer × Nat} {rest : List (Layer × Nat)} {code : List Tree}
    (h : layersCode net c orders profile (x :: y :: rest) = .ok code) (hf : c.faultSimulation = true) :
    ∃ t ∈ Instr.textsAll (instrsAll code), Symbol.inject.text ∈ words t := by
  obtain ⟨s, own, more, -, -, -, rfl⟩ := layersCode_cons.mp h
  refine ⟨_, ?_, inject_mem_words x.2⟩
  simp only [instrsAll_append, Instr.textsAll_append, List.mem_append]
  refine .inl (.inr ?_)
  simp [separator, hf, instrsAll, Tree.instrs, Instr.textsAll, Instr.texts]

theorem uses_store {layers : List (Layer × Nat)} (h : Uses net c orders profile layers (.symbol .store)) :
    c.capture = true := by
  cases h with
  | layer _ hs hu =>
    obtain ⟨-, -, -, hconfig⟩ := site_fields hs
    cases hu with
    | activation hx => exact absurd hx (by unfold callee; split <;> simp)
    | store hc => exact hconfig ▸ hc
  | store hc => exact hc

theorem uses_inject {layers : List (Layer × Nat)} (h : Uses net c orders profile layers (.symbol .inject)) :
    c.faultSimulation = true ∧ 1 < layers.length := by
  cases h with
  | layer _ hs hu =>
    cases hu with
    | activation hx => exact absurd hx (by unfold callee; split <;> simp)
  | inject hf hmem =>
    have hpos := List.length_pos_of_mem hmem
    rw [List.length_dropLast] at hpos
    exact ⟨hf, by omega⟩

end Forward

namespace Network

open Forward

variable {net : Network} {c : Config} {orders : List LoopOrder} {profile : String} {p : Program}

theorem program_stores_iff (h : net.program c orders profile = .ok p) :
    Symbol.store.text ∈ words (render (instrsAll p.body)) ↔ c.capture = true := by
  constructor
  · intro hw
    obtain ⟨layers, -, hmentions⟩ := net.body_mentions h
    exact uses_store (hmentions.render.symbol hw)
  · intro hc
    obtain ⟨-, layers, first, n, last, m, types, parameters, capture, code, -, -, -, -, -, hcapture, -, rfl⟩ :=
      Network.program_eq_ok.mp h
    obtain ⟨t, ht, hw⟩ := inputCapture_stores hcapture hc
    refine mem_words_render ?_ hw
    rw [instrsAll_append, Instr.textsAll_append]
    exact List.mem_append_left _ ht

theorem length_emittedLayers {layers : List (Layer × Nat)} (h : emittedLayers net c = .ok layers) :
    1 < layers.length ↔ c.isolated = false ∧ 1 < net.size := by
  unfold emittedLayers at h
  cases hi : c.isolated with
  | true =>
    simp only [hi, if_true, bind_eq_ok, pure_eq_ok] at h
    obtain ⟨l, -, rfl⟩ := h
    simp
  | false =>
    rw [hi, if_neg Bool.false_ne_true] at h
    cases h
    simp [numbered, size]

theorem program_injects_iff (h : net.program c orders profile = .ok p) :
    Symbol.inject.text ∈ words (render (instrsAll p.body)) ↔
      c.faultSimulation = true ∧ c.isolated = false ∧ 1 < net.size := by
  constructor
  · intro hw
    obtain ⟨layers, hlayers, hmentions⟩ := net.body_mentions h
    obtain ⟨hf, hlength⟩ := uses_inject (hmentions.render.symbol hw)
    exact ⟨hf, (length_emittedLayers hlayers).mp hlength⟩
  · rintro ⟨hf, hbetween⟩
    obtain ⟨-, layers, first, n, last, m, types, parameters, capture, code, hlayers, -, -, -, -, -, hcode, rfl⟩ :=
      Network.program_eq_ok.mp h
    have hlength := (length_emittedLayers hlayers).mpr hbetween
    match layers, hlength, hcode with
    | x :: y :: rest, _, hcode =>
      obtain ⟨t, ht, hw⟩ := layersCode_injects hcode hf
      refine mem_words_render ?_ hw
      rw [instrsAll_append, Instr.textsAll_append]
      exact List.mem_append_right _ ht

end Network

open Forward in
/-- Where options ask for stored values or faults, the settings have the main function exactly if no single layer is
emitted, and a compilation keeps this. Its program injects faults only between layers, where the prologue always
provides the injection. It stores values wherever that is asked for, and the prologue then defines the macro for it
exactly if the whole network is emitted. -/
theorem analysis_supported_unless_isolated {o : Options.Entries} {c : Config} (hc : (Options.config o).outcome = .ok c)
    {file : Option String} {doc : Step Source.Document} {emit : Bool} {prior : Journal} {r : Compilation}
    (h : compile c file doc emit prior = .ok r) :
    c.Supported ∧ r.config.Supported ∧ (emit = true → r.success = true → ∃ net p src, r.network = some net ∧
      net.program r.config r.orders r.profile = .ok p ∧ r.sources = some src ∧ src.main = p.text ∧
      (Symbol.inject.text ∈ words (render (instrsAll p.body)) ↔
        r.config.faultSimulation = true ∧ r.config.isolated = false ∧ 1 < net.size) ∧
      (Symbol.inject.text ∈ words (render (instrsAll p.body)) →
        ∀ on, HasLine on p.prologue (injectLine (on "_HLS_RUN"))) ∧
      (Symbol.store.text ∈ words (render (instrsAll p.body)) ↔ r.config.capture = true) ∧
      (Symbol.store.text ∈ words (render (instrsAll p.body)) →
        ∀ on, HasLine on p.prologue storeLine ↔ r.config.isolated = false)) := by
  have hsupported : c.Supported := Options.config_supported hc
  have hkept : r.config.Supported := (compile_adapts h).supported hsupported
  refine ⟨hsupported, hkept, ?_⟩
  rintro rfl hs
  obtain ⟨_, _, net, p, src, -, -, -, ha, hp, hsrc, hmain⟩ := compile_emits h hs
  have hstores := Network.program_stores_iff hp
  have hinjects := Network.program_injects_iff hp
  refine ⟨net, p, src, ha.network, hp, hsrc, hmain, hinjects, ?_, hstores, ?_⟩
  · intro hw on
    obtain ⟨hf, hwhole, -⟩ := hinjects.mp hw
    rw [(Network.program_front hp).1]
    exact prologue_injects ((hkept (.inr hf)).mpr hwhole) hf on
  · intro hw on
    have hcapture := hstores.mp hw
    rw [(Network.program_front hp).1, ← hkept (.inl hcapture)]
    constructor
    · intro hline
      by_contra hoff
      exact not_prologue_stores (by simpa using hoff) on hline
    · intro hon
      exact prologue_stores hon hcapture on

/-- Stored values and faults are asked for along with the main function. -/
def analysisOptions : Options.Entries :=
  [(.text "add-main-function", .boolean true), (.text "store-analysis-data", .boolean true),
    (.text "fault-simulation", .boolean true)]

def denseLines : List String :=
  ["model.add(Dense(2, activation='relu', input_shape=(3,)))", "model.add(Dense(2))"]

/-- The settings of options, and those under which lines are compiled with them. -/
def compiledSettings (o : Options.Entries) (lines : List String) : Option (Config × Option Config) :=
  match (Options.config o).outcome with
  | .ok c => some (c, compiledConfig c (Source.Document.ofLines none lines))
  | .error _ => none

theorem exists_of_compiledSettings {o : Options.Entries} {lines : List String} {c d : Config}
    (h : compiledSettings o lines = some (c, some d)) : ∃ r, (Options.config o).outcome = .ok c ∧
      compile c none (Source.Document.ofLines none lines) true = .ok r ∧ r.success = true ∧ r.config = d := by
  unfold compiledSettings at h
  split at h
  · rename_i c' hc
    simp only [Option.some.injEq, Prod.mk.injEq] at h
    obtain ⟨rfl, hd⟩ := h
    obtain ⟨r, hr, hs, hconfig⟩ := exists_of_compiledConfig hd
    exact ⟨r, hc, hr, hs, hconfig⟩
  · cases h

open Forward in
theorem analysis_supported_dense : ∃ c r net p, (Options.config analysisOptions).outcome = .ok c ∧
    compile c none (Source.Document.ofLines none denseLines) true = .ok r ∧ r.success = true ∧
    c.Supported ∧ r.config.Supported ∧ r.config.mainFunction = true ∧ r.network = some net ∧
    net.program r.config r.orders r.profile = .ok p ∧
    Symbol.store.text ∈ words (render (instrsAll p.body)) ∧ (∀ on, HasLine on p.prologue storeLine) := by
  have hrun : compiledSettings analysisOptions denseLines = some (
      { capture := true, faultSimulation := true, mainFunction := true },
      some { capture := true, faultSimulation := true, mainFunction := true }) := by
    decide +kernel
  obtain ⟨r, hc, hr, hs, hconfig⟩ := exists_of_compiledSettings hrun
  obtain ⟨hsupported, hkept, hprogram⟩ := analysis_supported_unless_isolated hc hr
  obtain ⟨net, p, src, hnet, hp, -, -, -, -, hstores, hline⟩ := hprogram rfl hs
  have hw := hstores.mpr (by rw [hconfig])
  exact ⟨_, r, net, p, hc, hr, hs, hsupported, hkept, by rw [hconfig], hnet, hp, hw,
    fun on => (hline hw on).mpr (by rw [hconfig]; rfl)⟩

/-- Stored values are asked for along with the main function, but for a single layer. -/
def isolatedOptions : Options.Entries :=
  [(.text "add-main-function", .boolean true), (.text "store-analysis-data", .boolean true),
    (.text "single-layer", .integer 1)]

open Forward in
/-- The main function is switched off for a single layer while values are still stored, by a macro that nothing
defines. -/
theorem isolated_stores_undefined : ∃ c r net p, (Options.config isolatedOptions).outcome = .ok c ∧
    compile c none (Source.Document.ofLines none denseLines) true = .ok r ∧ r.success = true ∧
    c.capture = true ∧ c.mainFunction = false ∧ r.config.capture = true ∧ r.config.mainFunction = false ∧
    r.network = some net ∧ net.program r.config r.orders r.profile = .ok p ∧
    Symbol.store.text ∈ words (render (instrsAll p.body)) ∧ ∀ on, ¬ HasLine on p.prologue storeLine := by
  have hrun : compiledSettings isolatedOptions denseLines =
      some ({ capture := true, singleLayer := 1 }, some { capture := true, singleLayer := 1 }) := by
    decide +kernel
  obtain ⟨r, hc, hr, hs, hconfig⟩ := exists_of_compiledSettings hrun
  obtain ⟨_, _, net, p, src, -, -, -, ha, hp, -, -⟩ := compile_emits hr hs
  have hcapture : r.config.capture = true := by rw [hconfig]
  have hmain : r.config.mainFunction = false := by rw [hconfig]
  refine ⟨_, r, net, p, hc, hr, hs, rfl, rfl, hcapture, hmain, ha.network, hp,
    (Network.program_stores_iff hp).mpr hcapture, ?_⟩
  rw [(Network.program_front hp).1]
  exact not_prologue_stores hmain

end LayerLoops
