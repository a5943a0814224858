import LayerLoops.Proofs.Extents

/-! # Buffers between layers

A layer writes a buffer that the next layer reads. The buffer is declared with the extents of what is written,
once as a parameter and once in the body, of which one is active; the next layer subscripts it with the extents
of its own input. The two agree where the next layer takes the volume that is handed to it. -/

namespace LayerLoops

open Code

/-! ## Volumes that are handed on -/

theorem Completion.link {P : Int → Prop} {predecessor : Option Layer} {ls ms : List Layer}
    (h : Completion P predecessor ls ms) {k : Nat} {before m : Layer} (hk : ms[k]? = some before)
    (hm : ms[k + 1]? = some m) : ∃ l g, ls[k + 1]? = some l ∧ l.Completes P (some before) m g := by
  induction h generalizing k with
  | nil => simp at hk
  | @cons _ _ m' _ _ _ _ hrest ih =>
    cases k with
    | succ k => exact ih hk hm
    | zero =>
      cases Option.some.inj hk
      cases hrest with
      | nil => simp at hm
      | cons hnext _ =>
        cases Option.some.inj hm
        exact ⟨_, _, rfl, hnext⟩

namespace Layer

variable {l before : Layer} {i o : Volume}

def writesVector (l : Layer) : Prop := l.kind = .flatten ∨ l.kind = .dense

theorem writtenDims_of_vector (h : l.writesVector) (v : Volume) : l.writtenDims v = [v.x] := by
  unfold writtenDims
  rcases h with h | h <;> rw [h]

theorem writtenDims_of_not_vector (h : ¬ l.writesVector) (v : Volume) : l.writtenDims v = v.dims := by
  unfold writtenDims writesVector at *
  cases hk : l.kind <;> simp_all

theorem Complete.isFlat_output {P : Int → Prop} {g : Geometry} (h : l.Complete P g) (hv : l.writesVector) :
    g.output.IsFlat := by
  have hform := h.form
  unfold writesVector kind at hv
  cases hf : l.form with
  | conv _ _ _ | pooling _ _ _ => simp [hf, Form.kind] at hv
  | flatten nodes =>
    rw [hf] at hform
    rw [hform.2]
    exact ⟨rfl, rfl⟩
  | dense nodes =>
    rw [hf] at hform
    rw [hform.2]
    exact ⟨rfl, rfl⟩

theorem writtenDims_eq_readDims_iff (hrank : before.writesVector ↔ l.kind = .dense)
    (ho : before.writesVector → o.IsFlat) (hi : l.kind = .dense → i.IsFlat) :
    before.writtenDims o = l.readDims i ↔ o = i := by
  obtain ⟨ox, oy, oz⟩ := o
  obtain ⟨ix, iy, iz⟩ := i
  by_cases hk : l.kind = .dense
  · obtain ⟨rfl, rfl⟩ : oy = 1 ∧ oz = 1 := ho (hrank.mpr hk)
    obtain ⟨rfl, rfl⟩ : iy = 1 ∧ iz = 1 := hi hk
    rw [writtenDims_of_vector (hrank.mpr hk), readDims, if_pos hk]
    simp
  · rw [writtenDims_of_not_vector (mt hrank.mp hk), readDims, if_neg hk]
    simp [Volume.dims]

end Layer

/-! ## Declarations -/

namespace Site

theorem output_of_inner {s : Site} (h : s.writesOutput = false) : s.output = .between s.number := by
  simp [output, h]

def handed (s : Site) (o : Volume) : Declaration :=
  ⟨s.outputType, .between s.number, (s.layer.writtenDims o).map some⟩

theorem Body.declares_between {s : Site} {g : Geometry} {body : List Tree} (hb : s.Body g body) {d : Declaration}
    {active : Bool} {n : Nat} : (d, active) ∈ declaredIn (s.codeOf g body) ∧ d.buffer = .between n ↔
      s.writesOutput = false ∧ s.number = n ∧ d = s.handed g.output ∧ active = s.isLocal := by
  rw [mem_declaredIn_codeOf, mem_declaredIn_declarations]
  constructor
  · rintro ⟨(⟨hr, rfl, rfl⟩ | ⟨hw, rfl, rfl⟩) | hd, hbuffer⟩
    · have hrole := role_base hr
      rw [show s.base = .between n from hbuffer] at hrole
      cases hrole
    · rw [output_of_inner hw] at hbuffer ⊢
      exact ⟨hw, Buffer.between.inj hbuffer, rfl, rfl⟩
    · have hrole := hb.locals.2 _ hd
      rw [hbuffer] at hrole
      cases hrole
  · rintro ⟨hw, rfl, rfl, rfl⟩
    refine ⟨.inl (.inr ⟨hw, ?_, rfl⟩), rfl⟩
    rw [output_of_inner hw]
    rfl

end Site

namespace Program

theorem signature_between {net : Network} {c : Config} {orders : List LoopOrder} {profile : String} {p : Program}
    (hp : Forward.groups net c orders profile = .ok p.parameters) (hc : c.isolated = false) {l : Layer} {n : Nat}
    {s : Site} {o : Volume} (hs : Forward.site net c orders profile l n = .ok s) (hmem : (l, n) ∈ net.numbered.dropLast)
    (ho : l.output = some o) (hfits : o.Fits) {d : Declaration} {active : Bool} :
    (d, active) ∈ p.signature ∧ d.buffer = .between n ↔ d = s.handed o ∧ active = !s.isLocal := by
  have hdims := (Layer.outputDims_eq_ok ho).mpr ⟨rfl, l.fits_writtenDims hfits⟩
  obtain ⟨_, hsite⟩ := Forward.exists_site net c orders profile l n
  obtain rfl := (hsite s).mp hs
  rw [signature, Forward.mem_groups_iff hp]
  constructor
  · rintro ⟨hd, hbuffer⟩
    cases hd with
    | factor _ _ ht =>
      cases hbuffer
      simp [Forward.factorTypes] at ht
    | scales | weights | biases => cases hbuffer
    | between _ hl hs' hd =>
      cases hbuffer
      cases Network.numbered_unique (List.mem_of_mem_dropLast hl) (List.mem_of_mem_dropLast hmem)
      cases hs.symm.trans hs'
      cases hdims.symm.trans hd
      exact ⟨rfl, rfl⟩
  · rintro ⟨rfl, rfl⟩
    exact ⟨.between hc hmem hs hdims, rfl⟩

end Program

namespace Forward

variable {net : Network} {c : Config} {orders : List LoopOrder} {profile : String}

theorem declaredIn_inputCapture {l : Layer} {n : Nat} {code : List Tree} (h : inputCapture c l n = .ok code) :
    declaredIn code = [] := by
  unfold inputCapture at h
  cases hc : c.capture with
  | false =>
    simp only [hc, Bool.not_false, if_true, pure_eq_ok] at h
    rw [← h]
    rfl
  | true =>
    by_cases hk : l.kind = .dense
    · simp only [hc, hk, Bool.not_true, Bool.false_eq_true, if_false, if_true, bind_eq_ok, pure_eq_ok] at h
      obtain ⟨v, _, x, _, loops, rfl, rfl⟩ := h
      rfl
    · simp only [hc, hk, Bool.not_true, Bool.false_eq_true, if_false, bind_eq_ok, pure_eq_ok] at h
      obtain ⟨v, _, x, _, y, _, z, _, loops, rfl, rfl⟩ := h
      rfl

theorem mem_declaredIn_layersCode {layers : List (Layer × Nat)} {code : List Tree}
    (h : layersCode net c orders profile layers = .ok code) {d : Declaration × Bool} :
    d ∈ declaredIn code ↔ ∃ l n s own, (l, n) ∈ layers ∧ site net c orders profile l n = .ok s ∧ s.code = .ok own ∧
      d ∈ declaredIn own := by
  constructor
  · intro hd
    obtain ⟨st, hst, hd⟩ := List.mem_flatMap.mp hd
    obtain ⟨n, rfl⟩ | ⟨l, n, s, own, hmem, hs, hown, hst⟩ := mem_stmtsAll_layersCode h hst
    · cases hd
    · exact ⟨l, n, s, own, hmem, hs, hown, List.mem_flatMap.mpr ⟨st, hst, hd⟩⟩
  · rintro ⟨l, n, s, own, hmem, hs, hown, hd⟩
    obtain ⟨s', own', hs', hown', hin⟩ := layersCode_infix h hmem
    cases hs.symm.trans hs'
    cases hown.symm.trans hown'
    obtain ⟨front, back, rfl⟩ := hin
    simp only [declaredIn_append, List.mem_append]
    exact .inl (.inr hd)

end Forward

open Forward in
theorem Network.program_whole {net : Network} {c : Config} {orders : List LoopOrder} {profile : String} {p : Program}
    (h : net.program c orders profile = .ok p) (hc : c.isolated = false) :
    groups net c orders profile = .ok p.parameters ∧
      ∃ capture code, declaredIn capture = [] ∧ layersCode net c orders profile net.numbered = .ok code ∧
        p.body = capture ++ code := by
  obtain ⟨-, layers, first, k, last, m, types, parameters, capture, code, hlayers, -, -, -, hgroups, hcapture, hcode,
    rfl⟩ := Network.program_eq_ok.mp h
  rw [emittedLayers, hc] at hlayers
  cases hlayers
  exact ⟨hgroups, capture, code, declaredIn_inputCapture hcapture, hcode, rfl⟩

/-- The buffer behind the layer at `s` is what the layer at `t` reads. It is declared twice with the extents of what
is written, and one of the declarations stands in a comment. The layer at `t` subscripts it with the extents of its
input `i`. -/
structure Program.Hands (p : Program) (s t : Site) (o i : Volume) : Prop where
  written : s.output = .between s.number
  read : t.input = .between s.number
  parameter : ∀ d active, (d, active) ∈ p.signature ∧ d.buffer = .between s.number ↔
    d = s.handed o ∧ active = !s.isLocal
  declared : ∀ d active, (d, active) ∈ declaredIn p.body ∧ d.buffer = .between s.number ↔
    d = s.handed o ∧ active = s.isLocal
  subscripts : ∃ code, t.code = .ok code ∧ code <:+: p.body ∧
    ∀ ρ st, .perform ρ st ∈ actionsAll code Scope.empty → ∀ e ∈ st.elements, e.buffer = .between s.number →
      ∃ js, Located ρ e.subscripts (t.layer.readDims i) js

namespace Compilation.Accepts

open Forward

variable {r : Compilation} {c : Config} {net : Network} {code : List Tree} {l : Layer} {n : Nat} {s : Site}
  {g : Geometry}

theorem exists_emitted (ha : r.Accepts c net true) (hcomplete : ∀ l ∈ net.layers, ∃ g, l.Complete (0 < ·) g)
    (hmem : (l, n) ∈ net.numbered) :
    ∃ s g, site net r.config r.orders r.profile l n = .ok s ∧ s.layer = l ∧ s.Emitted (0 < ·) g := by
  obtain ⟨_, hsite⟩ := exists_site net r.config r.orders r.profile l n
  have hs := (hsite _).mpr rfl
  obtain ⟨g, hg⟩ := ha.emitted hcomplete hmem hs
  exact ⟨_, g, hs, rfl, hg⟩

theorem declares_between (ha : r.Accepts c net true) (hcomplete : ∀ l ∈ net.layers, ∃ g, l.Complete (0 < ·) g)
    (hcode : layersCode net r.config r.orders r.profile net.numbered = .ok code) (hmem : (l, n) ∈ net.numbered)
    (hs : site net r.config r.orders r.profile l n = .ok s) (hg : s.Emitted (0 < ·) g) (hinner : s.writesOutput = false)
    {d : Declaration} {active : Bool} : (d, active) ∈ declaredIn code ∧ d.buffer = .between n ↔
      d = s.handed g.output ∧ active = s.isLocal := by
  rw [mem_declaredIn_layersCode hcode]
  constructor
  · -- Another layer would declare the buffer of its own number.
    rintro ⟨⟨l', n', s', own, hmem', hs', hown, hd⟩, hbuffer⟩
    obtain ⟨g', hg'⟩ := ha.emitted hcomplete hmem' hs'
    obtain ⟨-, body, hbody, rfl⟩ := hg'.code_cases (fun _ => id) hown
    obtain ⟨-, hn, rfl, rfl⟩ := hbody.declares_between.mp ⟨hd, hbuffer⟩
    obtain rfl : n' = n := (site_fields hs').2.1.symm.trans hn
    cases Network.numbered_unique hmem hmem'
    cases hs.symm.trans hs'
    rw [Option.some.inj (hg.complete.output.symm.trans hg'.complete.output)]
    exact ⟨rfl, rfl⟩
  · rintro ⟨rfl, rfl⟩
    obtain ⟨s', own, hs', hown, -⟩ := layersCode_infix hcode hmem
    cases hs.symm.trans hs'
    obtain ⟨-, body, hbody, rfl⟩ := hg.code_cases (fun _ => id) hown
    obtain ⟨hd, hbuffer⟩ := hbody.declares_between.mpr ⟨hinner, (site_fields hs).2.1, rfl, rfl⟩
    exact ⟨⟨l, n, s, _, hmem, hs, hown, hd⟩, hbuffer⟩

theorem hands (ha : r.Accepts c net true) (hcomplete : ∀ l ∈ net.layers, ∃ g, l.Complete (0 < ·) g) {p : Program}
    (hp : net.program r.config r.orders r.profile = .ok p) (hwhole : r.config.isolated = false) {before : Layer}
    (hb : (before, n) ∈ net.numbered) (hl : (l, n + 1) ∈ net.numbered) {t : Site} {g' : Geometry}
    (hs : site net r.config r.orders r.profile before n = .ok s)
    (ht : site net r.config r.orders r.profile l (n + 1) = .ok t) (hg : s.Emitted (0 < ·) g)
    (hg' : t.Emitted (0 < ·) g') : p.Hands s t g.output g'.input := by
  obtain ⟨hgroups, capture, code, hcapture, hcode, hbody⟩ := Network.program_whole hp hwhole
  obtain ⟨s', own, hs', hown, -⟩ := layersCode_infix hcode hb
  cases hs.symm.trans hs'
  obtain ⟨t', own', ht', hown', hin⟩ := layersCode_infix hcode hl
  cases ht.symm.trans ht'
  obtain ⟨hnet, hnumber, hlayer, hconfig⟩ := site_fields hs
  obtain ⟨hnet', hnumber', hlayer', hconfig'⟩ := site_fields ht
  have hpos := (Network.mem_numbered_iff.mp hb).1
  have hlt : n < net.layers.length := (List.getElem?_eq_some_iff.mp (Network.mem_numbered_iff.mp hl).2).1
  have hinner : s.writesOutput = false := by
    simp [Site.writesOutput, Site.isLast, hnet, hnumber, hconfig, hwhole, Network.isLast, Network.size, hlt.ne]
  have hread : t.input = .between s.number := by
    simp [Site.input, hnumber', hconfig', hwhole, hnumber, hpos.ne']
  refine ⟨Site.output_of_inner hinner, hread, fun d active => ?_, fun d active => ?_, own', hown', ?_,
    fun ρ st hst e he hbuffer => ?_⟩
  · have hfits := (hg.code_cases (fun _ => id) hown).1.output _ hg.complete.output
    have hout := hlayer ▸ hg.complete.output
    rw [hnumber]
    exact Program.signature_between hgroups hwhole hs (Network.mem_numbered_dropLast hb hlt) hout hfits
  · rw [hbody, declaredIn_append, hcapture, List.nil_append, hnumber]
    exact ha.declares_between hcomplete hcode hb hs hg hinner
  · rw [hbody]
    exact hin.trans (List.suffix_append _ _).isInfix
  · have hgroups' : groups t.net t.config r.orders r.profile = .ok p.parameters := by rw [hnet', hconfig', hgroups]
    have hactive : t.config.isolated = false := by rw [hconfig', hwhole]
    obtain ⟨dims, js, hdims, hjs⟩ := hg'.safe (fun _ => id) hgroups' (.inl hactive) hown' _ hst e he
    rw [hbuffer, Program.extents, if_pos hread.symm] at hdims
    cases hdims
    exact ⟨js, hjs⟩

end Compilation.Accepts

open Forward in
/-- In a whole network that compiles, each layer behind the first reads the buffer that its predecessor writes. Both
declarations of the buffer have the extents of what is written. If a layer takes a vector exactly where its
predecessor writes one, then these are the extents that it subscripts the buffer with if and only if its input is the
output of its predecessor, and they are unless it was declared with an input of its own. -/
theorem handed_buffer_extents {c : Config} {file : Option String} {doc : Step Source.Document} {prior : Journal}
    {r : Compilation} (h : compile c file doc true prior = .ok r) (hs : r.success = true)
    (hwhole : c.isolated = false) :
    ∃ d declared net p src, doc.outcome = .ok d ∧ (Network.ofStatements d.statements).outcome = .ok declared ∧
      r.network = some net ∧ net.program r.config r.orders r.profile = .ok p ∧ r.sources = some src ∧
      src.main = p.text ∧
      ∀ before l n, (before, n) ∈ net.numbered → (l, n + 1) ∈ net.numbered → ∃ s t o i,
        site net r.config r.orders r.profile before n = .ok s ∧
        site net r.config r.orders r.profile l (n + 1) = .ok t ∧
        before.output = some o ∧ l.input = some i ∧ p.Hands s t o i ∧
        ((before.writesVector ↔ l.kind = .dense) → (before.writtenDims o = l.readDims i ↔ o = i)) ∧
        ∀ l₀, declared.layers[n]? = some l₀ → l₀.input = none → o = i := by
  obtain ⟨d, declared, net, p, src, hd, hdeclared, hcompletion, ha, hp, hsrc, hmain⟩ := compile_emits h hs
  refine ⟨d, declared, net, p, src, hd, hdeclared, ha.network, hp, hsrc, hmain, fun before l n hb hl => ?_⟩
  have hwhole' : r.config.isolated = false := by rw [Config.isolated, ha.single, ← Config.isolated, hwhole]
  obtain ⟨s, g, hs, rfl, hg⟩ := ha.exists_emitted hcompletion.complete hb
  obtain ⟨t, g', ht, rfl, hg'⟩ := ha.exists_emitted hcompletion.complete hl
  refine ⟨s, t, g.output, g'.input, hs, ht, hg.complete.output, hg'.complete.input,
    ha.hands hcompletion.complete hp hwhole' hb hl hs ht hg hg', fun hrank => ?_, fun l₀ hl₀ hnone => ?_⟩
  · exact Layer.writtenDims_eq_readDims_iff hrank hg.complete.isFlat_output
      fun hk => hg'.admits.flat hk _ hg'.complete.input
  · obtain ⟨hpos, hb⟩ := Network.mem_numbered_iff.mp hb
    have hl := (Network.mem_numbered_iff.mp hl).2
    rw [Nat.add_sub_cancel, ← Nat.sub_add_cancel hpos] at hl
    obtain ⟨l₁, g₁, hl₁, hlink⟩ := hcompletion.link hb hl
    rw [Nat.sub_add_cancel hpos] at hl₁
    cases hl₀.symm.trans hl₁
    have hsource : s.layer.output = some g₁.input := by simpa [hnone] using hlink.source
    have hinput : g₁.input = g'.input := Option.some.inj (hlink.complete.input.symm.trans hg'.complete.input)
    rw [← hinput]
    exact Option.some.inj (hg.complete.output.symm.trans hsource)

/-- A pooled volume is flattened and read by a dense layer. -/
def pooledLines : List String :=
  ["model.add(Conv2D(2, kernel_size=3, activation='relu', input_shape=(6, 6, 1)))",
    "model.add(MaxPooling2D(pool_size=2))", "model.add(Flatten())", "model.add(Dense(3))"]

open Forward in
theorem handed_buffer_extents_pooled : ∃ r net p before l s t,
    compile {} none (Source.Document.ofLines none pooledLines) true = .ok r ∧ r.success = true ∧ r.network = some net ∧
      net.program r.config r.orders r.profile = .ok p ∧ site net r.config r.orders r.profile before 2 = .ok s ∧
      site net r.config r.orders r.profile l 3 = .ok t ∧ p.Hands s t ⟨2, 2, 2⟩ ⟨2, 2, 2⟩ ∧
      before.writtenDims ⟨2, 2, 2⟩ = l.readDims ⟨2, 2, 2⟩ := by
  have hrun : compiledOutline {} (Source.Document.ofLines none pooledLines) = some [
      (.conv, some ⟨6, 6, 1⟩, some ⟨4, 4, 2⟩), (.pooling, some ⟨4, 4, 2⟩, some ⟨2, 2, 2⟩),
      (.flatten, some ⟨2, 2, 2⟩, some (.flat 8)), (.dense, some (.flat 8), some (.flat 3))] := by
    decide +kernel
  obtain ⟨r, net, hr, hs, hnet, houtline⟩ := exists_of_compiledOutline hrun
  obtain ⟨d, declared, net', p, src, -, -, hnet', hp, -, -, hall⟩ := handed_buffer_extents hr hs rfl
  cases hnet.symm.trans hnet'
  obtain ⟨before, hb, hkind, -, hout⟩ := Network.exists_of_outline houtline (k := 1) rfl
  obtain ⟨l, hl, hkind', hin, -⟩ := Network.exists_of_outline houtline (k := 2) rfl
  obtain ⟨s, t, o, i, hsite, hsite', ho, hi, hhands, hagree, -⟩ := hall before l 2 hb hl
  cases ho.symm.trans hout
  cases hi.symm.trans hin
  refine ⟨r, net, p, before, l, s, t, hr, hs, hnet, hp, hsite, hsite', hhands, (hagree ?_).mpr rfl⟩
  simp [Layer.writesVector, hkind, hkind']

/-- The second layer is declared with an input that the first one does not write. -/
def overriddenLines : List String :=
  ["model.add(Conv2D(4, kernel_size=(3,3), activation='relu', input_shape=(6,6,1)))",
    "model.add(Conv2D(2, kernel_size=(3,3), input_shape=(9,9,5)))"]

open Forward in
/-- An input of its own separates what a layer subscripts from what is declared. -/
theorem overridden_input_extents_differ : ∃ r net p l i d active,
    compile { dataMode := .floating } none (Source.Document.ofLines none overriddenLines) true = .ok r ∧
      r.success = true ∧ r.network = some net ∧ net.program r.config r.orders r.profile = .ok p ∧
      (l, 2) ∈ net.numbered ∧ l.input = some i ∧ (d, active) ∈ p.signature ∧ d.buffer = .between 1 ∧
      d.dims ≠ (l.readDims i).map some := by
  have hrun : compiledOutline { dataMode := .floating } (Source.Document.ofLines none overriddenLines) = some [
      (.conv, some ⟨6, 6, 1⟩, some ⟨4, 4, 4⟩), (.conv, some ⟨9, 9, 5⟩, some ⟨7, 7, 2⟩)] := by
    decide +kernel
  obtain ⟨r, net, hr, hs, hnet, houtline⟩ := exists_of_compiledOutline hrun
  obtain ⟨_, _, net', p, _, -, -, hcompletion, ha, hp, -, -⟩ := compile_emits hr hs
  cases hnet.symm.trans ha.network
  obtain ⟨before, hb, hkind, -, hout⟩ := Network.exists_of_outline houtline (k := 0) rfl
  obtain ⟨l, hl, hkind', hin, -⟩ := Network.exists_of_outline houtline (k := 1) rfl
  have hwhole : r.config.isolated = false := by rw [Config.isolated, ha.single]; rfl
  obtain ⟨s, g, hs', rfl, hg⟩ := ha.exists_emitted hcompletion.complete hb
  obtain ⟨t, g', ht', rfl, hg'⟩ := ha.exists_emitted hcompletion.complete hl
  have hhands := ha.hands hcompletion.complete hp hwhole hb hl hs' ht' hg hg'
  obtain ⟨hd, hbuffer⟩ := (hhands.parameter _ _).mpr ⟨rfl, rfl⟩
  rw [(site_fields hs').2.1] at hbuffer
  refine ⟨r, net, p, t.layer, ⟨9, 9, 5⟩, _, _, hr, hs, hnet, hp, hl, hin, hd, hbuffer, ?_⟩
  have hvolume : g.output = ⟨4, 4, 4⟩ := Option.some.inj (hg.complete.output.symm.trans hout)
  rw [hvolume]
  simp [Site.handed, Layer.writtenDims, hkind, Layer.readDims, hkind', Volume.dims]

end LayerLoops
