import LayerLoops.Emission.Forward
import LayerLoops.Proofs.Emitted

/-! # Declarations of a generated program

The generated function declares arrays as parameters and in its body. A declaration stands in a comment where
the array is declared in the other place, or belongs to a layer that is left out. -/

namespace LayerLoops

variable {doc : Step Source.Document}

namespace Code

mutual

def Tree.stmts : Tree → List Stmt
  | .stmt s => [s]
  | .blank => []
  | .loop _ _ body | .simulated body => stmtsAll body
  | .choose _ inside outside => inside :: outside.toList
  | .watched s stored => s :: stored

def stmtsAll : List Tree → List Stmt
  | [] => []
  | t :: ts => t.stmts ++ stmtsAll ts

end

theorem stmtsAll_eq (ts : List Tree) : stmtsAll ts = ts.flatMap Tree.stmts := by
  induction ts with
  | nil => rfl
  | cons t ts ih => rw [stmtsAll, ih, List.flatMap_cons]

@[simp] theorem stmtsAll_append (ts us : List Tree) : stmtsAll (ts ++ us) = stmtsAll ts ++ stmtsAll us := by
  simp only [stmtsAll_eq, List.flatMap_append]

@[simp] theorem stmtsAll_ofStmts (ss : List Stmt) : stmtsAll (Tree.ofStmts ss) = ss := by
  induction ss with
  | nil => rfl
  | cons s ss ih => exact congrArg (s :: ·) ih

@[simp] theorem stmtsAll_nest (hs : List Head) (body : List Tree) : stmtsAll (Site.nest hs body) = stmtsAll body := by
  induction hs with
  | nil => rfl
  | cons h hs ih =>
    rw [← ih]
    exact List.append_nil _

/-- The arrays and scalars that a statement declares, with whether the declaration is active. -/
def Stmt.declarations : Stmt → List (Declaration × Bool)
  | declare d active => [(d, active)]
  | declareCells t => [(⟨t, .cell, []⟩, true), (⟨t, .maximum, []⟩, true)]
  | _ => []

def Group.declarations : Group → List (Declaration × Bool)
  | .faults => []
  | .declared ds active => ds.map (·, active)

/-- The extents of a buffer under the declarations that are active. -/
def extentsIn (ds : List (Declaration × Bool)) (b : Buffer) : Option (List Int) :=
  (ds.find? fun x => x.2 && x.1.buffer = b).bind (·.1.dims.mapM id)

theorem extentsIn_eq {ds : List (Declaration × Bool)} {b : Buffer} {dims : List Int}
    (hex : ∃ d, (d, true) ∈ ds ∧ d.buffer = b)
    (hall : ∀ d, (d, true) ∈ ds → d.buffer = b → d.dims = dims.map some) : extentsIn ds b = some dims := by
  obtain ⟨d, hd, hb⟩ := hex
  obtain ⟨⟨e, active⟩, he⟩ : ∃ e, (ds.find? fun x => x.2 && x.1.buffer = b) = some e :=
    Option.isSome_iff_exists.mp (List.find?_isSome.mpr ⟨(d, true), hd, by simp [hb]⟩)
  obtain ⟨rfl, hbuffer⟩ : active = true ∧ e.buffer = b := by simpa using List.find?_some he
  rw [extentsIn, he, Option.bind_some, hall e (List.mem_of_find?_eq_some he) hbuffer, mapM_id_some]

theorem extentsIn_of_mem {ds es : List (Declaration × Bool)} {d : Declaration} (hd : (d, true) ∈ es)
    (hes : (es.map (·.1.buffer)).Nodup) (hds : ∀ e, (e, true) ∈ ds → e.buffer ≠ d.buffer) :
    extentsIn (ds ++ es) d.buffer = d.dims.mapM id := by
  have hnone : (ds.find? fun x => x.2 && x.1.buffer = d.buffer) = none := by
    refine List.find?_eq_none.mpr ?_
    rintro ⟨e, _ | _⟩ he
    · simp
    · simpa using hds e he
  obtain ⟨⟨e, active⟩, he⟩ : ∃ e, (es.find? fun x => x.2 && x.1.buffer = d.buffer) = some e :=
    Option.isSome_iff_exists.mp (List.find?_isSome.mpr ⟨(d, true), hd, by simp⟩)
  obtain ⟨rfl, hbuffer⟩ : active = true ∧ e.buffer = d.buffer := by simpa using List.find?_some he
  cases List.inj_on_of_nodup_map hes (List.mem_of_find?_eq_some he) hd hbuffer
  rw [extentsIn, List.find?_append, hnone, Option.none_or, he, Option.bind_some]

end Code

open Code

namespace Forward

variable {active : Bool} {code : List Tree} {d : Declaration} {gs : List Group} {l : Layer}
  {layers : List (Layer × Nat)} {n : Nat} {net : Network} {c : Config} {orders : List LoopOrder} {profile : String}

def factorTypes : List (TypeName × Buffer) :=
  [(.inputZeroPoint, .inputZeroPoints), (.outputZeroPoint, .outputZeroPoints), (.inputScale, .inputScales),
    (.outputScale, .outputScales)]

/-- The parameters behind the input and the output, with whether they are active. -/
inductive Signature (net : Network) (c : Config) (orders : List LoopOrder) (profile : String) :
    Declaration → Bool → Prop
  | factor {t : TypeName} {b : Buffer} : c.quantized = true → net.weighted ≠ [] → (t, b) ∈ factorTypes →
      Signature net c orders profile ⟨t, b, [some (Int.ofNat net.weighted.length)]⟩ true
  | scales {l : Layer} {n : Nat} {d : Option Int} : c.quantized = true → (l, n) ∈ net.weighted → l.channelDim = .ok d →
      Signature net c orders profile ⟨.weightScale, .weightScales n, [d]⟩ true
  | weights {l : Layer} {n : Nat} {dims : List (Option Int)} : (l, n) ∈ net.weighted → l.weightDims = .ok dims →
      Signature net c orders profile ⟨.weights, .weights n, dims⟩ (!c.isolated || c.singleLayer == n)
  | biases {l : Layer} {n : Nat} {d : Option Int} : c.biases = true → (l, n) ∈ net.weighted → l.channelDim = .ok d →
      Signature net c orders profile ⟨.biases, .biases n, [d]⟩ (!c.isolated || c.singleLayer == n)
  | between {l : Layer} {n : Nat} {s : Site} {dims : List (Option Int)} : c.isolated = false →
      (l, n) ∈ net.numbered.dropLast → site net c orders profile l n = .ok s → l.outputDims = .ok dims →
      Signature net c orders profile ⟨s.outputType, .between n, dims⟩ (!s.isLocal)

/-- The extents that a parameter takes from its layer, or from the network. -/
def ParameterDims (net : Network) : Buffer → List (Option Int) → Prop
  | .weights n, dims => ∃ l, (l, n) ∈ net.numbered ∧ l.weightDims = .ok dims
  | .biases n, dims | .weightScales n, dims => ∃ l d, (l, n) ∈ net.numbered ∧ l.channelDim = .ok d ∧ dims = [d]
  | .between n, dims => ∃ l, (l, n) ∈ net.numbered ∧ l.outputDims = .ok dims
  | _, dims => dims = [some (Int.ofNat net.weighted.length)]

theorem ParameterDims.unique {b : Buffer} {ds es : List (Option Int)} (hd : ParameterDims net b ds)
    (he : ParameterDims net b es) : ds = es := by
  cases b with
  | weights n | between n =>
    obtain ⟨l, hl, hd⟩ := hd
    obtain ⟨m, hm, he⟩ := he
    cases Network.numbered_unique hl hm
    exact Except.ok.inj (hd.symm.trans he)
  | biases n | weightScales n =>
    obtain ⟨l, d, hl, hd, rfl⟩ := hd
    obtain ⟨m, e, hm, he, rfl⟩ := he
    cases Network.numbered_unique hl hm
    rw [Except.ok.inj (hd.symm.trans he)]
  | _ => exact Eq.trans hd (Eq.symm he)

theorem Signature.parameterDims (h : Signature net c orders profile d active) : ParameterDims net d.buffer d.dims := by
  have hnumbered {l : Layer} {n : Nat} (hl : (l, n) ∈ net.weighted) := (List.mem_filter.mp hl).1
  cases h with
  | factor _ _ ht =>
    simp only [factorTypes, List.mem_cons, Prod.mk.injEq, List.not_mem_nil, or_false] at ht
    rcases ht with ⟨-, rfl⟩ | ⟨-, rfl⟩ | ⟨-, rfl⟩ | ⟨-, rfl⟩ <;> rfl
  | scales _ hl hd => exact ⟨_, _, hnumbered hl, hd, rfl⟩
  | weights hl hd => exact ⟨_, hnumbered hl, hd⟩
  | biases _ hl hd => exact ⟨_, _, hnumbered hl, hd, rfl⟩
  | between _ hl _ hd => exact ⟨_, List.mem_of_mem_dropLast hl, hd⟩

theorem mem_factorGroups_iff (h : factorGroups net = .ok gs) :
    (d, active) ∈ gs.flatMap Group.declarations ↔ active = true ∧
      ((∃ t b, (t, b) ∈ factorTypes ∧ d = ⟨t, b, [some (Int.ofNat net.weighted.length)]⟩) ∨
        ∃ l n e, (l, n) ∈ net.weighted ∧ l.channelDim = .ok e ∧ d = ⟨.weightScale, .weightScales n, [e]⟩) := by
  simp only [factorGroups, bind_eq_ok, pure_eq_ok] at h
  obtain ⟨scales, hscales, rfl⟩ := h
  have hmem := @mem_iff_of_mapM _ _ _ _ _ _ hscales
  simp only [List.flatMap_cons, List.flatMap_nil, List.append_nil, List.mem_append, Group.declarations, List.mem_map,
    Prod.mk.injEq, hmem, bind_eq_ok, pure_eq_ok, Prod.exists, factorTypes]
  constructor
  · rintro (⟨e, he, rfl, rfl⟩ | ⟨e, ⟨l, n, hl, ch, hch, rfl⟩, rfl, rfl⟩)
    · simp at he
      refine ⟨rfl, .inl ?_⟩
      rcases he with rfl | rfl | rfl | rfl <;> simp
    · exact ⟨rfl, .inr ⟨l, n, ch, hl, hch, rfl⟩⟩
  · rintro ⟨rfl, ⟨t, b, hb, rfl⟩ | ⟨l, n, ch, hl, hch, rfl⟩⟩
    · left
      simp at hb ⊢
      tauto
    · exact .inr ⟨_, ⟨l, n, hl, ch, hch, rfl⟩, rfl, rfl⟩

theorem weightGroup_eq_ok {w : Group} : weightGroup c l n = .ok w ↔ ∃ dims biases, l.weightDims = .ok dims ∧
      (if c.biases then ∃ e, l.channelDim = .ok e ∧ biases = [⟨.biases, .biases n, [e]⟩] else biases = []) ∧
      w = .declared (⟨.weights, .weights n, dims⟩ :: biases) (!c.isolated || c.singleLayer == n) := by
  unfold weightGroup
  cases c.biases <;> simp only [Bool.false_eq_true, if_false, if_true, bind_eq_ok, pure_eq_ok] <;> grind

theorem mem_weightGroup_iff {w : Group} (h : weightGroup c l n = .ok w) :
    (d, active) ∈ w.declarations ↔ active = (!c.isolated || c.singleLayer == n) ∧
      ((∃ dims, l.weightDims = .ok dims ∧ d = ⟨.weights, .weights n, dims⟩) ∨
        ∃ e, c.biases = true ∧ l.channelDim = .ok e ∧ d = ⟨.biases, .biases n, [e]⟩) := by
  obtain ⟨dims, biases, hdims, hbiases, rfl⟩ := weightGroup_eq_ok.mp h
  cases hb : c.biases <;> simp [hb] at hbiases <;> simp [Group.declarations, hdims] <;> grind

theorem groups_eq_ok : groups net c orders profile = .ok gs ↔ ∃ factors weights buffers,
    (if c.quantized && !net.weighted.isEmpty then factorGroups net = .ok factors else factors = []) ∧
      (net.weighted.mapM fun (l, n) => weightGroup c l n) = .ok weights ∧
      (if c.isolated then buffers = [] else (net.numbered.dropLast.mapM fun (l, n) => do
        bufferGroup (← site net c orders profile l n)) = .ok buffers) ∧
      gs = (if c.faultSimulation then [Group.faults] else []) ++ factors ++ weights ++ buffers := by
  unfold groups
  cases c.quantized && !net.weighted.isEmpty <;> cases c.isolated <;>
    simp only [Bool.false_eq_true, if_false, if_true, bind_eq_ok, pure_eq_ok] <;> grind

theorem mem_bufferGroup_iff {s : Site} (hs : site net c orders profile l n = .ok s) {b : Group}
    (h : bufferGroup s = .ok b) : (d, active) ∈ b.declarations ↔
      active = !s.isLocal ∧ ∃ dims, l.outputDims = .ok dims ∧ d = ⟨s.outputType, .between n, dims⟩ := by
  obtain ⟨_, hsite⟩ := exists_site net c orders profile l n
  obtain rfl := (hsite s).mp hs
  simp only [bufferGroup, bind_eq_ok, pure_eq_ok] at h
  obtain ⟨dims, hdims, rfl⟩ := h
  simp only [Group.declarations, hdims]
  grind

theorem mem_groups_iff (h : groups net c orders profile = .ok gs) :
    (d, active) ∈ gs.flatMap Group.declarations ↔ Signature net c orders profile d active := by
  obtain ⟨factors, weights, buffers, hfactors, hweights, hbuffers, rfl⟩ := groups_eq_ok.mp h
  have hfaults : (if c.faultSimulation then [Group.faults] else []).flatMap Group.declarations = [] := by
    cases c.faultSimulation <;> rfl
  simp only [List.flatMap_append, hfaults, List.nil_append, List.mem_append]
  constructor
  · rintro ((hd | hd) | hd)
    · split at hfactors
      · rename_i hq
        obtain ⟨rfl, ⟨t, b, hb, rfl⟩ | ⟨l, n, e, hl, he, rfl⟩⟩ := (mem_factorGroups_iff hfactors).mp hd
        · exact .factor (by grind) (by grind) hb
        · exact .scales (by grind) hl he
      · subst hfactors
        cases hd
    · obtain ⟨w, hw, hd⟩ := List.mem_flatMap.mp hd
      obtain ⟨⟨l, n⟩, hl, hw⟩ := exists_mem_of_mapM hweights hw
      obtain ⟨rfl, ⟨dims, hdims, rfl⟩ | ⟨e, hb, he, rfl⟩⟩ := (mem_weightGroup_iff hw).mp hd
      · exact .weights hl hdims
      · exact .biases hb hl he
    · split at hbuffers
      · subst hbuffers
        cases hd
      · obtain ⟨b, hb, hd⟩ := List.mem_flatMap.mp hd
        obtain ⟨⟨l, n⟩, hl, hb⟩ := exists_mem_of_mapM hbuffers hb
        simp only [bind_eq_ok] at hb
        obtain ⟨s, hs, hb⟩ := hb
        obtain ⟨rfl, dims, hdims, rfl⟩ := (mem_bufferGroup_iff hs hb).mp hd
        exact .between (by simpa using ‹¬ c.isolated = true›) hl hs hdims
  · rintro (⟨hq, hne, ht⟩ | ⟨hq, hl, hd⟩ | ⟨hl, hd⟩ | ⟨hb, hl, hd⟩ | ⟨hi, hl, hs, hd⟩)
    · rw [if_pos (by grind)] at hfactors
      exact .inl (.inl ((mem_factorGroups_iff hfactors).mpr ⟨rfl, .inl ⟨_, _, ht, rfl⟩⟩))
    · have hne := List.ne_nil_of_mem hl
      rw [if_pos (by grind)] at hfactors
      exact .inl (.inl ((mem_factorGroups_iff hfactors).mpr ⟨rfl, .inr ⟨_, _, _, hl, hd, rfl⟩⟩))
    · obtain ⟨w, hmem, hw⟩ := exists_ok_of_mapM hweights hl
      have hin := (mem_weightGroup_iff hw).mpr ⟨rfl, .inl ⟨_, hd, rfl⟩⟩
      exact .inl (.inr (List.mem_flatMap.mpr ⟨w, hmem, hin⟩))
    · obtain ⟨w, hmem, hw⟩ := exists_ok_of_mapM hweights hl
      have hin := (mem_weightGroup_iff hw).mpr ⟨rfl, .inr ⟨_, hb, hd, rfl⟩⟩
      exact .inl (.inr (List.mem_flatMap.mpr ⟨w, hmem, hin⟩))
    · rw [if_neg (by simp [hi])] at hbuffers
      obtain ⟨w, hmem, hw⟩ := exists_ok_of_mapM hbuffers hl
      simp only [bind_eq_ok] at hw
      obtain ⟨s', hs', hw⟩ := hw
      cases hs.symm.trans hs'
      have hin := (mem_bufferGroup_iff hs hw).mpr ⟨rfl, _, hd, rfl⟩
      exact .inr (List.mem_flatMap.mpr ⟨w, hmem, hin⟩)

/-! ## The body -/

theorem layersCode_cons {rest : List (Layer × Nat)} :
    layersCode net c orders profile ((l, n) :: rest) = .ok code ↔ ∃ s own more,
      site net c orders profile l n = .ok s ∧ s.code = .ok own ∧ layersCode net c orders profile rest = .ok more ∧
      code = own ++ (if rest.isEmpty then [] else separator c n) ++ more := by
  simp only [layersCode, bind_eq_ok, pure_eq_ok]
  grind

theorem layersCode_infix (h : layersCode net c orders profile layers = .ok code) (hmem : (l, n) ∈ layers) :
    ∃ s own, site net c orders profile l n = .ok s ∧ s.code = .ok own ∧ own <:+: code := by
  induction layers generalizing code with
  | nil => cases hmem
  | cons x rest ih =>
    obtain ⟨s, own, more, hs, hown, hmore, rfl⟩ := layersCode_cons.mp h
    rcases List.mem_cons.mp hmem with rfl | hmem
    · refine ⟨s, own, hs, hown, ?_⟩
      rw [List.append_assoc]
      exact (List.prefix_append own _).isInfix
    · obtain ⟨s', own', hs', hown', hin⟩ := ih hmore hmem
      exact ⟨s', own', hs', hown', hin.trans (List.suffix_append _ more).isInfix⟩

theorem mem_stmtsAll_layersCode (h : layersCode net c orders profile layers = .ok code) {st : Stmt}
    (hst : st ∈ stmtsAll code) :
    (∃ n, st = .injectFault n) ∨ ∃ l n s own, (l, n) ∈ layers ∧ site net c orders profile l n = .ok s ∧
      s.code = .ok own ∧ st ∈ stmtsAll own := by
  induction layers generalizing code with
  | nil =>
    cases h
    cases hst
  | cons x rest ih =>
    obtain ⟨s, own, more, hs, hown, hmore, rfl⟩ := layersCode_cons.mp h
    simp only [stmtsAll_append, List.mem_append] at hst
    rcases hst with (hst | hst) | hst
    · exact .inr ⟨x.1, x.2, s, own, List.mem_cons_self, hs, hown, hst⟩
    · left
      split at hst
      · cases hst
      · unfold separator at hst
        split at hst <;> simp [stmtsAll, Tree.stmts] at hst
        exact ⟨x.2, hst⟩
    · refine (ih hmore hst).imp_right ?_
      rintro ⟨l, n, s', own', hmem, h'⟩
      exact ⟨l, n, s', own', List.mem_cons_of_mem _ hmem, h'⟩

theorem layersCode_returns
    (h : ∀ l n, (l, n) ∈ layers → ∀ s, site net c orders profile l n = .ok s → ∃ own, s.code = .ok own) :
    ∃ code, layersCode net c orders profile layers = .ok code := by
  induction layers with
  | nil => exact ⟨[], rfl⟩
  | cons x rest ih =>
    obtain ⟨_, hsite⟩ := exists_site net c orders profile x.1 x.2
    have hs := (hsite _).mpr rfl
    obtain ⟨own, hown⟩ := h x.1 x.2 List.mem_cons_self _ hs
    obtain ⟨more, hmore⟩ := ih fun l n hmem => h l n (List.mem_cons_of_mem x hmem)
    exact ⟨_, layersCode_cons.mpr ⟨_, own, more, hs, hown, hmore, rfl⟩⟩

end Forward

open Forward in
theorem Network.program_eq_ok {net : Network} {c : Config} {orders : List LoopOrder} {profile : String} {p : Program} :
    net.program c orders profile = .ok p ↔ orders.length = net.size ∧
      ∃ layers first n last m types parameters capture code, emittedLayers net c = .ok layers ∧
        layers.head? = some (first, n) ∧ layers.getLast? = some (last, m) ∧ interfaceTypes c first last = .ok types ∧
        groups net c orders profile = .ok parameters ∧ inputCapture c first n = .ok capture ∧
        layersCode net c orders profile layers = .ok code ∧ p = {
          prologue := prologue c
          macros := activationFunctions net ++ quantizationMacros c ++ multipliers net c
          types, parameters, body := capture ++ code, layerCount := layers.length } := by
  unfold Network.program
  by_cases hlen : orders.length = net.size
  · simp only [hlen, ne_eq, not_true_eq_false, if_false, bind_eq_ok, true_and]
    constructor
    · rintro ⟨layers, hlayers, h⟩
      split at h
      · rename_i first n last m hfirst hlast
        simp only [bind_eq_ok, pure_eq_ok] at h
        obtain ⟨types, htypes, parameters, hparameters, capture, hcapture, code, hcode, rfl⟩ := h
        exact ⟨layers, first, n, last, m, types, parameters, capture, code, hlayers, hfirst, hlast, htypes, hparameters,
          hcapture, hcode, rfl⟩
      · cases h
    · rintro ⟨layers, first, n, last, m, types, parameters, capture, code, hlayers, hfirst, hlast, htypes, hparameters,
        hcapture, hcode, rfl⟩
      refine ⟨layers, hlayers, ?_⟩
      simp only [hfirst, hlast, bind_eq_ok, pure_eq_ok]
      exact ⟨types, htypes, parameters, hparameters, capture, hcapture, code, hcode, rfl⟩
  · simp [hlen]

open Forward in
theorem Network.program_front {net : Network} {c : Config} {orders : List LoopOrder} {profile : String} {p : Program}
    (h : net.program c orders profile = .ok p) :
    p.prologue = prologue c ∧ p.macros = activationFunctions net ++ quantizationMacros c ++ multipliers net c := by
  obtain ⟨-, _, _, _, _, _, _, _, _, _, -, -, -, -, -, -, -, rfl⟩ := Network.program_eq_ok.mp h
  exact ⟨rfl, rfl⟩

/-! ## Successful compilations -/

theorem Compilation.generate_eq_ok {net : Network} {c : Config} {orders : List LoopOrder} {profile : String}
    {src : Sources} : (generate net c orders profile).outcome = .ok src ↔ ∃ p params,
      net.program c orders profile = .ok p ∧ ParamList.text net c = .ok params ∧
        src = ⟨p.text, DataTypes.text net c profile, params⟩ := by
  simp only [generate, Step.outcome_bind_eq_ok, Step.outcome_tell_bind, Step.outcome_pure, Except.ok.injEq]
  constructor
  · rintro ⟨p, hp, params, hparams, rfl⟩
    exact ⟨p, params, hp, hparams, rfl⟩
  · rintro ⟨p, params, hp, hparams, rfl⟩
    exact ⟨p, hp, params, hparams, rfl⟩

theorem compile_emits {c : Config} {file : Option String} {prior : Journal} {r : Compilation}
    (h : compile c file doc true prior = .ok r) (hs : r.success = true) :
    ∃ d declared net p src, doc.outcome = .ok d ∧ (Network.ofStatements d.statements).outcome = .ok declared ∧
      Completion (0 < ·) none declared.layers net.layers ∧ r.Accepts c net true ∧
      net.program r.config r.orders r.profile = .ok p ∧ r.sources = some src ∧ src.main = p.text := by
  obtain ⟨d, declared, hd, hdeclared, hinfer, ha⟩ := compile_accepts h hs
  obtain ⟨_, hok, hl⟩ := Network.ofStatements_declared (P := (0 < ·)) Int.one_pos fun st _ => st.allows_pos
  cases hdeclared.symm.trans hok
  obtain ⟨src, hsrc, hgen⟩ : ∃ src, r.sources = some src ∧ _ := ha.sources
  obtain ⟨p, params, hp, -, rfl⟩ := Compilation.generate_eq_ok.mp hgen
  have hcompletion := Network.infer_completion Int.one_pos (fun _ => id) hl hinfer
  exact ⟨d, declared, _, p, _, hd, hdeclared, hcompletion, ha, hp, hsrc, rfl⟩

def Network.outline (net : Network) : List (Kind × Option Volume × Option Volume) :=
  net.layers.map fun l => (l.kind, l.input, l.output)

theorem Network.exists_of_outline {net : Network} {outline : List (Kind × Option Volume × Option Volume)}
    (hnet : net.outline = outline) {k : Nat} {kind : Kind} {i o : Option Volume} (h : outline[k]? = some (kind, i, o)) :
    ∃ l, (l, k + 1) ∈ net.numbered ∧ l.kind = kind ∧ l.input = i ∧ l.output = o := by
  rw [← hnet, Network.outline, List.getElem?_map, Option.map_eq_some_iff] at h
  obtain ⟨l, hl, hfields⟩ := h
  simp only [Prod.mk.injEq] at hfields
  exact ⟨l, mem_numbered_iff.mpr ⟨Nat.succ_pos k, hl⟩, hfields⟩

def compiledOutline (c : Config) (doc : Step Source.Document) : Option (List (Kind × Option Volume × Option Volume)) :=
  match compile c none doc true with
  | .ok r => if r.success then r.network.map Network.outline else none
  | .error _ => none

theorem exists_of_compiledOutline {c : Config} {outline : List (Kind × Option Volume × Option Volume)}
    (h : compiledOutline c doc = some outline) :
    ∃ r net, compile c none doc true = .ok r ∧ r.success = true ∧ r.network = some net ∧ net.outline = outline := by
  unfold compiledOutline at h
  split at h
  · rename_i r hr
    split at h
    · rename_i hs
      obtain ⟨net, hnet, houtline⟩ := Option.map_eq_some_iff.mp h
      exact ⟨r, net, hr, hs, hnet, houtline⟩
    · cases h
  · cases h

def compiledConfig (c : Config) (doc : Step Source.Document) : Option Config :=
  match compile c none doc true with
  | .ok r => if r.success then some r.config else none
  | .error _ => none

theorem exists_of_compiledConfig {c d : Config} (h : compiledConfig c doc = some d) :
    ∃ r, compile c none doc true = .ok r ∧ r.success = true ∧ r.config = d := by
  unfold compiledConfig at h
  split at h
  · rename_i r hr
    split at h
    · rename_i hs
      exact ⟨r, hr, hs, Option.some.inj h⟩
    · cases h
  · cases h

theorem Forward.mem_emittedLayers {net : Network} {c : Config} {layers : List (Layer × Nat)}
    (h : emittedLayers net c = .ok layers) {l : Layer} {n : Nat} (hmem : (l, n) ∈ layers) :
    (l, n) ∈ net.numbered ∧ (c.isolated = false ∨ c.singleLayer = n) := by
  unfold emittedLayers at h
  split at h
  · simp only [bind_eq_ok, pure_eq_ok] at h
    obtain ⟨m, hm, rfl⟩ := h
    cases List.mem_singleton.mp hmem
    unfold Network.layer at hm
    split at hm
    · rename_i hlayer
      cases hm
      unfold Network.layer? at hlayer
      split at hlayer
      · rename_i hone
        exact ⟨Network.mem_numbered_iff.mpr ⟨by omega, hlayer⟩, .inr (by omega)⟩
      · cases hlayer
    · cases hm
  · rename_i hi
    cases h
    exact ⟨hmem, .inl (by simpa using hi)⟩

end LayerLoops
