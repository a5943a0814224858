import LayerLoops.Proofs.Buffers
import LayerLoops.Proofs.Macros
import LayerLoops.Proofs.Vocabulary

/-! # Definitions of a generated program

Every name that the body of the generated function refers to is defined exactly once: before the function, as one of
its parameters, or in its body. A buffer between layers is declared in the latter two places, and one of the
declarations stands in a comment. -/

namespace LayerLoops

open Code Text

namespace Code

theorem filter_eq_singleton {α β : Type} [BEq β] [LawfulBEq β] {f : α → β} {xs : List α} {x : α} (hx : x ∈ xs)
    (hcount : (xs.map f).count (f x) ≤ 1) : xs.filter (fun y => f y == f x) = [x] := by
  have hlength : (xs.filter fun y => f y == f x).length = (xs.map f).count (f x) := by
    rw [List.count, List.countP_map, List.countP_eq_length_filter]
    rfl
  have hmem : x ∈ xs.filter fun y => f y == f x := List.mem_filter.mpr ⟨hx, beq_self_eq_true _⟩
  rw [← hlength] at hcount
  obtain ⟨y, hy⟩ := List.length_eq_one_iff.mp (le_antisymm hcount (List.length_pos_of_mem hmem))
  rw [hy] at hmem ⊢
  rw [List.mem_singleton.mp hmem]

/-- The declarations of a buffer, with whether they are active. -/
def declarationsOf (b : Buffer) (ds : List (Declaration × Bool)) : List (Declaration × Bool) :=
  ds.filter fun x => x.1.buffer = b

def activeNames (ds : List (Declaration × Bool)) : List String := (ds.filter (·.2)).map (·.1.buffer.text)

def Buffer.isCell (b : Buffer) : Bool := b = .cell || b = .maximum

variable {ds : List (Declaration × Bool)} {b : Buffer}

theorem count_activeNames (b : Buffer) (ds : List (Declaration × Bool)) :
    (activeNames ds).count b.text = ((declarationsOf b ds).filter (·.2)).length := by
  have hmap : activeNames ds = ((ds.filter (·.2)).map (·.1.buffer)).map Buffer.text := by
    rw [List.map_map]
    rfl
  rw [hmap, List.count_map_of_injective _ _ Buffer.text_injective, List.count, List.countP_map, List.countP_filter,
    List.countP_eq_length_filter, declarationsOf, List.filter_filter]
  congr 2
  funext x
  simp [Bool.and_comm, beq_eq_decide]

theorem declarationsOf_eq_singleton {x : Declaration × Bool} (hx : x ∈ ds) (hb : x.1.buffer = b)
    (hcount : (ds.map (·.1.buffer)).count b ≤ 1) : declarationsOf b ds = [x] := by
  subst hb
  exact filter_eq_singleton (f := fun x => x.1.buffer) hx hcount

theorem declarationsOf_eq_nil (h : ∀ x ∈ ds, x.1.buffer ≠ b) : declarationsOf b ds = [] :=
  List.filter_eq_nil_iff.mpr fun x hx => by simpa using h x hx

end Code

/-! ## Parameters -/

namespace Forward

variable {net : Network} {c : Config} {orders : List LoopOrder} {profile : String}

def groupBuffers (g : Group) : List Buffer := g.declarations.map (·.1.buffer)

theorem factorGroups_buffers {gs : List Group} (h : factorGroups net = .ok gs) :
    gs.flatMap groupBuffers = Site.factorBuffers ++ net.weighted.map fun x => Buffer.weightScales x.2 := by
  simp only [factorGroups, bind_eq_ok, pure_eq_ok] at h
  obtain ⟨scales, hscales, rfl⟩ := h
  have hmap : scales.map Declaration.buffer = net.weighted.map fun x => .weightScales x.2 := by
    refine map_of_mapM hscales ?_
    rintro ⟨l, n⟩ d hd
    simp only [bind_eq_ok, pure_eq_ok] at hd
    obtain ⟨_, -, rfl⟩ := hd
    rfl
  rw [← hmap]
  simp [groupBuffers, Group.declarations, Site.factorBuffers, Function.comp_def]

theorem weightGroups_buffers {gs : List Group} (h : (net.weighted.mapM fun (l, n) => weightGroup c l n) = .ok gs) :
    gs.flatMap groupBuffers =
      net.weighted.flatMap fun x => .weights x.2 :: if c.biases then [.biases x.2] else [] := by
  rw [List.flatMap_def, List.flatMap_def]
  congr 1
  refine map_of_mapM h ?_
  rintro ⟨l, n⟩ g hg
  obtain ⟨dims, biases, -, hbiases, rfl⟩ := weightGroup_eq_ok.mp hg
  cases hb : c.biases with
  | true =>
    rw [hb, if_pos rfl] at hbiases
    obtain ⟨e, -, rfl⟩ := hbiases
    rfl
  | false =>
    rw [hb, if_neg Bool.false_ne_true] at hbiases
    rw [hbiases]
    rfl

theorem bufferGroups_buffers {gs : List Group} (h : (net.numbered.dropLast.mapM fun (l, n) => do
    bufferGroup (← site net c orders profile l n)) = .ok gs) :
    gs.flatMap groupBuffers = net.numbered.dropLast.map fun x => .between x.2 := by
  rw [@List.map_eq_flatMap _ _ _ net.numbered.dropLast, List.flatMap_def, List.flatMap_def]
  congr 1
  refine map_of_mapM h ?_
  rintro ⟨l, n⟩ g hg
  simp only [bufferGroup, bind_eq_ok, pure_eq_ok] at hg
  obtain ⟨s, hs, dims, -, rfl⟩ := hg
  rw [← (site_fields hs).2.1]
  rfl

theorem mem_weightBuffers {n : Nat} {b : Buffer} (h : b ∈ Buffer.weights n :: if c.biases then [.biases n] else []) :
    b = .weights n ∨ b = .biases n := by
  rcases List.mem_cons.mp h with h | h
  · exact .inl h
  · split at h
    · exact .inr (List.mem_singleton.mp h)
    · cases h

theorem weightBuffers_nodup (net : Network) (c : Config) :
    (net.weighted.flatMap fun x => Buffer.weights x.2 :: if c.biases then [.biases x.2] else []).Nodup := by
  rw [List.nodup_flatMap]
  constructor
  · intro x _
    cases c.biases <;> simp
  · have hne : net.weighted.Pairwise fun x y => x.2 ≠ y.2 := List.pairwise_map.mp net.weighted_nodup
    refine hne.imp fun {x y} hxy b hx hy => ?_
    rcases mem_weightBuffers hx with rfl | rfl
    · rcases mem_weightBuffers hy with h | h
      · exact hxy (Buffer.weights.inj h)
      · cases h
    · rcases mem_weightBuffers hy with h | h
      · cases h
      · exact hxy (Buffer.biases.inj h)

end Forward

open Forward in
theorem Program.signature_nodup {net : Network} {c : Config} {orders : List LoopOrder} {profile : String} {p : Program}
    (h : groups net c orders profile = .ok p.parameters) : (p.signature.map (·.1.buffer)).Nodup := by
  have hsignature : p.signature.map (·.1.buffer) = p.parameters.flatMap groupBuffers := List.map_flatMap
  obtain ⟨factors, weights, buffers, hfactors, hweights, hbuffers, hgroups⟩ := groups_eq_ok.mp h
  have hfaults : (if c.faultSimulation then [Group.faults] else []).flatMap groupBuffers = [] := by
    cases c.faultSimulation <;> rfl
  have hnumbers {f : Nat → Buffer} (hf : Function.Injective f) {xs : List (Layer × Nat)}
      (hxs : xs.Sublist net.numbered) : (xs.map fun x => f x.2).Nodup := by
    have hmap : (xs.map fun x => f x.2) = (xs.map Prod.snd).map f := by
      rw [List.map_map]
      rfl
    rw [hmap]
    exact (net.numbered_nodup.sublist (hxs.map Prod.snd)).map hf
  have hfactor : (factors.flatMap groupBuffers).Nodup ∧
      ∀ b ∈ factors.flatMap groupBuffers, b ∈ Site.factorBuffers ∨ ∃ n, b = .weightScales n := by
    split at hfactors
    · rw [factorGroups_buffers hfactors]
      constructor
      · refine List.Nodup.append (by decide) (hnumbers (fun _ _ h => Buffer.weightScales.inj h) List.filter_sublist) ?_
        intro b hb hb'
        obtain ⟨x, -, rfl⟩ := List.mem_map.mp hb'
        simp [Site.factorBuffers] at hb
      · intro b hb
        rcases List.mem_append.mp hb with hb | hb
        · exact .inl hb
        · obtain ⟨x, -, rfl⟩ := List.mem_map.mp hb
          exact .inr ⟨x.2, rfl⟩
    · rw [hfactors]
      exact ⟨List.nodup_nil, List.forall_mem_nil _⟩
  have hbuffer : (buffers.flatMap groupBuffers).Nodup ∧ ∀ b ∈ buffers.flatMap groupBuffers, ∃ n, b = .between n := by
    split at hbuffers
    · rw [hbuffers]
      exact ⟨List.nodup_nil, List.forall_mem_nil _⟩
    · rw [bufferGroups_buffers hbuffers]
      refine ⟨hnumbers (fun _ _ h => Buffer.between.inj h) (List.dropLast_sublist _), fun b hb => ?_⟩
      obtain ⟨x, -, rfl⟩ := List.mem_map.mp hb
      exact ⟨x.2, rfl⟩
  have hweight : ∀ b ∈ net.weighted.flatMap (fun x => Buffer.weights x.2 :: if c.biases then [.biases x.2] else []),
      (∃ n, b = .weights n) ∨ ∃ n, b = .biases n := by
    intro b hb
    obtain ⟨x, -, hx⟩ := List.mem_flatMap.mp hb
    rcases mem_weightBuffers hx with h | h
    · exact .inl ⟨x.2, h⟩
    · exact .inr ⟨x.2, h⟩
  rw [hsignature, hgroups, List.flatMap_append, List.flatMap_append, List.flatMap_append, hfaults, List.nil_append,
    weightGroups_buffers hweights]
  refine List.Nodup.append (List.Nodup.append hfactor.1 (weightBuffers_nodup net c) ?_) hbuffer.1 ?_
  · intro b hb hb'
    rcases hweight b hb' with ⟨n, rfl⟩ | ⟨n, rfl⟩ <;> simpa [Site.factorBuffers] using hfactor.2 _ hb
  · intro b hb hb'
    obtain ⟨n, rfl⟩ := hbuffer.2 b hb'
    rcases List.mem_append.mp hb with hb | hb
    · simpa [Site.factorBuffers] using hfactor.2 _ hb
    · simpa using hweight _ hb

/-! ## The body -/

namespace Site

variable {s t : Site} {g : Geometry} {body : List Tree} {b : Buffer}

def Owns (s : Site) (b : Buffer) : Prop :=
  b = .outputsBase ∧ s.writesOutput = true ∨ b = .betweenBase s.number ∨ b = .between s.number ∨ b = .sum s.number

theorem Owns.writesOutput_of_ne (hs : s.Owns b) (ht : t.Owns b) (hne : s.number ≠ t.number) :
    s.writesOutput = true ∧ t.writesOutput = true := by
  rcases hs with ⟨rfl, hw⟩ | rfl | rfl | rfl
  · rcases ht with ⟨-, hw'⟩ | h | h | h
    · exact ⟨hw, hw'⟩
    all_goals cases h
  all_goals
    rcases ht with ⟨h, -⟩ | h | h | h
    all_goals first
      | cases h
      | exact absurd (by simpa using h) hne

theorem base_owned (h : s.rescales = true) : s.Owns s.base := by
  unfold base
  rw [h]
  cases hw : s.writesOutput with
  | true => exact .inl ⟨rfl, hw⟩
  | false => exact .inr (.inl rfl)

theorem Body.owns_local (hb : s.Body g body) {d : Declaration} {active : Bool} (h : (d, active) ∈ declaredIn body) :
    s.Owns d.buffer ∨ d.buffer.isCell = true := by
  have hsum : s.Owns (.sum s.number) := .inr (.inr (.inr rfl))
  cases hb with
  | conv hs _ _ _ ho =>
    rw [hs.declaredIn_convNest ho, List.mem_singleton, Prod.mk.injEq] at h
    rw [h.1]
    exact .inl hsum
  | pooling =>
    rw [declaredIn_poolingNest] at h
    simp only [List.mem_cons, Prod.mk.injEq, List.not_mem_nil, or_false] at h
    rcases h with ⟨rfl, -⟩ | ⟨rfl, -⟩ <;> exact .inr rfl
  | flatten =>
    rw [declaredIn_flattenNest] at h
    cases h
  | dense =>
    rw [declaredIn_denseNest, List.mem_singleton, Prod.mk.injEq] at h
    rw [h.1]
    exact .inl hsum

theorem Body.owns (hb : s.Body g body) {d : Declaration} {active : Bool}
    (h : (d, active) ∈ declaredIn (s.codeOf g body)) : s.Owns d.buffer ∨ d.buffer.isCell = true := by
  rw [mem_declaredIn_codeOf, mem_declaredIn_declarations] at h
  rcases h with (⟨hr, rfl, -⟩ | ⟨hw, rfl, -⟩) | h
  · exact .inl (base_owned hr)
  · exact .inl (.inr (.inr (.inl (output_of_inner hw))))
  · exact hb.owns_local h

theorem Body.buffers_nodup (hb : s.Body g body) : ((declaredIn (s.codeOf g body)).map (·.1.buffer)).Nodup := by
  obtain ⟨hnodup, hscratch⟩ := hb.locals
  have hown : ((declaredIn (s.declarations (s.layer.writtenDims g.output))).map (·.1.buffer)).Nodup := by
    unfold declarations
    cases hr : s.rescales with
    | false => cases s.writesOutput <;> simp [Stmt.declarations]
    | true =>
      have hne : s.base ≠ s.output := Buffer.ne_of_role (role_base hr) (by simp)
      cases s.writesOutput <;> simp [Stmt.declarations, hne]
  rw [codeOf, declaredIn_append, declaredIn_append, declaredIn_header, List.nil_append, List.map_append]
  refine List.Nodup.append hown hnodup fun b hb hb' => ?_
  obtain ⟨⟨d, active⟩, hd, rfl⟩ := List.mem_map.mp hb
  obtain ⟨e, he, hbuffer⟩ := List.mem_map.mp hb'
  have hrole : d.buffer.role = .scratch := hbuffer ▸ hscratch e he
  rcases mem_declaredIn_declarations.mp hd with ⟨-, rfl, -⟩ | ⟨-, rfl, -⟩
  · exact s.role_base_ne.2 hrole
  · simp at hrole

theorem Body.declares_sum (hb : s.Body g body) (hw : s.layer.weighted = true) :
    ∃ d, (d, true) ∈ declaredIn body ∧ d.buffer = .sum s.number := by
  cases hb with
  | conv hs _ _ _ ho => exact ⟨_, by rw [hs.declaredIn_convNest ho]; exact List.mem_cons_self, rfl⟩
  | pooling form => simp [Layer.weighted, Layer.kind, form, Form.kind, Kind.weighted] at hw
  | flatten form => simp [Layer.weighted, Layer.kind, form, Form.kind, Kind.weighted] at hw
  | dense => exact ⟨_, by rw [declaredIn_denseNest]; exact List.mem_cons_self, rfl⟩

end Site

namespace Forward

variable {net : Network} {c : Config} {orders : List LoopOrder} {profile : String} {layers : List (Layer × Nat)}
  {code : List Tree} {b : Buffer}

theorem declaredIn_separator (c : Config) (n : Nat) : declaredIn (separator c n) = [] := by
  unfold separator
  split <;> rfl

theorem writesOutput_unique {l m : Layer} {k n : Nat} {s t : Site} (hs : site net c orders profile l k = .ok s)
    (ht : site net c orders profile m n = .ok t) (hw : s.writesOutput = true) (hw' : t.writesOutput = true)
    (hwhole : ¬ c.isolated = true) : s.number = t.number := by
  obtain ⟨hnet, -, -, hconfig⟩ := site_fields hs
  obtain ⟨hnet', -, -, hconfig'⟩ := site_fields ht
  simp only [Site.writesOutput, Site.isLast, Network.isLast, hnet, hnet', hconfig, hconfig', hwhole, Bool.or_false,
    beq_iff_eq] at hw hw'
  rw [hw, hw']

theorem count_declaredIn_layersCode (h : layersCode net c orders profile layers = .ok code)
    (hemitted : ∀ l n, (l, n) ∈ layers → ∀ s, site net c orders profile l n = .ok s → ∃ g, s.Emitted (0 < ·) g)
    (hnodup : (layers.map Prod.snd).Nodup) (hsingle : c.isolated = true → layers.length ≤ 1)
    (hb : b.isCell = false) : ((declaredIn code).map (·.1.buffer)).count b ≤ 1 := by
  induction layers generalizing code with
  | nil =>
    cases h
    exact Nat.zero_le 1
  | cons x rest ih =>
    obtain ⟨s, own, more, hs, hown, hmore, rfl⟩ := layersCode_cons.mp h
    obtain ⟨g, hg⟩ := hemitted x.1 x.2 List.mem_cons_self s hs
    obtain ⟨-, body, hbody, rfl⟩ := hg.code_cases (fun _ => id) hown
    have hseparator : declaredIn (if rest.isEmpty then [] else separator c x.2) = [] := by
      split
      · rfl
      · exact declaredIn_separator c x.2
    have hsplit : declaredIn (s.codeOf g body ++ (if rest.isEmpty then [] else separator c x.2) ++ more) =
        declaredIn (s.codeOf g body) ++ declaredIn more := by
      rw [declaredIn_append, declaredIn_append, hseparator, List.append_nil]
    have hrest : ((declaredIn more).map (·.1.buffer)).count b ≤ 1 :=
      ih hmore (fun l n hmem => hemitted l n (List.mem_cons_of_mem x hmem)) (List.nodup_cons.mp hnodup).2
        fun hi => (Nat.le_succ _).trans (hsingle hi)
    change ((declaredIn (s.codeOf g body ++ _ ++ more)).map (·.1.buffer)).count b ≤ 1
    rw [hsplit, List.map_append, List.count_append]
    by_cases hmem : b ∈ (declaredIn (s.codeOf g body)).map (·.1.buffer)
    · have hone := List.count_eq_one_of_mem hbody.buffers_nodup hmem
      -- A later layer that declares the same buffer would write the output as well.
      have hnone : b ∉ (declaredIn more).map (·.1.buffer) := by
        intro hlater
        obtain ⟨⟨d, _⟩, hd, rfl⟩ := List.mem_map.mp hlater
        obtain ⟨⟨e, _⟩, he, hbuffer⟩ := List.mem_map.mp hmem
        obtain ⟨l, n, t, own', hl, ht, hown', hd⟩ := (mem_declaredIn_layersCode hmore).mp hd
        obtain ⟨g', hg'⟩ := hemitted l n (List.mem_cons_of_mem x hl) t ht
        obtain ⟨-, body', hbody', rfl⟩ := hg'.code_cases (fun _ => id) hown'
        have hsame : e.buffer = d.buffer := hbuffer
        have howned : s.Owns d.buffer := hsame ▸ (hbody.owns he).resolve_right (by simpa [hsame] using hb)
        have howned' : t.Owns d.buffer := (hbody'.owns hd).resolve_right (by simpa using hb)
        have hne : s.number ≠ t.number := by
          rw [(site_fields hs).2.1, (site_fields ht).2.1]
          rintro rfl
          exact (List.nodup_cons.mp hnodup).1 (List.mem_map.mpr ⟨_, hl, rfl⟩)
        obtain ⟨hw, hw'⟩ := howned.writesOutput_of_ne howned' hne
        refine hne (writesOutput_unique hs ht hw hw' fun hi => ?_)
        have hlength := hsingle hi
        have hpos := List.length_pos_of_mem hl
        rw [List.length_cons] at hlength
        omega
      rw [hone, List.count_eq_zero.mpr hnone]
    · rw [List.count_eq_zero.mpr hmem, Nat.zero_add]
      exact hrest

theorem emittedLayers_nodup (h : emittedLayers net c = .ok layers) :
    (layers.map Prod.snd).Nodup ∧ (c.isolated = true → layers.length ≤ 1) ∧
      (c.isolated = false → layers = net.numbered) := by
  unfold emittedLayers at h
  cases hi : c.isolated with
  | true =>
    simp only [hi, if_true, bind_eq_ok, pure_eq_ok] at h
    obtain ⟨l, -, rfl⟩ := h
    exact ⟨List.nodup_singleton _, fun _ => le_refl 1, by rintro ⟨⟩⟩
  | false =>
    rw [hi, if_neg Bool.false_ne_true] at h
    cases h
    exact ⟨net.numbered_nodup, by rintro ⟨⟩, fun _ => rfl⟩

theorem groups_dims {gs : List Group} (h : groups net c orders profile = .ok gs) {l : Layer} {n : Nat}
    (hl : (l, n) ∈ net.weighted) : (∃ dims, l.weightDims = .ok dims) ∧
      (c.biases = true ∨ c.quantized = true → ∃ d, l.channelDim = .ok d) := by
  obtain ⟨factors, weights, buffers, hfactors, hweights, -, -⟩ := groups_eq_ok.mp h
  obtain ⟨w, -, hw⟩ := exists_ok_of_mapM hweights hl
  obtain ⟨dims, biases, hdims, hbiases, -⟩ := weightGroup_eq_ok.mp hw
  refine ⟨⟨dims, hdims⟩, ?_⟩
  rintro (hb | hq)
  · rw [if_pos hb] at hbiases
    obtain ⟨e, he, -⟩ := hbiases
    exact ⟨e, he⟩
  · have hne : net.weighted.isEmpty = false := by
      rw [List.isEmpty_eq_false_iff]
      exact List.ne_nil_of_mem hl
    rw [hq, hne, Bool.not_false, Bool.and_true, if_pos rfl, factorGroups] at hfactors
    simp only [bind_eq_ok, pure_eq_ok] at hfactors
    obtain ⟨scales, hscales, -⟩ := hfactors
    obtain ⟨d, -, hd⟩ := exists_ok_of_mapM hscales hl
    simp only [bind_eq_ok, pure_eq_ok] at hd
    obtain ⟨e, he, -⟩ := hd
    exact ⟨e, he⟩

end Forward

/-! ## Names of the body -/

open Forward in
theorem Network.program_parts {net : Network} {c : Config} {orders : List LoopOrder} {profile : String} {p : Program}
    (h : net.program c orders profile = .ok p) : ∃ layers code, emittedLayers net c = .ok layers ∧
      groups net c orders profile = .ok p.parameters ∧ layersCode net c orders profile layers = .ok code ∧
      declaredIn p.body = declaredIn code := by
  obtain ⟨-, layers, first, k, last, m, types, parameters, capture, code, hlayers, -, -, -, hgroups, hcapture, hcode,
    rfl⟩ := Network.program_eq_ok.mp h
  refine ⟨layers, code, hlayers, hgroups, hcode, ?_⟩
  rw [declaredIn_append, declaredIn_inputCapture hcapture, List.nil_append]

open Forward in
theorem Network.mem_signature_iff {net : Network} {c : Config} {orders : List LoopOrder} {profile : String}
    {p : Program} (h : net.program c orders profile = .ok p) {d : Declaration} {active : Bool} :
    (d, active) ∈ p.signature ↔ Signature net c orders profile d active := by
  obtain ⟨_, _, -, hgroups, -, -⟩ := Network.program_parts h
  exact mem_groups_iff hgroups

open Forward in
theorem Network.count_front {net : Network} {c : Config} {orders : List LoopOrder} {profile : String} {p : Program}
    (h : net.program c orders profile = .ok p) {x : Symbol} (hx : x ∈ macroSymbols net c) (on : String → Bool) :
    (definedBy on (p.prologue ++ p.macros)).count x.text = 1 := by
  obtain ⟨hprologue, hmacros⟩ := Network.program_front h
  have hcases := macroSymbols_cases hx
  rw [hprologue, hmacros, count_definedBy (by grind) (by grind)]
  exact List.count_eq_one_of_mem (macroSymbols_nodup net c) hx

/-- How a program comes to have a buffer that its body refers to. -/
inductive Program.Provides (p : Program) (net : Network) (c : Config) : Buffer → Prop
  | inputs : p.Provides net c .inputs
  | outputs : p.Provides net c .outputs
  | between {l : Layer} {n : Nat} : c.isolated = false → (l, n) ∈ net.numbered.dropLast →
      p.Provides net c (.between n)
  | parameter {d : Declaration} : (d, true) ∈ p.signature → d.buffer.role = .parameter → p.Provides net c d.buffer
  | declared {d : Declaration} : (d, true) ∈ declaredIn p.body → d.buffer.role = .wide ∨ d.buffer.role = .scratch →
      p.Provides net c d.buffer

theorem Program.Provides.of_between {p : Program} {net : Network} {c : Config} {n : Nat}
    (h : p.Provides net c (.between n)) : c.isolated = false ∧ ∃ l, (l, n) ∈ net.numbered.dropLast := by
  generalize hb : Buffer.between n = b at h
  cases h with
  | inputs | outputs => cases hb
  | between hwhole hmem =>
    cases hb
    exact ⟨hwhole, _, hmem⟩
  | parameter _ hrole =>
    rw [← hb] at hrole
    cases hrole
  | declared _ hrole =>
    rw [← hb] at hrole
    rcases hrole with h | h <;> cases h

namespace Forward

variable {net : Network} {c : Config} {orders : List LoopOrder} {profile : String} {p : Program}
  {layers : List (Layer × Nat)} {code : List Tree} {l : Layer} {n : Nat} {s : Site}

theorem provides_input (hmem : (l, n) ∈ net.numbered) (hs : site net c orders profile l n = .ok s) :
    p.Provides net c s.input := by
  obtain ⟨-, hnumber, -, hconfig⟩ := site_fields hs
  unfold Site.input
  split
  · exact .inputs
  · rename_i hinner
    rw [hnumber, hconfig] at *
    obtain ⟨hpos, hl⟩ := Network.mem_numbered_iff.mp hmem
    obtain ⟨hlt, -⟩ := List.getElem?_eq_some_iff.mp hl
    have hbefore : (net.layers[n - 1 - 1], n - 1) ∈ net.numbered :=
      Network.mem_numbered_iff.mpr ⟨by omega, List.getElem?_eq_getElem _⟩
    refine .between (by simpa using fun h => hinner (.inr h)) (Network.mem_numbered_dropLast hbefore (by omega))

theorem provides_output (hmem : (l, n) ∈ net.numbered) (hs : site net c orders profile l n = .ok s) :
    p.Provides net c s.output := by
  obtain ⟨hnet, hnumber, -, hconfig⟩ := site_fields hs
  unfold Site.output
  split
  · exact .outputs
  · rename_i hinner
    simp only [Site.writesOutput, Site.isLast, Network.isLast, Network.size, hnet, hnumber, hconfig, Bool.or_eq_true,
      beq_iff_eq, not_or, Bool.not_eq_true] at hinner
    obtain ⟨-, hl⟩ := Network.mem_numbered_iff.mp hmem
    obtain ⟨hlt, -⟩ := List.getElem?_eq_some_iff.mp hl
    rw [hnumber]
    exact .between hinner.2 (Network.mem_numbered_dropLast hmem (by omega))

theorem provides_parameter (hgroups : groups net c orders profile = .ok p.parameters) (hw : (l, n) ∈ net.weighted)
    (hactive : c.isolated = false ∨ c.singleLayer = n) {b : Buffer}
    (hb : b = .weights n ∨ c.biases = true ∧ b = .biases n ∨
      c.quantized = true ∧ (b = .weightScales n ∨ b ∈ Site.factorBuffers)) : p.Provides net c b := by
  have hflag : (!c.isolated || c.singleLayer == n) = true := by
    rcases hactive with h | h <;> simp [h]
  have hmem {d : Declaration} (hd : Signature net c orders profile d true) : (d, true) ∈ p.signature :=
    (mem_groups_iff hgroups).mpr hd
  obtain ⟨⟨dims, hdims⟩, hchannels⟩ := groups_dims hgroups hw
  rcases hb with rfl | ⟨hbiases, rfl⟩ | ⟨hq, rfl | hb⟩
  · have hd : Signature net c orders profile ⟨.weights, .weights n, dims⟩ _ := .weights hw hdims
    rw [hflag] at hd
    exact .parameter (hmem hd) rfl
  · obtain ⟨e, he⟩ := hchannels (.inl hbiases)
    have hd : Signature net c orders profile ⟨.biases, .biases n, [e]⟩ _ := .biases hbiases hw he
    rw [hflag] at hd
    exact .parameter (hmem hd) rfl
  · obtain ⟨e, he⟩ := hchannels (.inr hq)
    exact .parameter (hmem (.scales hq hw he)) rfl
  · obtain ⟨t, ht⟩ := exists_factorType hb
    exact .parameter (hmem (.factor hq (List.ne_nil_of_mem hw) ht)) (factor_role ht)

theorem layer_provided (hgroups : groups net c orders profile = .ok p.parameters) (hmem : (l, n) ∈ net.numbered)
    (hactive : c.isolated = false ∨ c.singleLayer = n) (hs : site net c orders profile l n = .ok s) {g : Geometry}
    {body : List Tree} (hbody : s.Body g body)
    (hdeclared : ∀ d, (d, true) ∈ declaredIn (s.codeOf g body) → (d, true) ∈ declaredIn p.body) {b : Buffer}
    (hb : b.isCell = false) (hu : s.Uses (.symbol (.buffer b))) : p.Provides net c b := by
  obtain ⟨-, rfl, rfl, rfl⟩ := site_fields hs
  have hparameter (hw : s.layer.weighted = true) {b : Buffer} :=
    provides_parameter hgroups (List.mem_filter.mpr ⟨hmem, hw⟩) hactive (b := b)
  cases hu with
  | input => exact provides_input hmem hs
  | output => exact provides_output hmem hs
  | base =>
    cases hr : s.rescales with
    | false =>
      rw [Site.base_of_not_rescales hr]
      exact provides_output hmem hs
    | true =>
      have hd : (⟨s.type, s.base, (s.layer.writtenDims g.output).map some⟩, true) ∈ declaredIn (s.codeOf g body) :=
        Site.mem_declaredIn_codeOf.mpr (.inl (Site.mem_declaredIn_declarations.mpr (.inl ⟨hr, rfl, rfl⟩)))
      exact .declared (hdeclared _ hd) (.inl (Site.role_base hr))
  | sum hw =>
    obtain ⟨d, hd, hbuffer⟩ := hbody.declares_sum hw
    rw [← hbuffer]
    refine .declared (hdeclared d (Site.mem_declaredIn_codeOf.mpr (.inr hd))) (.inr ?_)
    rw [hbuffer]
    rfl
  | weights hw => exact hparameter hw (.inl rfl)
  | biases hw hbiases => exact hparameter hw (.inr (.inl ⟨hbiases, rfl⟩))
  | scales hr =>
    obtain ⟨hq, hw⟩ := Bool.and_eq_true_iff.mp hr
    exact hparameter hw (.inr (.inr ⟨hq, .inl rfl⟩))
  | factor hr hfactor =>
    obtain ⟨hq, hw⟩ := Bool.and_eq_true_iff.mp hr
    exact hparameter hw (.inr (.inr ⟨hq, .inr hfactor⟩))
  | cell => cases hb
  | maximum => cases hb
  | activation hx =>
    unfold callee at hx
    split at hx <;> cases hx

theorem uses_provided (hlayers : emittedLayers net c = .ok layers)
    (hgroups : groups net c orders profile = .ok p.parameters)
    (hcode : layersCode net c orders profile layers = .ok code)
    (hbody : declaredIn p.body = declaredIn code)
    (hemitted : ∀ l n, (l, n) ∈ layers → ∀ s, site net c orders profile l n = .ok s → ∃ g, s.Emitted (0 < ·) g)
    {b : Buffer} (hb : b.isCell = false) (h : Uses net c orders profile layers (.symbol (.buffer b))) :
    p.Provides net c b := by
  cases h with
  | captured => exact .inputs
  | faulty _ hmem =>
    have hlength : 1 < layers.length := by
      have hpos := List.length_pos_of_mem hmem
      rw [List.length_dropLast] at hpos
      omega
    obtain ⟨-, hsingle, hwhole⟩ := emittedLayers_nodup hlayers
    cases hi : c.isolated with
    | true => exact absurd (hsingle hi) (by omega)
    | false => exact .between hi (hwhole hi ▸ hmem)
  | @layer l n s _ hmem hs hu =>
    obtain ⟨hnumbered, hactive⟩ := mem_emittedLayers hlayers hmem
    obtain ⟨_, own, hs', hown, -⟩ := layersCode_infix hcode hmem
    cases hs.symm.trans hs'
    obtain ⟨g, hg⟩ := hemitted l n hmem s hs
    obtain ⟨-, body, hlayer, rfl⟩ := hg.code_cases (fun _ => id) hown
    refine layer_provided hgroups hnumbered hactive hs hlayer (fun d hd => ?_) hb hu
    rw [hbody, mem_declaredIn_layersCode hcode]
    exact ⟨l, n, s, _, hmem, hs, hown, hd⟩

theorem uses_macroSymbol (hlayers : emittedLayers net c = .ok layers) {x : Symbol}
    (hx : (x = .relu ∨ x = .linear) ∨ ∃ n, x = .multiplier n) (h : Uses net c orders profile layers (.symbol x)) :
    x ∈ macroSymbols net c := by
  cases h with
  | captured | faulty | store | inject => simp at hx
  | @layer l n s _ hmem hs hu =>
    obtain ⟨hnumbered, -⟩ := mem_emittedLayers hlayers hmem
    obtain ⟨rfl, rfl, rfl, rfl⟩ := site_fields hs
    cases hu with
    | activation hcallee => exact mem_macroSymbols_activation hnumbered hcallee
    | multiplier hw happrox => exact mem_macroSymbols_multiplier happrox (List.mem_filter.mpr ⟨hnumbered, hw⟩)
    | input | output | base | sum | weights | biases | scales | factor | cell | maximum | store => simp at hx

end Forward

/-! ## One definition each -/

theorem Forward.Signature.ne_interface {net : Network} {c : Config} {orders : List LoopOrder} {profile : String}
    {d : Declaration} {active : Bool} (h : Signature net c orders profile d active) :
    d.buffer ≠ .inputs ∧ d.buffer ≠ .outputs := by
  cases h with
  | factor _ _ hb =>
    simp only [factorTypes, List.mem_cons, Prod.mk.injEq, List.not_mem_nil, or_false] at hb
    rcases hb with ⟨-, rfl⟩ | ⟨-, rfl⟩ | ⟨-, rfl⟩ | ⟨-, rfl⟩ <;> simp
  | scales | weights | biases | between => simp

theorem Site.Owns.role {s : Site} {b : Buffer} (h : s.Owns b) :
    b.role ≠ .parameter ∧ b ≠ .inputs ∧ b ≠ .outputs := by
  rcases h with ⟨rfl, -⟩ | rfl | rfl | rfl <;> simp [Buffer.role]

/-- The names that a program defines, where `on` says which macros are defined: those of macros and functions, those of
the parameters, and those that are declared in the body. -/
def Program.definitions (p : Program) (on : String → Bool) : List String :=
  definedBy on (p.prologue ++ p.macros) ++ [Buffer.inputs.text, Buffer.outputs.text] ++ activeNames p.signature ++
    activeNames (declaredIn p.body)

namespace Compilation.Accepts

open Forward

variable {r : Compilation} {c : Config} {net : Network} {p : Program}

section

variable (ha : r.Accepts c net true) (hcomplete : ∀ l ∈ net.layers, ∃ g, l.Complete (0 < ·) g)
  (hp : net.program r.config r.orders r.profile = .ok p)
include ha hcomplete hp

theorem body_count {b : Buffer} (hb : b.isCell = false) : ((declaredIn p.body).map (·.1.buffer)).count b ≤ 1 := by
  obtain ⟨layers, code, hlayers, -, hcode, hbody⟩ := Network.program_parts hp
  obtain ⟨hnodup, hsingle, -⟩ := emittedLayers_nodup hlayers
  rw [hbody]
  refine count_declaredIn_layersCode hcode (fun l n hmem s hs => ?_) hnodup hsingle hb
  exact ha.emitted hcomplete (mem_emittedLayers hlayers hmem).1 hs

theorem body_role {d : Declaration} {active : Bool} (h : (d, active) ∈ declaredIn p.body) :
    d.buffer.role ≠ .parameter ∧ d.buffer ≠ .inputs ∧ d.buffer ≠ .outputs := by
  obtain ⟨layers, code, hlayers, -, hcode, hbody⟩ := Network.program_parts hp
  rw [hbody, mem_declaredIn_layersCode hcode] at h
  obtain ⟨l, n, s, own, hmem, hs, hown, hd⟩ := h
  obtain ⟨g, hg⟩ := ha.emitted hcomplete (mem_emittedLayers hlayers hmem).1 hs
  obtain ⟨-, body, hlayer, rfl⟩ := hg.code_cases (fun _ => id) hown
  rcases hlayer.owns hd with howned | hcell
  · exact howned.role
  · simp only [Buffer.isCell, Bool.or_eq_true, decide_eq_true_eq] at hcell
    rcases hcell with h | h <;> simp [h, Buffer.role]

theorem between_once (hwhole : r.config.isolated = false) {l : Layer} {n : Nat}
    (hmem : (l, n) ∈ net.numbered.dropLast) : ∃ d active, declarationsOf (.between n) p.signature = [(d, active)] ∧
      declarationsOf (.between n) (declaredIn p.body) = [(d, !active)] := by
  obtain ⟨layers, code, hlayers, hgroups, hcode, hbody⟩ := Network.program_parts hp
  obtain ⟨-, -, hall⟩ := emittedLayers_nodup hlayers
  cases hall hwhole
  have hnumbered := List.mem_of_mem_dropLast hmem
  obtain ⟨s, g, hs, rfl, hg⟩ := ha.exists_emitted hcomplete hnumbered
  obtain ⟨s', own, hs', hown, -⟩ := layersCode_infix hcode hnumbered
  cases hs.symm.trans hs'
  have hfits := (hg.code_cases (fun _ => id) hown).1.output _ hg.complete.output
  have hinner : s.writesOutput = false := by
    obtain ⟨hnet, hnumber, -, hconfig⟩ := site_fields hs
    have hlt := Network.lt_of_mem_dropLast hmem
    simp [Site.writesOutput, Site.isLast, hnet, hnumber, hconfig, hwhole, Network.isLast, Network.size, hlt.ne]
  have hparameter := (Program.signature_between hgroups hwhole hs hmem hg.complete.output hfits).mpr ⟨rfl, rfl⟩
  have hdeclared := (ha.declares_between hcomplete hcode hnumbered hs hg hinner).mpr ⟨rfl, rfl⟩
  rw [← hbody] at hdeclared
  refine ⟨s.handed g.output, !s.isLocal, ?_, ?_⟩
  · exact declarationsOf_eq_singleton hparameter.1 hparameter.2
      (List.nodup_iff_count_le_one.mp (Program.signature_nodup hgroups) _)
  · rw [Bool.not_not]
    exact declarationsOf_eq_singleton hdeclared.1 hdeclared.2 (ha.body_count hcomplete hp rfl)

theorem provided_once {b : Buffer} (hb : b.isCell = false) (h : p.Provides net r.config b) :
    [Buffer.inputs.text, Buffer.outputs.text].count b.text + (activeNames p.signature).count b.text +
      (activeNames (declaredIn p.body)).count b.text = 1 := by
  obtain ⟨layers, code, -, hgroups, -, -⟩ := Network.program_parts hp
  have hinterface : [Buffer.inputs.text, Buffer.outputs.text].count b.text = [Buffer.inputs, .outputs].count b :=
    List.count_map_of_injective [Buffer.inputs, .outputs] _ Buffer.text_injective b
  have hsignature {x : Declaration × Bool} (hx : x ∈ p.signature) : Signature net r.config r.orders r.profile x.1 x.2 :=
    (mem_groups_iff hgroups).mp hx
  have hparameters (b : Buffer) := List.nodup_iff_count_le_one.mp (Program.signature_nodup hgroups) b
  rw [hinterface, count_activeNames, count_activeNames]
  cases h with
  | inputs =>
    rw [declarationsOf_eq_nil fun x hx => (hsignature hx).ne_interface.1,
      declarationsOf_eq_nil fun x hx => (ha.body_role hcomplete hp hx).2.1]
    rfl
  | outputs =>
    rw [declarationsOf_eq_nil fun x hx => (hsignature hx).ne_interface.2,
      declarationsOf_eq_nil fun x hx => (ha.body_role hcomplete hp hx).2.2]
    rfl
  | between hwhole hmem =>
    obtain ⟨d, active, hsig, hbody⟩ := ha.between_once hcomplete hp hwhole hmem
    rw [hsig, hbody]
    cases active <;> rfl
  | @parameter d hd hrole =>
    have hnone : declarationsOf d.buffer (declaredIn p.body) = [] :=
      declarationsOf_eq_nil fun x hx hbuffer => (ha.body_role hcomplete hp hx).1 (hbuffer ▸ hrole)
    have hne := (hsignature hd).ne_interface
    rw [declarationsOf_eq_singleton hd rfl (hparameters _), hnone]
    simp [hne.1.symm, hne.2.symm]
  | @declared d hd hrole =>
    have hnone : declarationsOf d.buffer p.signature = [] := by
      refine declarationsOf_eq_nil fun x hx hbuffer => ?_
      have hother := (hsignature hx).role
      rw [hbuffer] at hother
      rcases hrole with h | h <;> simp [h] at hother
    have hne := (ha.body_role hcomplete hp hd).2
    rw [declarationsOf_eq_singleton hd rfl (ha.body_count hcomplete hp hb), hnone]
    simp [hne.1.symm, hne.2.symm]

theorem provides {layers : List (Layer × Nat)} (hlayers : emittedLayers net r.config = .ok layers) {b : Buffer}
    (hb : b.isCell = false) (h : Uses net r.config r.orders r.profile layers (.symbol (.buffer b))) :
    p.Provides net r.config b := by
  obtain ⟨_, code, hlayers', hgroups, hcode, hbody⟩ := Network.program_parts hp
  cases hlayers.symm.trans hlayers'
  refine uses_provided hlayers hgroups hcode hbody (fun l n hmem s hs => ?_) hb h
  exact ha.emitted hcomplete (mem_emittedLayers hlayers hmem).1 hs

theorem buffer_defined_once {b : Buffer} (hb : b.isCell = false) (h : p.Provides net r.config b) (on : String → Bool) :
    (p.definitions on).count b.text = 1 := by
  obtain ⟨hprologue, hmacros⟩ := Network.program_front hp
  have hnone : Symbol.buffer b ∉ macroSymbols net r.config := by
    intro hmem
    rcases macroSymbols_cases hmem with (h | h) | ⟨n, h⟩ <;> cases h
  have hfront : (definedBy on (p.prologue ++ p.macros)).count b.text = 0 := by
    rw [hprologue, hmacros]
    exact (count_definedBy (x := .buffer b) nofun nofun on).trans (List.count_eq_zero.mpr hnone)
  have honce := ha.provided_once hcomplete hp hb h
  rw [Program.definitions, List.count_append, List.count_append, List.count_append, hfront]
  omega

omit ha hcomplete in
theorem macro_defined_once {x : Symbol} (hx : x ∈ macroSymbols net r.config) (on : String → Bool) :
    (p.definitions on).count x.text = 1 := by
  have hcases := macroSymbols_cases hx
  have hfront := Network.count_front hp hx on
  have hne (b : Buffer) : b.text ≠ x.text := by
    intro h
    have hbuffer : Symbol.buffer b = x := Symbol.text_injective h
    grind
  have hdeclared (ds : List (Declaration × Bool)) : (activeNames ds).count x.text = 0 := by
    rw [List.count_eq_zero]
    intro h
    obtain ⟨y, -, hy⟩ := List.mem_map.mp h
    exact hne _ hy
  have hinterface : [Buffer.inputs.text, Buffer.outputs.text].count x.text = 0 := by
    rw [List.count_eq_zero]
    simp only [List.mem_cons, List.not_mem_nil, or_false, not_or]
    exact ⟨(hne .inputs).symm, (hne .outputs).symm⟩
  rw [Program.definitions, List.count_append, List.count_append, List.count_append, hfront, hinterface, hdeclared,
    hdeclared]

end

end Compilation.Accepts

end LayerLoops
