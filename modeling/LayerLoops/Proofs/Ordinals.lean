import LayerLoops.Proofs.Factors
import LayerLoops.Proofs.HostBuffers

/-! # Ordinals of weighted layers

The weighted layers are counted in the order of the network. The ordinal of a layer is its position in this order. It
picks the entries of the arrays of factors that the code of the layer reads, and the digit of the mask that chooses its
multiplier. -/

namespace LayerLoops

open Code Text

/-! ## Counting weighted layers -/

namespace Network

variable {net : Network}

/-- The induction is on the layers that follow those counted so far. -/
theorem map_ordinals (before after : List Layer) :
    ((after.zipIdx (before.length + 1)).filter (·.1.weighted)).map
        (fun x => (((before ++ after).take (x.2 - 1)).filter Layer.weighted).length) =
      List.range' (before.filter Layer.weighted).length (after.filter Layer.weighted).length := by
  induction after generalizing before with
  | nil => rfl
  | cons l after ih =>
    have hrest := ih (before ++ [l])
    rw [List.append_assoc, List.singleton_append, List.length_append, List.length_singleton, List.filter_append,
      List.length_append] at hrest
    rw [List.zipIdx_cons]
    by_cases hw : l.weighted = true
    · rw [List.filter_cons_of_pos (by simpa using hw), List.filter_cons_of_pos hw, List.map_cons, hrest,
        List.length_cons, List.range'_succ, List.filter_cons_of_pos hw]
      simp
    · rw [List.filter_cons_of_neg (by simpa using hw), List.filter_cons_of_neg hw, hrest, List.filter_cons_of_neg hw]
      simp

theorem ordinals_weighted (net : Network) :
    net.weighted.map (fun x => net.ordinal x.2) = List.range net.weighted.length := by
  rw [length_weighted, List.range_eq_range']
  exact map_ordinals [] net.layers

theorem getElem?_ordinal {l : Layer} {n : Nat} (h : (l, n) ∈ net.weighted) :
    net.weighted[net.ordinal n]? = some (l, n) := by
  obtain ⟨k, hk⟩ := List.mem_iff_getElem?.mp h
  obtain ⟨hlt, -⟩ := List.getElem?_eq_some_iff.mp hk
  have hordinal := congrArg (·[k]?) net.ordinals_weighted
  simp only [List.getElem?_map, hk, Option.map_some, List.getElem?_range hlt, Option.some.injEq] at hordinal
  rw [hordinal, hk]

theorem weightIndex_numbered {l : Layer} {n : Nat} (h : (l, n) ∈ net.numbered) : net.weightIndex n l.kind =
    if l.weighted then .ok (net.ordinal n) else .error (.noWeights n l.kind) := by
  obtain ⟨hpos, -⟩ := mem_numbered_iff.mp h
  have hone : 1 ≤ n := hpos
  cases hw : l.kind.weighted <;> simp [weightIndex, Layer.weighted, hone, hw]

theorem weightIndex_weighted (net : Network) :
    net.weighted.map (fun x => net.weightIndex x.2 x.1.kind) = (List.range net.weighted.length).map .ok := by
  rw [← ordinals_weighted, List.map_map]
  refine List.map_congr_left fun x hx => ?_
  obtain ⟨hnumbered, hw⟩ := List.mem_filter.mp hx
  exact (weightIndex_numbered hnumbered).trans (if_pos hw)

end Network

/-! ## Multipliers -/

theorem Code.line_mem_keptAll {on : String → Bool} {l : Line} {ps : List Piece} (h : .line l ∈ ps) :
    .line l ∈ keptAll on ps := by
  induction ps with
  | nil => cases h
  | cons p ps ih =>
    rw [keptAll_cons]
    rcases List.mem_cons.mp h with rfl | h
    · exact List.mem_append_left _ List.mem_cons_self
    · exact List.mem_append_right _ (ih h)

namespace Forward

variable {net : Network} {c : Config} {orders : List LoopOrder} {profile : String} {l : Layer} {n : Nat}
  {on : String → Bool}

theorem getElem?_mask {k : Nat} (hk : k < net.weighted.length) :
    (multiplierMask net c)[k]? = some (c.mask.toList[k]?.getD '0') := by
  rw [multiplierMask, List.getElem?_take_of_lt hk]
  by_cases hlt : k < c.mask.toList.length
  · rw [List.getElem?_append_left hlt, List.getElem?_eq_getElem hlt]
    rfl
  · have hle := Nat.le_of_not_lt hlt
    rw [List.getElem?_append_right hle, List.getElem?_eq_none hle, List.getElem?_replicate, if_pos (by omega)]
    rfl

theorem mem_chosen (h : (l, n) ∈ net.weighted) :
    (c.mask.toList[net.ordinal n]?.getD '0', n) ∈ (multiplierMask net c).zip (net.weighted.map (·.2)) := by
  have hlayer := Network.getElem?_ordinal h
  obtain ⟨hlt, -⟩ := List.getElem?_eq_some_iff.mp hlayer
  refine List.mem_of_getElem? (i := net.ordinal n) (List.getElem?_zip_eq_some.mpr ⟨getElem?_mask hlt, ?_⟩)
  rw [List.getElem?_map, hlayer]
  rfl

theorem multiplier_kept (hc : c.approximate = true) (hon : on "_HLS_RUN" = true) (h : (l, n) ∈ net.weighted) :
    .line (.multiplierChoice n (c.mask.toList[net.ordinal n]? ≠ some '1') true) ∈ keptAll on (multipliers net c) := by
  have hchosen := mem_chosen (c := c) h
  rw [multipliers, if_neg (by simp [hc])]
  dsimp only
  rw [keptAll_append]
  refine List.mem_append_right _ ?_
  rw [keptAll_cons, Piece.kept, if_neg (by simp [hon])]
  refine List.mem_append_left _ (line_mem_keptAll ?_)
  by_cases hbit : c.mask.toList[net.ordinal n]? = some '1'
  · refine List.mem_append_left _ (List.mem_map.mpr ⟨_, hchosen, ?_⟩)
    simp [hbit]
  · have hzero : c.mask.toList[net.ordinal n]?.getD '0' ≠ '1' := by
      cases hdigit : c.mask.toList[net.ordinal n]? with
      | none => decide
      | some digit =>
        rw [hdigit, Option.some.injEq] at hbit
        exact hbit
    refine List.mem_append_right _ (List.mem_map.mpr ⟨_, hchosen, ?_⟩)
    simp [hbit, hzero]

theorem filter_multiplier {p : Program} (hp : net.program c orders profile = .ok p) (hc : c.approximate = true)
    (hon : on "_HLS_RUN" = true) (h : (l, n) ∈ net.weighted) :
    (keptAll on (p.prologue ++ p.macros)).filter (fun x => x.defined? == some (Symbol.multiplier n).text) =
      [.line (.multiplierChoice n (c.mask.toList[net.ordinal n]? ≠ some '1') true)] := by
  obtain ⟨-, hmacros⟩ := Network.program_front hp
  have hsymbol : Symbol.multiplier n ∈ macroSymbols net c := by
    rw [macroSymbols, if_pos hc]
    exact List.mem_append_right _ (List.mem_map_of_mem (f := fun x => Symbol.multiplier x.2) h)
  have hcount := Network.count_front hp hsymbol on
  rw [definedBy, List.count_filterMap] at hcount
  have hdefined : Piece.defined? (.line (.multiplierChoice n (c.mask.toList[net.ordinal n]? ≠ some '1') true)) =
      some (Symbol.multiplier n).text :=
    macroIn_choice n _ true
  have hkept : .line (.multiplierChoice n (c.mask.toList[net.ordinal n]? ≠ some '1') true) ∈
      keptAll on (p.prologue ++ p.macros) := by
    rw [hmacros, keptAll_append, keptAll_append]
    exact List.mem_append_right _ (List.mem_append_right _ (multiplier_kept hc hon h))
  rw [← hdefined]
  refine filter_eq_singleton hkept ?_
  rw [hdefined, List.count_eq_countP, List.countP_map]
  exact hcount.le

theorem text_multiplierChoice (n : Nat) (exact : Bool) : (Line.multiplierChoice n exact true).text =
    "#define MUL_LAYER_" ++ toString n ++ " " ++ if exact then "MULTIPLIER_EXACT" else "MULTIPLIER_NAME" := by
  change "" ++ ("#define MUL_LAYER_" ++ toString n ++ " ") ++ _ = _
  rw [String.empty_append]

/-! ## Factors -/

theorem separator_noFactor (c : Config) (n : Nat) : Tree.AllMention NoFactor (separator c n) := by
  apply mentions_trees
  unfold separator
  split
  · exact ⟨trivial, ⟨trivial, by simp [NoFactor, Site.factorBuffers]⟩, trivial, trivial⟩
  · exact ⟨trivial, trivial, trivial⟩

theorem mem_texts_layersCode {layers : List (Layer × Nat)} {code : List Tree}
    (h : layersCode net c orders profile layers = .ok code) {t : String} (ht : t ∈ Instr.textsAll (instrsAll code)) :
    Mentions NoFactor t ∨ ∃ l n s own, (l, n) ∈ layers ∧ site net c orders profile l n = .ok s ∧ s.code = .ok own ∧
      t ∈ Instr.textsAll (instrsAll own) := by
  induction layers generalizing code with
  | nil =>
    cases h
    cases ht
  | cons x rest ih =>
    obtain ⟨s, own, more, hs, hown, hmore, rfl⟩ := layersCode_cons.mp h
    rw [instrsAll_append, instrsAll_append, Instr.textsAll_append, Instr.textsAll_append] at ht
    rcases List.mem_append.mp ht with ht | ht
    · rcases List.mem_append.mp ht with ht | ht
      · exact .inr ⟨x.1, x.2, s, own, List.mem_cons_self, hs, hown, ht⟩
      · split at ht
        · cases ht
        · exact .inl (separator_noFactor c x.2 t ht)
    · refine (ih hmore ht).imp_right ?_
      rintro ⟨l, n, s, own, hmem, hrest⟩
      exact ⟨l, n, s, own, List.mem_cons_of_mem x hmem, hrest⟩

theorem inputCapture_noFactor {capture : List Tree} (h : inputCapture c l n = .ok capture) :
    Tree.AllMention NoFactor capture := by
  -- The names before the layers are those of no layer at all.
  have hnames : Tree.AllMention (Uses ⟨[]⟩ c [] "" []) capture := inputCapture_mentions h
  refine hnames.mono fun x hx => ?_
  cases hx with
  | layer hmem | faulty _ hmem | inject _ hmem => cases hmem
  | captured => simp [NoFactor, Site.factorBuffers]
  | store => trivial

end Forward

section Body

open Forward

variable {net : Network} {c : Config} {orders : List LoopOrder} {profile : String} {p : Program}
  {layers : List (Layer × Nat)} (h : net.program c orders profile = .ok p) (hlayers : emittedLayers net c = .ok layers)
include h hlayers

theorem Network.layer_selects {l : Layer} {n : Nat} (hmem : (l, n) ∈ layers) :
    ∃ s own, site net c orders profile l n = .ok s ∧ s.code = .ok own ∧ own <:+: p.body ∧
      ∀ t ∈ Instr.textsAll (instrsAll own), Selects (net.ordinal n) (words t) := by
  obtain ⟨-, layers', _, _, _, _, _, _, capture, code, hlayers', -, -, -, -, -, hcode, rfl⟩ :=
    Network.program_eq_ok.mp h
  cases hlayers.symm.trans hlayers'
  obtain ⟨s, own, hs, hown, hin⟩ := layersCode_infix hcode hmem
  have hselects := Site.code_selects hown
  obtain ⟨hnet, hnumber, -, -⟩ := site_fields hs
  rw [hnet, hnumber] at hselects
  exact ⟨s, own, hs, hown, hin.trans (List.suffix_append capture code).isInfix, hselects⟩

theorem Network.factor_in_layer {t : String} (ht : t ∈ Instr.textsAll (instrsAll p.body)) {b : Buffer}
    (hb : b ∈ Site.factorBuffers) (hw : b.text ∈ words t) : c.quantized = true ∧
      ∃ l n s own, (l, n) ∈ layers ∧ (l, n) ∈ net.weighted ∧ site net c orders profile l n = .ok s ∧
        s.code = .ok own ∧ t ∈ Instr.textsAll (instrsAll own) := by
  obtain ⟨-, layers', _, _, _, _, _, _, capture, code, hlayers', -, -, -, -, hcapture, hcode, rfl⟩ :=
    Network.program_eq_ok.mp h
  cases hlayers.symm.trans hlayers'
  rw [instrsAll_append, Instr.textsAll_append] at ht
  rcases List.mem_append.mp ht with ht | ht
  · exact absurd hw ((inputCapture_noFactor hcapture t ht).factor_not_mem hb)
  · rcases mem_texts_layersCode hcode ht with hnone | ⟨l, n, s, own, hmem, hs, hown, ht⟩
    · exact absurd hw (hnone.factor_not_mem hb)
    · obtain ⟨-, -, rfl, rfl⟩ := site_fields hs
      have hrescales : s.rescales = true := by
        by_contra hplain
        exact (Site.code_noFactor hown (by simpa using hplain) t ht).factor_not_mem hb hw
      obtain ⟨hq, hweighted⟩ := Bool.and_eq_true_iff.mp hrescales
      obtain ⟨hnumbered, -⟩ := mem_emittedLayers hlayers hmem
      exact ⟨hq, s.layer, n, s, own, hmem, List.mem_filter.mpr ⟨hnumbered, hweighted⟩, hs, hown, ht⟩

end Body

/-- Quantized, with a main function and a mask that asks for an approximate multiplier in the second weighted layer. -/
def maskedHost : Config :=
  { dataMode := .fixedSingle, dataDetail := "eight-bit-int", mainFunction := true, approximate := true, mask := "01" }

end LayerLoops
