import LayerLoops.Proofs.Dependencies
import LayerLoops.Proofs.Normalization

/-! # Loop orders given as an option

An option gives the orders as a list of texts or as one text with number signs between them. Blanks around the texts do
not matter for the orders, but a blank text is dropped, and then the others no longer match the layers. -/

namespace LayerLoops

/-! ## Trimmed texts ask for the same orders -/

namespace LoopOrder

theorem chosen_strip (k : Kind) (text : String) : chosen k (Text.strip text) = chosen k text := by
  have hmarker : isMarker (Text.strip text) = isMarker text := by rw [isMarker, isMarker, Text.strip_strip]
  have haxes : axesOf (Text.strip text) = axesOf text := by rw [axesOf, axesOf, Text.strip_strip]
  rw [chosen, chosen, check, check, hmarker, haxes]

theorem chosenAll_strip (net : Network) (texts : List String) :
    chosenAll net (texts.map Text.strip) = chosenAll net texts := by
  have hzip : net.layers.zipWith (fun l t => chosen l.kind t) (texts.map Text.strip) =
      net.layers.zipWith (fun l t => chosen l.kind t) texts := by
    rw [List.zipWith_map_right]
    simp only [chosen_strip]
  rw [chosenAll, chosenAll, List.length_map, hzip]

theorem outcome_normalizeAll (net : Network) (texts : List String) :
    (normalizeAll net texts).outcome = .ok (chosenAll net texts) := by
  obtain ⟨_, _, hyields, -⟩ := normalizeAll_yields net texts
  exact hyields.outcome

end LoopOrder

/-! ## The texts that arrive -/

namespace Options

open LoopOrder

theorem splitTexts_eq (s : String) :
    splitTexts s = orderTexts.trimmed ((Text.lineChars (s.toList.map Text.unhashed)).map String.ofList) := by
  have hstrip : Text.strip ∘ String.ofList = String.ofList ∘ Text.stripChars :=
    funext fun cs => by rw [Function.comp, Text.strip, String.toList_ofList]; rfl
  have hempty : (fun s : String => decide (s ≠ "")) ∘ String.ofList = (!·.isEmpty) :=
    funext fun cs => by cases cs <;> simp
  rw [orderTexts.trimmed, List.map_map, hstrip, ← List.map_map, List.filter_map, hempty]
  rfl

theorem splitTexts_joined {texts : List String} (hhash : ∀ t ∈ texts, '#' ∉ t.toList)
    (hline : ∀ t ∈ texts, ∀ c ∈ t.toList, Text.isLineBreak c = false) :
    splitTexts ("#".intercalate texts) = orderTexts.trimmed texts := by
  have hchars : ("#".intercalate texts).toList.map Text.unhashed = ['\n'].intercalate (texts.map String.toList) := by
    rw [← String.toList_map, Text.unhashed_intercalate hhash, String.toList_intercalate]
    rfl
  have htexts : (texts.map String.toList).map String.ofList = texts := by
    rw [List.map_map]
    exact List.map_id'' (fun _ => String.ofList_toList) texts
  rw [splitTexts_eq, hchars]
  rcases Text.lineChars_intercalate (List.forall_mem_map.mpr hline) with hlines | hlines
  · rw [← hlines, htexts]
  · -- the line that is missing is empty, and would be dropped
    conv_rhs => rw [← htexts, hlines, List.map_append, orderTexts.trimmed, List.map_append, List.filter_append]
    exact (List.append_nil _).symm

theorem config_loopOrders {o : Entries} {c : Config} (h : (config o).outcome = .ok c) :
    orderTexts (o.get "loop-orders") = .ok c.loopOrders := by
  unfold config at h
  simp only [Step.outcome_bind_eq_ok] at h
  obtain ⟨_, -, _, -, _, -, _, -, _, -, _, -, _, -, labels, -, h⟩ := h
  split at h
  · obtain ⟨_, hfail, -⟩ := Step.outcome_bind_eq_ok.mp h
    cases hfail
  simp only [Step.outcome_bind_eq_ok] at h
  obtain ⟨_, -, _, -, _, -, orders, horders, _, -, h⟩ := h
  obtain ⟨place, rfl⟩ := located_eq_ok h
  exact horders

def gives (texts : List String) : List Value := [.list (texts.map .text), .text ("#".intercalate texts)]

theorem orderTexts_gives {texts : List String} (hhash : ∀ t ∈ texts, '#' ∉ t.toList)
    (hline : ∀ t ∈ texts, ∀ c ∈ t.toList, Text.isLineBreak c = false) {v : Value} (h : v ∈ gives texts) :
    orderTexts v = .ok (orderTexts.trimmed texts) := by
  simp only [gives, List.mem_cons, List.not_mem_nil, or_false] at h
  rcases h with rfl | rfl
  · have htexts : (texts.map Value.text).map Value.toText = texts := by
      rw [List.map_map]
      exact List.map_id'' (fun _ => rfl) texts
    rw [orderTexts, htexts]
  · rw [orderTexts, splitTexts_joined hhash hline]

theorem chosenAll_trimmed {net : Network} {texts : List String} (h : texts.length = net.size) :
    chosenAll net (orderTexts.trimmed texts) =
      if ∀ t ∈ texts, Text.strip t ≠ "" then chosenAll net texts else net.layers.map fun l => canonical l.kind := by
  split
  · rename_i hfull
    have hkept : orderTexts.trimmed texts = texts.map Text.strip :=
      List.filter_eq_self.mpr (List.forall_mem_map.mpr fun t ht => decide_eq_true (hfull t ht))
    rw [hkept, chosenAll_strip]
  · rename_i hblank
    have hfewer : (orderTexts.trimmed texts).length ≠ net.size := by
      intro hlength
      have hall : (orderTexts.trimmed texts).length = (texts.map Text.strip).length := by
        rw [hlength, List.length_map, h]
      have hkept := List.length_filter_eq_length_iff.mp hall
      exact hblank fun t ht => of_decide_eq_true (hkept _ (List.mem_map_of_mem ht))
    rw [chosenAll, if_neg hfewer]

/-- Texts for the layers that are given by an option select the orders that they select themselves, if none of them is
blank. If one is, although a blank text selects the canonical order of its layer, then all layers get theirs. -/
theorem option_orders_unless_blank (net : Network) (texts : List String) (hcount : texts.length = net.size)
    (hhash : ∀ t ∈ texts, '#' ∉ t.toList) (hline : ∀ t ∈ texts, ∀ c ∈ t.toList, Text.isLineBreak c = false) :
    ∀ v ∈ gives texts, ∃ given, orderTexts v = .ok given ∧
      (∀ o c, Entries.get o "loop-orders" = v → (config o).outcome = .ok c → c.loopOrders = given) ∧
      (normalizeAll net given).outcome =
        if ∀ t ∈ texts, Text.strip t ≠ "" then (normalizeAll net texts).outcome
        else .ok (net.layers.map fun l => canonical l.kind) := by
  intro v hv
  have horders := orderTexts_gives hhash hline hv
  refine ⟨orderTexts.trimmed texts, horders, ?_, ?_⟩
  · rintro o c rfl hc
    exact Except.ok.inj ((config_loopOrders hc).symm.trans horders)
  · rw [outcome_normalizeAll, outcome_normalizeAll, chosenAll_trimmed hcount]
    split <;> rfl

def twoConvolutions : Network := ⟨List.replicate 2 { form := .conv (some 1) ⟨some 1, some 1⟩ .valid }⟩

def columnsFirst : LoopOrder := ⟨.conv, ["oz", "ox", "oy", "iz", "kx", "ky"]⟩

theorem option_orders_two_convolutions :
    (∃ given, orderTexts (.list [.text "*", .text " OZ-ox-oy-iz-kx-ky "]) = .ok given ∧
      (normalizeAll twoConvolutions given).outcome = .ok [canonical .conv, columnsFirst]) ∧
    ∃ given, orderTexts (.text "*# OZ-ox-oy-iz-kx-ky ") = .ok given ∧
      (normalizeAll twoConvolutions given).outcome = .ok [canonical .conv, columnsFirst] := by
  have hline : ∀ t ∈ ["*", " OZ-ox-oy-iz-kx-ky "], ∀ c ∈ t.toList, Text.isLineBreak c = false := by
    simpa using show (["*", " OZ-ox-oy-iz-kx-ky "].all fun t => t.toList.all (!Text.isLineBreak ·)) = true by decide
  have hgiven (v : Value) (hv : v ∈ gives ["*", " OZ-ox-oy-iz-kx-ky "]) : ∃ given, orderTexts v = .ok given ∧
      (normalizeAll twoConvolutions given).outcome = .ok [canonical .conv, columnsFirst] := by
    obtain ⟨given, horders, -, houtcome⟩ := option_orders_unless_blank twoConvolutions ["*", " OZ-ox-oy-iz-kx-ky "]
      rfl (by decide) hline v hv
    refine ⟨given, horders, ?_⟩
    rw [houtcome, if_pos (by decide)]
    rfl
  exact ⟨hgiven _ List.mem_cons_self, hgiven _ (List.mem_cons_of_mem _ List.mem_cons_self)⟩

/-- The first text selects the canonical order of the first layer, and loses the order of the second. -/
theorem blank_text_loses_orders : ∃ c,
    (config [(.text "loop-orders", .list [.text "", .text "oz-ox-oy-iz-kx-ky"])]).outcome = .ok c ∧
    (config [(.text "loop-orders", .text "#oz-ox-oy-iz-kx-ky")]).outcome = .ok c ∧
    (normalizeAll twoConvolutions c.loopOrders).outcome = .ok [canonical .conv, canonical .conv] ∧
    (normalizeAll twoConvolutions ["", "oz-ox-oy-iz-kx-ky"]).outcome = .ok [canonical .conv, columnsFirst] := by
  have hread : ∀ v ∈ gives ["", "oz-ox-oy-iz-kx-ky"], (config [(.text "loop-orders", v)]).outcome.toOption =
      some { loopOrders := ["oz-ox-oy-iz-kx-ky"] } := by
    decide +kernel
  have hconfig (v : Value) (hv : v ∈ gives ["", "oz-ox-oy-iz-kx-ky"]) :
      (config [(.text "loop-orders", v)]).outcome = .ok { loopOrders := ["oz-ox-oy-iz-kx-ky"] } := by
    have hv := hread v hv
    cases hc : (config [(.text "loop-orders", v)]).outcome with
    | error f =>
      rw [hc] at hv
      cases hv
    | ok c =>
      rw [hc] at hv
      exact congrArg _ (Option.some.inj hv)
  exact ⟨_, hconfig _ List.mem_cons_self, hconfig _ (List.mem_cons_of_mem _ List.mem_cons_self), rfl, rfl⟩

end Options
end LayerLoops
