import LayerLoops.Proofs.Numbering
import LayerLoops.Proofs.Orders
import LayerLoops.Proofs.Texts
import Mathlib.Data.List.Perm.Subperm

/-! # Normalizing loop orders

Whatever texts are given for the layers of a network, each layer gets an order that it supports: the one that its text
asks for, or the canonical one. A text that asks for no supported order is reported, and so is a list of texts that does
not match the layers. An order that is written out again is read back as it is. -/

namespace LayerLoops

open Text

/-! ## Orders that are written out -/

theorem Text.smallLetter {c : Char} (h : c.isLower = true) :
    isBlank c = false ∧ (c.toNat < 128 ∧ c.toLower = c) ∧ c ≠ '-' := by
  delta Char.isLower at h
  simp only [Bool.and_eq_true, decide_eq_true_eq] at h
  have hlow : 97 ≤ c.toNat := h.1
  have hhigh : c.toNat ≤ 122 := h.2
  refine ⟨?_, ⟨by omega, ?_⟩, ?_⟩
  · simp [isBlank]
    omega
  · have hupper : ¬ (c.val ≥ 'A'.val ∧ c.val ≤ 'Z'.val) := fun hc => absurd (UInt32.le_trans h.1 hc.2) (by decide)
    exact dif_neg hupper
  · rintro rfl
    exact absurd hlow (by decide)

namespace LoopOrder

variable {k : Kind} {o : LoopOrder}

def areNames (axes : List String) : Bool := axes.all fun a => a.toList.all Char.isLower

theorem areNames_canonicalAxes (k : Kind) : areNames k.canonicalAxes = true := by cases k <;> decide

theorem axesOf_intercalate {axes : List String} (hne : axes ≠ []) (h : areNames axes = true) :
    axesOf ("-".intercalate axes) = axes := by
  have hletters : ∀ a ∈ axes, ∀ c ∈ a.toList, c.isLower = true := by simpa [areNames] using h
  have hchars : ∀ c ∈ ("-".intercalate axes).toList, isBlank c = false ∧ c.toNat < 128 ∧ c.toLower = c := by
    intro c hc
    rw [String.toList_intercalate] at hc
    rcases mem_intercalate hc with hc | ⟨cs, hcs, hc⟩
    · rw [List.mem_singleton.mp hc]
      decide
    · obtain ⟨a, ha, rfl⟩ := List.mem_map.mp hcs
      obtain ⟨hblank, hlower, -⟩ := smallLetter (hletters a ha c hc)
      exact ⟨hblank, hlower⟩
  have hstrip : strip ("-".intercalate axes) = "-".intercalate axes := by
    rw [strip, stripChars_of_unblank fun c hc => (hchars c hc).1, String.ofList_toList]
  have hlower : lower ("-".intercalate axes) = "-".intercalate axes := by
    rw [lower, lowerFrom_of_lowered (fun c hc => (hchars c hc).2), String.ofList_toList]
  have hparts : ∀ a ∈ axes, strip a = a := by
    intro a ha
    rw [strip, stripChars_of_unblank fun c hc => (smallLetter (hletters a ha c hc)).1, String.ofList_toList]
  rw [axesOf, hstrip, hlower, dashed_intercalate hne fun a ha hc => (smallLetter (hletters a ha _ hc)).2.2 rfl,
    List.map_congr_left hparts, List.map_id']

theorem perm_of_misfit? {axes : List String} (h : misfit? k axes = none) : axes.Perm k.canonicalAxes := by
  unfold misfit? at h
  dsimp only at h
  split_ifs at h with hlength hknown hnodup
  have hsubset : axes ⊆ k.canonicalAxes := by
    intro a ha
    have hnone : axes.filter (!k.canonicalAxes.contains ·) = [] := by simpa using hknown
    simpa using List.filter_eq_nil_iff.mp hnone a ha
  have hlength : axes.length = k.canonicalAxes.length := not_not.mp hlength
  exact (hnodup.subperm hsubset).perm_of_length_le (Nat.le_of_eq hlength.symm)

theorem axesOf_text (h : o.axes.Perm k.canonicalAxes) : axesOf o.text = o.axes := by
  have hnames : areNames o.axes = true := by
    have hcanonical := areNames_canonicalAxes k
    rw [areNames, List.all_eq_true] at hcanonical ⊢
    exact fun a ha => hcanonical a (h.mem_iff.mp ha)
  refine axesOf_intercalate (fun hnil => ?_) hnames
  rw [hnil, List.nil_perm] at h
  cases k <;> cases h

theorem Fits.check_text (h : o.Fits k) : check k o.text = none := by
  rw [check, axesOf_text (perm_of_misfit? h.axes), h.axes]

theorem check_marker {text : String} (h : isMarker text = true) (k : Kind) : check k text ≠ none := by
  have hmarker : ∀ s ∈ ["default", "*", ""], (dashed s).length = 1 := by decide
  have hone : (axesOf text).length = 1 := by
    rw [isMarker, List.contains_iff_mem] at h
    rw [axesOf, List.length_map, hmarker _ h]
  intro hnone
  have hlength := (perm_of_misfit? hnone).length_eq
  rw [hone] at hlength
  cases k <;> cases hlength

theorem Fits.not_marker (h : o.Fits k) : isMarker o.text = false := by
  rw [← Bool.not_eq_true]
  exact fun hmarker => check_marker hmarker k h.check_text

/-- The order has the axes of the layer, arranged as the layer supports them, and what it asks to be kept for a
convolution is known. -/
structure Serves (o : LoopOrder) (l : Layer) : Prop where
  kind : o.kind = l.kind
  axes : o.axes.Perm l.kind.canonicalAxes
  passes : check l.kind o.text = none
  accumulates : l.kind = .conv → ∃ a, ∀ place, o.accumulator place = .ok a

theorem serves_iff_fits {l : Layer} : o.Serves l ↔ o.Fits l.kind := by
  constructor
  · intro h
    have hpasses := h.passes
    rw [check, axesOf_text h.axes] at hpasses
    exact ⟨h.kind, hpasses⟩
  · intro h
    refine ⟨h.kind, perm_of_misfit? h.axes, h.check_text, fun hk => ?_⟩
    rw [hk] at h
    obtain ⟨a, ha⟩ := supported_of_fits h
    refine ⟨a, fun place => ?_⟩
    rw [accumulator, accumulator?_of_supported ha]

/-! ## The order of one layer -/

def chosen (k : Kind) (text : String) : LoopOrder :=
  if isMarker text || (check k text).isSome then canonical k else ⟨k, axesOf text⟩

def isRejected (k : Kind) (text : String) : Bool := !isMarker text && (check k text).isSome

end LoopOrder

/-- The warning says that the order given for a layer is replaced. -/
structure Warning.Replaces (w : Warning) (l : Layer) (number : Nat) (text : String) : Prop where
  code : w.code = .orderReplaced
  location : w.location = l.location
  message : ("loop order '" ++ text ++ s!"' of layer {number} ({l.kind.label})").toList <+: w.message.toList

namespace LoopOrder

variable {net : Network} {texts : List String} (number : Nat)

theorem chosen_text {o : LoopOrder} {k : Kind} (h : o.Fits k) : chosen k o.text = o := by
  obtain ⟨kind, axes⟩ := o
  obtain rfl : kind = k := h.kind
  rw [chosen, h.not_marker, h.check_text, axesOf_text (perm_of_misfit? h.axes)]
  rfl

theorem isRejected_text {o : LoopOrder} {k : Kind} (h : o.Fits k) : isRejected k o.text = false := by
  rw [isRejected, h.check_text, Option.isSome_none, Bool.and_false]

/-- The layers, with their numbers and texts, whose texts ask for no order that they support. -/
def rejected (given : List ((Layer × Nat) × String)) : List ((Layer × Nat) × String) :=
  given.filter fun x => isRejected x.1.1.kind x.2

def Reported (given : List ((Layer × Nat) × String)) (ws : List Warning) : Prop :=
  List.Forall₂ (fun x w => Warning.Replaces w x.1.1 x.1.2 x.2) given ws

theorem Reported.code {given : List ((Layer × Nat) × String)} {ws : List Warning} (h : Reported given ws) :
    ∀ w ∈ ws, w.code = .orderReplaced := by
  induction h with
  | nil => exact List.forall_mem_nil _
  | cons hw _ ih => exact List.forall_mem_cons.mpr ⟨hw.code, ih⟩

theorem normalize_some (l : Layer) (text : String) :
    ∃ ws, (normalize number l.kind l.location (some text)).Yields (chosen l.kind text) [] ws ∧
      Reported (rejected [((l, number), text)]) ws := by
  by_cases hmarker : isMarker text = true
  · refine ⟨[], ?_, ?_⟩
    · rw [normalize, if_pos hmarker, chosen, hmarker, Bool.true_or, if_pos rfl]
      exact Step.yields_pure _
    · rw [rejected, List.filter_singleton, isRejected, hmarker]
      exact .nil
  rw [Bool.not_eq_true] at hmarker
  cases hcheck : check l.kind text with
  | none =>
    refine ⟨[], ?_, ?_⟩
    · rw [normalize, if_neg (by simp [hmarker]), hcheck, chosen, hmarker, hcheck]
      exact Step.yields_pure _
    · rw [rejected, List.filter_singleton, isRejected, hcheck, Option.isSome_none, Bool.and_false]
      exact .nil
  | some reason =>
    obtain ⟨w, hw, hyields⟩ : ∃ w : Warning, w.Replaces l number text ∧
        (normalize number l.kind l.location (some text)).Yields (canonical l.kind) [] [w] := by
      rw [normalize, if_neg (by simp [hmarker]), hcheck]
      refine ⟨_, ⟨rfl, rfl, ?_⟩, (Step.yields_warn _).bind (Step.yields_pure _)⟩
      simp [toString, List.prefix_append_right_inj]
    refine ⟨[w], ?_, ?_⟩
    · rw [chosen, hcheck, Option.isSome_some, Bool.or_true, if_pos rfl]
      exact hyields
    · rw [rejected, List.filter_singleton, isRejected, hmarker, hcheck]
      exact .cons hw .nil

/-! ## The orders of a network -/

theorem normalizeFrom_nil (ls : List Layer) :
    (normalizeFrom number ls []).Yields (ls.map fun l => canonical l.kind) [] [] := by
  induction ls generalizing number with
  | nil => exact Step.yields_pure []
  | cons l ls ih =>
    have hfirst : (normalize number l.kind l.location none).Yields (canonical l.kind) [] [] := Step.yields_pure _
    exact hfirst.bind ((ih (number + 1)).map (canonical l.kind :: ·))

theorem normalizeFrom_yields {ls : List Layer} (h : texts.length = ls.length) :
    ∃ ws, (normalizeFrom number ls (texts.map some)).Yields (ls.zipWith (fun l t => chosen l.kind t) texts) [] ws ∧
      Reported (rejected ((ls.zipIdx number).zip texts)) ws := by
  induction ls generalizing number texts with
  | nil => exact ⟨[], Step.yields_pure [], .nil⟩
  | cons l ls ih =>
    obtain _ | ⟨t, texts⟩ := texts
    · cases h
    obtain ⟨ws, hfirst, hws⟩ := normalize_some number l t
    obtain ⟨ws', hrest, hws'⟩ := ih (number + 1) (Nat.succ.inj h)
    refine ⟨ws ++ ws', hfirst.bind (hrest.map (chosen l.kind t :: ·)), ?_⟩
    have hsplit : rejected (((l :: ls).zipIdx number).zip (t :: texts)) =
        rejected [((l, number), t)] ++ rejected ((ls.zipIdx (number + 1)).zip texts) :=
      List.filter_append [((l, number), t)] _
    rw [hsplit]
    exact List.rel_append hws hws'

/-- The orders that texts ask for, if there is one for each layer, and the canonical ones otherwise. -/
def chosenAll (net : Network) (texts : List String) : List LoopOrder :=
  if texts.length = net.size then net.layers.zipWith (fun l t => chosen l.kind t) texts
  else net.layers.map fun l => canonical l.kind

def rejectedAll (net : Network) (texts : List String) : List ((Layer × Nat) × String) :=
  if texts.length = net.size then rejected (net.numbered.zip texts) else []

theorem normalizeAll_yields (net : Network) (texts : List String) : ∃ ignored replaced,
    (normalizeAll net texts).Yields (chosenAll net texts) [] (ignored ++ replaced) ∧
      (∀ w ∈ ignored, w.code = .ordersIgnored) ∧ (ignored ≠ [] ↔ texts ≠ [] ∧ texts.length ≠ net.size) ∧
      Reported (rejectedAll net texts) replaced := by
  have htell {s : Step (List LoopOrder)} {os : List LoopOrder} {ws : List Warning} (hs : s.Yields os [] ws) :
      (s >>= fun os => Step.tell (.ordered (os.map LoopOrder.text)) >>= fun _ => pure os).Yields os [] ws := by
    have hend : (Step.tell (.ordered (os.map LoopOrder.text)) >>= fun _ => pure os).Yields os [] [] :=
      (Step.yields_tell _).bind (Step.yields_pure os)
    simpa using hs.bind (f := fun os => Step.tell (.ordered (os.map LoopOrder.text)) >>= fun _ => pure os) hend
  rw [normalizeAll, chosenAll, rejectedAll]
  by_cases hlength : texts.length = net.size
  · obtain ⟨ws, hyields, hws⟩ := normalizeFrom_yields 1 hlength
    refine ⟨[], ws, ?_, by simp, by simp [hlength], ?_⟩
    · simp only [hlength, bne_self_eq_false, Bool.and_false, Bool.false_eq_true, if_false, if_true]
      exact htell hyields
    · rw [if_pos hlength]
      exact hws
  · rw [if_neg hlength, if_neg hlength]
    have hcanonical := htell (normalizeFrom_nil 1 net.layers)
    by_cases hempty : texts = []
    · refine ⟨[], [], ?_, by simp, by simp [hempty], .nil⟩
      simp only [hempty, List.isEmpty_nil, Bool.not_true, Bool.false_and, Bool.false_eq_true, if_false]
      exact hcanonical
    · obtain ⟨w, hw, hyields⟩ : ∃ w : Warning, w.code = .ordersIgnored ∧
          (normalizeAll net texts).Yields (net.layers.map fun l => canonical l.kind) [] [w] := by
        have hignored : (!texts.isEmpty && texts.length != net.size) = true := by simp [hempty, hlength]
        simp only [normalizeAll, hignored, if_true]
        exact ⟨_, rfl, (Step.yields_warn _).bind hcanonical⟩
      refine ⟨[w], [], hyields, by simp [hw], by simp [hempty, hlength], .nil⟩

theorem mem_zip_numbered {l : Layer} {n : Nat} {t : String} :
    ((l, n), t) ∈ net.numbered.zip texts ↔ (l, n) ∈ net.numbered ∧ texts[n - 1]? = some t := by
  have hnumbered (i : Nat) : net.numbered[i]? = net.layers[i]?.map fun l => (l, 1 + i) := List.getElem?_zipIdx
  rw [List.mem_iff_getElem?, Network.mem_numbered_iff]
  constructor
  · rintro ⟨i, hi⟩
    obtain ⟨hlayer, htext⟩ := List.getElem?_zip_eq_some.mp hi
    rw [hnumbered, Option.map_eq_some_iff] at hlayer
    obtain ⟨l', hl, heq⟩ := hlayer
    cases heq
    rw [Nat.add_sub_cancel_left]
    exact ⟨⟨Nat.add_pos_left Nat.one_pos i, hl⟩, htext⟩
  · rintro ⟨⟨hpos, hl⟩, htext⟩
    refine ⟨n - 1, List.getElem?_zip_eq_some.mpr ⟨?_, htext⟩⟩
    rw [hnumbered, hl, Option.map_some, Nat.add_sub_cancel' hpos]

theorem mem_rejectedAll {l : Layer} {n : Nat} {t : String} :
    ((l, n), t) ∈ rejectedAll net texts ↔ texts.length = net.size ∧ (l, n) ∈ net.numbered ∧ texts[n - 1]? = some t ∧
      isMarker t = false ∧ check l.kind t ≠ none := by
  unfold rejectedAll
  split
  · rename_i hlength
    rw [rejected, List.mem_filter, mem_zip_numbered, isRejected, Bool.and_eq_true, Bool.not_eq_true',
      Option.isSome_iff_ne_none, and_assoc]
    exact (and_iff_right hlength).symm
  · rename_i hlength
    simp [hlength]

theorem chosenAll_serves (net : Network) (texts : List String) :
    List.Forall₂ (fun l o => Serves o l) net.layers (chosenAll net texts) := by
  obtain ⟨_, _, hyields, -⟩ := normalizeAll_yields net texts
  obtain ⟨os, hos, hfits⟩ := normalizeAll_fits net texts
  cases hyields.outcome.symm.trans hos
  exact hfits.imp fun _ _ => serves_iff_fits.mpr

section Rendered

variable {ls : List Layer} {os : List LoopOrder} (h : List.Forall₂ (fun l o => Serves o l) ls os)
include h

theorem zipWith_chosen_text : ls.zipWith (fun l t => chosen l.kind t) (os.map text) = os := by
  induction h with
  | nil => rfl
  | cons hserves _ ih => rw [List.map_cons, List.zipWith_cons_cons, chosen_text (serves_iff_fits.mp hserves), ih]

theorem rejected_text (number : Nat) : rejected ((ls.zipIdx number).zip (os.map text)) = [] := by
  induction h generalizing number with
  | nil => rfl
  | cons hserves _ ih =>
    rw [List.map_cons, List.zipIdx_cons, List.zip_cons_cons, rejected,
      List.filter_cons_of_neg (by simp [isRejected_text (serves_iff_fits.mp hserves)])]
    exact ih (number + 1)

end Rendered

theorem normalizeAll_text {os : List LoopOrder} (h : List.Forall₂ (fun l o => Serves o l) net.layers os) :
    (normalizeAll net (os.map text)).Yields os [] [] := by
  obtain ⟨ignored, replaced, hyields, -, hignored, hreplaced⟩ := normalizeAll_yields net (os.map text)
  have hlength : (os.map text).length = net.size := (List.length_map text).trans h.length_eq.symm
  rw [chosenAll, if_pos hlength, zipWith_chosen_text h] at hyields
  rw [rejectedAll, if_pos hlength, Network.numbered, rejected_text h] at hreplaced
  obtain rfl : replaced = [] := List.forall₂_nil_left_iff.mp hreplaced
  obtain rfl : ignored = [] := by simpa [hlength] using hignored
  exact hyields

/-- For any texts, every layer gets an order that it supports, and no error is recorded. A warning says that the texts
are ignored if and only if there are some and not one for each layer; if there is one for each layer, then a warning for
a layer says that its text is, if and only if the text is neither a marker nor an order that fits. Orders that serve
their layers are read back from what is written of them. -/
theorem normalized_orders_serve (net : Network) (texts : List String) :
    ∃ ws, (normalizeAll net texts).Yields (chosenAll net texts) [] ws ∧
      List.Forall₂ (fun l o => Serves o l) net.layers (chosenAll net texts) ∧
      ((∃ w ∈ ws, w.code = .ordersIgnored) ↔ texts ≠ [] ∧ texts.length ≠ net.size) ∧
      Reported (rejectedAll net texts) (ws.filter (·.code = .orderReplaced)) ∧
      (∀ l n t, ((l, n), t) ∈ rejectedAll net texts ↔ texts.length = net.size ∧ (l, n) ∈ net.numbered ∧
        texts[n - 1]? = some t ∧ isMarker t = false ∧ check l.kind t ≠ none) ∧
      ∀ os, List.Forall₂ (fun l o => Serves o l) net.layers os → (normalizeAll net (os.map text)).Yields os [] [] := by
  obtain ⟨ignored, replaced, hyields, hcodes, hignored, hreplaced⟩ := normalizeAll_yields net texts
  have hcode := hreplaced.code
  refine ⟨ignored ++ replaced, hyields, chosenAll_serves net texts, ?_, ?_, fun l n t => mem_rejectedAll,
    fun os => normalizeAll_text⟩
  · rw [← hignored]
    constructor
    · rintro ⟨w, hw, hw'⟩
      rcases List.mem_append.mp hw with hw | hw
      · exact List.ne_nil_of_mem hw
      · cases hw'.symm.trans (hcode w hw)
    · intro hne
      obtain ⟨w, hw⟩ := List.exists_mem_of_ne_nil ignored hne
      exact ⟨w, List.mem_append_left _ hw, hcodes w hw⟩
  · have hnone : ignored.filter (·.code = .orderReplaced) = [] :=
      List.filter_eq_nil_iff.mpr fun w hw => by simp [hcodes w hw]
    have hall : replaced.filter (·.code = .orderReplaced) = replaced :=
      List.filter_eq_self.mpr fun w hw => decide_eq_true (hcode w hw)
    rw [List.filter_append, hnone, hall]
    exact hreplaced

end LoopOrder
end LayerLoops
