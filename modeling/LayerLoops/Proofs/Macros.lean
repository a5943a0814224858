import LayerLoops.Proofs.Mentions
import LayerLoops.Proofs.Numbering
import LayerLoops.Proofs.Preprocessed
import Mathlib.Data.List.Count
import Mathlib.Data.List.Nodup

/-! # What the macros of a program define

Before its function a program defines macros and functions: one function for each activation that is called, and one
macro for the multiplier of each weighted layer. Under synthesis a mask picks one of two lines for each multiplier and
leaves the other in a comment. -/

namespace LayerLoops

open Code Text

namespace Code

/-- The macro that a line defines. -/
def macroIn (t : String) : Option String := if "#define ".toList <+: t.toList then (words t)[1]? else none

/-- The macro or function that a piece defines; the name of a function stands behind its type. -/
def Piece.defined? : Piece → Option String
  | .line l => macroIn l.text
  | .function header _ => (words header)[1]?
  | _ => none

def definedBy (on : String → Bool) (ps : List Piece) : List String := (keptAll on ps).filterMap Piece.defined?

variable {on : String → Bool}

@[simp] theorem definedBy_nil : definedBy on [] = [] := rfl

@[simp] theorem definedBy_append (ps qs : List Piece) :
    definedBy on (ps ++ qs) = definedBy on ps ++ definedBy on qs := by
  rw [definedBy, keptAll_append, List.filterMap_append]
  rfl

@[simp] theorem definedBy_blank (n : Nat) (ps : List Piece) : definedBy on (.blank n :: ps) = definedBy on ps := rfl

theorem definedBy_cons (p : Piece) (ps : List Piece) : definedBy on (p :: ps) = definedBy on [p] ++ definedBy on ps :=
  definedBy_append [p] ps

theorem definedBy_guardedElse (g : Guard) (body otherwise : List Piece) :
    definedBy on [.guardedElse g body otherwise] =
      if on g.name = g.defined then definedBy on body else definedBy on otherwise := by
  simp only [definedBy, keptAll_cons, Piece.kept, keptAll_nil, List.append_nil]
  split <;> rfl

@[simp] theorem definedBy_line (l : Line) (ps : List Piece) :
    definedBy on (.line l :: ps) = (macroIn l.text).toList ++ definedBy on ps := by
  rw [definedBy, keptAll_cons, List.filterMap_append]
  cases h : macroIn l.text <;> simp [Piece.kept, Piece.defined?, h, definedBy]

theorem definedBy_plainLines (ts : List String) : definedBy on (plainLines ts) = ts.filterMap macroIn := by
  rw [definedBy, keptAll_plainLines, plainLines, List.filterMap_map]
  rfl

mutual

theorem Piece.defined?_kept {on : String → Bool} {w : String} : ∀ p : Piece, w ∈ (p.kept on).filterMap Piece.defined? →
    ∃ t ∈ textsOf [p], (words t)[1]? = some w
  | .line l, h => by
    simp only [Piece.kept, List.mem_filterMap, List.mem_singleton, exists_eq_left, Piece.defined?, macroIn] at h
    split at h
    · exact ⟨l.text, List.mem_cons_self, h⟩
    · cases h
  | .blank _, h => by simp [Piece.kept, Piece.defined?] at h
  | .function header body, h => by
    simp only [Piece.kept, List.mem_filterMap, List.mem_singleton, exists_eq_left, Piece.defined?] at h
    exact ⟨header, List.mem_cons_self, h⟩
  | .guarded g body, h => by
    simp only [Piece.kept] at h
    split at h
    · obtain ⟨t, ht, hw⟩ := mem_definedBy body h
      exact ⟨t, by simp [ht], hw⟩
    · cases h
  | .guardedElse g body otherwise, h => by
    simp only [Piece.kept] at h
    split at h
    · obtain ⟨t, ht, hw⟩ := mem_definedBy body h
      exact ⟨t, by simp [ht], hw⟩
    · obtain ⟨t, ht, hw⟩ := mem_definedBy otherwise h
      exact ⟨t, by simp [ht], hw⟩

theorem mem_definedBy {on : String → Bool} {w : String} : ∀ ps : List Piece, w ∈ definedBy on ps →
    ∃ t ∈ textsOf ps, (words t)[1]? = some w
  | [], h => by cases h
  | p :: ps, h => by
    rw [definedBy, keptAll_cons, List.filterMap_append, List.mem_append] at h
    rw [textsOf_cons]
    rcases h with h | h
    · obtain ⟨t, ht, hw⟩ := Piece.defined?_kept p h
      exact ⟨t, List.mem_append_left _ ht, hw⟩
    · obtain ⟨t, ht, hw⟩ := mem_definedBy ps h
      exact ⟨t, List.mem_append_right _ ht, hw⟩

end

theorem macroIn_define {name rest : String} (hname : words name = [name]) (hrest : opens rest = true) :
    macroIn ("#define " ++ name ++ rest) = some name := by
  have hbegin : "#define ".toList <+: ("#define " ++ name ++ rest).toList := by
    rw [String.append_assoc, String.toList_append]
    exact List.prefix_append _ _
  have hdefine : words "#define " = ["define"] := by decide
  rw [macroIn, if_pos hbegin, words_append_of_opens _ hrest, words_append_of_closes (by decide), hdefine, hname]
  rfl

theorem define_multiplier (n : Nat) :
    "#define MUL_LAYER_" ++ toString n = "#define " ++ (Symbol.multiplier n).text := by
  have hbegin : "#define MUL_LAYER_" = "#define " ++ "MUL_LAYER_" := rfl
  exact (congrArg (· ++ toString n) hbegin).trans String.append_assoc

theorem macroIn_multiplier (n : Nat) {rest : String} (hrest : opens rest = true) :
    macroIn ("#define MUL_LAYER_" ++ toString n ++ rest) = some (Symbol.multiplier n).text := by
  rw [define_multiplier]
  exact macroIn_define (words_name (.symbol (.multiplier n))) hrest

theorem macroIn_call (n : Nat) : macroIn (Line.multiplierCall n).text = some (Symbol.multiplier n).text := by
  have htext : (Line.multiplierCall n).text =
      "#define MUL_LAYER_" ++ toString n ++ ("(a, b) MUL_LAYER(a, b, " ++ (toString n ++ ")")) :=
    String.append_assoc.trans String.append_assoc
  rw [htext]
  exact macroIn_multiplier n (opens_append (by decide) (by decide) _)

theorem macroIn_choice (n : Nat) (exact active : Bool) : macroIn (Line.multiplierChoice n exact active).text =
    if active then some (Symbol.multiplier n).text else none := by
  cases active with
  | true =>
    have htext (value : String) : "" ++ ("#define MUL_LAYER_" ++ toString n ++ " ") ++ value =
        "#define MUL_LAYER_" ++ toString n ++ (" " ++ value) := by
      rw [String.empty_append, String.append_assoc]
    refine (congrArg macroIn (htext _)).trans ?_
    exact macroIn_multiplier n (opens_append (by decide) (by decide) _)
  | false =>
    have hslash (line value : String) : ¬ "#define ".toList <+: ("//" ++ line ++ value).toList := by
      rw [String.append_assoc, String.toList_append]
      rintro ⟨more, h⟩
      exact absurd (congrArg List.head? h) (by simp)
    exact if_neg (hslash _ _)

end Code

namespace Forward

variable {net : Network} {c : Config} {on : String → Bool}

/-! ## The prologue -/

def Hook (n : Name) : Prop := n = .symbol .store ∨ n = .symbol .inject

theorem mentions_guard {A : Name → Prop} (g : Guard) (h : isSilent g.name = true) :
    Mentions A g.opening ∧ Mentions A g.middle ∧ Mentions A g.closing := by
  have hname : Mentions A g.name := mentions_silent h
  refine ⟨?_, ?_, ?_⟩
  · unfold Guard.opening
    split
    · exact Mentions.append_closes (mentions_plain (by decide)) hname (by decide)
    · exact Mentions.append_closes (mentions_plain (by decide)) hname (by decide)
  · unfold Guard.middle
    split
    · exact Mentions.append_closes (mentions_plain (by decide)) hname (by decide)
    · exact mentions_plain (by decide)
  · unfold Guard.closing
    split
    · exact Mentions.append_closes (mentions_plain (by decide)) hname (by decide)
    · exact mentions_plain (by decide)

theorem forall_textsOf_lineIf {P : String → Prop} {b : Bool} {u : String} :
    (∀ t ∈ textsOf (lineIf b u), P t) ↔ (b = true → P u) := by
  cases b <;> simp [lineIf]

theorem prologue_mentions (c : Config) : ∀ t ∈ textsOf (prologue c), Mentions Hook t := by
  have hstore : Mentions Hook "#define STORE_DATA(p1, p2, p3, p4, p5, p6)" :=
    mentions_literal [.symbol .store] (by decide +kernel) (by simp [Hook])
  have hstoreData : Mentions Hook ("#define STORE_DATA(p1, p2, p3, p4, p5, p6) " ++
      "\x7bStoreData(p1, p2, p3, RunCounter < 1, p4, p5, p6);\x7d") :=
    Mentions.append_closes (mentions_literal [.symbol .store] (by decide +kernel) (by simp [Hook]))
      (mentions_plain (by decide)) (by decide)
  have hquantize : Mentions Hook ("void quantize_layer_output(void *layer_data_base, " ++
      "void *layer_data_quantized, int size, int config = 0) \x7b\x7d;") :=
    Mentions.append_closes (mentions_plain (by decide)) (mentions_plain (by decide)) (by decide)
  have hinject : Mentions Hook ("void fault_injection(void *activation, int current_layer, " ++
      "int faulty_layer, int faulty_fmap, int faulty_bit) \x7b\x7d;") :=
    Mentions.append_closes (mentions_literal [.symbol .inject] (by decide +kernel) (by simp [Hook]))
      (mentions_plain (by decide)) (by decide)
  obtain ⟨hopen, hmiddle, hclose⟩ := mentions_guard (A := Hook) simulation (isSilent_ofList (by decide))
  obtain ⟨hopen', -, hclose'⟩ := mentions_guard (A := Hook) simulationNamed (isSilent_ofList (by decide))
  obtain ⟨hopenLinux, -, hcloseLinux⟩ :=
    mentions_guard (A := Hook) { name := "__linux__", endNamed := true } (isSilent_ofList (by decide))
  unfold prologue
  split
  · simp only [textsOf_append, textsOf_plainLines, textsOf_blank, textsOf_nil, List.append_nil, List.forall_mem_append,
      List.forall_mem_singleton]
    exact ⟨mentions_plain (by decide), mentions_plain (by decide)⟩
  · simp only [textsOf_append, textsOf_plainLines, textsOf_blank, textsOf_guarded, textsOf_guardedElse, textsOf_nil,
      List.forall_mem_append, List.forall_mem_cons, forall_textsOf_lineIf, List.not_mem_nil, false_imp_iff,
      implies_true, and_true, hopen, hmiddle, hclose, hopen', hclose', hopenLinux, hcloseLinux, hstore, hstoreData,
      hquantize, hinject, true_and]
    -- What is left are lines without a name, some of them under a setting.
    and_intros
    all_goals first
      | exact mentions_plain (by decide)
      | exact fun _ => mentions_plain (by decide)

theorem mem_definedBy_prologue {x : Symbol} (h : x.text ∈ definedBy on (prologue c)) : x = .store ∨ x = .inject := by
  obtain ⟨t, ht, hw⟩ := mem_definedBy _ h
  have hx := (prologue_mentions c t ht).symbol (List.mem_of_getElem? hw)
  simpa [Hook] using hx

/-! ## Functions and macros -/

theorem definedBy_activationFunction (a : Activation) :
    definedBy on (activationFunction a) = ((callee a).map Symbol.text).toList := by
  have hrelu : (words "DataType_relu relu(DataType_relu x)")[1]? = some Symbol.relu.text := by decide +kernel
  have hlinear : (words "DataType_relu linear(DataType_relu x)")[1]? = some Symbol.linear.text := by decide +kernel
  cases a with
  | relu => simp [activationFunction, definedBy, Piece.kept, Piece.defined?, hrelu, callee]
  | linear => simp [activationFunction, definedBy, Piece.kept, Piece.defined?, hlinear, callee]
  | none | softmax => rfl

theorem gather_intercalate {f : List Piece → List String} (hnil : f [] = [])
    (happend : ∀ ps qs, f (ps ++ qs) = f ps ++ f qs) (hblank : f [.blank 1] = []) (pss : List (List Piece)) :
    f ([Piece.blank 1].intercalate pss) = pss.flatMap f := by
  induction pss with
  | nil => exact hnil
  | cons ps pss ih =>
    cases pss with
    | nil => simp [List.intercalate]
    | cons qs pss =>
      have hcons : [Piece.blank 1].intercalate (ps :: qs :: pss) =
          ps ++ ([Piece.blank 1] ++ [Piece.blank 1].intercalate (qs :: pss)) := by
        simp [List.intercalate]
      rw [hcons, happend, happend, hblank, ih]
      rfl

theorem definedBy_activationFunctions :
    definedBy on (activationFunctions net) = (net.emittedActivations.filterMap callee).map Symbol.text := by
  have heach (as : List Activation) : as.flatMap (fun a => definedBy on (activationFunction a)) =
      (as.filterMap callee).map Symbol.text := by
    induction as with
    | nil => rfl
    | cons a as ih =>
      rw [List.flatMap_cons, ih, definedBy_activationFunction, List.filterMap_cons]
      cases callee a <;> rfl
  unfold activationFunctions
  dsimp only
  split
  · rename_i h
    rw [List.isEmpty_iff.mp h]
    rfl
  · rw [definedBy_append, definedBy_blank, definedBy_nil, List.append_nil,
      gather_intercalate definedBy_nil definedBy_append rfl, List.flatMap_map, heach]

theorem macroIn_multiplierName (name : String) :
    macroIn ("#define MULTIPLIER_NAME " ++ name) = some "MULTIPLIER_NAME" := by
  have hbegin : "#define MULTIPLIER_NAME " = "#define " ++ "MULTIPLIER_NAME" ++ " " := rfl
  have htext : "#define MULTIPLIER_NAME " ++ name = "#define " ++ "MULTIPLIER_NAME" ++ (" " ++ name) :=
    (congrArg (· ++ name) hbegin).trans String.append_assoc
  rw [htext]
  exact macroIn_define (words_eq_singleton (by decide) (List.all_eq_true.mp (by decide)))
    (opens_append (by decide) (by decide) _)

theorem map_snd_mask (net : Network) (c : Config) :
    ((multiplierMask net c).zip (net.weighted.map (·.2))).map Prod.snd = net.weighted.map (·.2) := by
  apply List.map_snd_zip
  simp [multiplierMask]

theorem definedBy_choice (exact : Bool) (p : Char → Bool) (chosen : List (Char × Nat)) :
    definedBy on (chosen.map fun x => .line (.multiplierChoice x.2 exact (p x.1))) =
      (chosen.filter fun x => p x.1).map fun x => (Symbol.multiplier x.2).text := by
  induction chosen with
  | nil => rfl
  | cons x chosen ih =>
    rw [List.map_cons, definedBy_line, ih, macroIn_choice]
    by_cases hp : p x.1 = true
    · rw [if_pos hp, List.filter_cons, if_pos hp]
      rfl
    · rw [if_neg hp, List.filter_cons, if_neg hp]
      rfl

theorem definedBy_choices (chosen : List (Char × Nat)) :
    (definedBy on (chosen.map (fun x => Piece.line (.multiplierChoice x.2 false (x.1 == '1'))) ++
      chosen.map fun x => Piece.line (.multiplierChoice x.2 true (x.1 != '1')))).Perm
      (chosen.map fun x => (Symbol.multiplier x.2).text) := by
  rw [definedBy_append, definedBy_choice false (· == '1'), definedBy_choice true (· != '1'), ← List.map_append]
  exact (List.filter_append_perm (fun x : Char × Nat => x.1 == '1') chosen).map _

theorem definedBy_calls (numbers : List Nat) :
    definedBy on (numbers.map fun n => .line (.multiplierCall n)) =
      numbers.map fun n => (Symbol.multiplier n).text := by
  induction numbers with
  | nil => rfl
  | cons n numbers ih =>
    rw [List.map_cons, definedBy_line, ih, macroIn_call]
    rfl

theorem definedBy_multipliers (net : Network) (hc : c.approximate = true) (on : String → Bool) :
    ∃ others : List String, (∀ w ∈ others, isNeutral w.toList = true) ∧
      (definedBy on (multipliers net c)).Perm (others ++ net.weighted.map fun x => (Symbol.multiplier x.2).text) := by
  have hinclude : macroIn "#include \"multipliers.h\"" = none := by decide +kernel
  have hfixed : ["#define MULTIPLIER_BASE mul_base", "#define MULTIPLIER_EXACT mul8s_1KV6"].filterMap macroIn =
      ["MULTIPLIER_BASE", "MULTIPLIER_EXACT"] := by
    decide +kernel
  have hlookup : macroIn ("#define MUL_LAYER(a, b, layer_id) (mul_general<int16_t>(a, b, layer_id, " ++
      "arguments[\"mul-name\"], arguments[\"mul-layers-config\"]))") = some "MUL_LAYER" := by
    decide +kernel
  have hneutral : ∀ w ∈ ["MULTIPLIER_BASE", "MULTIPLIER_EXACT", "MULTIPLIER_NAME", "MUL_LAYER"],
      isNeutral w.toList = true := by
    decide +kernel
  have hnumbers : (net.weighted.map (·.2)).map (fun n => (Symbol.multiplier n).text) =
      net.weighted.map fun x => (Symbol.multiplier x.2).text := by
    rw [List.map_map]
    rfl
  unfold multipliers
  rw [if_neg (by simp [hc])]
  simp only [definedBy_append, definedBy_plainLines, definedBy_blank, definedBy_nil, List.append_nil, hfixed,
    List.filterMap_cons, List.filterMap_nil, hinclude, macroIn_multiplierName, List.nil_append]
  rw [definedBy_cons, definedBy_guardedElse, definedBy_blank, definedBy_nil, List.append_nil]
  by_cases hs : on "_HLS_RUN" = false
  · refine ⟨["MULTIPLIER_BASE", "MULTIPLIER_EXACT", "MULTIPLIER_NAME", "MUL_LAYER"], hneutral, ?_⟩
    rw [if_pos hs, definedBy_append, definedBy_plainLines, definedBy_calls, hnumbers, List.filterMap_cons, hlookup]
    exact List.Perm.refl _
  · have hmask : ((multiplierMask net c).zip (net.weighted.map (·.2))).map (fun x => (Symbol.multiplier x.2).text) =
        net.weighted.map fun x => (Symbol.multiplier x.2).text := by
      conv_rhs => rw [← hnumbers, ← map_snd_mask net c]
      rw [List.map_map]
      rfl
    refine ⟨["MULTIPLIER_BASE", "MULTIPLIER_EXACT", "MULTIPLIER_NAME"], fun w hw => hneutral w ?_, ?_⟩
    · exact List.mem_append_left ["MUL_LAYER"] hw
    · rw [if_neg hs, ← hmask]
      exact List.Perm.append_left _ (definedBy_choices _)

theorem quantizationMacros_mentions {A : Name → Prop} (c : Config) :
    ∀ t ∈ textsOf (quantizationMacros c), Mentions A t := by
  unfold quantizationMacros
  split
  · simp only [textsOf_append, textsOf_plainLines, textsOf_blank, textsOf_nil, List.append_nil, List.forall_mem_cons]
    exact ⟨mentions_plain (by decide), mentions_plain (by decide), mentions_plain (by decide),
      List.forall_mem_nil _⟩
  · exact List.forall_mem_nil _

def macroSymbols (net : Network) (c : Config) : List Symbol :=
  net.emittedActivations.filterMap callee ++
    if c.approximate then net.weighted.map fun x => Symbol.multiplier x.2 else []

theorem count_definedBy {x : Symbol} (hstore : x ≠ .store) (hinject : x ≠ .inject) (on : String → Bool) :
    (definedBy on (prologue c ++ (activationFunctions net ++ quantizationMacros c ++ multipliers net c))).count x.text =
      (macroSymbols net c).count x := by
  have hprologue : (definedBy on (prologue c)).count x.text = 0 := by
    rw [List.count_eq_zero]
    intro h
    rcases mem_definedBy_prologue h with h | h
    · exact hstore h
    · exact hinject h
  have hquantization : (definedBy on (quantizationMacros c)).count x.text = 0 := by
    rw [List.count_eq_zero]
    intro h
    obtain ⟨t, ht, hw⟩ := mem_definedBy _ h
    exact (quantizationMacros_mentions (A := fun _ => False) c t ht).symbol (List.mem_of_getElem? hw)
  have hmultipliers : (definedBy on (multipliers net c)).count x.text =
      (if c.approximate then net.weighted.map fun y => Symbol.multiplier y.2 else []).count x := by
    split
    · rename_i hc
      obtain ⟨others, hneutral, hperm⟩ := definedBy_multipliers net hc on
      have hothers : others.count x.text = 0 := by
        rw [List.count_eq_zero]
        intro h
        exact absurd (hneutral _ h) (by simp [x.not_neutral])
      have hmap : (net.weighted.map fun y => (Symbol.multiplier y.2).text) =
          (net.weighted.map fun y => Symbol.multiplier y.2).map Symbol.text := by
        rw [List.map_map]
        rfl
      rw [hperm.count_eq, List.count_append, hothers, hmap, List.count_map_of_injective _ _ Symbol.text_injective,
        Nat.zero_add]
    · rename_i hc
      rw [multipliers, if_pos (by simpa using hc)]
      rfl
  rw [macroSymbols, definedBy_append, definedBy_append, definedBy_append, List.count_append, List.count_append,
    List.count_append, hprologue, hquantization, hmultipliers, definedBy_activationFunctions,
    List.count_map_of_injective _ _ Symbol.text_injective, List.count_append]
  omega

theorem callee_cases {a : Activation} {x : Symbol} (h : x ∈ callee a) : x = .relu ∨ x = .linear := by
  cases a with
  | relu =>
    cases h
    exact .inl rfl
  | linear =>
    cases h
    exact .inr rfl
  | none | softmax => cases h

theorem macroSymbols_cases {x : Symbol} (h : x ∈ macroSymbols net c) :
    (x = .relu ∨ x = .linear) ∨ ∃ n, x = .multiplier n := by
  rcases List.mem_append.mp h with h | h
  · obtain ⟨a, -, ha⟩ := List.mem_filterMap.mp h
    exact .inl (callee_cases ha)
  · split at h
    · obtain ⟨y, -, rfl⟩ := List.mem_map.mp h
      exact .inr ⟨y.2, rfl⟩
    · cases h

theorem macroSymbols_nodup (net : Network) (c : Config) : (macroSymbols net c).Nodup := by
  have hmultipliers : (net.weighted.map fun x => Symbol.multiplier x.2).Nodup := by
    have hmap : (net.weighted.map fun x => Symbol.multiplier x.2) =
        (net.weighted.map Prod.snd).map Symbol.multiplier := by
      rw [List.map_map]
      rfl
    rw [hmap]
    exact net.weighted_nodup.map fun _ _ h => Symbol.multiplier.inj h
  have hfunctions : (net.emittedActivations.filterMap callee).Nodup := by
    have hall : ([Activation.relu, .linear].filterMap callee).Nodup := by decide
    exact hall.sublist (List.filter_sublist.filterMap callee)
  refine List.Nodup.append hfunctions ?_ ?_
  · split
    · exact hmultipliers
    · exact List.nodup_nil
  · intro x hx hx'
    split at hx'
    · obtain ⟨y, -, rfl⟩ := List.mem_map.mp hx'
      obtain ⟨a, -, ha⟩ := List.mem_filterMap.mp hx
      rcases callee_cases ha with h | h <;> cases h
    · cases hx'

theorem mem_macroSymbols_activation {l : Layer} {n : Nat} (hmem : (l, n) ∈ net.numbered) {x : Symbol}
    (hx : x ∈ callee (net.emitted n l.activation)) : x ∈ macroSymbols net c := by
  refine List.mem_append_left _ (List.mem_filterMap.mpr ⟨_, ?_, hx⟩)
  refine List.mem_filter.mpr ⟨?_, ?_⟩
  · generalize net.emitted n l.activation = a at hx
    cases a with
    | relu | linear => decide
    | none | softmax => cases hx
  · exact List.contains_iff_mem.mpr (List.mem_map.mpr ⟨(l, n), hmem, rfl⟩)

theorem mem_macroSymbols_multiplier (hc : c.approximate = true) {l : Layer} {n : Nat} (hmem : (l, n) ∈ net.weighted) :
    .multiplier n ∈ macroSymbols net c := by
  refine List.mem_append_right _ ?_
  rw [if_pos hc]
  exact List.mem_map.mpr ⟨(l, n), hmem, rfl⟩

end Forward

end LayerLoops
