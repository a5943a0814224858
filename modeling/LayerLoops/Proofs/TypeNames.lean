import LayerLoops.Proofs.Buffers
import LayerLoops.Proofs.Macros
import LayerLoops.Proofs.Vocabulary

/-! # The types that generated code refers to

The generated function, its parameters and the buffers of the host have types that the header of data types defines,
once for each enabled mode. Under quantization there are further types, for narrow results and for factors, which only
single fixed-point mode defines. -/

namespace LayerLoops

variable {p : Program}

open Code Text

/-! ## What lines mention -/

namespace Code

variable {n : Nat} (b : Buffer) {A : Name → Prop}

theorem mentions_intercalate {ts : List String} (h : ∀ t ∈ ts, Mentions A t) : Mentions A (", ".intercalate ts) := by
  intro w hw
  rw [words_intercalate (by decide) (by decide) (by decide) (by decide)] at hw
  obtain ⟨t, ht, hw⟩ := List.mem_flatMap.mp hw
  exact h t ht w hw

theorem Mentions.type {s : String} (h : Mentions A s) {w : String} (hw : w ∈ words s)
    (hbegin : "DataType".toList <+: w.toList) : ∃ t, A (.type t) ∧ t.text = w := by
  rcases h w hw with ⟨n, hn, rfl⟩ | hneutral
  · cases n with
    | type t => exact ⟨t, hn, rfl⟩
    | symbol x => exact absurd hbegin x.not_typed
  · have htyped : ['D', 'a', 't', 'a', 'T', 'y', 'p', 'e'].isPrefixOf w.toList = true :=
      List.isPrefixOf_iff_prefix.mpr hbegin
    rw [isNeutral, htyped] at hneutral
    cases hneutral

theorem isNeutral_source : isNeutral (b.text ++ "_src").toList = true := by
  have hshapes : ∀ y ∈ Symbol.shapes, ¬ "DataType".toList <+: y.1 ++ "_src".toList ∧
      ∀ z ∈ Symbol.shapes, y.1 ++ "_src".toList ≠ z.1 := by
    decide +kernel
  have hsrc : stem "_src".toList = "_src".toList := by decide
  have hstem : stem (b.text ++ "_src").toList = (Symbol.buffer b).stem.toList ++ "_src".toList := by
    rw [String.toList_append, stem_append, hsrc]
    exact congrArg (· ++ "_src".toList) (Symbol.stem_text (.buffer b))
  obtain ⟨htyped, hother⟩ := hshapes _ (Symbol.shape_mem (.buffer b))
  have hbegin : ['D', 'a', 't', 'a', 'T', 'y', 'p', 'e'].isPrefixOf (b.text ++ "_src").toList = false := by
    rw [Bool.eq_false_iff]
    intro h
    have hfilter : stem "DataType".toList <+: stem (b.text ++ "_src").toList :=
      ( List.isPrefixOf_iff_prefix.mp h).filter _
    rw [hstem] at hfilter
    exact htyped hfilter
  have hshape : Symbol.shapes.contains
      (stem (b.text ++ "_src").toList, (digits (b.text ++ "_src").toList).isEmpty) = false := by
    rw [Bool.eq_false_iff, Ne, List.contains_iff_mem, hstem]
    intro h
    exact hother _ h rfl
  rw [isNeutral, hbegin, hshape]
  rfl

theorem mentions_host : Mentions A (b.text ++ "_src") := by
  have hall : (b.text ++ "_src").toList.all isWordChar = true :=
    all_wordChar_append (Symbol.all_wordChar (.buffer b)) (by decide)
  intro w hw
  rw [words_eq_singleton (by simp) (List.all_eq_true.mp hall), List.mem_singleton] at hw
  rw [hw]
  exact .inr (isNeutral_source b)

theorem mentions_source {d : Declaration} (h : A (.type d.type)) : Mentions A (Line.source d).text := by
  have hdims := mentions_dims (A := A) d.dims
  have hhead : Mentions A (d.type.text ++ " " ++ d.buffer.text ++ "_src") := by
    rw [String.append_assoc]
    exact (mentions_name h).glue (by decide) (mentions_host d.buffer)
  exact (hhead.append_opens hdims.1 hdims.2).stop (by decide)

theorem mentions_voidSource : Mentions A (Line.voidSource b).text := by
  have htext : (Line.voidSource b).text = "void *" ++ (b.text ++ "_src") ++ ";" := by
    have hend : "_src;" = "_src" ++ ";" := rfl
    change "void *" ++ b.text ++ "_src;" = _
    rw [String.append_assoc, hend, ← String.append_assoc, ← String.append_assoc, ← String.append_assoc]
  rw [htext]
  exact ((mentions_host b).start (isSilent_ofList (by decide)) (by decide)).stop (by decide)

theorem mentions_arrayTypedef {t : TypeName} (h : A (.type t)) {name : String} (hname : isSilent name = true)
    (dims : List (Option Int)) : Mentions A (Line.arrayTypedef t name dims).text := by
  have hdims := mentions_dims (A := A) dims
  have htype : Mentions A ("typedef " ++ t.text) :=
    Mentions.start (isSilent_ofList (by decide)) (by decide) (mentions_name (n := .type t) h)
  exact ((htype.glue (by decide) (mentions_silent hname)).append_opens hdims.1 hdims.2).stop (by decide)

theorem mem_words_arrayTypedef (t : TypeName) (name : String) (dims : List (Option Int)) :
    t.text ∈ words (Line.arrayTypedef t name dims).text := by
  have hopens : opens (dimsText dims) = true := (mentions_dims (A := fun _ => True) dims).2
  have htype : t.text ∈ words ("typedef " ++ t.text) := by
    rw [words_append_of_closes (by decide)]
    exact List.mem_append_right _ (words_name (.type t) ▸ List.mem_singleton_self _)
  have hname : t.text ∈ words ("typedef " ++ t.text ++ " " ++ name) :=
    mem_words_glue " " (by decide) (by decide) (by decide) name htype
  have hdims : t.text ∈ words ("typedef " ++ t.text ++ " " ++ name ++ dimsText dims) := by
    rw [words_append_of_opens _ hopens]
    exact List.mem_append_left _ hname
  have hend : opens ";" = true := by decide
  exact words_append_of_opens _ hend ▸ List.mem_append_left _ hdims

theorem mentions_defineMultiplier (h : A (.symbol (.multiplier n))) :
    Mentions A ("#define MUL_LAYER_" ++ toString n) := by
  have hname : Mentions A (Name.symbol (.multiplier n)).text := mentions_name h
  rw [define_multiplier]
  exact hname.start (isSilent_ofList (by decide)) (by decide)

theorem mentions_multiplierCall (h : A (.symbol (.multiplier n))) : Mentions A (Line.multiplierCall n).text :=
  ((mentions_defineMultiplier h).glueText (isSilent_ofList (by decide)) (by decide) (by decide) (by decide)
    (mentions_nat n)).stop (by decide)

theorem mentions_multiplierChoice (h : A (.symbol (.multiplier n))) (exact active : Bool) :
    Mentions A (Line.multiplierChoice n exact active).text := by
  have hsign : Mentions A (if active then "" else "//") ∧ closes (if active then "" else "//") = true := by
    cases active with
    | true => exact ⟨mentions_silent (by decide), by decide⟩
    | false => exact ⟨mentions_silent (by decide), by decide⟩
  have hvalue : Mentions A (if exact then "MULTIPLIER_EXACT" else "MULTIPLIER_NAME") := by
    cases exact with
    | true => exact mentions_plain (by decide)
    | false => exact mentions_plain (by decide)
  have hdefine : Mentions A ("#define MUL_LAYER_" ++ toString n ++ " ") :=
    (mentions_defineMultiplier h).stop (by decide)
  exact (hsign.1.append_closes hdefine hsign.2).append_closes hvalue
    (closes_append _ (by simp) (closes_append _ (by decide) (by decide)))

theorem mentions_group {g : Group} (h : ∀ x ∈ g.declarations, A (.type x.1.type) ∧ A (.symbol (.buffer x.1.buffer))) :
    Mentions A g.text := by
  cases g with
  | faults => exact mentions_plain (by decide)
  | declared ds active =>
    have hbody : Mentions A (", ".intercalate (ds.map Declaration.text)) := by
      apply mentions_intercalate
      intro t ht
      obtain ⟨d, hd, rfl⟩ := List.mem_map.mp ht
      obtain ⟨htype, hbuffer⟩ := h (d, active) (List.mem_map.mpr ⟨d, hd, rfl⟩)
      exact mentions_declaration htype hbuffer
    cases active with
    | true => exact hbody.start (by decide) (by decide)
    | false => exact (hbody.start (by decide) (by decide)).stop (by decide)

theorem textsOf_lines {α : Type} (f : α → Line) (xs : List α) :
    textsOf (xs.map fun x => .line (f x)) = xs.map fun x => (f x).text := by
  induction xs with
  | nil => rfl
  | cons x xs ih => exact congrArg ((f x).text :: ·) ih

theorem textsOf_flatten (pss : List (List Piece)) : textsOf pss.flatten = pss.flatMap textsOf := by
  induction pss with
  | nil => rfl
  | cons ps pss ih => rw [List.flatten_cons, textsOf_append, ih, List.flatMap_cons]

end Code

/-! ## What the sections of the header define -/

namespace Code

def Piece.typedef? : Piece → Option TypeName
  | .line (.typedef _ t _) => some t
  | _ => none

def typesIn (ps : List Piece) : List TypeName := ps.filterMap Piece.typedef?

@[simp] theorem typesIn_nil : typesIn [] = [] := rfl

@[simp] theorem typesIn_append (ps qs : List Piece) : typesIn (ps ++ qs) = typesIn ps ++ typesIn qs :=
  List.filterMap_append

@[simp] theorem typesIn_typedef (m : Meaning) (t : TypeName) (ps : List Piece) :
    typesIn (DataTypes.typedef m t :: ps) = t :: typesIn ps := rfl

@[simp] theorem typesIn_blank (n : Nat) (ps : List Piece) : typesIn (.blank n :: ps) = typesIn ps := rfl

@[simp] theorem typesIn_plainLines (ts : List String) : typesIn (plainLines ts) = [] := by
  rw [typesIn, List.filterMap_eq_nil_iff]
  intro p hp
  obtain ⟨t, -, rfl⟩ := List.mem_map.mp hp
  rfl

def TypeName.isQuantized : TypeName → Bool
  | narrowResult _ | inputZeroPoint | outputZeroPoint | inputScale | outputScale | weightScale => true
  | _ => false

theorem TypeName.text_ne_narrowFinal {t : TypeName} (h : t.isQuantized = false) :
    t.text ≠ (TypeName.narrowResult .final).text := by
  have hstem {a : String} (ha : stem a.toList ≠ (TypeName.narrowResult .final).text.toList) (n : Nat) :
      a ++ toString n ≠ (TypeName.narrowResult .final).text := by
    have hfinal : stem (TypeName.narrowResult .final).text.toList = (TypeName.narrowResult .final).text.toList := by
      decide +kernel
    intro htext
    have hdigits := stem_numbered a n
    rw [htext, hfinal] at hdigits
    exact ha hdigits.symm
  cases t with
  | result p =>
    cases p with
    | final => decide +kernel
    | inner n =>
      have htext : (TypeName.result (.inner n)).text = "DataType_" ++ "Layer" ++ toString n := String.append_assoc.symm
      rw [htext]
      exact hstem (by decide +kernel) n
  | sum n => exact hstem (by decide +kernel) n
  | wide | narrow | relu | input | weights | biases => decide +kernel
  | narrowResult | inputZeroPoint | outputZeroPoint | inputScale | outputScale | weightScale => cases h

end Code

namespace DataTypes

variable {x : String × List Piece} {net : Network} {c : Config} {profile : String} {t : TypeName}

/-- The types that generated code refers to. -/
inductive Uses (net : Network) (c : Config) : TypeName → Prop
  | common {t : TypeName} : t ∈ [.relu, .input, .weights, .biases] → Uses net c t
  | sum {l : Layer} {n : Nat} : (l, n) ∈ net.numbered → l.weighted = true → Uses net c (.sum n)
  | result {l : Layer} {n : Nat} : (l, n) ∈ net.numbered → Uses net c (.result (place net n))
  | narrowResult {l : Layer} {n : Nat} : c.quantized = true → (l, n) ∈ net.numbered →
      Uses net c (.narrowResult (place net n))
  | factor {t : TypeName} : c.quantized = true →
      t ∈ [.inputZeroPoint, .outputZeroPoint, .inputScale, .outputScale, .weightScale] → Uses net c t

theorem mem_uniform_iff {m : Meaning} : t ∈ typesIn (uniform net m) ↔
    ∃ l n, (l, n) ∈ net.numbered ∧ (l.weighted = true ∧ t = .sum n ∨ t = .result (place net n)) := by
  rw [typesIn, uniform, List.filterMap_flatMap, List.mem_flatMap]
  constructor
  · rintro ⟨⟨l, n⟩, hmem, ht⟩
    refine ⟨l, n, hmem, ?_⟩
    change t ∈ typesIn _ at ht
    cases hw : l.weighted <;> simpa [hw] using ht
  · rintro ⟨l, n, hmem, ht⟩
    refine ⟨(l, n), hmem, ?_⟩
    change t ∈ typesIn _
    cases hw : l.weighted <;> simpa [hw] using ht

theorem typesIn_fixedInclude (c : Config) : typesIn (fixedInclude c) = [] := by
  cases hc : c.mainFunction <;> simp [fixedInclude, hc, typesIn, Piece.typedef?, plainLines]

theorem typesIn_fixedMulti : typesIn (fixedMulti net c profile) =
    [TypeName.relu, .input, .weights, .biases] ++ typesIn (uniform net (.fixed true)) := by
  have hsizes : typesIn (sizes profile) = [] := rfl
  simp [fixedMulti, typesIn_fixedInclude, hsizes]

theorem typesIn_floating : typesIn (floating net) =
    [TypeName.relu, .input, .biases, .weights] ++ typesIn (uniform net .float) := by
  simp [floating]

theorem mem_singleLayer_iff {l : Layer} {n : Nat} : t ∈ typesIn (singleLayer net c l n) ↔
    l.weighted = true ∧ t = .sum n ∨ t = .result (place net n) ∨
      c.quantized = true ∧ t = .narrowResult (place net n) := by
  cases hw : l.weighted <;> cases hq : c.quantized <;> simp [singleLayer, hw, hq]

theorem mem_fixedSingle (hu : Uses net c t) : t ∈ typesIn (fixedSingle net c profile) := by
  have hlayer {l : Layer} {n : Nat} (hmem : (l, n) ∈ net.numbered) (ht : t ∈ typesIn (singleLayer net c l n)) :
      t ∈ typesIn (net.numbered.flatMap fun x => singleLayer net c x.1 x.2) := by
    rw [typesIn, List.filterMap_flatMap]
    exact List.mem_flatMap.mpr ⟨(l, n), hmem, ht⟩
  rw [fixedSingle, typesIn_append, typesIn_append, typesIn_append, List.mem_append, List.mem_append, List.mem_append]
  cases hu with
  | common ht => exact .inl (.inl (.inr (by simpa using ht)))
  | sum hmem hw => exact .inl (.inr (hlayer hmem (mem_singleLayer_iff.mpr (.inl ⟨hw, rfl⟩))))
  | result hmem => exact .inl (.inr (hlayer hmem (mem_singleLayer_iff.mpr (.inr (.inl rfl)))))
  | narrowResult hq hmem => exact .inl (.inr (hlayer hmem (mem_singleLayer_iff.mpr (.inr (.inr ⟨hq, rfl⟩)))))
  | factor hq ht =>
    right
    rw [if_pos hq, typesIn_append, typesIn_append, typesIn_blank, typesIn_plainLines]
    exact ht

/-- The section of single fixed-point mode. -/
def single : String := "FIXEDPOINT_DATATYPE_SINGLE"

theorem floating_ne_single : "FLOAT_DATATYPE" ≠ single := by decide

theorem mem_modes (h : x ∈ modes net c profile) : x = (single, fixedSingle net c profile) ∨
      x.1 ≠ single ∧ ∃ m, (typesIn x.2).Perm
        ([TypeName.relu, .input, .weights, .biases] ++ typesIn (uniform net m)) := by
  have hmulti : "FIXEDPOINT_DATATYPE_MULTI" ≠ single := by decide
  simp only [modes, List.mem_append] at h
  rcases h with (h | h) | h
  · split at h
    · cases List.mem_singleton.mp h
      refine .inr ⟨floating_ne_single, .float, ?_⟩
      rw [typesIn_floating]
      exact List.Perm.append_right _ (by decide)
    · cases h
  · split at h
    · exact .inl (List.mem_singleton.mp h)
    · cases h
  · split at h
    · cases List.mem_singleton.mp h
      refine .inr ⟨hmulti, .fixed true, ?_⟩
      rw [typesIn_fixedMulti]
    · cases h

theorem Uses.mem_typesIn (hu : Uses net c t) (hx : x ∈ modes net c profile) (hq : t.isQuantized = true → x.1 = single) :
    t ∈ typesIn x.2 := by
  rcases mem_modes hx with rfl | ⟨hne, m, hperm⟩
  · exact mem_fixedSingle hu
  · rw [hperm.mem_iff, List.mem_append]
    cases hu with
    | common ht => exact .inl ht
    | sum hmem hw => exact .inr (mem_uniform_iff.mpr ⟨_, _, hmem, .inl ⟨hw, rfl⟩⟩)
    | result hmem => exact .inr (mem_uniform_iff.mpr ⟨_, _, hmem, .inr rfl⟩)
    | narrowResult => exact absurd (hq rfl) hne
    | factor _ ht =>
      have hquantized : ∀ u ∈ [TypeName.inputZeroPoint, .outputZeroPoint, .inputScale, .outputScale, .weightScale],
          u.isQuantized = true := by
        decide
      exact absurd (hq (hquantized t ht)) hne

theorem Uses.quantized (hu : Uses net c t) (ht : t.isQuantized = true) : c.quantized = true := by
  cases hu with
  | common hmem =>
    have hcommon : ∀ u ∈ [TypeName.relu, .input, .weights, .biases], u.isQuantized = false := by decide
    rw [hcommon t hmem] at ht
    cases ht
  | sum => cases ht
  | result => cases ht
  | narrowResult hq => exact hq
  | factor hq => exact hq

theorem isQuantized_of_mem_typesIn (hx : x ∈ modes net c profile) (hne : x.1 ≠ single) (ht : t ∈ typesIn x.2) :
    t.isQuantized = false := by
  rcases mem_modes hx with rfl | ⟨-, m, hperm⟩
  · exact absurd rfl hne
  · rw [hperm.mem_iff, List.mem_append] at ht
    rcases ht with ht | ht
    · have hcommon : ∀ u ∈ [TypeName.relu, .input, .weights, .biases], u.isQuantized = false := by decide
      exact hcommon t ht
    · obtain ⟨l, n, -, ⟨-, rfl⟩ | rfl⟩ := mem_uniform_iff.mp ht
      · rfl
      · rfl

end DataTypes

/-! ## What the files mention -/

/-- Any symbol, and the types that the header is to define. -/
def DataTypes.Known (net : Network) (c : Config) : Name → Prop
  | .type t => DataTypes.Uses net c t
  | .symbol _ => True

namespace Forward

open DataTypes (Known)

variable {net : Network} {c : Config} {orders : List LoopOrder} {profile : String}

theorem activationFunctions_mentions : ∀ t ∈ textsOf (activationFunctions net), Mentions (Known net c) t := by
  have hrelu : DataTypes.Uses net c .relu := .common (by simp)
  have heach (a : Activation) : ∀ t ∈ textsOf (activationFunction a), Mentions (Known net c) t := by
    cases a with
    | relu =>
      simp only [activationFunction, textsOf_function, textsOf_nil, List.forall_mem_cons]
      exact ⟨mentions_literal [.type .relu, .symbol .relu] (by decide +kernel) (by simp [hrelu, Known]),
        mentions_literal [.type .relu] (by decide +kernel) (by simp [hrelu, Known]), List.forall_mem_nil _⟩
    | linear =>
      simp only [activationFunction, textsOf_function, textsOf_nil, List.forall_mem_cons]
      exact ⟨mentions_literal [.type .relu, .symbol .linear] (by decide +kernel) (by simp [hrelu, Known]),
        mentions_plain (by decide), List.forall_mem_nil _⟩
    | none | softmax => exact List.forall_mem_nil _
  unfold activationFunctions
  dsimp only
  split
  · exact List.forall_mem_nil _
  · rw [textsOf_append, textsOf_blank, textsOf_nil, List.append_nil,
      gather_intercalate textsOf_nil textsOf_append rfl, List.flatMap_map]
    intro t ht
    obtain ⟨a, -, hta⟩ := List.mem_flatMap.mp ht
    exact heach a t hta

def multiplierLine (c : Config) : String := "#define MULTIPLIER_NAME " ++ multiplierName c.multiplier

theorem words_multiplierLine (c : Config) :
    words (multiplierLine c) = ["define", "MULTIPLIER_NAME"] ++ words (multiplierName c.multiplier) := by
  have hdefine : words "#define MULTIPLIER_NAME " = ["define", "MULTIPLIER_NAME"] := by decide
  have hcloses : closes "#define MULTIPLIER_NAME " = true := by decide
  exact (words_append_of_closes hcloses _).trans (congrArg (· ++ words (multiplierName c.multiplier)) hdefine)

/-- The macros of multipliers mention no type, unless the configured multiplier does. -/
theorem multipliers_mentions : ∀ t ∈ textsOf (multipliers net c),
    Mentions (Known net c) t ∨ c.approximate = true ∧ t = multiplierLine c := by
  unfold multipliers
  by_cases hc : c.approximate = true
  · rw [if_neg (by simp [hc])]
    obtain ⟨hopen, hmiddle, hclose⟩ := mentions_guard (A := Known net c)
      { name := "_HLS_RUN", elseNamed := true, endNamed := true } (isSilent_ofList (by decide))
    have hlookup : Mentions (Known net c) ("#define MUL_LAYER(a, b, layer_id) (mul_general<int16_t>(a, b, layer_id, " ++
        "arguments[\"mul-name\"], arguments[\"mul-layers-config\"]))") :=
      Mentions.append_closes (mentions_plain (by decide)) (mentions_plain (by decide)) (by decide)
    have hline : "#define MULTIPLIER_NAME " ++ multiplierName c.multiplier = multiplierLine c := rfl
    simp only [textsOf_append, textsOf_plainLines, textsOf_blank, textsOf_nil, textsOf_guardedElse, textsOf_lines,
      List.forall_mem_append, List.forall_mem_cons, List.forall_mem_map, List.append_nil, hline, hc, hopen, hmiddle,
      hclose, hlookup, true_or, or_true, true_and, and_true, List.not_mem_nil, false_imp_iff, implies_true]
    exact ⟨⟨.inl (mentions_plain (by decide)), .inl (mentions_plain (by decide)),
      .inl (mentions_plain (by decide))⟩, fun _ _ => .inl (mentions_multiplierCall trivial),
      fun _ _ => .inl (mentions_multiplierChoice trivial _ _), fun _ _ => .inl (mentions_multiplierChoice trivial _ _)⟩
  · rw [if_pos (by simp [hc])]
    exact List.forall_mem_nil _

theorem site_place {l : Layer} {n : Nat} {s : Site} (h : site net c orders profile l n = .ok s) :
    s.place = DataTypes.place net n := by
  obtain ⟨hnet, hnumber, -, -⟩ := site_fields h
  rw [Site.place, Site.isLast, hnet, hnumber]
  rfl

theorem site_outputType {l : Layer} {n : Nat} {s : Site} (hmem : (l, n) ∈ net.numbered)
    (h : site net c orders profile l n = .ok s) : DataTypes.Uses net c s.outputType := by
  obtain ⟨-, -, -, hconfig⟩ := site_fields h
  rw [Site.outputType, Site.narrowType, Site.type, site_place h, hconfig]
  by_cases hq : c.quantized = true
  · rw [if_pos hq]
    exact .narrowResult hq hmem
  · rw [if_neg hq]
    exact .result hmem

theorem Signature.uses {d : Declaration} {active : Bool} (h : Signature net c orders profile d active) :
    DataTypes.Uses net c d.type := by
  cases h with
  | factor hq _ ht =>
    simp only [factorTypes, List.mem_cons, Prod.mk.injEq, List.not_mem_nil, or_false] at ht
    rcases ht with ⟨rfl, -⟩ | ⟨rfl, -⟩ | ⟨rfl, -⟩ | ⟨rfl, -⟩ <;> exact .factor hq (by simp)
  | scales hq => exact .factor hq (by simp)
  | weights => exact .common (by simp)
  | biases => exact .common (by simp)
  | between _ hmem hs => exact site_outputType (List.mem_of_mem_dropLast hmem) hs

theorem Uses.known {layers : List (Layer × Nat)} (hlayers : emittedLayers net c = .ok layers) {x : Name}
    (h : Uses net c orders profile layers x) : Known net c x := by
  cases h with
  | layer hmem hs hx =>
    have hnumbered := (mem_emittedLayers hlayers hmem).1
    obtain ⟨-, hnumber, hlayer, -⟩ := site_fields hs
    cases hx with
    | type =>
      change DataTypes.Uses net c (.result _)
      rw [site_place hs]
      exact .result hnumbered
    | outputType => exact site_outputType hnumbered hs
    | sumType hw =>
      rw [hlayer] at hw
      rw [hnumber]
      exact .sum hnumbered hw
    | _ => trivial
  | _ => trivial

theorem uses_final (hne : net.numbered ≠ []) : DataTypes.Uses net c (.result .final) ∧
    (c.quantized = true → DataTypes.Uses net c (.narrowResult .final)) := by
  have hsize : 0 < net.layers.length := by
    obtain ⟨x, hx⟩ := List.exists_mem_of_ne_nil _ hne
    obtain ⟨-, hget⟩ := Network.mem_numbered_iff.mp hx
    exact List.length_pos_of_mem (List.mem_of_getElem? hget)
  have hlast : (net.layers[net.layers.length - 1], net.layers.length) ∈ net.numbered :=
    Network.mem_numbered_iff.mpr ⟨hsize, List.getElem?_eq_getElem _⟩
  have hplace : DataTypes.place net net.layers.length = .final := by
    rw [DataTypes.place, Network.isLast, Network.size, beq_self_eq_true, if_pos rfl]
  have hresult := DataTypes.Uses.result (c := c) hlast
  have hnarrow (hq : c.quantized = true) := DataTypes.Uses.narrowResult hq hlast
  rw [hplace] at hresult
  refine ⟨hresult, fun hq => ?_⟩
  have hfinal := hnarrow hq
  rwa [hplace] at hfinal

theorem interfaceTypes_mentions (hne : net.numbered ≠ []) {first last : Layer} {types : List Line}
    (h : interfaceTypes c first last = .ok types) : ∀ l ∈ types, Mentions (Known net c) l.text := by
  simp only [interfaceTypes, bind_eq_ok, pure_eq_ok] at h
  obtain ⟨i, -, o, -, rfl⟩ := h
  obtain ⟨hresult, hnarrow⟩ := uses_final (c := c) hne
  have hinput : Known net c (.type .input) := DataTypes.Uses.common (by simp)
  have houtput : Known net c (.type (if c.quantized then .narrowResult .final else .result .final)) := by
    by_cases hq : c.quantized = true
    · rw [if_pos hq]
      exact hnarrow hq
    · rw [if_neg hq]
      exact hresult
  simp only [List.forall_mem_cons]
  exact ⟨mentions_arrayTypedef hinput (isSilent_ofList (by decide)) i,
    mentions_arrayTypedef houtput (isSilent_ofList (by decide)) o, List.forall_mem_nil _⟩

end Forward

namespace Program

theorem instrs_steady (p : Program) : Instr.allSteady p.instrs = true := by
  have htypes (ls : List Line) : Instr.allSteady (ls.map fun l => .line l.text) = true := by
    induction ls with
    | nil => rfl
    | cons l ls ih => exact ih
  simp only [instrs, Instr.allSteady_append, piecesInstrs_steady, htypes, Instr.allSteady, Instr.isSteady,
    instrsAll_steady, Bool.and_self]

theorem texts_instrs (p : Program) : Instr.textsAll p.instrs = textsOf (p.prologue ++ p.macros) ++
    p.types.map Line.text ++ "void forward(InputType inputs, OutputType &outputs" :: p.parameters.map Group.text ++
      ")" :: "" :: Instr.textsAll (instrsAll p.body) := by
  have htypes (ls : List Line) : Instr.textsAll (ls.map fun l => .line l.text) = ls.map Line.text := by
    induction ls with
    | nil => rfl
    | cons l ls ih => exact congrArg (l.text :: ·) ih
  simp [instrs, Instr.textsAll, Instr.texts, htypes, textsOf]

end Program

open Forward DataTypes in
theorem Network.program_mentions {net : Network} {c : Config} {orders : List LoopOrder} {profile : String}
    (h : net.program c orders profile = .ok p) : ∀ t ∈ Instr.textsAll p.instrs,
      Mentions (Known net c) t ∨ c.approximate = true ∧ t = multiplierLine c := by
  obtain ⟨layers, hlayers, hbody⟩ := Network.body_mentions h
  obtain ⟨hprologue, hmacros⟩ := Network.program_front h
  obtain ⟨-, _, first, n, last, m, types, parameters, capture, code, hemitted, hfirst, -, htypes, hgroups, -, -, hp⟩ :=
    Network.program_eq_ok.mp h
  have hne : net.numbered ≠ [] :=
    List.ne_nil_of_mem (mem_emittedLayers hemitted (List.mem_of_head? hfirst)).1
  have hsignature : Mentions (Known net c) "void forward(InputType inputs, OutputType &outputs" :=
    mentions_literal [.symbol (.buffer .inputs), .symbol (.buffer .outputs)] (by decide +kernel) (by simp [Known])
  have hparameters : ∀ g ∈ p.parameters, Mentions (Known net c) g.text := by
    intro g hg
    apply mentions_group
    rintro ⟨d, active⟩ hd
    rw [hp] at hg
    exact ⟨((mem_groups_iff hgroups).mp (List.mem_flatMap.mpr ⟨g, hg, hd⟩)).uses, trivial⟩
  have hbefore : ∀ t ∈ textsOf p.prologue, Mentions (Known net c) t := by
    intro t ht
    rw [hprologue] at ht
    refine (prologue_mentions c t ht).mono ?_
    rintro _ (rfl | rfl) <;> trivial
  have hfront : ∀ t ∈ textsOf p.macros, Mentions (Known net c) t ∨ c.approximate = true ∧ t = multiplierLine c := by
    rw [hmacros, textsOf_append, textsOf_append]
    simp only [List.forall_mem_append]
    exact ⟨⟨fun t ht => .inl (activationFunctions_mentions t ht),
      fun t ht => .inl (quantizationMacros_mentions c t ht)⟩, multipliers_mentions⟩
  have hinterface : ∀ l ∈ p.types, Mentions (Known net c) l.text := by
    rw [hp]
    exact interfaceTypes_mentions hne htypes
  rw [p.texts_instrs]
  simp only [textsOf_append, List.forall_mem_append, List.forall_mem_cons, List.forall_mem_map]
  exact ⟨⟨⟨⟨fun t ht => .inl (hbefore t ht), hfront⟩, fun l hl => .inl (hinterface l hl)⟩, .inl hsignature,
    fun g hg => .inl (hparameters g hg)⟩, .inl (mentions_silent (by decide)), .inl (mentions_silent (by decide)),
    fun t ht => .inl ((hbody t ht).mono fun _ hx => hx.known hlayers)⟩

open Forward in
theorem Network.program_types {net : Network} {c : Config} {orders : List LoopOrder} {profile : String}
    (h : net.program c orders profile = .ok p) {w : String} (hw : w ∈ words p.text)
    (hbegin : "DataType".toList <+: w.toList) : (∃ t, DataTypes.Uses net c t ∧ t.text = w) ∨
      c.approximate = true ∧ w ∈ words (multiplierName c.multiplier) := by
  rw [Program.text, words_render p.instrs_steady] at hw
  obtain ⟨t, ht, hwt⟩ := List.mem_flatMap.mp hw
  rcases Network.program_mentions h t ht with hmentions | ⟨hc, rfl⟩
  · exact .inl (hmentions.type hwt hbegin)
  · have hfixed : ∀ u ∈ ["define", "MULTIPLIER_NAME"], ¬ "DataType".toList <+: u.toList := by decide
    rw [words_multiplierLine, List.mem_append] at hwt
    rcases hwt with hwt | hwt
    · exact absurd hbegin (hfixed w hwt)
    · exact .inr ⟨hc, hwt⟩

namespace ParamList

variable {ps : List Piece}

open DataTypes (Known)

variable {net : Network} {c : Config}

theorem sources_mentions {l : Layer} {n : Nat} {lines : List Line} (h : sources l n c.quantized = .ok lines) :
    ∀ x ∈ lines, Mentions (Known net c) x.text := by
  have hweights : Known net c (.type .weights) := DataTypes.Uses.common (by simp)
  have hbiases : Known net c (.type .biases) := DataTypes.Uses.common (by simp)
  have hscales (hq : c.quantized = true) : Known net c (.type .weightScale) := DataTypes.Uses.factor hq (by simp)
  unfold sources at h
  split at h
  · simp only [bind_eq_ok, pure_eq_ok] at h
    obtain ⟨weights, -, channels, -, rfl⟩ := h
    rw [List.forall_mem_append, List.forall_mem_cons, List.forall_mem_singleton]
    refine ⟨⟨mentions_source hweights, mentions_source hbiases⟩, ?_⟩
    by_cases hq : c.quantized = true
    · rw [if_pos hq, List.forall_mem_singleton]
      exact mentions_source (hscales hq)
    · rw [if_neg hq]
      exact List.forall_mem_nil _
  · cases h
    rw [List.forall_mem_append, List.forall_mem_cons, List.forall_mem_singleton]
    refine ⟨⟨mentions_voidSource _, mentions_voidSource _⟩, ?_⟩
    split
    · rw [List.forall_mem_singleton]
      exact mentions_voidSource _
    · exact List.forall_mem_nil _

theorem layerPieces_mentions {l : Layer} {n : Nat} (h : layerPieces l n c.quantized = .ok ps) :
    ∀ t ∈ textsOf ps, Mentions (Known net c) t := by
  have hlabel : Mentions (Known net c) l.kind.label := by
    cases l.kind <;> exact mentions_plain (by decide)
  simp only [layerPieces, bind_eq_ok, pure_eq_ok] at h
  obtain ⟨lines, hlines, rfl⟩ := h
  have htexts : textsOf (lines.map Piece.line) = lines.map Line.text := textsOf_lines id lines
  rw [textsOf_append, textsOf_append, textsOf_plainLines, htexts, textsOf_blank, textsOf_nil, List.append_nil,
    List.forall_mem_append, List.forall_mem_singleton, List.forall_mem_map]
  exact ⟨hlabel.start (by decide) (by decide), sources_mentions hlines⟩

theorem factors_mentions (hq : c.quantized = true) : ∀ t ∈ textsOf (factors net), Mentions (Known net c) t := by
  have hfactor {t : TypeName} (ht : t ∈ [.inputZeroPoint, .outputZeroPoint, .inputScale, .outputScale, .weightScale]) :
      Known net c (.type t) :=
    DataTypes.Uses.factor hq ht
  simp only [factors, textsOf_line, textsOf_blank, textsOf_nil, List.forall_mem_cons]
  exact ⟨mentions_source (hfactor (by simp)), mentions_source (hfactor (by simp)), mentions_source (hfactor (by simp)),
    mentions_source (hfactor (by simp)), List.forall_mem_nil _⟩

theorem pieces_eq_ok (h : pieces net c = .ok ps) : ∃ simulated,
    ps = [.guarded { name := "_PARAM_LIST_H", endNamed := true }
      (plainLines ["#define _PARAM_LIST_H"] ++ [Piece.blank 1] ++ plainLines ["#include \"data-types.h\""] ++
        [Piece.blank 1] ++ simulated)] ∧
    (c.mainFunction = false ∧ simulated = [] ∨ c.mainFunction = true ∧ ∃ layers,
      (net.numbered.mapM fun (l, n) => layerPieces l n c.quantized) = .ok layers ∧
      simulated = [.guarded { name := "_HLS_RUN", endNamed := true }
        ((if c.quantized then factors net else []) ++ layers.flatten), .blank 1]) := by
  unfold pieces at h
  split at h
  · rename_i hmain
    simp only [bind_eq_ok, pure_eq_ok] at h
    obtain ⟨layers, hlayers, simulated, rfl, rfl⟩ := h
    exact ⟨_, rfl, .inr ⟨hmain, layers, hlayers, rfl⟩⟩
  · rename_i hmain
    simp only [bind_eq_ok, pure_eq_ok] at h
    obtain ⟨simulated, rfl, rfl⟩ := h
    exact ⟨_, rfl, .inl ⟨Bool.eq_false_iff.mpr hmain, rfl⟩⟩

theorem simulated_mentions {layers : List (List Piece)}
    (h : (net.numbered.mapM fun (l, n) => layerPieces l n c.quantized) = .ok layers) :
    ∀ t ∈ textsOf ((if c.quantized then factors net else []) ++ layers.flatten), Mentions (Known net c) t := by
  rw [textsOf_append, textsOf_flatten, List.forall_mem_append]
  constructor
  · by_cases hq : c.quantized = true
    · rw [if_pos hq]
      exact factors_mentions hq
    · rw [if_neg hq]
      exact List.forall_mem_nil _
  · intro t ht
    obtain ⟨ps, hps, ht⟩ := List.mem_flatMap.mp ht
    obtain ⟨⟨l, n⟩, -, hlayer⟩ := exists_mem_of_mapM h hps
    exact layerPieces_mentions hlayer t ht

theorem pieces_mentions (h : pieces net c = .ok ps) : ∀ t ∈ textsOf ps, Mentions (Known net c) t := by
  obtain ⟨hopen, -, hclose⟩ := Forward.mentions_guard (A := Known net c) { name := "_PARAM_LIST_H", endNamed := true }
    (isSilent_ofList (by decide))
  obtain ⟨hopenRun, -, hcloseRun⟩ := Forward.mentions_guard (A := Known net c) { name := "_HLS_RUN", endNamed := true }
    (isSilent_ofList (by decide))
  obtain ⟨simulated, rfl, hsimulated⟩ := pieces_eq_ok h
  have hinner : ∀ t ∈ textsOf simulated, Mentions (Known net c) t := by
    rcases hsimulated with ⟨-, rfl⟩ | ⟨-, layers, hlayers, rfl⟩
    · exact List.forall_mem_nil _
    · rw [textsOf_guarded, List.forall_mem_append, List.forall_mem_cons, List.forall_mem_cons]
      exact ⟨⟨hopenRun, simulated_mentions hlayers⟩, hcloseRun, List.forall_mem_nil _⟩
  have hdefine : Mentions (Known net c) "#define _PARAM_LIST_H" := mentions_plain (by decide)
  have hinclude : Mentions (Known net c) "#include \"data-types.h\"" := mentions_plain (by decide)
  simp only [textsOf_guarded, textsOf_append, textsOf_blank, textsOf_nil, textsOf_plainLines, List.append_nil,
    List.forall_mem_append, List.forall_mem_cons]
  exact ⟨⟨hopen, ⟨⟨hdefine, List.forall_mem_nil _⟩, hinclude, List.forall_mem_nil _⟩, hinner⟩, hclose,
    List.forall_mem_nil _⟩

theorem text_types {params : String} (h : text net c = .ok params) {w : String} (hw : w ∈ words params)
    (hbegin : "DataType".toList <+: w.toList) : ∃ t, DataTypes.Uses net c t ∧ t.text = w := by
  simp only [text, bind_eq_ok, pure_eq_ok] at h
  obtain ⟨ps, hps, rfl⟩ := h
  rw [words_render (piecesInstrs_steady ps)] at hw
  obtain ⟨t, ht, hwt⟩ := List.mem_flatMap.mp hw
  exact (pieces_mentions hps t ht).type hwt hbegin

end ParamList

open Forward in
theorem Network.program_narrow {net : Network} {c : Config} {orders : List LoopOrder} {profile : String}
    (h : net.program c orders profile = .ok p) (hq : c.quantized = true) :
    (TypeName.narrowResult .final).text ∈ words p.text := by
  obtain ⟨-, _, first, n, last, m, types, parameters, capture, code, -, -, -, htypes, -, -, -, hp⟩ :=
    Network.program_eq_ok.mp h
  simp only [interfaceTypes, bind_eq_ok, pure_eq_ok] at htypes
  obtain ⟨i, -, o, -, rfl⟩ := htypes
  have hline : Line.arrayTypedef (.narrowResult .final) "OutputType" o ∈ p.types := by
    rw [hp, if_pos hq]
    exact List.mem_cons_of_mem _ List.mem_cons_self
  rw [Program.text, words_render p.instrs_steady, p.texts_instrs]
  refine List.mem_flatMap.mpr ⟨_, ?_, mem_words_arrayTypedef _ "OutputType" o⟩
  refine List.mem_append_left _ (List.mem_append_left _ (List.mem_append_right _ ?_))
  exact List.mem_map_of_mem hline

open Forward in
/-- Each section of the header defines the types that the main file and the header of parameters refer to. But under
quantization the types that are particular to it are defined for single fixed-point mode only, although the main file
refers to one of them in any case; and the text of the configured multiplier may name anything. -/
theorem used_types_defined_unless_quantized {c : Config} {file : Option String} {doc : Step Source.Document}
    {prior : Journal} {r : Compilation} (h : compile c file doc true prior = .ok r) (hs : r.success = true) :
    ∃ net src, r.network = some net ∧ r.sources = some src ∧
      src.dataTypes = DataTypes.text net r.config r.profile ∧
      ∀ selector body, (selector, body) ∈ DataTypes.modes net r.config r.profile →
        (∀ w ∈ words src.main ++ words src.paramList, "DataType_".toList <+: w.toList →
          w ∈ (typesIn body).map TypeName.text ∨
          (r.config.approximate = true ∧ w ∈ words (multiplierName r.config.multiplier)) ∨
          (r.config.quantized = true ∧ selector ≠ DataTypes.single ∧
            ∃ t : TypeName, t.isQuantized = true ∧ t.text = w)) ∧
        (r.config.quantized = true → selector ≠ DataTypes.single →
          (TypeName.narrowResult .final).text ∈ words src.main ∧
          (TypeName.narrowResult .final).text ∉ (typesIn body).map TypeName.text) := by
  obtain ⟨d, declared, hd, hdeclared, hinfer, ha⟩ := compile_accepts h hs
  obtain ⟨src, hsrc, hgen⟩ : ∃ src, r.sources = some src ∧ _ := ha.sources
  obtain ⟨p, params, hp, hparams, rfl⟩ := Compilation.generate_eq_ok.mp hgen
  refine ⟨_, _, ha.network, hsrc, rfl, fun selector body hmode => ⟨?_, ?_⟩⟩
  · intro w hw hbegin
    have htyped : "DataType".toList <+: w.toList := by
      have hstart : "DataType".toList <+: "DataType_".toList := begins_ofList (by decide)
      exact hstart.trans hbegin
    have hused : (∃ t, DataTypes.Uses declared.infer.1 r.config t ∧ t.text = w) ∨
        r.config.approximate = true ∧ w ∈ words (multiplierName r.config.multiplier) := by
      rcases List.mem_append.mp hw with hw | hw
      · exact Network.program_types hp hw htyped
      · exact .inl (ParamList.text_types hparams hw htyped)
    rcases hused with ⟨t, ht, rfl⟩ | hmultiplier
    · by_cases hsection : t.isQuantized = true → selector = DataTypes.single
      · exact .inl (List.mem_map_of_mem (ht.mem_typesIn hmode hsection))
      · obtain ⟨hquantized, hne⟩ := Classical.not_imp.mp hsection
        exact .inr (.inr ⟨ht.quantized hquantized, hne, t, hquantized, rfl⟩)
    · exact .inr (.inl hmultiplier)
  · intro hq hne
    refine ⟨Network.program_narrow hp hq, fun hmem => ?_⟩
    obtain ⟨t, ht, htext⟩ := List.mem_map.mp hmem
    exact TypeName.text_ne_narrowFinal (DataTypes.isQuantized_of_mem_typesIn hmode hne ht) htext

/-- All modes are enabled, and quantization is asked for. -/
def quantizedModes : Config := { dataDetail := "eight-bit-int" }

theorem compile_quantizedModes : ∃ r,
    compile quantizedModes none (Source.Document.ofLines none pooledLines) true = .ok r ∧ r.success = true ∧
      r.config = quantizedModes := by
  have hrun : compiledConfig quantizedModes (Source.Document.ofLines none pooledLines) = some quantizedModes := by
    decide +kernel
  exact exists_of_compiledConfig hrun

theorem used_types_defined_pooled : ∃ r net src floating single,
    compile quantizedModes none (Source.Document.ofLines none pooledLines) true = .ok r ∧ r.success = true ∧
      r.network = some net ∧ r.sources = some src ∧
      ("FLOAT_DATATYPE", floating) ∈ DataTypes.modes net r.config r.profile ∧
      (DataTypes.single, single) ∈ DataTypes.modes net r.config r.profile ∧
      (TypeName.narrowResult .final).text ∈ words src.main ∧
      (TypeName.narrowResult .final).text ∉ (typesIn floating).map TypeName.text ∧
      (TypeName.narrowResult .final).text ∈ (typesIn single).map TypeName.text := by
  obtain ⟨r, hr, hs, hconfig⟩ := compile_quantizedModes
  obtain ⟨net, src, hnet, hsrc, -, hsections⟩ := used_types_defined_unless_quantized hr hs
  have hfloat : ("FLOAT_DATATYPE", DataTypes.floating net) ∈ DataTypes.modes net r.config r.profile := by
    rw [hconfig]
    exact List.mem_cons_self
  have hsingle : (DataTypes.single, DataTypes.fixedSingle net r.config r.profile) ∈
      DataTypes.modes net r.config r.profile := by
    rw [hconfig]
    exact List.mem_cons_of_mem _ List.mem_cons_self
  have hquantized : r.config.quantized = true := by
    rw [hconfig]
    decide
  obtain ⟨hword, hmissing⟩ := (hsections _ _ hfloat).2 hquantized DataTypes.floating_ne_single
  refine ⟨r, net, src, _, _, hr, hs, hnet, hsrc, hfloat, hsingle, hword, hmissing, ?_⟩
  rcases (hsections _ _ hsingle).1 _ (List.mem_append_left _ hword) (by decide +kernel) with hdefined | hother
  · exact hdefined
  · rcases hother with ⟨happroximate, -⟩ | ⟨-, hne, -⟩
    · rw [hconfig] at happroximate
      cases happroximate
    · exact absurd rfl hne

/-- The section for floating-point numbers lacks a type that the main file refers to. -/
theorem quantized_types_undefined : ∃ r net src floating,
    compile quantizedModes none (Source.Document.ofLines none pooledLines) true = .ok r ∧ r.success = true ∧
      r.network = some net ∧ r.sources = some src ∧
      ("FLOAT_DATATYPE", floating) ∈ DataTypes.modes net r.config r.profile ∧
      "DataType_output_short" ∈ words src.main ∧ "DataType_output_short" ∉ (typesIn floating).map TypeName.text := by
  obtain ⟨r, hr, hs, hconfig⟩ := compile_quantizedModes
  obtain ⟨_, _, net, p, src, -, -, -, ha, hp, hsrc, hmain⟩ := compile_emits hr hs
  have hquantized : r.config.quantized = true := by
    rw [hconfig]
    decide
  have hfloat : ("FLOAT_DATATYPE", DataTypes.floating net) ∈ DataTypes.modes net r.config r.profile := by
    rw [hconfig]
    exact List.mem_cons_self
  refine ⟨r, net, src, _, hr, hs, ha.network, hsrc, hfloat, hmain ▸ Network.program_narrow hp hquantized, ?_⟩
  intro hmem
  obtain ⟨t, ht, htext⟩ := List.mem_map.mp hmem
  have hplain := DataTypes.isQuantized_of_mem_typesIn hfloat DataTypes.floating_ne_single ht
  exact TypeName.text_ne_narrowFinal hplain htext

end LayerLoops
