import LayerLoops.Proofs.Labels

/-! # The generated files

Each of the three files is made of tidy pieces, and the main file ends in a function whose body is tidy. A name of a
multiplier is copied as it was given, so it must not break a line or leave a brace open. -/

namespace LayerLoops

open Code Text

namespace Code

/-! ## Lines of declarations -/

theorem avoids_meaning (m : Meaning) : Avoids codeMarks m.text := by
  cases m with
  | fixed spaced => cases spaced <;> exact avoids_literal (by decide)
  | named t => exact avoids_type t
  | float | int8 | int32 | int64 => exact avoids_literal (by decide)

theorem whole_typedef (m : Meaning) (t : TypeName) {remark : String} (h : Avoids lineMarks remark) :
    Whole (Line.typedef m t remark).text := by
  have hpair : Avoids codeMarks ("typedef " ++ m.text ++ " " ++ t.text ++ ";") :=
    (((avoids_meaning m).start (by decide)).glue (by decide) (avoids_type t)).stop (by decide)
  exact whole_of_avoids (hpair.lines.append h)

theorem whole_arrayTypedef (t : TypeName) {name : String} (h : Avoids codeMarks name) (dims : List (Option Int)) :
    Whole (Line.arrayTypedef t name dims).text := by
  have hname : Avoids codeMarks ("typedef " ++ t.text ++ " " ++ name) :=
    ((avoids_type t).start (by decide)).glue (by decide) h
  exact whole_of_avoids ((hname.append (avoids_dims dims)).stop (by decide)).lines

theorem whole_source (d : Declaration) : Whole (Line.source d).text := by
  have hname : Avoids codeMarks (d.type.text ++ " " ++ d.buffer.text ++ "_src") :=
    ((avoids_type d.type).glue (by decide) (avoids_buffer d.buffer)).stop (by decide)
  exact whole_of_avoids ((hname.append (avoids_dims d.dims)).stop (by decide)).lines

theorem whole_voidSource (b : Buffer) : Whole (Line.voidSource b).text :=
  whole_of_avoids (((avoids_buffer b).start (by decide)).stop (by decide)).lines

/-! ## Definitions of macros -/

theorem whole_size {name : String} (h : Avoids codeMarks name) (n : Nat) : Whole (Line.size name n).text := by
  have hvalue : Avoids codeMarks (" " ++ toString n) := (avoids_nat n).start (by decide)
  have htext : (Line.size name n).text = "#define " ++ (name ++ (" " ++ toString n)) := String.append_assoc
  rw [htext]
  exact whole_start (by decide) (fun _ => rfl) (h.append hvalue).breaks

theorem whole_multiplierCall (n : Nat) : Whole (Line.multiplierCall n).text := by
  have hcall : Avoids codeMarks (toString n ++ ("(a, b) MUL_LAYER(a, b, " ++ (toString n ++ ")"))) :=
    (avoids_nat n).append (((avoids_nat n).stop (by decide)).start (by decide))
  have htext : (Line.multiplierCall n).text =
      "#define MUL_LAYER_" ++ (toString n ++ ("(a, b) MUL_LAYER(a, b, " ++ (toString n ++ ")"))) :=
    (String.append_assoc.trans String.append_assoc).trans String.append_assoc
  rw [htext]
  exact whole_start (by decide) (fun _ => rfl) hcall.breaks

theorem whole_multiplierChoice (n : Nat) (exact active : Bool) : Whole (Line.multiplierChoice n exact active).text := by
  have hname : Avoids codeMarks (if exact then "MULTIPLIER_EXACT" else "MULTIPLIER_NAME") := by
    cases exact <;> exact avoids_literal (by decide)
  have hvalue : Avoids breakMarks (toString n ++ " " ++ if exact then "MULTIPLIER_EXACT" else "MULTIPLIER_NAME") :=
    ((avoids_nat n).glue (by decide) hname).breaks
  have htext (sign value : String) : sign ++ ("#define MUL_LAYER_" ++ toString n ++ " ") ++ value =
      sign ++ ("#define MUL_LAYER_" ++ (toString n ++ " " ++ value)) := by
    simp only [String.append_assoc]
  refine (congrArg Whole (htext _ _)).mpr ?_
  cases active with
  | true =>
    refine (congrArg Whole String.empty_append).mpr ?_
    exact whole_start (by decide) (fun _ => rfl) hvalue
  | false => exact whole_start (by decide) (fun _ => rfl) (hvalue.start (by decide))

theorem allTidy_map {α : Type} {f : α → Line} {xs : List α} (h : ∀ x ∈ xs, Whole (f x).text) :
    Piece.AllTidy (xs.map fun x => .line (f x)) := by
  rw [Piece.allTidy_iff, List.forall_mem_map]
  exact h

theorem allTidy_flatMap {α : Type} {f : α → List Piece} {xs : List α} (h : ∀ x ∈ xs, Piece.AllTidy (f x)) :
    Piece.AllTidy (xs.flatMap f) := by
  rw [Piece.allTidy_iff]
  intro p hp
  obtain ⟨x, hx, hp⟩ := List.mem_flatMap.mp hp
  exact Piece.allTidy_iff.mp (h x hx) p hp

end Code

namespace Forward

variable {net : Network} {c : Config}

theorem allTidy_lineIf {b : Bool} {t : String} (h : Whole t) : Piece.AllTidy (lineIf b t) := by
  cases b with
  | true => exact ⟨h, trivial⟩
  | false => trivial

theorem prologue_tidy (c : Config) : Piece.AllTidy (prologue c) := by
  have hstore : Whole ("#define STORE_DATA(p1, p2, p3, p4, p5, p6) " ++
      "\x7bStoreData(p1, p2, p3, RunCounter < 1, p4, p5, p6);\x7d") :=
    whole_begin (by decide) (fun _ => rfl) (by decide) (by decide +kernel)
  have hquantize : Whole ("void quantize_layer_output(void *layer_data_base, " ++
      "void *layer_data_quantized, int size, int config = 0) \x7b\x7d;") :=
    whole_begin (by decide) (fun _ => rfl) (by decide) (by decide +kernel)
  have hinject : Whole ("void fault_injection(void *activation, int current_layer, " ++
      "int faulty_layer, int faulty_fmap, int faulty_bit) \x7b\x7d;") :=
    whole_begin (by decide) (fun _ => rfl) (by decide) (by decide +kernel)
  have hrun : '\n' ∉ simulation.name.toList ∧ '\n' ∉ simulationNamed.name.toList := by decide
  unfold prologue
  split
  · simp only [Piece.allTidy_append, Piece.allTidy_plainLines, Piece.AllTidy, Piece.Tidy, List.forall_mem_cons,
      List.not_mem_nil, false_imp_iff, implies_true, and_true]
    and_intros <;> exact whole_literal (by decide) (by decide)
  · simp only [Piece.allTidy_append, Piece.allTidy_plainLines, Piece.AllTidy, Piece.Tidy, List.forall_mem_cons,
      List.not_mem_nil, false_imp_iff, implies_true, and_true, true_and, hrun, allTidy_lineIf hstore,
      allTidy_lineIf hquantize, allTidy_lineIf hinject]
    -- What is left are lines of fixed text, some of them under a setting, and the name of one condition.
    and_intros
    all_goals first
      | exact whole_literal (by decide) (by decide)
      | exact allTidy_lineIf (whole_literal (by decide) (by decide))
      | decide

theorem activationFunctions_tidy (net : Network) : Piece.AllTidy (activationFunctions net) := by
  have hone (a : Activation) : Piece.AllTidy (activationFunction a) := by
    cases a with
    | none | softmax => trivial
    | relu | linear =>
      exact ⟨⟨whole_literal (by decide) (by decide), whole_literal (by decide) (by decide)⟩, trivial⟩
  have hall (as : List Activation) : Piece.AllTidy ([Piece.blank 1].intercalate (as.map activationFunction)) := by
    induction as with
    | nil => trivial
    | cons a as ih =>
      cases as with
      | nil => simpa using hone a
      | cons b bs =>
        rw [List.map_cons, List.map_cons, List.intercalate_cons_cons]
        exact Piece.allTidy_append.mpr ⟨Piece.allTidy_append.mpr ⟨hone a, trivial, trivial⟩, ih⟩
  unfold activationFunctions
  dsimp only
  split
  · trivial
  · exact Piece.allTidy_append.mpr ⟨hall _, trivial, trivial⟩

theorem quantizationMacros_tidy (c : Config) : Piece.AllTidy (quantizationMacros c) := by
  unfold quantizationMacros
  split
  · refine Piece.allTidy_append.mpr ⟨?_, trivial, trivial⟩
    rw [Piece.allTidy_plainLines]
    simp only [List.forall_mem_cons, List.not_mem_nil, false_imp_iff, implies_true, and_true]
    and_intros <;> exact whole_literal (by decide) (by decide)
  · trivial

theorem multiplierName_avoids {type : String} (h : Avoids breakMarks type) :
    Avoids breakMarks (multiplierName type) := by
  unfold multiplierName
  split
  · exact avoids_literal (by decide)
  · split
    · exact avoids_literal (by decide)
    · exact h

theorem multipliers_tidy (net : Network) (h : Avoids breakMarks c.multiplier) : Piece.AllTidy (multipliers net c) := by
  have hname : Whole ("#define MULTIPLIER_NAME " ++ multiplierName c.multiplier) :=
    whole_start (by decide) (fun _ => rfl) (multiplierName_avoids h)
  have hlookup : Whole ("#define MUL_LAYER(a, b, layer_id) (mul_general<int16_t>(a, b, layer_id, " ++
      "arguments[\"mul-name\"], arguments[\"mul-layers-config\"]))") :=
    whole_start (by decide) (fun _ => rfl) (avoids_literal (by decide))
  have hcalls (ns : List Nat) : Piece.AllTidy (ns.map fun n => .line (.multiplierCall n)) :=
    allTidy_map fun n _ => whole_multiplierCall n
  unfold multipliers
  split
  · trivial
  · simp only [Piece.allTidy_append, Piece.allTidy_plainLines, Piece.AllTidy, Piece.Tidy, List.forall_mem_cons,
      List.not_mem_nil, false_imp_iff, implies_true, and_true, true_and, hname, hlookup, hcalls]
    and_intros
    all_goals first
      | exact whole_literal (by decide) (by decide)
      | exact allTidy_map fun _ _ => whole_multiplierChoice _ _ _
      | decide

end Forward

namespace DataTypes

variable {net : Network} {c : Config}

theorem typedef_tidy (m : Meaning) (t : TypeName) : (typedef m t).Tidy := whole_typedef m t nofun

theorem uniform_tidy (net : Network) (m : Meaning) : Piece.AllTidy (uniform net m) := by
  apply allTidy_flatMap
  rintro ⟨l, n⟩ -
  refine Piece.allTidy_append.mpr ⟨?_, typedef_tidy m _, trivial⟩
  split
  · exact ⟨trivial, typedef_tidy m _, trivial⟩
  · trivial

theorem fixedInclude_tidy (c : Config) : Piece.AllTidy (fixedInclude c) := by
  have hinclude : Piece.AllTidy (plainLines ["#include <ap_fixed.h>"]) :=
    ⟨whole_literal (by decide) (by decide), trivial⟩
  have hpush : Piece.AllTidy (plainLines ["#pragma warning(push, 0)"]) :=
    ⟨whole_literal (by decide) (by decide), trivial⟩
  have hpop : Piece.AllTidy (plainLines ["#pragma warning(pop)"]) := ⟨whole_literal (by decide) (by decide), trivial⟩
  unfold fixedInclude
  cases c.mainFunction with
  | true =>
    simp only [if_true, Piece.allTidy_append, Piece.AllTidy, Piece.Tidy, hinclude, hpush, hpop, and_true]
    decide
  | false =>
    simp only [Bool.false_eq_true, if_false, Piece.allTidy_append, Piece.AllTidy, Piece.Tidy, hinclude, and_true]

theorem sizes_tidy (profile : String) : Piece.AllTidy (sizes profile) :=
  ⟨whole_size (avoids_literal (by decide)) _, whole_size (avoids_literal (by decide)) _, trivial⟩

theorem floating_tidy (net : Network) : Piece.AllTidy (floating net) := by
  refine Piece.allTidy_append.mpr ⟨?_, uniform_tidy net .float⟩
  simp only [Piece.AllTidy, typedef_tidy, Piece.Tidy, and_true]

theorem singleLayer_tidy (net : Network) (c : Config) (l : Layer) (n : Nat) :
    Piece.AllTidy (singleLayer net c l n) := by
  unfold singleLayer
  cases l.weighted <;> cases c.quantized <;>
    simp [Piece.AllTidy, typedef_tidy, Piece.Tidy]

theorem fixedSingle_tidy (net : Network) (c : Config) (profile : String) :
    Piece.AllTidy (fixedSingle net c profile) := by
  have hremark : Whole (Line.typedef (.fixed false) .wide " //Total: FX_SIZE_W bits, integer: FX_SIZE_I bits").text :=
    whole_typedef _ _ (avoids_literal (by decide))
  have hinclude : Piece.AllTidy (plainLines ["#include <stdint.h>"]) := ⟨whole_literal (by decide) (by decide), trivial⟩
  have hfactors : Piece.AllTidy (plainLines ["#define QUANTIZATION_FACTORS"]) :=
    ⟨whole_literal (by decide) (by decide), trivial⟩
  unfold fixedSingle
  cases c.quantized with
  | true =>
    simp only [if_true, Piece.allTidy_append, Piece.AllTidy, Piece.Tidy, typedef_tidy, hinclude, hfactors, and_true,
      true_and]
    exact allTidy_flatMap fun _ _ => singleLayer_tidy net c _ _
  | false =>
    simp only [Bool.false_eq_true, if_false, Piece.allTidy_append, Piece.AllTidy, Piece.Tidy, typedef_tidy, hremark,
      fixedInclude_tidy, sizes_tidy, and_true, true_and]
    exact allTidy_flatMap fun _ _ => singleLayer_tidy net c _ _

theorem fixedMulti_tidy (net : Network) (c : Config) (profile : String) : Piece.AllTidy (fixedMulti net c profile) := by
  unfold fixedMulti
  simp only [Piece.allTidy_append, Piece.AllTidy, Piece.Tidy, typedef_tidy, fixedInclude_tidy, sizes_tidy, uniform_tidy,
    and_true]

theorem modes_tidy (net : Network) (c : Config) (profile : String) :
    ∀ m ∈ modes net c profile, '\n' ∉ m.1.toList ∧ Piece.AllTidy m.2 := by
  have hmode (b : Bool) {selector : String} {body : List Piece} (hname : '\n' ∉ selector.toList)
      (hbody : Piece.AllTidy body) :
      ∀ m ∈ (if b then [(selector, body)] else []), '\n' ∉ m.1.toList ∧ Piece.AllTidy m.2 := by
    cases b with
    | true => exact List.forall_mem_singleton.mpr ⟨hname, hbody⟩
    | false => exact List.forall_mem_nil _
  unfold modes
  rw [List.forall_mem_append, List.forall_mem_append]
  exact ⟨⟨hmode _ (by decide) (floating_tidy net), hmode _ (by decide) (fixedSingle_tidy net c profile)⟩,
    hmode _ (by decide) (fixedMulti_tidy net c profile)⟩

theorem pieces_tidy (net : Network) (c : Config) (profile : String) : Piece.AllTidy (pieces net c profile) := by
  have hdefine : Piece.AllTidy (plainLines ["#define _DATA_TYPES_H"]) :=
    ⟨whole_literal (by decide) (by decide), trivial⟩
  have hselectors : Piece.AllTidy (plainLines ["#define FLOAT_DATATYPE", "//#define FIXEDPOINT_DATATYPE_SINGLE",
      "//#define FIXEDPOINT_DATATYPE_MULTI"]) := by
    rw [Piece.allTidy_plainLines]
    simp only [List.forall_mem_cons, List.not_mem_nil, false_imp_iff, implies_true, and_true]
    and_intros <;> exact whole_literal (by decide) (by decide)
  have halgorithm : Piece.AllTidy (plainLines ["#include <algorithm>"]) :=
    ⟨whole_literal (by decide) (by decide), trivial⟩
  unfold pieces
  refine ⟨⟨by decide, ?_⟩, trivial⟩
  refine Piece.allTidy_append.mpr ⟨Piece.allTidy_append.mpr ⟨Piece.allTidy_append.mpr ⟨?_, ?_⟩, ?_⟩, ?_⟩
  · exact Piece.allTidy_append.mpr ⟨hdefine, trivial, trivial⟩
  · split
    · exact Piece.allTidy_append.mpr ⟨hselectors, trivial, trivial⟩
    · trivial
  · split
    · exact ⟨⟨by decide, halgorithm⟩, trivial, trivial⟩
    · trivial
  · apply allTidy_flatMap
    intro m hm
    obtain ⟨hname, hbody⟩ := modes_tidy net c profile m hm
    refine Piece.allTidy_append.mpr ⟨?_, trivial, trivial⟩
    split
    · exact ⟨⟨hname, hbody⟩, trivial⟩
    · exact hbody

end DataTypes

namespace ParamList

variable {net : Network} {c : Config}

theorem sources_whole {l : Layer} {n : Nat} {quantized : Bool} {lines : List Line}
    (h : sources l n quantized = .ok lines) :
    ∀ line ∈ lines, Whole line.text := by
  unfold sources at h
  split at h
  · simp only [bind_eq_ok, pure_eq_ok] at h
    obtain ⟨weights, -, channels, -, rfl⟩ := h
    cases quantized <;> simp [whole_source]
  · rw [pure_eq_ok] at h
    cases h
    cases quantized <;> simp [whole_voidSource]

theorem layerPieces_tidy {l : Layer} {n : Nat} {quantized : Bool} {ps : List Piece}
    (h : layerPieces l n quantized = .ok ps) : Piece.AllTidy ps := by
  unfold layerPieces at h
  simp only [bind_eq_ok, pure_eq_ok] at h
  obtain ⟨lines, hlines, rfl⟩ := h
  have hkind : Avoids breakMarks l.kind.label := by cases l.kind <;> exact avoids_literal (by decide)
  have hremark : Whole ("//" ++ l.kind.label) := whole_start (by decide) (fun _ => rfl) hkind
  rw [Piece.allTidy_append, Piece.allTidy_append]
  exact ⟨⟨⟨hremark, trivial⟩, allTidy_map (sources_whole hlines)⟩, trivial, trivial⟩

theorem factors_tidy (net : Network) : Piece.AllTidy (factors net) :=
  ⟨whole_source _, whole_source _, whole_source _, whole_source _, trivial, trivial⟩

theorem pieces_tidy {ps : List Piece} (h : pieces net c = .ok ps) : Piece.AllTidy ps := by
  obtain ⟨simulated, rfl, hsimulated⟩ := pieces_eq_ok h
  have hinner : Piece.AllTidy simulated := by
    rcases hsimulated with ⟨-, rfl⟩ | ⟨-, layers, hlayers, rfl⟩
    · trivial
    · refine ⟨⟨by decide, Piece.allTidy_append.mpr ⟨?_, ?_⟩⟩, trivial, trivial⟩
      · split
        · exact factors_tidy net
        · trivial
      · rw [Piece.allTidy_iff]
        intro p hp
        obtain ⟨ps, hps, hp⟩ := List.mem_flatten.mp hp
        obtain ⟨⟨l, n⟩, -, hl⟩ := exists_mem_of_mapM hlayers hps
        exact Piece.allTidy_iff.mp (layerPieces_tidy hl) p hp
  have hdefine : Piece.AllTidy (plainLines ["#define _PARAM_LIST_H"]) :=
    ⟨whole_literal (by decide) (by decide), trivial⟩
  have hinclude : Piece.AllTidy (plainLines ["#include \"data-types.h\""]) :=
    ⟨whole_literal (by decide) (by decide), trivial⟩
  refine ⟨⟨by decide, ?_⟩, trivial⟩
  simp only [Piece.allTidy_append, Piece.AllTidy, Piece.Tidy, hdefine, hinclude, hinner, and_true]

end ParamList

/-! ## Whole files -/

theorem kept_render {is : List Instr} (h : Instr.allSteady is = true) (hne : Instr.linesAllAt 0 is ≠ [])
    (hs : SoundAll is) (on : List Char → Bool) :
    ∃ kept, keptLines on (render is) = some kept ∧ Balanced (kept.flatMap String.toList) := by
  have hall := (hs 0).append (whole_of_avoids (t := "") nofun).sound
  obtain ⟨kept, hleaves, hbalanced⟩ := hall.leaves on
  refine ⟨kept, ?_, hbalanced⟩
  rw [keptLines, fileLines_render h hne (hs 0).lines]
  exact hleaves.keptFrom

theorem kept_pieces {ps : List Piece} (h : Piece.AllTidy ps) (hne : Instr.linesAllAt 0 (piecesInstrs ps) ≠ [])
    (on : List Char → Bool) :
    ∃ kept, keptLines on (render (piecesInstrs ps)) = some kept ∧ Balanced (kept.flatMap String.toList) :=
  kept_render (piecesInstrs_steady ps) hne (Piece.sound_all ps h) on

open Forward in
theorem Network.program_sound {net : Network} {c : Config} {orders : List LoopOrder} {profile : String} {p : Program}
    (h : net.program c orders profile = .ok p) (ho : ∀ o ∈ orders, o.Fits o.kind)
    (hm : Avoids breakMarks c.multiplier) : SoundAll p.instrs := by
  have hbody := Network.body_tidy h ho
  obtain ⟨-, _, _, _, _, _, types, _, _, _, -, -, -, htypes, -, -, -, rfl⟩ := Network.program_eq_ok.mp h
  have hpieces :
      Piece.AllTidy (prologue c ++ (activationFunctions net ++ quantizationMacros c ++ multipliers net c)) := by
    simp only [Piece.allTidy_append, prologue_tidy, activationFunctions_tidy, quantizationMacros_tidy,
      multipliers_tidy net hm, and_true]
  have hlines : SoundAll (types.map fun l => .line l.text) := by
    unfold interfaceTypes at htypes
    simp only [bind_eq_ok, pure_eq_ok] at htypes
    obtain ⟨i, -, o, -, rfl⟩ := htypes
    exact (soundAll_line (whole_arrayTypedef _ (avoids_literal (by decide)) i)).append
      (soundAll_line (whole_arrayTypedef _ (avoids_literal (by decide)) o))
  rw [Program.instrs_eq]
  exact (((Piece.sound_all _ hpieces).append hlines).append (soundAll_blank 1)).append (Program.soundAll_function hbody)

theorem LoopOrder.fits_kind {ls : List Layer} {os : List LoopOrder}
    (h : List.Forall₂ (fun l o => LoopOrder.Fits o l.kind) ls os) : ∀ o ∈ os, o.Fits o.kind := by
  induction h with
  | nil => exact List.forall_mem_nil _
  | cons h _ ih => exact List.forall_mem_cons.mpr ⟨h.kind.symm ▸ h, ih⟩

/-- Whichever macros are taken to be defined, the conditional directives of each generated file are nested and closed,
and what they leave of it closes every brace that it opens and no other. -/
theorem generated_files_nested {c : Config} {file : Option String} {doc : Step Source.Document} {prior : Journal}
    {r : Compilation} (h : compile c file doc true prior = .ok r) (hs : r.success = true)
    (hm : ∀ x ∈ c.multiplier.toList, x ≠ '{' ∧ x ≠ '}' ∧ x ≠ '\n') :
    ∃ src, r.sources = some src ∧ ∀ on, ∀ f ∈ src.files,
      ∃ kept, keptLines on f.2 = some kept ∧ Balanced (kept.flatMap String.toList) := by
  obtain ⟨_, _, -, -, -, ha⟩ := compile_accepts h hs
  obtain ⟨src, hsrc, hgen⟩ : ∃ src, r.sources = some src ∧ _ := ha.sources
  obtain ⟨p, params, hp, hparams, rfl⟩ := Compilation.generate_eq_ok.mp hgen
  have hname : Avoids breakMarks r.config.multiplier := by
    rw [ha.multiplier]
    intro x hx
    simpa [breakMarks] using hm x hx
  refine ⟨_, hsrc, fun on => ?_⟩
  simp only [Sources.files, List.forall_mem_cons, List.not_mem_nil, false_imp_iff, implies_true, and_true]
  refine ⟨?_, ?_, ?_⟩
  · have hsound := Network.program_sound hp (LoopOrder.fits_kind ha.fits) hname
    exact kept_render p.instrs_steady (by simp [Program.instrs, Instr.linesAllAt, Instr.linesAt]) hsound on
  · refine kept_pieces (DataTypes.pieces_tidy _ _ _) ?_ on
    simp [DataTypes.pieces, piecesInstrs, Piece.instrs, Instr.linesAllAt, Instr.linesAt]
  · unfold ParamList.text at hparams
    simp only [bind_eq_ok, pure_eq_ok] at hparams
    obtain ⟨ps, hps, rfl⟩ := hparams
    refine kept_pieces (ParamList.pieces_tidy hps) ?_ on
    obtain ⟨simulated, rfl, -⟩ := ParamList.pieces_eq_ok hps
    simp [piecesInstrs, Piece.instrs, Instr.linesAllAt, Instr.linesAt]

/-- A program with code for simulation in every layer. -/
theorem generated_files_nested_captured : ∃ r src,
    compile { mainFunction := true, capture := true, approximate := true, multiplier := "mul8s_1KX5" } none
      (Source.Document.ofLines none pooledLines) true = .ok r ∧ r.success = true ∧ r.config.capture = true ∧
      r.sources = some src ∧
      ∀ on, ∃ kept, keptLines on src.main = some kept ∧ Balanced (kept.flatMap String.toList) := by
  have hrun : (compiledConfig { mainFunction := true, capture := true, approximate := true, multiplier := "mul8s_1KX5" }
      (Source.Document.ofLines none pooledLines)).map (·.capture) = some true := by
    decide +kernel
  obtain ⟨d, hd, hcapture⟩ := Option.map_eq_some_iff.mp hrun
  obtain ⟨r, hr, hs, rfl⟩ := exists_of_compiledConfig hd
  obtain ⟨src, hsrc, hfiles⟩ := generated_files_nested hr hs (List.all_iff_forall_prop.mp (by decide))
  exact ⟨r, src, hr, hs, hcapture, hsrc, fun on => hfiles on _ List.mem_cons_self⟩

end LayerLoops
