import LayerLoops.Proofs.HostBuffers
import Mathlib.Data.List.DropRight

/-! # Type definitions of the header

A section of the header of data types defines its types line by line. Read as text, a section defines no name twice, and
what a type stands for is built in or was defined in the section before. The macros for the sizes of fixed-point types
are defined before they are mentioned. -/

namespace LayerLoops

open Code Text

namespace Code

/-! ## The names of types -/

namespace TypeName

/-- One type of each form, where those with a number have the number `n`. -/
def family (n : Nat) : List TypeName :=
  [wide, narrow, relu, input, weights, biases, result .final, result (.inner n), narrowResult .final,
    narrowResult (.inner n), sum n, inputZeroPoint, outputZeroPoint, inputScale, outputScale, weightScale]

def stem : TypeName → String
  | wide => "DataType"
  | narrow => "DataType_short"
  | relu => "DataType_relu"
  | input => "DataType_input"
  | weights => "DataType_weights"
  | biases => "DataType_biases"
  | result .final => "DataType_output"
  | result (.inner _) => "DataType_Layer"
  | narrowResult .final => "DataType_output_short"
  | narrowResult (.inner _) => "DataType_Layer_short"
  | sum _ => "DataType_temp_element"
  | inputZeroPoint => "DataType_IZP"
  | outputZeroPoint => "DataType_OZP"
  | inputScale => "DataType_ISF"
  | outputScale => "DataType_OSF"
  | weightScale => "DataType_WSF"

def number? : TypeName → Option Nat
  | result (.inner n) | narrowResult (.inner n) | sum n => some n
  | _ => none

theorem text_inner (n : Nat) : (result (.inner n)).text = "DataType_Layer" ++ toString n :=
  String.append_assoc.symm

theorem stem_text (t : TypeName) : Text.stem t.text.toList = t.stem.toList := by
  cases t with
  | result p =>
    cases p with
    | inner n =>
      rw [text_inner]
      refine (Text.stem_numbered _ n).trans ?_
      rw [stem]
      decide +kernel
    | final => decide +kernel
  | narrowResult p =>
    cases p with
    | inner n =>
      change Text.stem ((result (.inner n)).text ++ "_short").toList = _
      rw [String.toList_append, Text.stem_append, text_inner, Text.stem_numbered, stem]
      decide +kernel
    | final => decide +kernel
  | sum n =>
    refine (Text.stem_numbered _ n).trans ?_
    rw [stem]
    decide +kernel
  | wide | narrow | relu | input | weights | biases | inputZeroPoint | outputZeroPoint | inputScale | outputScale
    | weightScale => decide +kernel

theorem digits_text (t : TypeName) : Text.digits t.text.toList = t.number?.elim [] (Nat.toDigits 10) := by
  cases t with
  | result p =>
    cases p with
    | inner n =>
      rw [text_inner]
      exact Text.digits_numbered (by decide +kernel) n
    | final => decide +kernel
  | narrowResult p =>
    cases p with
    | inner n =>
      change Text.digits ((result (.inner n)).text ++ "_short").toList = _
      rw [String.toList_append, Text.digits_append, text_inner, Text.digits_numbered (by decide +kernel),
        show Text.digits "_short".toList = [] by decide +kernel, List.append_nil]
      rfl
    | final => decide +kernel
  | sum n => exact Text.digits_numbered (by decide +kernel) n
  | wide | narrow | relu | input | weights | biases | inputZeroPoint | outputZeroPoint | inputScale | outputScale
    | weightScale => decide +kernel

theorem find_family (t : TypeName) : (family (t.number?.getD 0)).find? (·.stem = t.stem) = some t := by
  cases t with
  | result p | narrowResult p => cases p <;> simp [family, stem, number?]
  | wide | narrow | relu | input | weights | biases | sum | inputZeroPoint | outputZeroPoint | inputScale | outputScale
    | weightScale => simp [family, stem, number?]

theorem text_injective : Function.Injective TypeName.text := by
  intro t u h
  have hstem : t.stem = u.stem := by
    rw [← String.toList_inj, ← stem_text, ← stem_text, h]
  have hnumber : t.number? = u.number? := by
    apply Text.number_inj
    rw [← digits_text, ← digits_text, h]
  have hfind := find_family t
  rw [hstem, hnumber, find_family u] at hfind
  exact (Option.some.inj hfind).symm

end TypeName

/-! ## Reading type definitions -/

/-- The meaning and the name of the type that a line defines. -/
def typedefIn (t : String) : Option (String × String) :=
  if "typedef ".toList <+: t.toList then
    let body := (t.toList.drop 8).takeWhile (· != ';')
    some (String.ofList (body.rdropWhile (· != ' ')).dropLast, String.ofList (body.rtakeWhile (· != ' ')))
  else none

def typedefsIn (ts : List String) : List (String × String) := ts.filterMap typedefIn

theorem rtakeWhile_blank (a : List Char) {b : List Char} (h : ' ' ∉ b) :
    (a ++ ' ' :: b).rtakeWhile (· != ' ') = b ∧ (a ++ ' ' :: b).rdropWhile (· != ' ') = a ++ [' '] := by
  have hname : ∀ c ∈ b.reverse, (c != ' ') = true := by
    intro c hc
    rw [bne_iff_ne]
    rintro rfl
    exact h (List.mem_reverse.mp hc)
  have hreverse : (a ++ ' ' :: b).reverse = b.reverse ++ ' ' :: a.reverse := by simp
  rw [List.rtakeWhile, List.rdropWhile, hreverse, List.takeWhile_append_of_pos hname,
    List.dropWhile_append_of_pos hname]
  simp

theorem TypeName.not_mem_text {c : Char} (hc : isWordChar c = false) (t : TypeName) : c ∉ t.text.toList := by
  intro h
  rw [List.all_eq_true.mp t.all_wordChar c h] at hc
  cases hc

theorem typedefIn_typedef (m : Meaning) (t : TypeName) (remark : String) :
    typedefIn (Line.typedef m t remark).text = some (m.text, t.text) := by
  have hmeaning : ';' ∉ m.text.toList := by
    cases m with
    | fixed spaced => cases spaced <;> decide
    | named t => exact t.not_mem_text (by decide)
    | float | int8 | int32 | int64 => decide
  have hbody : ∀ c ∈ m.text.toList ++ ' ' :: t.text.toList, (c != ';') = true := by
    intro c hc
    rw [bne_iff_ne]
    rintro rfl
    rcases List.mem_append.mp hc with hc | hc
    · exact hmeaning hc
    · exact t.not_mem_text (by decide) ((List.mem_cons.mp hc).resolve_left (by decide))
  have htext : (Line.typedef m t remark).text.toList =
      "typedef ".toList ++ ((m.text.toList ++ ' ' :: t.text.toList) ++ ';' :: remark.toList) := by
    change ("typedef " ++ m.text ++ " " ++ t.text ++ ";" ++ remark).toList = _
    simp only [String.toList_append, List.append_assoc]
    rfl
  have hdrop : ("typedef ".toList ++ ((m.text.toList ++ ' ' :: t.text.toList) ++ ';' :: remark.toList)).drop 8 =
      (m.text.toList ++ ' ' :: t.text.toList) ++ ';' :: remark.toList := List.drop_left' rfl
  have hcut : ((m.text.toList ++ ' ' :: t.text.toList) ++ ';' :: remark.toList).takeWhile (· != ';') =
      m.text.toList ++ ' ' :: t.text.toList := by
    rw [List.takeWhile_append_of_pos hbody, List.takeWhile_cons_of_neg (by decide), List.append_nil]
  obtain ⟨hname, hrest⟩ := rtakeWhile_blank m.text.toList (t.not_mem_text (c := ' ') (by decide))
  rw [typedefIn, htext, if_pos (List.prefix_append _ _), hdrop, hcut]
  simp only [hname, hrest, List.dropLast_concat, String.ofList_toList]

theorem typedefIn_eq_none {t : String} (h : "typedef" ∉ words t) : typedefIn t = none := by
  refine if_neg ?_
  rintro ⟨rest, hrest⟩
  have htext : t = "typedef " ++ String.ofList rest := by
    apply String.toList_inj.mp
    rw [String.toList_append, String.toList_ofList (l := rest)]
    exact hrest.symm
  apply h
  rw [htext, words_append_of_closes (by decide)]
  exact List.mem_append_left _ (by decide)

/-! ## The lines of pieces -/

def pieceLines (ps : List Piece) : List String := Instr.linesAllAt 0 (piecesInstrs ps)

@[simp] theorem pieceLines_nil : pieceLines [] = [] := rfl

@[simp] theorem pieceLines_append (ps qs : List Piece) : pieceLines (ps ++ qs) = pieceLines ps ++ pieceLines qs := by
  rw [pieceLines, piecesInstrs_append, Instr.linesAllAt_append]
  rfl

theorem pieceLines_cons (p : Piece) (ps : List Piece) : pieceLines (p :: ps) = pieceLines [p] ++ pieceLines ps :=
  pieceLines_append [p] ps

@[simp] theorem pieceLines_line (l : Line) : pieceLines [.line l] = [l.text] :=
  congrArg (fun t => [t]) (indent_zero l.text)

@[simp] theorem pieceLines_blank (n : Nat) : pieceLines [.blank n] = List.replicate n "" := List.append_nil _

@[simp] theorem pieceLines_guarded (g : Guard) (body : List Piece) :
    pieceLines [.guarded g body] = g.opening :: (pieceLines body ++ [g.closing]) := by
  simp only [pieceLines, piecesInstrs, Piece.instrs, List.append_nil, List.cons_append, Instr.linesAllAt, Instr.linesAt,
    Instr.linesAllAt_append, indent_zero, List.nil_append]

@[simp] theorem pieceLines_plainLines (ts : List String) : pieceLines (plainLines ts) = ts := by
  induction ts with
  | nil => rfl
  | cons t ts ih =>
    have hcons : plainLines (t :: ts) = .line (.plain t) :: plainLines ts := rfl
    rw [hcons, pieceLines_cons, ih, pieceLines_line]
    rfl

theorem pieceLines_flatMap {α : Type} (f : α → List Piece) (xs : List α) :
    pieceLines (xs.flatMap f) = xs.flatMap fun x => pieceLines (f x) := by
  induction xs with
  | nil => rfl
  | cons x xs ih => rw [List.flatMap_cons, pieceLines_append, ih, List.flatMap_cons]

def Omits (ws : List String) (ps : List Piece) : Prop := ∀ t ∈ pieceLines ps, ∀ w ∈ ws, w ∉ words t

variable {ws : List String}

theorem omits_append {ps qs : List Piece} : Omits ws (ps ++ qs) ↔ Omits ws ps ∧ Omits ws qs := by
  rw [Omits, pieceLines_append, List.forall_mem_append]
  rfl

theorem omits_cons {p : Piece} {ps : List Piece} : Omits ws (p :: ps) ↔ Omits ws [p] ∧ Omits ws ps :=
  @omits_append ws [p] ps

theorem omits_nil : Omits ws [] := List.forall_mem_nil _

theorem omits_blank (n : Nat) : Omits ws [.blank n] := by
  intro t ht w _
  rw [pieceLines_blank] at ht
  rw [List.eq_of_mem_replicate ht]
  exact List.not_mem_nil

theorem omits_plainLines {ts : List String} (h : ∀ t ∈ ts, ∀ w ∈ ws, w ∉ words t) : Omits ws (plainLines ts) := by
  rw [Omits, pieceLines_plainLines]
  exact h

/-! ## Definitions in pieces -/

def Piece.definition? : Piece → Option (Meaning × TypeName)
  | .line (.typedef m t _) => some (m, t)
  | _ => none

theorem Piece.definition?_eq_some {p : Piece} {d : Meaning × TypeName} (h : p.definition? = some d) :
    ∃ remark, p = .line (.typedef d.1 d.2 remark) := by
  unfold Piece.definition? at h
  split at h
  · cases h
    exact ⟨_, rfl⟩
  · cases h

def definitionsIn (ps : List Piece) : List (Meaning × TypeName) := ps.filterMap Piece.definition?

@[simp] theorem definitionsIn_nil : definitionsIn [] = [] := rfl

@[simp] theorem definitionsIn_append (ps qs : List Piece) :
    definitionsIn (ps ++ qs) = definitionsIn ps ++ definitionsIn qs :=
  List.filterMap_append

@[simp] theorem definitionsIn_typedef (m : Meaning) (t : TypeName) (remark : String) (ps : List Piece) :
    definitionsIn (.line (.typedef m t remark) :: ps) = (m, t) :: definitionsIn ps := rfl

@[simp] theorem definitionsIn_blank (n : Nat) (ps : List Piece) :
    definitionsIn (.blank n :: ps) = definitionsIn ps := rfl

theorem map_snd_definitionsIn (ps : List Piece) : (definitionsIn ps).map Prod.snd = typesIn ps := by
  rw [definitionsIn, List.map_filterMap, typesIn]
  congr 1
  funext p
  cases p with
  | line l => cases l <;> rfl
  | blank | function | guarded | guardedElse => rfl

def Plain (ps : List Piece) : Prop := ∀ p ∈ ps, p.definition? = none → Omits ["typedef"] [p]

@[simp] theorem plain_nil : Plain [] := List.forall_mem_nil _

@[simp] theorem plain_append {ps qs : List Piece} : Plain (ps ++ qs) ↔ Plain ps ∧ Plain qs := List.forall_mem_append

@[simp] theorem plain_typedef {m : Meaning} {t : TypeName} {remark : String} {ps : List Piece} :
    Plain (.line (.typedef m t remark) :: ps) ↔ Plain ps := by
  refine List.forall_mem_cons.trans (and_iff_right ?_)
  rintro ⟨⟩

@[simp] theorem plain_blank {n : Nat} {ps : List Piece} : Plain (.blank n :: ps) ↔ Plain ps :=
  List.forall_mem_cons.trans (and_iff_right fun _ => omits_blank n)

theorem plain_of_omits {ps : List Piece} (h : Omits ["typedef"] ps) : Plain ps := by
  intro p hp _
  obtain ⟨qs, rs, rfl⟩ := List.append_of_mem hp
  exact (omits_cons.mp (omits_append.mp h).2).1

def Meaning.pair (d : Meaning × TypeName) : String × String := (d.1.text, d.2.text)

theorem typedefsIn_append (ts us : List String) : typedefsIn (ts ++ us) = typedefsIn ts ++ typedefsIn us :=
  List.filterMap_append

theorem typedefsIn_pieceLines {ps : List Piece} (h : Plain ps) :
    typedefsIn (pieceLines ps) = (definitionsIn ps).map Meaning.pair := by
  induction ps with
  | nil => rfl
  | cons p ps ih =>
    obtain ⟨hp, hps⟩ := List.forall_mem_cons.mp h
    have hone : typedefsIn (pieceLines [p]) = p.definition?.toList.map Meaning.pair := by
      cases hd : p.definition? with
      | none =>
        refine List.filterMap_eq_nil_iff.mpr fun t ht => typedefIn_eq_none ?_
        exact hp hd t ht _ List.mem_cons_self
      | some d =>
        obtain ⟨remark, rfl⟩ := Piece.definition?_eq_some hd
        rw [pieceLines_line, typedefsIn, List.filterMap_cons_some (typedefIn_typedef _ _ _)]
        rfl
    have hcons : definitionsIn (p :: ps) = p.definition?.toList ++ definitionsIn ps := by
      rw [definitionsIn, List.filterMap_cons]
      cases p.definition? <;> rfl
    rw [pieceLines_cons, typedefsIn_append, hone, ih hps, hcons, List.map_append]

theorem isSome_typedefIn {ps : List Piece} (h : Plain ps) {t : String} (ht : t ∈ pieceLines ps)
    (hw : "typedef" ∈ words t) : (typedefIn t).isSome = true := by
  induction ps with
  | nil => cases ht
  | cons p ps ih =>
    obtain ⟨hp, hps⟩ := List.forall_mem_cons.mp h
    rw [pieceLines_cons, List.mem_append] at ht
    rcases ht with ht | ht
    · cases hd : p.definition? with
      | none => exact absurd hw (hp hd t ht _ List.mem_cons_self)
      | some d =>
        obtain ⟨remark, rfl⟩ := Piece.definition?_eq_some hd
        rw [pieceLines_line, List.mem_singleton] at ht
        rw [ht, typedefIn_typedef]
        rfl
    · exact ih hps ht

end Code

/-! ## Sections in order -/

namespace DataTypes

/-- What a type may stand for without a definition. -/
def builtIn : List String :=
  ["float", "int8_t", "int32_t", "int64_t", "ap_fixed<FX_SIZE_W,FX_SIZE_I>", "ap_fixed<FX_SIZE_W, FX_SIZE_I>"]

/-- The macros for the sizes of fixed-point types. -/
def sizeMacros : List String := ["FX_SIZE_W", "FX_SIZE_I"]

/-- In front of the definition of a size no line mentions it. -/
def Sized (ts : List String) : Prop := ∀ w ∈ sizeMacros, ∀ t ∈ ts.takeWhile (macroIn · != some w), w ∉ words t

/-- The lines of a section that defines its types in order. -/
structure Ordered (ts : List String) : Prop where
  /-- Every line with a definition is read as one. -/
  read : ∀ t ∈ ts, "typedef" ∈ words t → (typedefIn t).isSome = true
  once : ((typedefsIn ts).map Prod.snd).Nodup
  /-- A type stands for what is built in or defined before. -/
  earlier : ∀ (before : List (String × String)) d after, typedefsIn ts = before ++ d :: after →
    d.1 ∈ builtIn ∨ d.1 ∈ before.map Prod.snd
  sized : Sized ts

theorem earlier_append {as bs : List (Meaning × TypeName)} (ha : ∀ d ∈ as, d.1.text ∈ builtIn)
    (hb : ∀ d ∈ bs, d.1.text ∈ builtIn ∨ ∃ t ∈ as.map Prod.snd, d.1 = .named t)
    {before after : List (String × String)} {d : String × String}
    (h : (as ++ bs).map Meaning.pair = before ++ d :: after) : d.1 ∈ builtIn ∨ d.1 ∈ before.map Prod.snd := by
  obtain ⟨bs', ds, hsplit, rfl, hds⟩ := List.map_eq_append_iff.mp h
  obtain ⟨e, after', rfl, rfl, -⟩ := List.map_eq_cons_iff.mp hds
  have hlate (front : List (Meaning × TypeName)) (he : e ∈ bs) (hfront : bs' = as ++ front) :
      e.1.text ∈ builtIn ∨ e.1.text ∈ (bs'.map Meaning.pair).map Prod.snd := by
    refine (hb e he).imp_right ?_
    rintro ⟨t, ht, hnamed⟩
    obtain ⟨x, hx, rfl⟩ := List.mem_map.mp ht
    rw [hnamed, hfront, List.map_map]
    exact List.mem_map.mpr ⟨x, List.mem_append_left _ hx, rfl⟩
  rcases List.append_eq_append_iff.mp hsplit with ⟨front, hfront, hbs⟩ | ⟨rest, has, hrest⟩
  · exact hlate front (by rw [hbs]; exact List.mem_append_right _ List.mem_cons_self) hfront
  · cases rest with
    | nil =>
      refine hlate [] ?_ ?_
      · rw [List.nil_append] at hrest
        rw [← hrest]
        exact List.mem_cons_self
      · rw [has, List.append_nil, List.append_nil]
    | cons x rest =>
      obtain ⟨rfl, -⟩ := List.cons.inj hrest
      exact .inl (ha e (by rw [has]; exact List.mem_append_right _ List.mem_cons_self))

theorem ordered_append {ps qs : List Piece} (hplain : Plain (ps ++ qs)) (hnodup : (typesIn (ps ++ qs)).Nodup)
    (hfirst : ∀ d ∈ definitionsIn ps, d.1.text ∈ builtIn)
    (hrest : ∀ d ∈ definitionsIn qs, d.1.text ∈ builtIn ∨ ∃ t ∈ typesIn ps, d.1 = .named t)
    (hsized : Sized (pieceLines (ps ++ qs))) : Ordered (pieceLines (ps ++ qs)) where
  read _ ht hw := isSome_typedefIn hplain ht hw
  once := by
    have hnames : ((definitionsIn (ps ++ qs)).map Meaning.pair).map Prod.snd =
        (typesIn (ps ++ qs)).map TypeName.text := by
      rw [List.map_map, ← map_snd_definitionsIn, List.map_map]
      rfl
    rw [typedefsIn_pieceLines hplain, hnames]
    exact hnodup.map TypeName.text_injective
  earlier before d after h := by
    rw [typedefsIn_pieceLines hplain, definitionsIn_append] at h
    exact earlier_append hfirst (by rw [map_snd_definitionsIn]; exact hrest) h
  sized := hsized

theorem ordered_builtIn {ps : List Piece} (hplain : Plain ps) (hnodup : (typesIn ps).Nodup)
    (hmeans : ∀ d ∈ definitionsIn ps, d.1.text ∈ builtIn)
    (hsized : Sized (pieceLines ps)) : Ordered (pieceLines ps) :=
  @ordered_append [] ps hplain hnodup (List.forall_mem_nil _) (fun d hd => .inl (hmeans d hd)) hsized

theorem sized_of_omits {ps : List Piece} (h : Omits sizeMacros ps) : Sized (pieceLines ps) :=
  fun w hw t ht => h t (List.takeWhile_subset _ ht) w hw

theorem mem_takeWhile_append {p : String → Bool} {as bs : List String} {b t : String} (hb : p b = false)
    (ht : t ∈ (as ++ b :: bs).takeWhile p) : t ∈ as := by
  induction as with
  | nil =>
    rw [List.nil_append, List.takeWhile_cons_of_neg (by rw [hb]; exact Bool.false_ne_true)] at ht
    cases ht
  | cons a as ih =>
    rw [List.cons_append, List.takeWhile_cons] at ht
    split at ht
    · exact List.mem_cons.mpr ((List.mem_cons.mp ht).imp_right ih)
    · cases ht

/-! ## The types of a section -/

variable {net : Network} {c : Config} {profile : String}

theorem place_injective : Function.Injective (place net) := by
  intro m n h
  unfold place Network.isLast at h
  split at h <;> split at h
  · rename_i hm hn
    exact (beq_iff_eq.mp hm).trans (beq_iff_eq.mp hn).symm
  · cases h
  · cases h
  · exact Place.inner.inj h

def OfLayer (net : Network) (n : Nat) (t : TypeName) : Prop :=
  t = .sum n ∨ t = .result (place net n) ∨ t = .narrowResult (place net n)

theorem OfLayer.unique {m n : Nat} {t : TypeName} (hm : OfLayer net m t) (hn : OfLayer net n t) : m = n := by
  rcases hm with rfl | rfl | rfl
  · rcases hn with h | h | h
    · exact TypeName.sum.inj h
    · cases h
    · cases h
  · rcases hn with h | h | h
    · cases h
    · exact place_injective (TypeName.result.inj h)
    · cases h
  · rcases hn with h | h | h
    · cases h
    · cases h
    · exact place_injective (TypeName.narrowResult.inj h)

theorem nodup_layers {f : Layer × Nat → List TypeName}
    (hf : ∀ x ∈ net.numbered, (f x).Nodup ∧ ∀ t ∈ f x, OfLayer net x.2 t) : (net.numbered.flatMap f).Nodup := by
  refine List.nodup_flatMap.mpr ⟨fun x hx => (hf x hx).1, ?_⟩
  have hnumbers : net.numbered.Pairwise fun x y => x.2 ≠ y.2 := List.pairwise_map.mp net.numbered_nodup
  refine hnumbers.imp_of_mem fun hx hy hne t htx hty => ?_
  exact hne (((hf _ hx).2 t htx).unique ((hf _ hy).2 t hty))

def shared : List TypeName :=
  [.wide, .narrow, .relu, .input, .weights, .biases, .inputZeroPoint, .outputZeroPoint, .inputScale, .outputScale,
    .weightScale]

theorem OfLayer.not_mem_shared {n : Nat} {t : TypeName} (h : OfLayer net n t) : t ∉ shared := by
  rcases h with rfl | rfl | rfl <;> simp [shared]

theorem nodup_section {before after : List TypeName} {f : Layer × Nat → List TypeName}
    (hf : ∀ x ∈ net.numbered, (f x).Nodup ∧ ∀ t ∈ f x, OfLayer net x.2 t) (hnodup : (before ++ after).Nodup)
    (hshared : ∀ t ∈ before ++ after, t ∈ shared) : (before ++ net.numbered.flatMap f ++ after).Nodup := by
  have hlayers {t : TypeName} (ht : t ∈ net.numbered.flatMap f) : t ∉ before ++ after := by
    obtain ⟨x, hx, ht⟩ := List.mem_flatMap.mp ht
    exact fun h => ((hf x hx).2 t ht).not_mem_shared (hshared t h)
  have hperm : (before ++ net.numbered.flatMap f ++ after).Perm (net.numbered.flatMap f ++ (before ++ after)) := by
    rw [← List.append_assoc]
    exact List.Perm.append_right _ List.perm_append_comm
  refine hperm.nodup_iff.mpr (List.nodup_append.mpr ⟨nodup_layers hf, hnodup, ?_⟩)
  rintro t ht _ hu rfl
  exact hlayers ht hu

theorem typesIn_flatMap {α : Type} (f : α → List Piece) (xs : List α) :
    typesIn (xs.flatMap f) = xs.flatMap fun x => typesIn (f x) := List.filterMap_flatMap

theorem typesIn_uniform (m : Meaning) : typesIn (uniform net m) =
    net.numbered.flatMap fun x =>
      (if x.1.weighted then [TypeName.sum x.2] else []) ++ [TypeName.result (place net x.2)] := by
  rw [uniform, typesIn_flatMap]
  congr 1
  funext x
  cases hw : x.1.weighted <;> simp [hw]

theorem nodup_uniform (m : Meaning) {common : List TypeName} (hnodup : common.Nodup)
    (hshared : ∀ t ∈ common, t ∈ shared) : (common ++ typesIn (uniform net m)).Nodup := by
  rw [typesIn_uniform, ← List.append_nil (_ ++ _)]
  refine nodup_section ?_ (by rwa [List.append_nil]) (by rwa [List.append_nil])
  intro x _
  cases x.1.weighted <;> simp [OfLayer]

theorem singleLayer_types (net : Network) (c : Config) (l : Layer) (n : Nat) :
    (typesIn (singleLayer net c l n)).Nodup ∧ ∀ t ∈ typesIn (singleLayer net c l n), OfLayer net n t := by
  refine ⟨?_, fun t ht => ?_⟩
  · cases hw : l.weighted <;> cases hq : c.quantized <;> simp [singleLayer, hw, hq]
  · rcases mem_singleLayer_iff.mp ht with ⟨-, h⟩ | h | ⟨-, h⟩
    · exact .inl h
    · exact .inr (.inl h)
    · exact .inr (.inr h)

/-! ## Words and meanings of a section -/

variable (net c profile)

theorem words_typedef (m : Meaning) (t : TypeName) :
    words (Line.typedef m t).text = "typedef" :: (words m.text ++ [t.text]) := by
  have hname : words t.text = [t.text] := words_name (.type t)
  have htext : (Line.typedef m t).text = "typedef " ++ (m.text ++ (" " ++ (t.text ++ ";"))) := by
    change "typedef " ++ m.text ++ " " ++ t.text ++ ";" ++ "" = _
    simp only [String.append_assoc, String.append_empty]
  have hfirst : words "typedef " = ["typedef"] := by decide
  have hblank : words " " = [] := by decide
  rw [htext, words_append_of_closes (by decide), words_append_of_opens _ (opens_append (by decide) (by decide) _),
    words_append_of_closes (by decide), words_append_of_opens _ (by decide), hname, hfirst, hblank]
  rfl

theorem text_not_mem_sizeMacros (t : TypeName) : t.text ∉ sizeMacros := by
  have hbegin : ∀ w ∈ sizeMacros, ¬ "DataType".toList <+: w.toList := by decide
  exact fun h => hbegin _ h t.text_begins

theorem omits_typedef {m : Meaning} (hm : ∀ spaced, m ≠ .fixed spaced) (t : TypeName) :
    Omits sizeMacros [typedef m t] := by
  have hwords : ∀ w ∈ sizeMacros, w ∉ words m.text := by
    cases m with
    | fixed spaced => exact absurd rfl (hm spaced)
    | named u =>
      intro w hw h
      have hname : words u.text = [u.text] := words_name (.type u)
      rw [Meaning.text, hname, List.mem_singleton] at h
      exact text_not_mem_sizeMacros u (h ▸ hw)
    | float | int8 | int32 | int64 => decide
  have hkeyword : "typedef" ∉ sizeMacros := by decide
  intro l hl w hw
  rw [typedef, pieceLines_line, List.mem_singleton] at hl
  rw [hl, words_typedef, List.mem_cons, List.mem_append, List.mem_singleton]
  rintro (rfl | h | rfl)
  · exact hkeyword hw
  · exact hwords w hw h
  · exact text_not_mem_sizeMacros t hw

theorem words_size {name : String} (h : words name = [name]) (n : Nat) :
    words (Line.size name n).text = ["define", name, toString n] := by
  have hdefine : words "#define " = ["define"] := by decide
  have hblank : words " " = [] := by decide
  have htext : (Line.size name n).text = "#define " ++ (name ++ (" " ++ toString n)) := String.append_assoc
  rw [htext, words_append_of_closes (by decide), words_append_of_opens _ (opens_append (by decide) (by decide) _),
    words_append_of_closes (by decide), words_nat, hdefine, hblank, h]
  rfl

def includeLines : List String :=
  ["#ifndef __linux__", "#pragma warning(push, 0)", "#pragma warning(pop)", "#endif", "#include <ap_fixed.h>", ""]

theorem pieceLines_fixedInclude : ∀ t ∈ pieceLines (fixedInclude c), t ∈ includeLines := by
  unfold fixedInclude
  cases c.mainFunction <;> decide

theorem omits_fixedInclude : Omits ("typedef" :: sizeMacros) (fixedInclude c) := by
  have hfixed : ∀ t ∈ includeLines, ∀ w ∈ "typedef" :: sizeMacros, w ∉ words t := by decide
  exact fun t ht => hfixed t (pieceLines_fixedInclude c t ht)

theorem definitionsIn_fixedInclude : definitionsIn (fixedInclude c) = [] := by
  cases hc : c.mainFunction <;> simp [fixedInclude, hc, definitionsIn, Piece.definition?, plainLines]

theorem not_mem_words_size {name w : String} (hname : words name = [name]) (hdefine : w ≠ "define") (hne : w ≠ name)
    (hstem : Text.stem w.toList ≠ []) (n : Nat) : w ∉ words (Line.size name n).text := by
  rw [words_size hname, List.mem_cons, List.mem_cons, List.mem_singleton]
  rintro (h | h | rfl)
  · exact hdefine h
  · exact hne h
  · rw [Nat.toString_eq_repr, Nat.toList_repr, Text.stem_toDigits] at hstem
    exact hstem rfl

theorem pieceLines_sizes : pieceLines (sizes profile) =
    [(Line.size "FX_SIZE_W" (Profile.fixedPointSize profile).1).text,
      (Line.size "FX_SIZE_I" (Profile.fixedPointSize profile).2).text] := by
  rw [sizes, pieceLines_cons, pieceLines_line, pieceLines_line]
  rfl

theorem plain_sizes : Plain (sizes profile) := by
  apply plain_of_omits
  rw [Omits, pieceLines_sizes, List.forall_mem_cons, List.forall_mem_singleton]
  simp only [List.forall_mem_singleton]
  exact ⟨not_mem_words_size (by decide) (by decide) (by decide) (by decide) _,
    not_mem_words_size (by decide) (by decide) (by decide) (by decide) _⟩

theorem sized_sizes {front : List Piece} (h : Omits sizeMacros front) (rest : List Piece) :
    Sized (pieceLines (front ++ sizes profile ++ rest)) := by
  have hsize {name : String} (hname : words name = [name]) (n : Nat) :
      (macroIn (Line.size name n).text != some name) = false := by
    have hdefine : macroIn (Line.size name n).text = some name :=
      macroIn_define hname (opens_append (by decide) (by decide) _)
    simp [hdefine]
  rw [Sized, pieceLines_append, pieceLines_append, pieceLines_sizes, List.append_assoc, sizeMacros,
    List.forall_mem_cons, List.forall_mem_singleton]
  refine ⟨fun t ht => ?_, fun t ht => ?_⟩
  · exact h t (mem_takeWhile_append (hsize (by decide) _) ht) _ (by decide)
  · rw [List.cons_append, List.append_cons] at ht
    rcases List.mem_append.mp (mem_takeWhile_append (hsize (by decide) _) ht) with ht | ht
    · exact h t ht _ (by decide)
    · rw [List.mem_singleton.mp ht]
      exact not_mem_words_size (by decide) (by decide) (by decide) (by decide) _

/-! ## The sections -/

/-- A piece that leaves a line blank, defines a type with a meaning such that `P`, or says nothing about types. -/
inductive Means (P : Meaning → Prop) : Piece → Prop
  | blank (n : Nat) : Means P (.blank n)
  | plain {t : String} : (∀ w ∈ "typedef" :: sizeMacros, w ∉ words t) → Means P (.line (.plain t))
  | typedef {m : Meaning} (t : TypeName) : P m → Means P (typedef m t)

section Means

variable {P : Meaning → Prop} {ps : List Piece}

theorem plain_of_means (h : ∀ p ∈ ps, Means P p) : Plain ps := by
  intro p hp hnone
  cases h p hp with
  | blank n => exact omits_blank n
  | plain hwords =>
    refine omits_plainLines (List.forall_mem_singleton.mpr (List.forall_mem_singleton.mpr ?_))
    exact hwords _ List.mem_cons_self
  | typedef => cases hnone

theorem means_of_mem_definitionsIn (h : ∀ p ∈ ps, Means P p) {d : Meaning × TypeName} (hd : d ∈ definitionsIn ps) :
    P d.1 := by
  obtain ⟨p, hp, hd⟩ := List.mem_filterMap.mp hd
  cases h p hp with
  | blank => cases hd
  | plain => cases hd
  | typedef t hm =>
    cases hd
    exact hm

theorem omits_of_means (h : ∀ p ∈ ps, Means P p) (hP : ∀ spaced, ¬ P (.fixed spaced)) : Omits sizeMacros ps := by
  induction ps with
  | nil => exact omits_nil
  | cons p ps ih =>
    obtain ⟨hp, hps⟩ := List.forall_mem_cons.mp h
    refine omits_cons.mpr ⟨?_, ih hps⟩
    cases hp with
    | blank n => exact omits_blank n
    | plain hwords =>
      refine omits_plainLines (List.forall_mem_singleton.mpr fun w hw => ?_)
      exact hwords w (List.mem_cons_of_mem _ hw)
    | typedef t hm =>
      refine omits_typedef (fun spaced hfixed => hP spaced ?_) t
      rwa [← hfixed]

end Means

theorem uniform_means (m : Meaning) : ∀ p ∈ uniform net m, Means (· = m) p := by
  intro p hp
  obtain ⟨⟨l, n⟩, -, hp⟩ := List.mem_flatMap.mp hp
  rcases List.mem_append.mp hp with hp | hp
  · split at hp
    · simp only [List.mem_cons, List.not_mem_nil, or_false] at hp
      rcases hp with rfl | rfl
      · exact .blank 1
      · exact .typedef _ rfl
    · cases hp
  · rw [List.mem_singleton.mp hp]
    exact .typedef _ rfl

theorem ordered_floating : Ordered (pieceLines (floating net)) := by
  have hmeans : ∀ p ∈ floating net, Means (· = .float) p := by
    rw [floating, List.forall_mem_append]
    refine ⟨?_, uniform_means net .float⟩
    simp only [List.forall_mem_cons, List.not_mem_nil, false_imp_iff, implies_true, and_true]
    exact ⟨.typedef _ rfl, .blank 1, .typedef _ rfl, .typedef _ rfl, .typedef _ rfl⟩
  refine ordered_builtIn (plain_of_means hmeans) ?_ (fun d hd => ?_) ?_
  · rw [typesIn_floating]
    exact nodup_uniform _ (by decide) (by decide)
  · rw [means_of_mem_definitionsIn hmeans hd]
    decide
  · apply sized_of_omits
    exact omits_of_means hmeans (by rintro spaced ⟨⟩)

theorem definitionsIn_front : definitionsIn (fixedInclude c ++ sizes profile) = [] := by
  rw [definitionsIn_append, definitionsIn_fixedInclude]
  rfl

theorem plain_front : Plain (fixedInclude c ++ sizes profile) := by
  refine plain_append.mpr ⟨plain_of_omits fun t ht => ?_, plain_sizes profile⟩
  exact List.forall_mem_singleton.mpr (omits_fixedInclude c t ht _ List.mem_cons_self)

theorem sized_front (rest : List Piece) : Sized (pieceLines (fixedInclude c ++ sizes profile ++ rest)) :=
  sized_sizes profile (fun t ht w hw => omits_fixedInclude c t ht w (List.mem_cons_of_mem _ hw)) rest

theorem ordered_fixedMulti : Ordered (pieceLines (fixedMulti net c profile)) := by
  have hrest : ∀ p ∈ [.blank 1, typedef (.fixed true) .relu, .blank 1, typedef (.fixed true) .input,
      typedef (.fixed true) .weights, typedef (.fixed true) .biases] ++ uniform net (.fixed true),
      Means (· = .fixed true) p := by
    rw [List.forall_mem_append]
    refine ⟨?_, uniform_means net (.fixed true)⟩
    simp only [List.forall_mem_cons, List.not_mem_nil, false_imp_iff, implies_true, and_true]
    exact ⟨.blank 1, .typedef _ rfl, .blank 1, .typedef _ rfl, .typedef _ rfl, .typedef _ rfl⟩
  have hnodup : (typesIn (fixedMulti net c profile)).Nodup := by
    rw [typesIn_fixedMulti]
    exact nodup_uniform _ (by decide) (by decide)
  rw [fixedMulti, List.append_assoc] at hnodup ⊢
  refine ordered_builtIn (plain_append.mpr ⟨plain_front c profile, plain_of_means hrest⟩) hnodup (fun d hd => ?_)
    (sized_front c profile _)
  rw [definitionsIn_append, definitionsIn_front, List.nil_append] at hd
  rw [means_of_mem_definitionsIn hrest hd]
  decide

/-- The meanings behind the first types of single fixed-point mode. -/
def Derived (c : Config) (m : Meaning) : Prop :=
  m = .float ∨ m = .named .wide ∨ c.quantized = true ∧ m = .named .narrow

def singleRest (net : Network) (c : Config) : List Piece :=
  let wide := Meaning.named .wide
  let narrow := Meaning.named .narrow
  let small := if c.quantized then narrow else wide
  [Piece.blank 1, typedef wide .relu, .blank 1, typedef small .input, typedef small .weights, typedef wide .biases] ++
    net.numbered.flatMap (fun x => singleLayer net c x.1 x.2) ++
    if c.quantized then
      [Piece.blank 1] ++ plainLines ["#define QUANTIZATION_FACTORS"] ++
        [typedef narrow .inputZeroPoint, typedef narrow .outputZeroPoint, typedef .float .inputScale,
          typedef .float .outputScale, typedef .float .weightScale]
    else []

theorem means_wide (t : TypeName) : Means (Derived c) (typedef (.named .wide) t) := .typedef t (.inr (.inl rfl))

theorem means_narrow (hq : c.quantized = true) (t : TypeName) : Means (Derived c) (typedef (.named .narrow) t) :=
  .typedef t (.inr (.inr ⟨hq, rfl⟩))

theorem singleLayer_means (l : Layer) (n : Nat) :
    ∀ p ∈ singleLayer net c l n, Means (Derived c) p := by
  cases hw : l.weighted <;> cases hq : c.quantized <;>
    simp [singleLayer, hw, hq, means_wide, means_narrow, Means.blank]

theorem singleRest_means : ∀ p ∈ singleRest net c, Means (Derived c) p := by
  have hfloat (t : TypeName) : Means (Derived c) (typedef .float t) := .typedef t (.inl rfl)
  have hfactors : Means (Derived c) (.line (.plain "#define QUANTIZATION_FACTORS")) := .plain (by decide)
  have hlayers : ∀ p ∈ net.numbered.flatMap fun x => singleLayer net c x.1 x.2, Means (Derived c) p := by
    intro p hp
    obtain ⟨x, -, hp⟩ := List.mem_flatMap.mp hp
    exact singleLayer_means net c x.1 x.2 p hp
  unfold singleRest
  dsimp only
  rw [List.forall_mem_append, List.forall_mem_append]
  refine ⟨⟨?_, hlayers⟩, ?_⟩
  · cases hq : c.quantized <;> simp [means_wide, means_narrow, hq, Means.blank]
  · cases hq : c.quantized <;> simp [means_narrow, hfloat, hfactors, hq, Means.blank, plainLines]

theorem typesIn_singleRest : typesIn (singleRest net c) =
    [TypeName.relu, .input, .weights, .biases] ++ net.numbered.flatMap (fun x => typesIn (singleLayer net c x.1 x.2)) ++
      if c.quantized then [TypeName.inputZeroPoint, .outputZeroPoint, .inputScale, .outputScale, .weightScale]
      else [] := by
  unfold singleRest
  dsimp only
  rw [typesIn_append, typesIn_append, typesIn_flatMap]
  cases c.quantized <;> simp

theorem ordered_single {head : List Piece} (hplain : Plain head)
    (hbuilt : ∀ d ∈ definitionsIn head, d.1.text ∈ builtIn)
    (htypes : typesIn head = if c.quantized then [.narrow, .wide] else [.wide])
    (hsized : Sized (pieceLines (head ++ singleRest net c))) : Ordered (pieceLines (head ++ singleRest net c)) := by
  have hmeans := singleRest_means net c
  refine ordered_append (plain_append.mpr ⟨hplain, plain_of_means hmeans⟩) ?_ hbuilt (fun d hd => ?_) hsized
  · rw [typesIn_append, htypes, typesIn_singleRest, ← List.append_assoc, ← List.append_assoc]
    refine nodup_section (fun x _ => singleLayer_types net c x.1 x.2) ?_ ?_ <;> cases c.quantized <;> decide
  · rcases means_of_mem_definitionsIn hmeans hd with h | h | ⟨hq, h⟩
    · rw [h]
      exact .inl (by decide)
    · refine .inr ⟨.wide, ?_, h⟩
      rw [htypes]
      split <;> decide
    · refine .inr ⟨.narrow, ?_, h⟩
      rw [htypes, if_pos hq]
      decide

theorem ordered_fixedSingle : Ordered (pieceLines (fixedSingle net c profile)) := by
  cases hq : c.quantized with
  | true =>
    obtain ⟨full, hfull, heq⟩ : ∃ full, full ∈ [Meaning.int32, .int64] ∧ fixedSingle net c profile =
        plainLines ["#include <stdint.h>"] ++ [Piece.blank 1, typedef .int8 .narrow, typedef full .wide] ++
          singleRest net c := by
      refine ⟨if profile = Profile.alexnet ∧ c.dataDetail = "eight-bit-int" then .int32 else .int64, ?_, ?_⟩
      · split <;> decide
      · simp [fixedSingle, singleRest, hq]
    have hmeans : ∀ p ∈ plainLines ["#include <stdint.h>"] ++
        [Piece.blank 1, typedef .int8 .narrow, typedef full .wide],
        Means (· ∈ [.int8, .int32, .int64]) p := by
      rw [List.forall_mem_append, List.forall_mem_cons, List.forall_mem_cons, List.forall_mem_singleton]
      exact ⟨List.forall_mem_singleton.mpr (.plain (by decide)), .blank 1, .typedef _ List.mem_cons_self,
        .typedef _ (List.mem_cons_of_mem _ hfull)⟩
    have hbuilt : ∀ m ∈ [Meaning.int8, .int32, .int64], m.text ∈ builtIn := by decide
    rw [heq]
    refine ordered_single net c (plain_of_means hmeans)
      (fun d hd => hbuilt _ (means_of_mem_definitionsIn hmeans hd)) ?_ ?_
    · rw [if_pos hq, typesIn_append, typesIn_plainLines]
      rfl
    · apply sized_of_omits
      refine omits_append.mpr ⟨omits_of_means hmeans ?_, omits_of_means (singleRest_means net c) ?_⟩
      · rintro spaced h
        simp at h
      · rintro spaced (h | h | ⟨-, h⟩) <;> cases h
  | false =>
    have heq : fixedSingle net c profile = fixedInclude c ++ sizes profile ++ [Piece.blank 1,
        .line (.typedef (.fixed false) .wide " //Total: FX_SIZE_W bits, integer: FX_SIZE_I bits")] ++
          singleRest net c := by
      simp [fixedSingle, singleRest, hq]
    have hsized := sized_front c profile ([Piece.blank 1,
      .line (.typedef (.fixed false) .wide " //Total: FX_SIZE_W bits, integer: FX_SIZE_I bits")] ++ singleRest net c)
    rw [← List.append_assoc] at hsized
    rw [heq]
    refine ordered_single net c (plain_append.mpr ⟨plain_front c profile, by simp⟩) ?_ ?_ hsized
    · rw [definitionsIn_append, definitionsIn_front, List.nil_append]
      simp [builtIn, Meaning.text]
    · rw [← map_snd_definitionsIn, definitionsIn_append, definitionsIn_front, hq]
      rfl

/-! ## The file -/

/-- The names of the sections. -/
def selectors (c : Config) : List String :=
  match c.dataMode with
  | .floating => ["FLOAT_DATATYPE"]
  | .fixedSingle => ["FIXEDPOINT_DATATYPE_SINGLE"]
  | .fixedMulti => ["FIXEDPOINT_DATATYPE_MULTI"]
  | .all => ["FLOAT_DATATYPE", "FIXEDPOINT_DATATYPE_SINGLE", "FIXEDPOINT_DATATYPE_MULTI"]

/-- A section with the line behind it. If all modes are in the file, it stands under the condition that selects it. -/
def framed (c : Config) (s : String × List String) : List String :=
  if c.allModes then ("#ifdef " ++ s.1) :: s.2 ++ ["#endif", ""] else s.2 ++ [""]

theorem map_fst_modes : (modes net c profile).map Prod.fst = selectors c := by
  unfold modes selectors Config.floating Config.fixedSingle Config.fixedMulti
  cases c.dataMode <;> rfl

theorem ordered_modes {x : String × List Piece} (h : x ∈ modes net c profile) : Ordered (pieceLines x.2) := by
  simp only [modes, List.mem_append, List.mem_ite_nil_right, List.mem_singleton] at h
  rcases h with (⟨-, rfl⟩ | ⟨-, rfl⟩) | ⟨-, rfl⟩
  · exact ordered_floating net
  · exact ordered_fixedSingle net c profile
  · exact ordered_fixedMulti net c profile

def preamble (c : Config) : List Piece :=
  plainLines ["#define _DATA_TYPES_H"] ++ [Piece.blank 1] ++
    (if c.allModes then
      plainLines ["#define FLOAT_DATATYPE", "//#define FIXEDPOINT_DATATYPE_SINGLE",
        "//#define FIXEDPOINT_DATATYPE_MULTI"] ++ [Piece.blank 1]
    else []) ++
    if c.mainFunction && (c.fixedSingle || c.fixedMulti) && !c.quantized then
      [Piece.guarded { name := "_MSC_VER", defined := true } (plainLines ["#include <algorithm>"]), .blank 1]
    else []

theorem omits_preamble : Omits ["typedef"] (preamble c) := by
  unfold preamble
  cases c.allModes <;> cases c.mainFunction && (c.fixedSingle || c.fixedMulti) && !c.quantized <;>
    (rw [Omits]; decide)

theorem pieceLines_sections : pieceLines ((modes net c profile).flatMap fun x =>
      (if c.allModes then [Piece.guarded { name := x.1, defined := true } x.2] else x.2) ++ [Piece.blank 1]) =
      ((modes net c profile).map fun x => (x.1, pieceLines x.2)).flatMap (framed c) := by
  rw [pieceLines_flatMap, List.flatMap_map]
  congr 1
  funext x
  rw [pieceLines_append, framed]
  cases c.allModes with
  | true => simp [Guard.opening, Guard.closing]
  | false => rfl

/-- The header is a front without types, the sections of the enabled modes and an end. In each section every name is
defined once, and only in terms of what is built in or was defined above. -/
theorem sections_ordered (net : Network) (c : Config) (profile : String) :
    ∃ (front : List String) (sections : List (String × List String)),
      fileLines (text net c profile) = front ++ sections.flatMap (framed c) ++ ["#endif //_DATA_TYPES_H", ""] ∧
      (∀ t ∈ front, "typedef" ∉ words t) ∧ sections.map Prod.fst = selectors c ∧ ∀ s ∈ sections, Ordered s.2 := by
  refine ⟨"#ifndef _DATA_TYPES_H" :: pieceLines (preamble c), (modes net c profile).map fun x => (x.1, pieceLines x.2),
    ?_, ?_, ?_, ?_⟩
  · have hlines : pieceLines (pieces net c profile) = "#ifndef _DATA_TYPES_H" :: (pieceLines (preamble c) ++
        ((modes net c profile).map fun x => (x.1, pieceLines x.2)).flatMap (framed c) ++
          ["#endif //_DATA_TYPES_H"]) := by
      rw [← pieceLines_sections, ← pieceLines_append]
      exact pieceLines_guarded _ _
    have hfile : fileLines (text net c profile) = pieceLines (pieces net c profile) ++ [""] :=
      fileLines_render (piecesInstrs_steady _) (by rw [← pieceLines, hlines]; exact List.cons_ne_nil _ _)
        (Piece.sound_all _ (pieces_tidy net c profile) 0).lines
    rw [hfile, hlines]
    simp
  · refine List.forall_mem_cons.mpr ⟨by decide, fun t ht => ?_⟩
    exact omits_preamble c t ht _ List.mem_cons_self
  · rw [List.map_map]
    exact map_fst_modes net c profile
  · intro s hs
    obtain ⟨x, hx, rfl⟩ := List.mem_map.mp hs
    exact ordered_modes net c profile hx

end DataTypes
end LayerLoops
