import LayerLoops.Proofs.Vocabulary
import Mathlib.Data.Bool.AllAny

/-! # Characters of generated code

Statements, loops and conditions are written without braces, number signs and line feeds, and outside of comments
without colons. The only texts in the code of a layer that are no fixed words, names or numerals are what its comments
say and what its stored values are called, and these hold no such character either. -/

namespace LayerLoops

open Code Text

namespace Code

variable {a : String} {cs : List Char} {h : Head} {ts : List Tree} {marks : List Char}

def Avoids (marks : List Char) (s : String) : Prop := ∀ c ∈ s.toList, c ∉ marks

def lineMarks : List Char := ['{', '}', '#', '\n']

def codeMarks : List Char := ':' :: lineMarks

theorem Avoids.mono {ms : List Char} {s : String} (h : Avoids marks s) (hms : ms ⊆ marks) : Avoids ms s :=
  fun c hc hmem => h c hc (hms hmem)

theorem Avoids.lines {s : String} (h : Avoids codeMarks s) : Avoids lineMarks s := h.mono (List.subset_cons_self _ _)

theorem Avoids.append {b : String} (ha : Avoids marks a) (hb : Avoids marks b) : Avoids marks (a ++ b) := by
  intro c hc
  rw [String.toList_append] at hc
  rcases List.mem_append.mp hc with hc | hc
  · exact ha c hc
  · exact hb c hc

theorem avoids_literal (h : (cs.all fun c => !marks.contains c) = true) : Avoids marks (String.ofList cs) := by
  intro c hc
  rw [String.toList_ofList] at hc
  simpa using List.all_eq_true.mp h c hc

theorem Avoids.start (h : (cs.all fun c => !marks.contains c) = true) (ha : Avoids marks a) :
    Avoids marks (String.ofList cs ++ a) :=
  (avoids_literal h).append ha

theorem Avoids.stop (ha : Avoids marks a) (h : (cs.all fun c => !marks.contains c) = true) :
    Avoids marks (a ++ String.ofList cs) :=
  ha.append (avoids_literal h)

theorem Avoids.glue {b : String} (ha : Avoids marks a) (h : (cs.all fun c => !marks.contains c) = true)
    (hb : Avoids marks b) : Avoids marks (a ++ String.ofList cs ++ b) :=
  (ha.stop h).append hb

theorem avoids_join {ts : List String} (h : ∀ t ∈ ts, Avoids marks t) : Avoids marks (String.join ts) := by
  induction ts with
  | nil => exact nofun
  | cons t ts ih =>
    rw [String.join_cons]
    exact (h t List.mem_cons_self).append (ih fun u hu => h u (List.mem_cons_of_mem t hu))

theorem avoids_intercalate {sep : String} (hsep : Avoids marks sep) {ts : List String} (h : ∀ t ∈ ts, Avoids marks t) :
    Avoids marks (sep.intercalate ts) := by
  induction ts with
  | nil => exact nofun
  | cons t ts ih =>
    have ht := h t List.mem_cons_self
    cases ts with
    | nil => simpa using ht
    | cons u us =>
      rw [String.intercalate_cons_cons]
      exact (ht.append hsep).append (ih fun v hv => h v (List.mem_cons_of_mem t hv))

/-! ## Names, numerals and expressions -/

theorem avoids_word {s : String} (h : s.toList.all isWordChar = true) : Avoids codeMarks s := by
  have hmarks : ∀ c ∈ codeMarks, isWordChar c = false := List.all_iff_forall_prop.mp (by decide)
  intro c hc hmem
  have hword := List.all_eq_true.mp h c hc
  rw [hmarks c hmem] at hword
  cases hword

theorem avoids_nat (n : Nat) : Avoids codeMarks (toString n) := by
  apply avoids_word
  rw [Nat.toString_eq_repr, Nat.toList_repr, List.all_eq_true]
  exact fun c hc => isWordChar_of_mem_toDigits hc

theorem avoids_int (n : Int) : Avoids codeMarks (toString n) := by
  rw [Int.toString_eq_repr, Int.repr_eq_if]
  split
  · exact avoids_nat n.toNat
  · exact (avoids_nat (-n).toNat).start (by decide)

theorem avoids_dim (d : Option Int) : Avoids codeMarks (dimText d) := by
  cases d with
  | none => exact avoids_literal (by decide)
  | some n => exact avoids_int n

theorem avoids_type (t : TypeName) : Avoids codeMarks t.text := avoids_word t.all_wordChar

theorem avoids_buffer (b : Buffer) : Avoids codeMarks b.text := avoids_word (Symbol.buffer b).all_wordChar

theorem avoids_index (i : Index) : Avoids codeMarks i.text := by
  cases i <;> exact avoids_literal (by decide)

theorem avoids_expr (e : Expr) : Avoids codeMarks e.text := by
  induction e with
  | index i => exact avoids_index i
  | number n => exact avoids_dim n
  | add a b iha ihb | sub a b iha ihb | mul a b iha ihb => exact iha.glue (by decide) ihb

theorem avoids_bracketed (ts : List String) (h : ∀ t ∈ ts, Avoids codeMarks t) :
    Avoids codeMarks (String.join (ts.map fun t => "[" ++ t ++ "]")) := by
  apply avoids_join
  intro t ht
  obtain ⟨u, hu, rfl⟩ := List.mem_map.mp ht
  exact ((h u hu).start (by decide)).stop (by decide)

theorem avoids_dims (dims : List (Option Int)) : Avoids codeMarks (dimsText dims) := by
  have h := avoids_bracketed (dims.map dimText) (by simp [avoids_dim])
  rwa [List.map_map] at h

theorem avoids_element (e : Element) : Avoids codeMarks e.text := by
  have h := avoids_bracketed (e.subscripts.map Expr.text) (by simp [avoids_expr])
  rw [List.map_map] at h
  exact (avoids_buffer e.buffer).append h

theorem avoids_declaration (d : Declaration) : Avoids codeMarks d.text :=
  ((avoids_type d.type).glue (by decide) (avoids_buffer d.buffer)).append (avoids_dims d.dims)

theorem avoids_term (t : Term) : Avoids codeMarks t.text := by
  induction t with
  | element e => exact avoids_element e
  | number n => exact avoids_int n
  | product a b => exact (avoids_element a).glue (by decide) (avoids_element b)
  | layerProduct n a b =>
    exact ((((avoids_nat n).start (by decide)).glue (by decide) (avoids_element a)).glue (by decide)
      (avoids_element b)).stop (by decide)
  | activated a t ih =>
    have hlabel : Avoids codeMarks a.label := by cases a <;> exact avoids_literal (by decide)
    cases a with
    | relu | linear => exact (hlabel.glue (by decide) ih).stop (by decide)
    | none | softmax => exact ih

/-! ## Statements, conditions and loops -/

/-- What a comment says stays on its line, and a stored value is called by a plain text. -/
def Stmt.Clean : Stmt → Prop
  | comment s => Avoids lineMarks s
  | store _ what _ _ _ _ => Avoids codeMarks what
  | _ => True

def Stmt.isComment : Stmt → Bool
  | comment _ => true
  | _ => false

theorem avoids_requantize (target wide : Element) (type : TypeName) (q : Nat) (scale : Element) :
    Avoids codeMarks (Stmt.requantize target wide type q scale).text := by
  have hfactor : Avoids codeMarks ("*input_scale_factors[" ++ toString q ++ "]*") :=
    ((avoids_nat q).start (by decide)).stop (by decide)
  have hshift : Avoids codeMarks
      ("/output_scale_factors[" ++ toString q ++ "] + output_zero_points[" ++ toString q ++ "]));") :=
    (((avoids_nat q).start (by decide)).glue (by decide) (avoids_nat q)).stop (by decide)
  have hwide : Avoids codeMarks (target.text ++ " = " ++ type.text ++ "(Q_MIN_MAX(" ++ wide.text) :=
    ((avoids_element target).glue (by decide) (avoids_type type)).glue (by decide) (avoids_element wide)
  exact ((hwide.append hfactor).append (avoids_element scale)).append hshift

theorem avoids_stmt {st : Stmt} (h : st.Clean) (hc : st.isComment = false) : Avoids codeMarks st.text := by
  cases st with
  | comment s => cases hc
  | declare d active =>
    have hsign : Avoids codeMarks (if active then "" else "//") := by
      cases active <;> exact avoids_literal (by decide)
    exact (hsign.append (avoids_declaration d)).stop (by decide)
  | declareCells t =>
    exact (((avoids_type t).glue (by decide) (avoids_buffer .cell)).glue (by decide) (avoids_buffer .maximum)).stop
      (by decide)
  | define i e => exact (((avoids_index i).start (by decide)).glue (by decide) (avoids_expr e)).stop (by decide)
  | assign e t | accumulate e t => exact ((avoids_element e).glue (by decide) (avoids_term t)).stop (by decide)
  | keepMaximum => exact avoids_literal (by decide)
  | requantize target wide type q scale => exact avoids_requantize target wide type q scale
  | store n what value x y z =>
    have hcall : Avoids codeMarks ("STORE_DATA(" ++ toString n ++ ", \"") :=
      ((avoids_nat n).start (by decide)).stop (by decide)
    have hvalue : Avoids codeMarks ("STORE_DATA(" ++ toString n ++ ", \"" ++ what ++ "\", (float)" ++ value.text) :=
      (hcall.append h).glue (by decide) (avoids_element value)
    exact (((hvalue.glue (by decide) (avoids_expr x)).glue (by decide) (avoids_expr y)).glue (by decide)
      (avoids_expr z)).stop (by decide)
  | injectFault n =>
    exact (((avoids_nat n).start (by decide)).glue (by decide) (avoids_nat n)).stop (by decide)

theorem avoids_lineMarks {st : Stmt} (h : st.Clean) : Avoids lineMarks st.text := by
  cases hc : st.isComment with
  | false => exact (avoids_stmt h hc).lines
  | true =>
    cases st with
    | comment s => exact Avoids.start (by decide) h
    | _ => cases hc

theorem avoids_bounds (b : Bounds) : Avoids codeMarks b.text :=
  (((avoids_int b.rows).start (by decide)).glue (by decide) (avoids_int b.columns)).stop (by decide)

def Head.unlabelled (h : Head) : String := { h with label := none }.text

theorem avoids_unlabelled (h : Head) : Avoids codeMarks h.unlabelled := by
  have hfor : Avoids codeMarks ("" ++ (if h.spaced then "for (" else "for(")) := by
    cases h.spaced <;> exact (avoids_literal (by decide)).append (avoids_literal (by decide))
  exact (((((hfor.append (avoids_literal (by decide))).append (avoids_index h.index)).glue (by decide)
    (avoids_index h.index)).glue (by decide) (avoids_dim h.bound)).glue (by decide) (avoids_index h.index)).stop
      (by decide)

theorem Head.text_nonempty (h : Head) : h.text.isEmpty = false := by
  rw [← Bool.not_eq_true, String.isEmpty_iff]
  intro hempty
  have hlen := congrArg String.length hempty
  simp [Head.text] at hlen

def Label.Worded (l : Label) : Prop := l.suffix.toList.all isWordChar = true

theorem Label.all_wordChar {l : Label} (h : l.Worded) : l.text.toList.all isWordChar = true := by
  have hmiddle : (if l.number ≥ 10 then "t" else "").toList.all isWordChar = true := by
    split <;> decide
  exact all_wordChar_append (all_wordChar_append (all_wordChar_numbered (by decide) l.number) hmiddle) h

theorem Label.text_ne_nil (l : Label) : l.text.toList ≠ [] := by
  have htext : l.text = "for" ++ (toString l.number ++ (if l.number ≥ 10 then "t" else "") ++ l.suffix) := by
    simp only [← String.append_assoc]
    rfl
  rw [htext, String.toList_append]
  exact List.cons_ne_nil _ _

theorem Head.text_of_none (hl : h.label = none) : h.text = h.unlabelled := by
  simp only [Head.text, Head.unlabelled, hl]

theorem Head.text_of_some {l : Label} (hl : h.label = some l) : h.text = l.text ++ ": " ++ h.unlabelled := by
  simp only [Head.text, Head.unlabelled, hl, String.append_assoc, String.empty_append]

theorem avoids_head (hl : ∀ l ∈ h.label, l.Worded) : Avoids lineMarks h.text := by
  have hrest := (avoids_unlabelled h).lines
  cases hlabel : h.label with
  | none => rwa [Head.text_of_none hlabel]
  | some l =>
    rw [Head.text_of_some hlabel]
    exact (avoids_word (Label.all_wordChar (hl l hlabel))).lines.glue (by decide) hrest

/-! ## Trees -/

mutual

/-- The labels that a tree writes; beside a loop on its line there are only statements. -/
def Tree.labels : Tree → List Label
  | .loop h layout body => h.label.toList ++ if layout = .sameLine then [] else labelsAll body
  | .simulated body => labelsAll body
  | .stmt _ | .blank | .choose .. | .watched .. => []

def labelsAll : List Tree → List Label
  | [] => []
  | t :: ts => t.labels ++ labelsAll ts

end

@[simp] theorem labelsAll_append (ts us : List Tree) : labelsAll (ts ++ us) = labelsAll ts ++ labelsAll us := by
  induction ts with
  | nil => rfl
  | cons t ts ih => rw [List.cons_append, labelsAll, labelsAll, ih, List.append_assoc]

theorem mem_inlineTexts {s : String} : ∀ {ts : List Tree}, s ∈ inlineTexts ts → ∃ st ∈ stmtsAll ts, s = st.text
  | t :: ts, h => by
    unfold inlineTexts at h
    split at h
    · rename_i st
      rcases List.mem_cons.mp h with rfl | h
      · exact ⟨st, by simp [stmtsAll, Tree.stmts], rfl⟩
      · obtain ⟨u, hu, rfl⟩ := mem_inlineTexts h
        exact ⟨u, List.mem_append_right _ hu, rfl⟩
    · obtain ⟨u, hu, rfl⟩ := mem_inlineTexts h
      exact ⟨u, List.mem_append_right _ hu, rfl⟩

theorem avoids_inline (h : ∀ st ∈ stmtsAll ts, st.Clean) : Avoids lineMarks (String.join (inlineTexts ts)) := by
  apply avoids_join
  intro s hs
  obtain ⟨st, hst, rfl⟩ := mem_inlineTexts hs
  exact avoids_lineMarks (h st hst)

/-- The statements of the trees are clean, and their labels are words. -/
structure Tidy (ts : List Tree) : Prop where
  stmts : ∀ st ∈ stmtsAll ts, st.Clean
  labels : ∀ l ∈ labelsAll ts, l.Worded

theorem Tidy.append {us : List Tree} (ht : Tidy ts) (hu : Tidy us) : Tidy (ts ++ us) := by
  constructor
  · rw [stmtsAll_append]
    exact List.forall_mem_append.mpr ⟨ht.stmts, hu.stmts⟩
  · rw [labelsAll_append]
    exact List.forall_mem_append.mpr ⟨ht.labels, hu.labels⟩

theorem tidy_cons {t : Tree} : Tidy (t :: ts) ↔ Tidy [t] ∧ Tidy ts := by
  constructor
  · rintro ⟨hstmts, hlabels⟩
    rw [stmtsAll, List.forall_mem_append] at hstmts
    rw [labelsAll, List.forall_mem_append] at hlabels
    exact ⟨⟨by simpa [stmtsAll] using hstmts.1, by simpa [labelsAll] using hlabels.1⟩, hstmts.2, hlabels.2⟩
  · rintro ⟨ht, hts⟩
    exact ht.append hts

end Code

/-! ## The code of a layer -/

namespace Site

variable {code : List Tree} {s : Site}

theorem avoids_describe (l : Layer) : Avoids lineMarks l.describe := by
  unfold Layer.describe
  cases l.form with
  | conv filters k padding =>
    have hlabel : Avoids lineMarks padding.label := by cases padding <;> exact avoids_literal (by decide)
    exact ((hlabel.start (by decide)).glue (by decide) (avoids_dim l.stride).lines).stop (by decide)
  | pooling type channels k =>
    have hshort : Avoids lineMarks type.short := by cases type <;> exact avoids_literal (by decide)
    exact hshort.stop (by decide)
  | flatten nodes | dense nodes => exact avoids_literal (by decide)

theorem avoids_extents (v : Volume) : Avoids lineMarks s!"X:{v.x}, Y: {v.y}, Z: {v.z}" := by
  exact (((avoids_int v.x).lines.start (by decide)).glue (by decide) (avoids_int v.y).lines).glue (by decide)
    (avoids_int v.z).lines

abbrev Spotless (ts : List Tree) : Prop := ∀ st ∈ stmtsAll ts, st.Clean

theorem spotless_append {ts us : List Tree} (ht : Spotless ts) (hu : Spotless us) : Spotless (ts ++ us) := by
  rw [Spotless, stmtsAll_append]
  exact List.forall_mem_append.mpr ⟨ht, hu⟩

theorem header_spotless (s : Site) (shape : Shape) : Spotless (s.header shape) := by
  have htitle : Avoids lineMarks ("Layer " ++ toString s.number ++ ": " ++ s.layer.describe) :=
    ((avoids_nat s.number).lines.start (by decide)).glue (by decide) (avoids_describe s.layer)
  simp only [Spotless, header, stmtsAll, Tree.stmts, List.forall_mem_append, List.forall_mem_singleton]
  exact ⟨htitle, (avoids_extents shape.input).start (by decide), (avoids_extents shape.output).start (by decide),
    List.forall_mem_nil _⟩

theorem declarations_spotless (s : Site) (dims : List Int) : Spotless (s.declarations dims) := by
  rw [Spotless, declarations, stmtsAll_ofStmts]
  intro st hst
  rcases List.mem_append.mp hst with hst | hst <;> split at hst <;> simp at hst <;> rw [hst] <;> trivial

theorem storeOutput_clean (es : List Expr) (x y z : Expr) : ∀ st ∈ s.storeOutput es x y z, st.Clean := by
  have hwide : Avoids codeMarks "LayerOutputBase" := avoids_literal (by decide)
  have houtput : Avoids codeMarks "LayerOutput" := avoids_literal (by decide)
  unfold storeOutput
  split
  · exact List.forall_mem_nil _
  · rw [List.forall_mem_append, List.forall_mem_singleton]
    refine ⟨?_, houtput⟩
    split
    · exact List.forall_mem_singleton.mpr hwide
    · exact List.forall_mem_nil _

theorem storeWeight_clean (weight : Element) : ∀ st ∈ s.storeWeight weight, st.Clean := by
  have hweights : Avoids codeMarks "weights" := avoids_literal (by decide)
  have hsum : Avoids codeMarks "temp_element" := avoids_literal (by decide)
  unfold storeWeight
  split
  · exact List.forall_mem_nil _
  · rw [List.forall_mem_cons, List.forall_mem_singleton]
    exact ⟨hweights, hsum⟩

theorem storeBias_clean (i : Index) (x z : Expr) : ∀ st ∈ s.storeBias i x z, st.Clean := by
  have hbiases : Avoids codeMarks "biases" := avoids_literal (by decide)
  unfold storeBias
  split
  · exact List.forall_mem_singleton.mpr hbiases
  · exact List.forall_mem_nil _

theorem requantize_clean (es : List Expr) (i : Index) : ∀ st ∈ s.requantize es i, st.Clean := by
  unfold requantize
  split
  · exact List.forall_mem_singleton.mpr trivial
  · exact List.forall_mem_nil _

theorem innermost_clean (h : Head) (body : Stmt) (hb : body.Clean) {stored : List Stmt} (hs : ∀ st ∈ stored, st.Clean) :
    ∀ st ∈ (innermost h body stored).stmts, st.Clean := by
  unfold innermost
  split
  · simpa [Tree.stmts, stmtsAll] using hb
  · simpa [Tree.stmts, stmtsAll] using ⟨hb, hs⟩

theorem multiplyAdd_clean {shape : Shape} {o : Operands} (ho : s.convOperands shape = .ok o) (h : Head)
    (sum : Element) :
    ∀ st ∈ (s.multiplyAdd h sum o).stmts, st.Clean := by
  have hstored := s.storeWeight_clean o.weight
  unfold multiplyAdd
  dsimp only
  split
  · exact innermost_clean h (.accumulate _ _) trivial hstored
  · rename_i defs bounds hpadded
    have hdefs : ∀ st ∈ defs, st.Clean := by
      intro st hst
      obtain ⟨i, e, rfl⟩ := (convOperands_buffers ho).2.2 defs bounds hpadded st hst
      trivial
    have houtside (e : Element) : ∀ st ∈ (if s.config.quantized then some (Stmt.accumulate sum (.product e o.weight))
        else none).toList, st.Clean := by
      split
      · exact List.forall_mem_singleton.mpr trivial
      · exact List.forall_mem_nil _
    have hafter : ∀ st ∈ stmtsAll (if (s.storeWeight o.weight).isEmpty then []
        else [Tree.simulated (Tree.ofStmts (s.storeWeight o.weight))]), st.Clean := by
      split
      · exact List.forall_mem_nil _
      · simpa [stmtsAll, Tree.stmts] using hstored
    simp only [Tree.stmts, stmtsAll_append, stmtsAll_ofStmts, stmtsAll, List.append_nil, List.forall_mem_append,
      List.forall_mem_cons]
    exact ⟨⟨hdefs, trivial, houtside _⟩, hafter⟩

theorem conv_spotless (h : s.conv = .ok code) : Spotless code := by
  simp only [conv, bind_eq_ok, pure_eq_ok] at h
  obtain ⟨a, -, shape, -, c, -, o, ho, rfl⟩ := h
  refine spotless_append (spotless_append (s.header_spotless shape) (s.declarations_spotless _)) ?_
  have hsum (h : Head) (sum : Element) := multiplyAdd_clean ho h sum
  cases a with
  | scalar =>
    simp only [Spotless, convScalar, reduction, stmtsAll_nest, stmtsAll, Tree.stmts, stmtsAll_append, stmtsAll_ofStmts,
      List.append_nil, List.forall_mem_append, List.forall_mem_cons]
    exact ⟨⟨⟨s.storeBias_clean _ _ _, trivial, trivial, List.forall_mem_nil _⟩, hsum _ _⟩,
      ⟨⟨trivial, List.forall_mem_nil _⟩, s.requantize_clean _ _⟩, s.storeOutput_clean _ _ _ _⟩
  | vector =>
    simp only [Spotless, convVector, reduction, stmtsAll_nest, stmtsAll, Tree.stmts, stmtsAll_append,
      List.append_nil, List.nil_append, List.forall_mem_append, List.forall_mem_singleton, Stmt.Clean, true_and,
      and_true]
    exact hsum _ _
  | tile =>
    simp only [Spotless, convTile, reduction, stmtsAll_nest, stmtsAll, Tree.stmts, stmtsAll_append,
      List.append_nil, List.forall_mem_append, List.forall_mem_singleton, Stmt.Clean, true_and, and_true]
    exact hsum _ _

theorem stored_clean (present : Bool) (number : Nat) (value : Element) (x y z : Expr) :
    ∀ st ∈ (if present then [Stmt.store number "LayerOutput" value x y z] else []), st.Clean := by
  have houtput : Avoids codeMarks "LayerOutput" := avoids_literal (by decide)
  split
  · exact List.forall_mem_singleton.mpr houtput
  · exact List.forall_mem_nil _

theorem pooling_spotless (h : s.pooling = .ok code) : Spotless code := by
  simp only [pooling, bind_eq_ok, pure_eq_ok] at h
  obtain ⟨_, -, shape, -, seed, -, rfl⟩ := h
  refine spotless_append (spotless_append (s.header_spotless shape) (s.declarations_spotless _)) ?_
  simp only [Spotless, poolingNest, stmtsAll_nest, stmtsAll, Tree.stmts, stmtsAll_append, stmtsAll_ofStmts,
    List.append_nil, List.nil_append, List.forall_mem_append, List.forall_mem_singleton, Stmt.Clean, true_and]
  exact stored_clean _ _ _ _ _ _

theorem flatten_spotless (h : s.flatten = .ok code) : Spotless code := by
  simp only [flatten, bind_eq_ok, pure_eq_ok] at h
  obtain ⟨_, -, shape, -, rfl⟩ := h
  refine spotless_append (spotless_append (s.header_spotless shape) (s.declarations_spotless _)) ?_
  simp only [Spotless, flattenNest, stmtsAll_nest, stmtsAll, List.append_nil]
  exact innermost_clean _ (.assign _ _) trivial (stored_clean _ _ _ _ _ _)

theorem dense_spotless (h : s.dense = .ok code) : Spotless code := by
  simp only [dense, bind_eq_ok, pure_eq_ok] at h
  obtain ⟨shape, -, rfl⟩ := h
  refine spotless_append (spotless_append (s.header_spotless shape) (s.declarations_spotless _)) ?_
  simp only [Spotless, denseNest, stmtsAll, Tree.stmts, stmtsAll_append, stmtsAll_ofStmts, List.append_nil,
    List.forall_mem_append, List.forall_mem_cons]
  exact ⟨⟨⟨⟨trivial, trivial, List.forall_mem_nil _⟩, s.storeBias_clean _ _ _⟩,
    innermost_clean _ (.accumulate _ _) trivial (s.storeWeight_clean _)⟩,
    ⟨⟨trivial, List.forall_mem_nil _⟩, s.requantize_clean _ _⟩, s.storeOutput_clean _ _ _ _⟩

theorem code_spotless (h : s.code = .ok code) : Spotless code := by
  unfold Site.code at h
  cases hk : s.layer.kind <;> rw [hk] at h
  · exact conv_spotless h
  · exact pooling_spotless h
  · exact flatten_spotless h
  · exact dense_spotless h

end Site

/-! ## The body of the generated function -/

namespace Forward

variable {net : Network} {c : Config} {orders : List LoopOrder} {profile : String}

theorem inputCapture_cases {l : Layer} {n : Nat} {capture : List Tree} (h : inputCapture c l n = .ok capture) :
    capture = [] ∨ ∃ heads value x y z, (∀ k ∈ heads, k.label = none) ∧
      capture = [.simulated (Site.nest heads [.stmt (.store n "inputs" value x y z)]), .blank, .blank] := by
  unfold inputCapture at h
  cases hc : c.capture with
  | false =>
    simp only [hc, Bool.not_false, if_true, pure_eq_ok] at h
    exact .inl h.symm
  | true =>
    right
    by_cases hk : l.kind = .dense
    · simp only [hc, hk, Bool.not_true, Bool.false_eq_true, if_false, if_true, bind_eq_ok, pure_eq_ok] at h
      obtain ⟨v, -, x, -, loops, rfl, rfl⟩ := h
      exact ⟨[_], _, _, _, _, by simp, rfl⟩
    · simp only [hc, hk, Bool.not_true, Bool.false_eq_true, if_false, bind_eq_ok, pure_eq_ok] at h
      obtain ⟨v, -, x, -, y, -, z, -, loops, rfl, rfl⟩ := h
      exact ⟨[_, _, _], _, _, _, _, by simp, rfl⟩

theorem inputCapture_spotless {l : Layer} {n : Nat} {capture : List Tree} (h : inputCapture c l n = .ok capture) :
    Site.Spotless capture := by
  have hinputs : Avoids codeMarks "inputs" := avoids_literal (by decide)
  rcases inputCapture_cases h with rfl | ⟨heads, value, x, y, z, -, rfl⟩
  · exact List.forall_mem_nil _
  · simpa [Site.Spotless, stmtsAll, Tree.stmts, Stmt.Clean] using hinputs

theorem layersCode_spotless {layers : List (Layer × Nat)} {code : List Tree}
    (h : layersCode net c orders profile layers = .ok code) : Site.Spotless code := by
  intro st hst
  obtain ⟨n, rfl⟩ | ⟨l, n, s, own, hmem, hs, hown, hst⟩ := mem_stmtsAll_layersCode h hst
  · trivial
  · exact Site.code_spotless hown st hst

end Forward

open Forward in
theorem Network.body_spotless {net : Network} {c : Config} {orders : List LoopOrder} {profile : String} {p : Program}
    (h : net.program c orders profile = .ok p) : Site.Spotless p.body := by
  obtain ⟨-, layers, first, n, last, m, types, parameters, capture, code, -, -, -, -, -, hcapture, hcode, rfl⟩ :=
    Network.program_eq_ok.mp h
  exact Site.spotless_append (inputCapture_spotless hcapture) (layersCode_spotless hcode)

end LayerLoops
