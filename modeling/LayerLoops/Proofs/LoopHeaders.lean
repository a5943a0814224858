import LayerLoops.Proofs.Labels

/-! # Loop headers of convolutions

Whatever is kept while a convolution sums, its code has one labelled header for each of its six axes. The headers stand
in the loop order, each one level deeper than the one before it, and the text of a header depends on the layer, the
axis and the style of labels, but not on the order. -/

namespace LayerLoops

namespace Text

/-! ## Headers in a text -/

/-- The labelled header on a line, with the number of tabs in front of it. Short loops, which set up or store sums, are
written without a space after the keyword, and do not count. -/
def coreHeader? (line : String) : Option (Nat × String) :=
  let text := line.toList.dropWhile (· == '\t')
  if text.takeWhile isWordChar ≠ [] ∧ ": for (".toList <+: text.dropWhile isWordChar then
    some ((line.toList.takeWhile (· == '\t')).length, String.ofList text)
  else none

theorem coreHeader?_of_unlabelled {line : String} (h : Unlabelled line) : coreHeader? line = none := by
  refine if_neg ?_
  rintro ⟨-, rest, hrest⟩
  let tabs := line.toList.takeWhile (· == '\t')
  let word := (line.toList.dropWhile (· == '\t')).takeWhile isWordChar
  have hline : line.toList = (tabs ++ word) ++ ':' :: (" for (".toList ++ rest) := by
    calc
      line.toList = tabs ++ line.toList.dropWhile (· == '\t') := List.takeWhile_append_dropWhile.symm
      _ = tabs ++ (word ++ (": for (".toList ++ rest)) := by
        rw [hrest]
        exact congrArg (tabs ++ ·) List.takeWhile_append_dropWhile.symm
      _ = _ := (List.append_assoc ..).symm
  have hfront : '/' ∉ tabs ++ word := by
    intro hmem
    rcases List.mem_append.mp hmem with hmem | hmem
    · cases List.all_eq_true.mp List.all_takeWhile _ hmem
    · cases List.all_eq_true.mp List.all_takeWhile _ hmem
  refine h ?_
  rw [hline, uncommented_append hfront, uncommented_cons (by decide)]
  simp

theorem toList_indent_of_ne {t : String} (ht : t.toList ≠ []) (level : Int) :
    (indent level t).toList = List.replicate level.toNat '\t' ++ t.toList := by
  have hne : ¬ t.isEmpty = true := by
    rw [String.isEmpty_iff]
    rintro rfl
    exact ht rfl
  rw [indent, if_neg hne, String.toList_append, toList_tabs]

theorem coreHeader?_indent {w rest : List Char} (hne : w ≠ []) (hw : ∀ c ∈ w, isWordChar c = true) {t : String}
    (ht : t.toList = w ++ ':' :: rest) (level : Int) :
    coreHeader? (indent level t) = if " for (".toList <+: rest then some (level.toNat, t) else none := by
  have hfirst : t.toList.takeWhile (· == '\t') = [] ∧ t.toList.dropWhile (· == '\t') = t.toList := by
    obtain ⟨c, cs, rfl⟩ := List.exists_cons_of_ne_nil hne
    have hc : (c == '\t') = false := by
      rw [beq_eq_false_iff_ne]
      rintro rfl
      exact absurd (hw _ List.mem_cons_self) (by decide)
    rw [ht, List.cons_append]
    exact ⟨List.takeWhile_cons_of_neg (by simp [hc]), List.dropWhile_cons_of_neg (by simp [hc])⟩
  have htabs : ∀ c ∈ List.replicate level.toNat '\t', (c == '\t') = true := by
    intro c hc
    rw [List.eq_of_mem_replicate hc]
    rfl
  have hword : t.toList.takeWhile isWordChar = w ∧ t.toList.dropWhile isWordChar = ':' :: rest := by
    rw [ht, List.takeWhile_append_of_pos hw, List.dropWhile_append_of_pos hw]
    simp [isWordChar]
  have hline := toList_indent_of_ne (t := t) (by rw [ht]; simp) level
  have hcolon : ": for (".toList <+: ':' :: rest ↔ " for (".toList <+: rest := by
    change ':' :: " for (".toList <+: ':' :: rest ↔ _
    rw [List.cons_prefix_cons, and_iff_right rfl]
  simp only [coreHeader?, hline, List.takeWhile_append_of_pos htabs, List.dropWhile_append_of_pos htabs, hfirst.1,
    hfirst.2, hword.1, hword.2, hcolon, ne_eq, hne, not_false_eq_true, true_and, List.append_nil, List.length_replicate,
    String.ofList_toList]

end Text

open Text

namespace Code

theorem coreHeader?_text {x : HeadLine} {l : Label} (hl : x.head.label = some l) (hw : l.Worded) :
    coreHeader? x.text = if x.head.spaced then some (x.level.toNat, x.head.text ++ x.tail) else none := by
  have hline : (x.head.text ++ x.tail).toList =
      l.text.toList ++ ':' :: (" " ++ (x.head.unlabelled ++ x.tail)).toList := by
    rw [Head.text_of_some hl]
    simp only [String.toList_append, List.append_assoc]
    rfl
  have hword := List.all_eq_true.mp (Label.all_wordChar hw)
  obtain ⟨rest, hrest⟩ : ∃ rest, (" " ++ (x.head.unlabelled ++ x.tail)).toList =
      [' ', 'f', 'o', 'r'] ++ (if x.head.spaced then [' ', '('] else ['(']) ++ rest := by
    simp only [Head.unlabelled, Head.text, String.toList_append, List.append_assoc]
    cases x.head.spaced <;> exact ⟨_, rfl⟩
  rw [HeadLine.text, coreHeader?_indent l.text_ne_nil hword hline, hrest]
  change (if [' ', 'f', 'o', 'r', ' ', '('] <+: _ then _ else _) = _
  cases x.head.spaced <;> simp

/-- Loops with these headers stand one inside the other, and each header governs all that it stands in front of. -/
inductive Nested : List String → List Tree → Prop
  | nil {ts : List Tree} : Nested [] ts
  | cons {h : Head} {layout : Layout} {body ts : List Tree} {texts : List String} : .loop h layout body ∈ ts →
      layout.governs body = true → Nested texts body → Nested (h.text :: texts) ts

theorem filterMap_linesAll {β : Type} {f : String → Option β} (hf : ∀ t, Unlabelled t → f t = none) (level : Int)
    {ts : List Tree} (h : ∀ st ∈ stmtsAll ts, st.Clean) :
    (Instr.linesAllAt level (instrsAll ts)).filterMap f = (headLinesAll level ts).filterMap fun x => f x.text := by
  rw [List.filterMap_eq_flatMap_toList, List.filterMap_eq_flatMap_toList]
  refine flatMap_linesAll (f := fun t => (f t).toList) (fun t ht => ?_) level ts h
  rw [hf t ht, Option.toList_none]

@[simp] theorem headLinesAll_append (level : Int) (ts us : List Tree) :
    headLinesAll level (ts ++ us) = headLinesAll level ts ++ headLinesAll level us := by
  induction ts with
  | nil => rfl
  | cons t ts ih => rw [List.cons_append, headLinesAll, headLinesAll, ih, List.append_assoc]

@[simp] theorem headLinesAll_ofStmts (level : Int) (ss : List Stmt) : headLinesAll level (Tree.ofStmts ss) = [] := by
  induction ss with
  | nil => rfl
  | cons s ss ih => exact ih

namespace Nested

variable {texts : List String} {ts us : List Tree}

theorem mono (h : Nested texts ts) (hsub : ts ⊆ us) : Nested texts us := by
  cases h with
  | nil => exact .nil
  | cons hmem hg hbody => exact .cons (hsub hmem) hg hbody

theorem nest {t : Tree} (ht : t.isSingle = true) (h : Nested texts [t]) (hs : List Head) :
    Nested (hs.map Head.text ++ texts) (Site.nest hs [t]) := by
  induction hs with
  | nil => exact h
  | cons hd hs ih => exact .cons (List.mem_singleton_self _) (Site.governs_nest ht hs) ih

end Nested

end Code

open Code

namespace Site

variable {s : Site}

theorem multiplyAdd_nested (s : Site) (h : Head) (sum : Element) (o : Operands) :
    Nested [h.text] [s.multiplyAdd h sum o] := by
  unfold multiplyAdd
  dsimp only
  split
  · unfold innermost
    split <;> exact .cons (List.mem_singleton_self _) rfl .nil
  · exact .cons (List.mem_singleton_self _) rfl .nil

theorem multiplyAdd_headLines (s : Site) (h : Head) (sum : Element) (o : Operands) (level : Int) :
    (s.multiplyAdd h sum o).headLines level = [⟨level, h, ""⟩] := by
  unfold multiplyAdd
  dsimp only
  split
  · unfold innermost
    split <;> rfl
  · have hstored (stored : List Stmt) : headLinesAll (level + 1) (if stored.isEmpty then []
        else [Tree.simulated (Tree.ofStmts stored)]) = [] := by
      split <;> simp [headLinesAll, Tree.headLines]
    rw [Tree.headLines, headLinesAll_append, headLinesAll_append, headLinesAll_ofStmts, hstored]
    rfl

theorem ending_worded (numbered : Bool) (a : Axis) : (ending .conv numbered a).toList.all isWordChar = true := by
  cases numbered <;> cases a <;> decide

theorem short_worded (a : Axis) : (a.capitalized ++ "I").toList.all isWordChar = true ∧
    (a.capitalized ++ "O").toList.all isWordChar = true := by
  cases a <;> decide

def ConvLoops.axes (c : ConvLoops) : List Axis := [c.l0, c.l1, c.l2, c.l3, c.l4, c.l5]

theorem reduction_nested (s : Site) (hs : List Head) (last : Head) (sum : Element) (o : Operands) :
    Nested (hs.map Head.text ++ [last.text]) (s.reduction hs last sum o) :=
  (s.multiplyAdd_nested last sum o).nest (isSingle_multiplyAdd ..) hs

theorem convNest_nested (s : Site) (shape : Shape) (o : Operands) (c : ConvLoops) (k : Accumulator) :
    Nested (c.axes.map fun a => (s.loop shape a).text) (s.convNest shape o c k) := by
  let loop (a : Axis) : Head := s.loop shape a
  cases k with
  | scalar =>
    have hbody : Nested [(loop c.l3).text, (loop c.l4).text, (loop c.l5).text] (s.scalarBody shape c o) :=
      (s.reduction_nested [loop c.l3, loop c.l4] (loop c.l5) ⟨.sum s.number, []⟩ o).mono fun _ ht =>
        List.mem_append_left _ (List.mem_append_right _ ht)
    exact (Nested.cons (List.mem_singleton_self _) rfl hbody).nest rfl [loop c.l0, loop c.l1]
  | vector =>
    have hbody : Nested [(loop c.l2).text, (loop c.l3).text, (loop c.l4).text, (loop c.l5).text]
        (s.vectorBody shape c o) :=
      (s.reduction_nested [loop c.l2, loop c.l3, loop c.l4] (loop c.l5)
        ⟨.sum s.number, [.index (loop c.l3).index]⟩ o).mono fun _ ht =>
          List.mem_append_left _ (List.mem_append_right _ ht)
    exact (Nested.cons (List.mem_singleton_self _) rfl hbody).nest rfl [loop c.l0]
  | tile =>
    have hbody : Nested [(loop c.l1).text, (loop c.l2).text, (loop c.l3).text, (loop c.l4).text, (loop c.l5).text]
        (s.tileBody shape c o) :=
      (s.reduction_nested [loop c.l1, loop c.l2, loop c.l3, loop c.l4] (loop c.l5)
        ⟨.sum s.number, [.index .outputX, .index .outputY]⟩ o).mono fun _ ht =>
          List.mem_append_left _ (List.mem_append_left _ (List.mem_append_right _ ht))
    exact Nested.cons (List.mem_singleton_self _) rfl hbody

theorem convNest_headers (hk : s.layer.kind = .conv) (shape : Shape) (o : Operands) (c : ConvLoops) (k : Accumulator)
    (level : Int) :
    (headLinesAll level (s.convNest shape o c k)).filterMap (fun x => coreHeader? x.text) =
      c.axes.zipIdx.map fun x => ((level + x.2).toNat, (s.loop shape x.1).text) := by
  have hcore (a : Axis) (n : Int) : coreHeader? (HeadLine.text ⟨n, s.loop shape a, ""⟩) =
      some (n.toNat, (s.loop shape a).text) := by
    have hword : (Label.mk s.number (ending s.layer.kind s.config.numberedLabels a)).Worded := by
      rw [hk]
      exact ending_worded s.config.numberedLabels a
    have hline := coreHeader?_text (x := ⟨n, s.loop shape a, ""⟩) rfl hword
    rwa [String.append_empty] at hline
  have hshort (a : Axis) (n : Int) (tail : String) :
      coreHeader? (HeadLine.text ⟨n, s.shortLoop shape a "I", tail⟩) = none ∧
      coreHeader? (HeadLine.text ⟨n, s.shortLoop shape a "O", tail⟩) = none :=
    ⟨coreHeader?_text rfl (short_worded a).1, coreHeader?_text rfl (short_worded a).2⟩
  cases k with
  | scalar =>
    simp [convNest, convScalar, reduction, nest, headLinesAll, Tree.headLines, multiplyAdd_headLines, hcore,
      ConvLoops.axes, add_assoc]
  | vector =>
    simp [convNest, convVector, reduction, nest, headLinesAll, Tree.headLines, multiplyAdd_headLines, hcore, hshort,
      ConvLoops.axes, add_assoc]
  | tile =>
    simp [convNest, convTile, reduction, nest, headLinesAll, Tree.headLines, multiplyAdd_headLines, hcore, hshort,
      ConvLoops.axes, add_assoc]

theorem convAxis_name {name : String} {a : Axis} (h : convAxis name = .ok a) : a.name = name := by
  unfold convAxis at h
  split at h
  · rename_i b hb
    split at h
    · cases h
      exact beq_iff_eq.mp (List.find?_some (p := fun b : Axis => b.name == name) hb)
    · cases h
  · cases h

theorem mapM_convAxis {names : List String} {as : List Axis} (h : names.mapM convAxis = .ok as) :
    as.map Axis.name = names := by
  induction names generalizing as with
  | nil =>
    cases h
    rfl
  | cons name names ih =>
    simp only [List.mapM_cons, bind_eq_ok, pure_eq_ok] at h
    obtain ⟨a, ha, as, has, rfl⟩ := h
    rw [List.map_cons, convAxis_name ha, ih has]

theorem convLoops_axes {c : ConvLoops} (h : s.convLoops = .ok c) : c.axes.map Axis.name = s.order.axes := by
  simp only [convLoops, bind_eq_ok] at h
  obtain ⟨as, has, h⟩ := h
  split at h
  · cases h
    exact mapM_convAxis has
  · cases h

def convAxes : List Axis := [.oz, .oy, .ox, .iz, .kx, .ky]

theorem ending_inj (numbered : Bool) : ∀ a ∈ convAxes, ∀ b ∈ convAxes,
    ending .conv numbered a = ending .conv numbered b → a = b := by
  cases numbered <;> decide

theorem axes_loopsOf {a : Axis} (ha : a = .ox ∨ a = .oy) (k : Accumulator) : (loopsOf a k).axes.Perm convAxes := by
  rcases ha with rfl | rfl <;> cases k <;> decide

end Site

/-! ## The text of a header -/

namespace Layer

/-- The number of iterations over an axis of a convolution: its output, the channels of its input, its kernel. -/
def iterations (l : Layer) : Axis → Option Int
  | .oz => l.output.map Volume.z
  | .oy => l.output.map Volume.y
  | .ox => l.output.map Volume.x
  | .iz => l.input.map Volume.z
  | .ix => l.input.map Volume.x
  | .kx => l.form.kernel.rows
  | .ky => l.form.kernel.cols

/-- The header over an axis of a convolution, whose labels end in names or in numbers. -/
def coreHeader (l : Layer) (number : Nat) (numbered : Bool) (a : Axis) : String :=
  let i := (a.index .conv).text
  (Label.mk number (Site.ending .conv numbered a)).text ++ ": for (int " ++ i ++ " = 0; " ++ i ++ " < " ++
    dimText (l.iterations a) ++ "; " ++ i ++ "++)"

theorem coreHeader_inj {l : Layer} {number : Nat} {numbered : Bool} {a b : Axis} (ha : a ∈ Site.convAxes)
    (hb : b ∈ Site.convAxes) (h : l.coreHeader number numbered a = l.coreHeader number numbered b) : a = b := by
  let label (a : Axis) : Label := ⟨number, Site.ending .conv numbered a⟩
  have hword (a : Axis) : (l.coreHeader number numbered a).toList.takeWhile isWordChar = (label a).text.toList := by
    have hworded : (label a).Worded := Site.ending_worded numbered a
    have hline : ∃ rest, (l.coreHeader number numbered a).toList = (label a).text.toList ++ ':' :: rest := by
      simp only [coreHeader, String.toList_append, List.append_assoc]
      exact ⟨_, rfl⟩
    obtain ⟨rest, hrest⟩ := hline
    rw [hrest, List.takeWhile_append_of_pos (List.all_eq_true.mp (Label.all_wordChar hworded)),
      List.takeWhile_cons_of_neg (by decide), List.append_nil]
  have hend (a : Axis) : isEnd (label a).suffix.toList = true := by
    change isEnd (Site.ending .conv numbered a).toList = true
    cases numbered <;> cases a <;> decide
  have htext : (label a).text = (label b).text := by
    rw [← String.toList_inj, ← hword a, h, hword b]
  have hlabel : label a = label b := Label.text_inj (hend a) (hend b) htext
  exact Site.ending_inj numbered a ha b hb (congrArg Label.suffix hlabel)

end Layer

namespace Site

theorem loop_text {s : Site} (hk : s.layer.kind = .conv) {shape : Shape} (h : s.shape = .ok shape) (a : Axis) :
    (s.loop shape a).text = s.layer.coreHeader s.number s.config.numberedLabels a := by
  obtain ⟨hi, ho⟩ := volumes_of_shape h
  have hbound : s.bound shape a = s.layer.iterations a := by
    cases a <;> simp [bound, hk, Layer.iterations, hi, ho]
  have hopening : ": for (int " = ": " ++ ("for (" ++ "int ") := rfl
  simp only [Head.text, Site.loop, Layer.coreHeader, hbound, hk, hopening, String.append_assoc]
  rfl

theorem conv_headers {s : Site} (hk : s.layer.kind = .conv) {k : Accumulator} (ho : s.order.Supported k)
    {code : List Tree} (h : s.conv = .ok code) (level : Int) :
    ∃ axes : List Axis, axes.map Axis.name = s.order.axes ∧ axes.Perm convAxes ∧
      (Instr.linesAllAt level (instrsAll code)).filterMap coreHeader? = (axes.zipIdx.map fun x =>
        ((level + x.2).toNat, s.layer.coreHeader s.number s.config.numberedLabels x.1)) ∧
      Nested (axes.map (s.layer.coreHeader s.number s.config.numberedLabels)) code := by
  have hclean := conv_spotless h
  obtain ⟨a, shape, o, ha, hshape, hloops, rfl⟩ := conv_of_supported ho h
  refine ⟨(loopsOf a k).axes, convLoops_axes hloops, axes_loopsOf ha k, ?_, ?_⟩
  · have hheads := convNest_headers hk shape o (loopsOf a k) k level
    simp only [loop_text hk hshape] at hheads
    rw [filterMap_linesAll (fun t => coreHeader?_of_unlabelled) level hclean, ← hheads, headLinesAll_append,
      headLinesAll_append, declarations, headLinesAll_ofStmts]
    rfl
  · have hnest := s.convNest_nested shape o (loopsOf a k) k
    simp only [loop_text hk hshape] at hnest
    exact hnest.mono (List.subset_append_right _ _)

theorem perm_headers {s : Site} (hk : s.layer.kind = .conv) {k : Accumulator} (ho : s.order.Supported k)
    {code : List Tree} (h : s.conv = .ok code) (level : Int) :
    (((Instr.linesAllAt level (instrsAll code)).filterMap coreHeader?).map Prod.snd).Perm
      (convAxes.map (s.layer.coreHeader s.number s.config.numberedLabels)) := by
  obtain ⟨axes, -, hperm, hheaders, -⟩ := conv_headers hk ho h level
  have htexts : ((Instr.linesAllAt level (instrsAll code)).filterMap coreHeader?).map Prod.snd =
      axes.map (s.layer.coreHeader s.number s.config.numberedLabels) := by
    rw [hheaders, List.map_map]
    calc
      _ = (axes.zipIdx.map Prod.fst).map (s.layer.coreHeader s.number s.config.numberedLabels) :=
        List.map_map.symm
      _ = _ := by rw [List.zipIdx_map_fst]
  rw [htexts]
  exact hperm.map _

theorem nodup_headers (l : Layer) (number : Nat) (numbered : Bool) :
    (convAxes.map (l.coreHeader number numbered)).Nodup :=
  List.Nodup.map_on (fun _ ha _ hb => Layer.coreHeader_inj ha hb) (by decide)

end Site

theorem pairwise_levels {α : Type} {level : Int} (h : 0 ≤ level) (as : List α) :
    (as.zipIdx.map fun x => (level + x.2).toNat).Pairwise (· < ·) := by
  have hlevels : (as.zipIdx.map fun x => (level + x.2).toNat) =
      (List.range' 0 as.length).map fun i : Nat => (level + i).toNat := by
    rw [← List.zipIdx_map_snd 0 as, List.map_map]
    rfl
  rw [hlevels, List.pairwise_map]
  refine (List.pairwise_lt_range' ..).imp fun hlt => ?_
  omega

theorem Listing.extend_inj {w : Listing} {ls ms : List String} (h : w.extend ls = w.extend ms) : ls = ms :=
  List.reverse_injective (List.append_left_injective w.written (congrArg Listing.written h))

/-- The lines of a convolution under a supported order have one labelled header for each axis. The headers follow the
loop order, each nested in the one before it and written one tab deeper. Their texts are given by the layer, its number
and the style of labels, so that every supported order has the same ones. -/
theorem core_headers_follow_order {s : Site} {k : Accumulator} {code : List Tree} (hk : s.layer.kind = .conv)
    (ho : s.order.Supported k) (h : s.conv = .ok code) (w : Listing) :
    ∃ (axes : List Axis) (lines : List String), axes.map Axis.name = s.order.axes ∧
      axes.Perm [.oz, .oy, .ox, .iz, .kx, .ky] ∧ Instr.runAll w (instrsAll code) = ⟨w.extend lines, false⟩ ∧
      lines.filterMap coreHeader? = (axes.zipIdx.map fun x =>
        ((w.level + x.2).toNat, s.layer.coreHeader s.number s.config.numberedLabels x.1)) ∧
      (0 ≤ w.level → ((lines.filterMap coreHeader?).map Prod.fst).Pairwise (· < ·)) ∧
      ((lines.filterMap coreHeader?).map Prod.snd).Nodup ∧
      Nested (axes.map (s.layer.coreHeader s.number s.config.numberedLabels)) code ∧
      ∀ (s' : Site) k' code' (w' : Listing) lines', s'.layer = s.layer → s'.number = s.number →
        s'.config.numberedLabels = s.config.numberedLabels → s'.order.Supported k' → s'.conv = .ok code' →
        Instr.runAll w' (instrsAll code') = ⟨w'.extend lines', false⟩ →
        ((lines'.filterMap coreHeader?).map Prod.snd).Perm ((lines.filterMap coreHeader?).map Prod.snd) := by
  obtain ⟨axes, hnames, hperm, hheaders, hnested⟩ := Site.conv_headers hk ho h w.level
  have htexts := Site.perm_headers hk ho h w.level
  refine ⟨axes, _, hnames, hperm, Instr.runAll_eq w _ (instrsAll_steady code), hheaders, ?_, ?_, hnested, ?_⟩
  · intro hlevel
    rw [hheaders, List.map_map]
    exact pairwise_levels hlevel axes
  · exact htexts.nodup_iff.mpr (Site.nodup_headers ..)
  · intro s' k' code' w' lines' hlayer hnumber hstyle ho' h' hrun
    rw [Instr.runAll_eq w' _ (instrsAll_steady code')] at hrun
    have hlines := Listing.extend_inj (congrArg Written.listing hrun)
    have htexts' := Site.perm_headers (hlayer ▸ hk) ho' h' w'.level
    rw [hlayer, hnumber, hstyle, hlines] at htexts'
    exact htexts'.trans htexts.symm

def tiledLayer : Layer where
  form := .conv (some 2) ⟨some 3, some 3⟩ .valid
  input := some ⟨5, 5, 1⟩
  output := some ⟨3, 3, 2⟩
  stride := some 1

/-- The sums of a whole channel are kept, and labels end in numbers. -/
def tiledSite : Site where
  net := ⟨[tiledLayer]⟩
  number := 1
  layer := tiledLayer
  config := { numberedLabels := true }
  order := ⟨.conv, ["oz", "iz", "ox", "oy", "kx", "ky"]⟩

theorem core_headers_follow_order_tiled : ∃ code lines, tiledSite.conv = .ok code ∧
    Instr.runAll ⟨[], 1⟩ (instrsAll code) = ⟨Listing.extend ⟨[], 1⟩ lines, false⟩ ∧
    lines.filterMap coreHeader? =
      [(1, "for1: for (int output_z = 0; output_z < 2; output_z++)"),
        (2, "for13: for (int input_z = 0; input_z < 1; input_z++)"),
        (3, "for12: for (int output_x = 0; output_x < 3; output_x++)"),
        (4, "for11: for (int output_y = 0; output_y < 3; output_y++)"),
        (5, "for14: for (int kernel_x = 0; kernel_x < 3; kernel_x++)"),
        (6, "for15: for (int kernel_y = 0; kernel_y < 3; kernel_y++)")] := by
  have hconv : tiledSite.conv.isOk = true := by decide +kernel
  cases hcode : tiledSite.conv with
  | error f =>
    rw [hcode] at hconv
    cases hconv
  | ok code =>
    have horder : tiledSite.order.Supported .tile := ⟨["iz", "ox", "oy"], by decide, rfl⟩
    obtain ⟨axes, lines, hnames, -, hrun, hheaders, -⟩ := core_headers_follow_order rfl horder hcode ⟨[], 1⟩
    have haxes : axes = [.oz, .iz, .ox, .oy, .kx, .ky] := by
      refine List.map_injective_iff.mpr (fun a b hab => ?_) hnames
      exact Option.some.inj (by rw [← Axis.ofName?_name a, hab, Axis.ofName?_name])
    refine ⟨code, lines, rfl, hrun, ?_⟩
    rw [hheaders, haxes]
    decide +kernel

end LayerLoops
