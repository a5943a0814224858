import LayerLoops.Proofs.Conditionals
import LayerLoops.Proofs.Definitions
import LayerLoops.Proofs.TypeNames

/-! # Loop labels

A label in the generated function is a word with a colon behind it, outside of comments. These are exactly the labels of
its loops, and no two of them are equal: the number in a label tells its layer, and the end tells the loops of a layer
apart. From the tenth layer on a letter keeps the number apart from an end that is itself a digit. -/

namespace LayerLoops

namespace Text

variable {a : List Char} {t : String}

/-! ## Labels in a text -/

def uncommented : List Char → List Char
  | '/' :: '/' :: _ => []
  | c :: cs => c :: uncommented cs
  | [] => []

def lastWord (cs : List Char) : List Char := ((cs.reverse.dropWhile (· == ' ')).takeWhile isWordChar).reverse

def lineLabels (line : List Char) : List (List Char) :=
  (((uncommented line).splitOn ':').dropLast.map lastWord).filter fun w => !w.isEmpty

def labelsOn (lines : List String) : List (List Char) := lines.flatMap fun line => lineLabels line.toList

def labelsIn (s : String) : List (List Char) := labelsOn (fileLines s)

@[simp] theorem labelsOn_nil : labelsOn [] = [] := rfl

@[simp] theorem labelsOn_cons (line : String) (lines : List String) :
    labelsOn (line :: lines) = lineLabels line.toList ++ labelsOn lines := rfl

@[simp] theorem labelsOn_append (ls ms : List String) : labelsOn (ls ++ ms) = labelsOn ls ++ labelsOn ms :=
  List.flatMap_append

theorem uncommented_cons {c : Char} (hc : c ≠ '/') (cs : List Char) : uncommented (c :: cs) = c :: uncommented cs := by
  rw [uncommented]
  exact fun _ h _ => hc h

theorem uncommented_append (ha : '/' ∉ a) (b : List Char) : uncommented (a ++ b) = a ++ uncommented b := by
  induction a with
  | nil => rfl
  | cons c a ih =>
    have hc : c ≠ '/' := fun h => ha (h ▸ List.mem_cons_self)
    rw [List.cons_append, uncommented_cons hc, ih fun h => ha (List.mem_cons_of_mem c h)]
    rfl

theorem mem_uncommented_append {x : Char} {b : List Char} (h : x ∈ uncommented (a ++ b)) :
    x ∈ a ∨ x ∈ uncommented b := by
  induction a with
  | nil => exact .inr h
  | cons c a ih =>
    rw [List.cons_append] at h
    unfold uncommented at h
    split at h
    · cases h
    · rename_i heq
      cases heq
      rcases List.mem_cons.mp h with rfl | h
      · exact .inl List.mem_cons_self
      · exact (ih h).imp_left (List.mem_cons_of_mem c)
    · rename_i heq
      cases heq

theorem splitOn_of_not_mem {x : Char} {cs : List Char} (h : x ∉ cs) : cs.splitOn x = [cs] := by
  apply List.splitOnP_eq_singleton
  intro c hc
  rw [beq_eq_false_iff_ne]
  rintro rfl
  exact h hc

theorem lineLabels_of_not_mem {line : List Char} (h : ':' ∉ uncommented line) : lineLabels line = [] := by
  rw [lineLabels, splitOn_of_not_mem h]
  rfl

theorem lastWord_append {w : List Char} (hne : w ≠ []) (hw : ∀ c ∈ w, isWordChar c = true)
    (ha : ∀ c ∈ a, isWordChar c = false) : lastWord (a ++ w) = w := by
  have hblank : (w.reverse ++ a.reverse).dropWhile (· == ' ') = w.reverse ++ a.reverse := by
    obtain ⟨c, cs, hcs⟩ := List.exists_cons_of_ne_nil (List.reverse_ne_nil_iff.mpr hne)
    have hc : isWordChar c = true := hw c (List.mem_reverse.mp (hcs ▸ List.mem_cons_self))
    rw [hcs, List.cons_append, List.dropWhile_cons_of_neg]
    intro hspace
    rw [beq_iff_eq.mp hspace] at hc
    revert hc
    decide
  have hstop : a.reverse.takeWhile isWordChar = [] := by
    cases hr : a.reverse with
    | nil => rfl
    | cons c cs =>
      have hc : isWordChar c = false := ha c (List.mem_reverse.mp (hr ▸ List.mem_cons_self))
      rw [List.takeWhile_cons_of_neg (by simp [hc])]
  rw [lastWord, List.reverse_append, hblank,
    List.takeWhile_append_of_pos fun c hc => hw c (List.mem_reverse.mp hc), hstop, List.append_nil,
    List.reverse_reverse]

theorem lineLabels_labelled {n : Nat} {w rest : List Char} (hne : w ≠ []) (hw : ∀ c ∈ w, isWordChar c = true)
    (hrest : ':' ∉ uncommented rest) : lineLabels (List.replicate n '\t' ++ (w ++ ':' :: rest)) = [w] := by
  have htabs : ∀ c ∈ List.replicate n '\t', isWordChar c = false := by
    intro c hc
    rw [List.eq_of_mem_replicate hc]
    decide
  have hfront (c : Char) (htab : c ≠ '\t') (hc : isWordChar c = false) : c ∉ List.replicate n '\t' ++ w := by
    intro h
    rcases List.mem_append.mp h with h | h
    · exact htab (List.eq_of_mem_replicate h)
    · rw [hw c h] at hc
      cases hc
  have hline : uncommented (List.replicate n '\t' ++ (w ++ ':' :: rest)) =
      (List.replicate n '\t' ++ w) ++ ':' :: uncommented rest := by
    rw [← List.append_assoc, uncommented_append (hfront '/' (by decide) (by decide)), uncommented_cons (by decide)]
  have hsplit : (List.replicate n '\t' ++ w ++ ':' :: uncommented rest).splitOn ':' =
      [List.replicate n '\t' ++ w, uncommented rest] := by
    calc
      _ = (List.replicate n '\t' ++ w).splitOn ':' ++ (uncommented rest).splitOn ':' :=
        List.splitOnP_append_cons _ _ rfl
      _ = _ := by
        rw [splitOn_of_not_mem (hfront ':' (by decide) (by decide)), splitOn_of_not_mem hrest]
        rfl
  rw [lineLabels, hline, hsplit]
  simp [lastWord_append hne hw htabs, hne]

/-- There is no colon in the text, outside of comments. -/
def Unlabelled (t : String) : Prop := ':' ∉ uncommented t.toList

theorem Unlabelled.append {a b : String} (ha : ':' ∉ a.toList) (hb : Unlabelled b) : Unlabelled (a ++ b) := by
  intro h
  rw [String.toList_append] at h
  exact (mem_uncommented_append h).elim ha hb

theorem unlabelled_of_not_mem (h : ':' ∉ t.toList) : Unlabelled t := by
  have hall : Unlabelled (t ++ "") := Unlabelled.append h List.not_mem_nil
  rwa [String.append_empty] at hall

theorem Unlabelled.indented (h : Unlabelled t) (level : Int) : Unlabelled (indent level t) := by
  obtain ⟨n, hn⟩ := toList_indent level t
  intro hmem
  rw [hn] at hmem
  rcases mem_uncommented_append hmem with hmem | hmem
  · cases List.eq_of_mem_replicate hmem
  · exact h hmem

theorem Unlabelled.labels (h : Unlabelled t) (level : Int) : lineLabels (indent level t).toList = [] :=
  lineLabels_of_not_mem (h.indented level)

theorem flatMap_unlabelled {β : Type} {f : String → List β} (hf : ∀ t, Unlabelled t → f t = []) {ts : List String}
    (h : ∀ t ∈ ts, Unlabelled t) (level : Int) : (ts.map (indent level)).flatMap f = [] := by
  rw [List.flatMap_eq_nil_iff, List.forall_mem_map]
  exact fun t ht => hf _ ((h t ht).indented level)

end Text

open Text

namespace Code

/-! ## Labels of trees -/

theorem unlabelled_of_avoids {t : String} (h : Avoids codeMarks t) : Unlabelled t :=
  unlabelled_of_not_mem fun hmem => h ':' hmem (by decide)

theorem unlabelled_stmt {st : Stmt} (h : st.Clean) : Unlabelled st.text := by
  cases hc : st.isComment with
  | false => exact unlabelled_of_avoids (avoids_stmt h hc)
  | true =>
    cases st with
    | comment s =>
      have hnone : uncommented ("//" ++ s).toList = [] := by
        rw [String.toList_append]
        rfl
      change ':' ∉ uncommented ("//" ++ s).toList
      rw [hnone]
      exact List.not_mem_nil
    | _ => cases hc

theorem unlabelled_inline {ts : List Tree} (h : ∀ st ∈ stmtsAll ts, st.Clean) :
    Unlabelled (String.join (inlineTexts ts)) := by
  have hall : ∀ s ∈ inlineTexts ts, ∃ st : Stmt, st.Clean ∧ s = st.text := by
    intro s hs
    obtain ⟨st, hst, rfl⟩ := mem_inlineTexts hs
    exact ⟨st, h st hst, rfl⟩
  generalize inlineTexts ts = texts at hall
  induction texts with
  | nil => exact List.not_mem_nil
  | cons t texts ih =>
    obtain ⟨⟨st, hst, rfl⟩, hrest⟩ := List.forall_mem_cons.mp hall
    rw [String.join_cons]
    cases hc : st.isComment with
    | false => exact Unlabelled.append (fun hmem => avoids_stmt hst hc ':' hmem (by decide)) (ih hrest)
    | true =>
      cases st with
      | comment s =>
        have hnone : uncommented ("//" ++ s ++ String.join texts).toList = [] := by
          rw [String.toList_append, String.toList_append]
          rfl
        change ':' ∉ uncommented ("//" ++ s ++ String.join texts).toList
        rw [hnone]
        exact List.not_mem_nil
      | _ => cases hc

/-! ## Lines that loops begin on -/

/-- A line that a loop begins on: the level, the header, and what stands behind the header. -/
structure HeadLine where
  level : Int
  head : Head
  tail : String := ""

def HeadLine.text (x : HeadLine) : String := indent x.level (x.head.text ++ x.tail)

mutual

def Tree.headLines (level : Int) : Tree → List HeadLine
  | .loop h layout body =>
    match layout with
    | .sameLine => [⟨level, h, " " ++ String.join (inlineTexts body)⟩]
    | .deeper | .braced => ⟨level, h, ""⟩ :: headLinesAll (level + 1) body
    | .flush => ⟨level, h, ""⟩ :: headLinesAll level body
  | .simulated body => headLinesAll level body
  | .stmt _ | .blank | .choose .. | .watched .. => []

def headLinesAll (level : Int) : List Tree → List HeadLine
  | [] => []
  | t :: ts => t.headLines level ++ headLinesAll level ts

end

section Lines

variable {β : Type} {f : String → List β}

mutual

theorem Tree.flatMap_lines (hf : ∀ t, Unlabelled t → f t = []) (level : Int) : ∀ t : Tree, (∀ st ∈ t.stmts, st.Clean) →
    (Instr.linesAllAt level t.instrs).flatMap f = (t.headLines level).flatMap fun x => f x.text
  | .stmt st, h => by
    have hst := flatMap_unlabelled hf (List.forall_mem_singleton.mpr (unlabelled_stmt (h st List.mem_cons_self))) level
    simpa [Tree.instrs, Instr.linesAllAt, Instr.linesAt, Tree.headLines] using hst
  | .blank, _ => by simp [Tree.instrs, Instr.linesAllAt, Instr.linesAt, Tree.headLines, hf "" List.not_mem_nil]
  | .loop hd layout body, h => by
    have hbody (k : Int) := flatMap_linesAll hf k body h
    have hbrace (t : String) (ht : t = "\x7b" ∨ t = "\x7d") : f (indent level t) = [] := by
      refine hf _ (Unlabelled.indented (unlabelled_of_not_mem ?_) level)
      rcases ht with rfl | rfl <;> decide
    have hne : hd.text.isEmpty = false := hd.text_nonempty
    cases layout with
    | sameLine => simp [Tree.instrs, Instr.linesAllAt, Instr.linesAt, Tree.headLines, HeadLine.text, String.append_assoc]
    | deeper | flush => simp [Tree.instrs, Instr.linesAllAt, Instr.linesAt, Tree.headLines, HeadLine.text, hbody]
    | braced =>
      simp [Tree.instrs, Instr.linesAllAt, Instr.linesAt, Tree.headLines, HeadLine.text, hbody, hne, hbrace]
  | .choose b inside outside, h => by
    obtain ⟨hinside, houtside⟩ := List.forall_mem_cons.mp h
    have hif : f (indent level b.text) = [] := hf _ ((unlabelled_of_avoids (avoids_bounds b)).indented level)
    have hst (st : Stmt) (hst : st.Clean) : f (indent (level + 1) st.text) = [] :=
      hf _ ((unlabelled_stmt hst).indented _)
    cases outside with
    | none => simp [Tree.instrs, Instr.linesAllAt, Instr.linesAt, Tree.headLines, hif, hst inside hinside]
    | some st =>
      have helse : f (indent level "else") = [] :=
        hf _ (Unlabelled.indented (unlabelled_of_not_mem (by decide)) level)
      simp [Tree.instrs, Instr.linesAllAt, Instr.linesAt, Tree.headLines, hif, hst inside hinside, helse,
        hst st (houtside st (by simp))]
  | .simulated body, h => by
    have hends (t : String) (ht : t = beginSimulated ∨ t = endSimulated) : f (indent level t) = [] := by
      refine hf _ (Unlabelled.indented (unlabelled_of_not_mem ?_) level)
      rcases ht with rfl | rfl <;> decide
    simp [Tree.instrs, Instr.linesAllAt, Instr.linesAt, Tree.headLines, hends, flatMap_linesAll hf level body h]
  | .watched st stored, h => by
    have hends (k : Int) (t : String) (ht : t ∈ [beginSimulated, endSimulated, "\x7b", "\x7d"]) :
        f (indent k t) = [] := by
      refine hf _ (Unlabelled.indented (unlabelled_of_not_mem ?_) k)
      simp only [List.mem_cons, List.not_mem_nil, or_false] at ht
      rcases ht with rfl | rfl | rfl | rfl <;> decide
    obtain ⟨hst, hstored⟩ := List.forall_mem_cons.mp h
    have hclean : ∀ t ∈ stored.map Stmt.text, Unlabelled t :=
      List.forall_mem_map.mpr fun u hu => unlabelled_stmt (hstored u hu)
    have hall := flatMap_unlabelled hf hclean (level + 1)
    have hline := hf _ ((unlabelled_stmt hst).indented (level + 1))
    simp only [Tree.instrs, Instr.linesAllAt, Instr.linesAt, Tree.headLines, List.map_cons, List.map_nil,
      List.append_nil, List.flatMap_append, List.flatMap_cons, List.flatMap_nil, hall, hline]
    simp [hends]

theorem flatMap_linesAll (hf : ∀ t, Unlabelled t → f t = []) (level : Int) : ∀ ts : List Tree,
    (∀ st ∈ stmtsAll ts, st.Clean) →
    (Instr.linesAllAt level (instrsAll ts)).flatMap f = (headLinesAll level ts).flatMap fun x => f x.text
  | [], _ => rfl
  | t :: ts, h => by
    obtain ⟨ht, hts⟩ := List.forall_mem_append.mp h
    rw [instrsAll, Instr.linesAllAt_append, List.flatMap_append, Tree.flatMap_lines hf level t ht,
      flatMap_linesAll hf level ts hts, headLinesAll, List.flatMap_append]

end

end Lines

mutual

theorem Tree.labels_eq (level : Int) : ∀ t : Tree,
    t.labels = (t.headLines level).flatMap fun x => x.head.label.toList
  | .stmt _ | .blank | .choose .. | .watched .. => rfl
  | .loop h layout body => by
    cases layout with
    | sameLine => simp [Tree.labels, Tree.headLines]
    | deeper | braced => simp [Tree.labels, Tree.headLines, labelsAll_eq (level + 1) body]
    | flush => simp [Tree.labels, Tree.headLines, labelsAll_eq level body]
  | .simulated body => labelsAll_eq level body

theorem labelsAll_eq (level : Int) : ∀ ts : List Tree,
    labelsAll ts = (headLinesAll level ts).flatMap fun x => x.head.label.toList
  | [] => rfl
  | t :: ts => by rw [labelsAll, headLinesAll, List.flatMap_append, Tree.labels_eq level t, labelsAll_eq level ts]

end

mutual

theorem Tree.unlabelled_tail (level : Int) : ∀ t : Tree, (∀ st ∈ t.stmts, st.Clean) →
    ∀ x ∈ t.headLines level, Unlabelled x.tail
  | .stmt _, _ | .blank, _ | .choose .., _ | .watched .., _ => List.forall_mem_nil _
  | .loop h layout body, hbody => by
    have hnone : Unlabelled "" := List.not_mem_nil
    cases layout with
    | sameLine => exact List.forall_mem_singleton.mpr (Unlabelled.append (by decide) (unlabelled_inline hbody))
    | deeper | braced => exact List.forall_mem_cons.mpr ⟨hnone, unlabelled_tails (level + 1) body hbody⟩
    | flush => exact List.forall_mem_cons.mpr ⟨hnone, unlabelled_tails level body hbody⟩
  | .simulated body, hbody => unlabelled_tails level body hbody

theorem unlabelled_tails (level : Int) : ∀ ts : List Tree, (∀ st ∈ stmtsAll ts, st.Clean) →
    ∀ x ∈ headLinesAll level ts, Unlabelled x.tail
  | [], _ => List.forall_mem_nil _
  | t :: ts, h => by
    obtain ⟨ht, hts⟩ := List.forall_mem_append.mp h
    exact List.forall_mem_append.mpr ⟨Tree.unlabelled_tail level t ht, unlabelled_tails level ts hts⟩

end

theorem lineLabels_head {h : Head} (hl : ∀ l ∈ h.label, l.Worded) {tail : String} (ht : Unlabelled tail) (level : Int) :
    lineLabels (indent level (h.text ++ tail)).toList = h.label.toList.map fun l => l.text.toList := by
  have hrest : Unlabelled (h.unlabelled ++ tail) :=
    Unlabelled.append (fun hmem => avoids_unlabelled h ':' hmem (by decide)) ht
  cases hlabel : h.label with
  | none =>
    rw [Head.text_of_none hlabel]
    exact hrest.labels level
  | some l =>
    have hline : (h.text ++ tail).toList = l.text.toList ++ ':' :: (" " ++ (h.unlabelled ++ tail)).toList := by
      rw [Head.text_of_some hlabel]
      simp only [String.toList_append, List.append_assoc]
      rfl
    obtain ⟨n, hn⟩ := toList_indent level (h.text ++ tail)
    rw [hn, hline]
    exact lineLabels_labelled l.text_ne_nil (List.all_eq_true.mp (Label.all_wordChar (hl l hlabel)))
      (Unlabelled.append (by decide) hrest)

theorem labelsOn_linesAll (level : Int) {ts : List Tree} (h : Tidy ts) :
    labelsOn (Instr.linesAllAt level (instrsAll ts)) = (labelsAll ts).map fun l => l.text.toList := by
  have hlabel : ∀ x ∈ headLinesAll level ts, lineLabels x.text.toList = x.head.label.toList.map fun l => l.text.toList := by
    intro x hx
    refine lineLabels_head (fun l hl => h.labels l ?_) (unlabelled_tails level ts h.stmts x hx) x.level
    rw [labelsAll_eq level]
    exact List.mem_flatMap.mpr ⟨x, hx, Option.mem_toList.mpr hl⟩
  rw [labelsAll_eq level, List.map_flatMap, ← List.flatMap_congr hlabel]
  exact flatMap_linesAll (f := fun line => lineLabels line.toList) (fun t => lineLabels_of_not_mem) level ts h.stmts

@[simp] theorem labelsAll_ofStmts (ss : List Stmt) : labelsAll (Tree.ofStmts ss) = [] := by
  induction ss with
  | nil => rfl
  | cons s ss ih => exact ih

@[simp] theorem labelsAll_nest (hs : List Head) (body : List Tree) :
    labelsAll (Site.nest hs body) = hs.flatMap (fun h => h.label.toList) ++ labelsAll body := by
  induction hs with
  | nil => rfl
  | cons h hs ih =>
    have hstep : labelsAll (Site.nest (h :: hs) body) = h.label.toList ++ labelsAll (Site.nest hs body) := by
      simp [Site.nest, labelsAll, Tree.labels]
    rw [hstep, ih, List.flatMap_cons, List.append_assoc]

/-! ## Labels apart -/

/-- An end of a label that cannot be taken for more of its number: at most one digit, or a text that begins with another
letter than the one behind large numbers. -/
def isEnd : List Char → Bool
  | [] => true
  | [c] => c != 't'
  | c :: _ => !c.isDigit && c != 't'

theorem Label.toList_text (l : Label) : l.text.toList =
    "for".toList ++ (Nat.toDigits 10 l.number ++ ((if l.number ≥ 10 then ['t'] else []) ++ l.suffix.toList)) := by
  have htext : l.text = "for" ++ (toString l.number ++ ((if l.number ≥ 10 then "t" else "") ++ l.suffix)) := by
    simp only [← String.append_assoc]
    rfl
  rw [htext, String.toList_append, String.toList_append, String.toList_append, Nat.toString_eq_repr, Nat.toList_repr]
  split <;> rfl

theorem digit_append_ne {d : Char} {e f : List Char} (he : isEnd e = true) {n : Nat} (hn : 10 ≤ n) :
    d :: e ≠ Nat.toDigits 10 n ++ ('t' :: f) := by
  intro h
  have hdigits : ∀ c ∈ Nat.toDigits 10 n, c.isDigit = true := fun c => isDigit_of_mem_toDigits
  rw [Nat.toDigits_of_base_le (by decide) hn] at h hdigits
  obtain ⟨a, as, ha⟩ := List.exists_cons_of_ne_nil (Nat.toDigits_ne_nil (n := n / 10) (b := 10))
  rw [ha] at h hdigits
  simp only [List.cons_append, List.append_assoc, List.cons.injEq] at h
  obtain ⟨-, rfl⟩ := h
  -- The rest begins with a digit and has the letter behind it, so it is no end.
  cases as with
  | nil =>
    have hdigit := hdigits (Nat.digitChar (n % 10)) (by simp)
    simp [isEnd, hdigit] at he
  | cons b bs =>
    have hdigit := hdigits b (by simp)
    cases bs <;> simp [isEnd, hdigit] at he

theorem Label.text_inj {l m : Label} (hl : isEnd l.suffix.toList = true) (hm : isEnd m.suffix.toList = true)
    (h : l.text = m.text) : l = m := by
  have hlist := congrArg String.toList h
  rw [Label.toList_text, Label.toList_text, List.append_cancel_left_eq] at hlist
  obtain ⟨n, e⟩ := l
  obtain ⟨k, f⟩ := m
  dsimp only at hl hm hlist ⊢
  by_cases hn : n ≥ 10 <;> by_cases hk : k ≥ 10
  · rw [if_pos hn, if_pos hk] at hlist
    have hruns : (Nat.toDigits 10 n ++ (['t'] ++ e.toList)).takeWhile Char.isDigit = Nat.toDigits 10 n ∧
        (Nat.toDigits 10 k ++ (['t'] ++ f.toList)).takeWhile Char.isDigit = Nat.toDigits 10 k := by
      constructor <;> rw [List.takeWhile_append_of_pos fun c => isDigit_of_mem_toDigits] <;> simp
    have hdigits : Nat.toDigits 10 n = Nat.toDigits 10 k := by
      rw [← hruns.1, hlist, hruns.2]
    cases toDigits_inj hdigits
    rw [List.append_cancel_left_eq, List.append_cancel_left_eq] at hlist
    rw [String.toList_inj.mp hlist]
  · rw [if_pos hn, if_neg hk, Nat.toDigits_of_lt_base (Nat.not_le.mp hk)] at hlist
    exact absurd hlist.symm (digit_append_ne hm hn)
  · rw [if_neg hn, if_pos hk, Nat.toDigits_of_lt_base (Nat.not_le.mp hn)] at hlist
    exact absurd hlist (digit_append_ne hl hk)
  · rw [if_neg hn, if_neg hk, Nat.toDigits_of_lt_base (Nat.not_le.mp hn),
      Nat.toDigits_of_lt_base (Nat.not_le.mp hk)] at hlist
    simp only [List.nil_append, List.singleton_append, List.cons.injEq] at hlist
    have hdigits : Nat.toDigits 10 n = Nat.toDigits 10 k := by
      rw [Nat.toDigits_of_lt_base (Nat.not_le.mp hn), Nat.toDigits_of_lt_base (Nat.not_le.mp hk), hlist.1]
    rw [toDigits_inj hdigits, String.toList_inj.mp hlist.2]

end Code

open Code

/-! ## Labels of layers -/

namespace Site

variable {code : List Tree}

/-- The end of the label of the loop over an axis. -/
def ending (k : Kind) (numbered : Bool) (a : Axis) : String :=
  match a.suffix? k with
  | some (named, number) => if numbered then number else named
  | none => ""

variable {s : Site}

theorem loop_label (s : Site) (shape : Shape) (a : Axis) :
    (s.loop shape a).label = some ⟨s.number, ending s.layer.kind s.config.numberedLabels a⟩ := rfl

theorem shortLoop_label (s : Site) (shape : Shape) (a : Axis) (mark : String) :
    (s.shortLoop shape a mark).label = some ⟨s.number, a.capitalized ++ mark⟩ := rfl

theorem innermost_labels (h : Head) (body : Stmt) (stored : List Stmt) :
    (innermost h body stored).labels = h.label.toList := by
  unfold innermost
  split <;> simp [Tree.labels, labelsAll]

theorem multiplyAdd_labels (s : Site) (h : Head) (sum : Element) (o : Operands) :
    (s.multiplyAdd h sum o).labels = h.label.toList := by
  unfold multiplyAdd
  dsimp only
  split
  · exact innermost_labels h _ _
  · have hstored (stored : List Stmt) :
        labelsAll (if stored.isEmpty then [] else [Tree.simulated (Tree.ofStmts stored)]) =
        [] := by
      split <;> simp [labelsAll, Tree.labels]
    rw [Tree.labels, if_neg (by decide), labelsAll_append, labelsAll_append, labelsAll_ofStmts, hstored]
    simp [labelsAll, Tree.labels]

def convEndings (numbered : Bool) (c : ConvLoops) : Accumulator → List String
  | .scalar => [c.l0, c.l1, c.l2, c.l3, c.l4, c.l5].map (ending .conv numbered)
  | .vector => [c.l0, c.l1].map (ending .conv numbered) ++ [c.l3.capitalized ++ "I"] ++
      [c.l2, c.l3, c.l4, c.l5].map (ending .conv numbered) ++ [c.l3.capitalized ++ "O"]
  | .tile => [c.l0].map (ending .conv numbered) ++ [Axis.ox.capitalized ++ "I", Axis.oy.capitalized ++ "I"] ++
      [c.l1, c.l2, c.l3, c.l4, c.l5].map (ending .conv numbered) ++
      [Axis.ox.capitalized ++ "O", Axis.oy.capitalized ++ "O"]

theorem header_labels (s : Site) (shape : Shape) : labelsAll (s.header shape) = [] := rfl

theorem declarations_labels (s : Site) (dims : List Int) : labelsAll (s.declarations dims) = [] :=
  labelsAll_ofStmts _

theorem convNest_labels (hk : s.layer.kind = .conv) (shape : Shape) (o : Operands) (c : ConvLoops) (a : Accumulator) :
    labelsAll (s.convNest shape o c a) = (convEndings s.config.numberedLabels c a).map (Label.mk s.number) := by
  cases a <;>
    simp [convNest, convScalar, convVector, convTile, reduction, labelsAll, Tree.labels, multiplyAdd_labels, loop_label,
      shortLoop_label, hk, convEndings]

theorem accumulator_of_conv (h : s.conv = .ok code) :
    ∃ k shape c o, s.order.accumulator? = some k ∧ s.shape = .ok shape ∧ s.convLoops = .ok c ∧
      code = s.header shape ++ s.declarations shape.output.dims ++ s.convNest shape o c k := by
  simp only [conv, bind_eq_ok, pure_eq_ok, mapError_ok_iff] at h
  obtain ⟨k, hacc, shape, hshape, c, hc, o, -, rfl⟩ := h
  refine ⟨k, shape, c, o, ?_, hshape, hc, by cases k <;> rfl⟩
  simp only [convAccumulator, bind_eq_ok] at hacc
  obtain ⟨k', hk', hpure⟩ := hacc
  split at hpure
  · cases hpure
  · cases hpure
    unfold LoopOrder.accumulator at hk'
    split at hk' <;> cases hk'
    assumption

theorem conv_of_supported {k : Accumulator} (ho : s.order.Supported k) (h : s.conv = .ok code) :
    ∃ a shape o, (a = .ox ∨ a = .oy) ∧ s.shape = .ok shape ∧ s.convLoops = .ok (loopsOf a k) ∧
      code = s.header shape ++ s.declarations shape.output.dims ++ s.convNest shape o (loopsOf a k) k := by
  obtain ⟨k', shape, c, o, hk, hshape, hc, rfl⟩ := accumulator_of_conv h
  cases (LoopOrder.accumulator?_of_supported ho).symm.trans hk
  obtain ⟨a, ha, hloops⟩ := convLoops_of_supported ho
  cases hloops.symm.trans hc
  exact ⟨a, shape, o, ha, hshape, hc, rfl⟩

theorem conv_labels (hk : s.layer.kind = .conv) (hfit : s.order.Fits s.order.kind) (h : s.conv = .ok code) :
    ∃ a k, (a = .ox ∨ a = .oy) ∧
      labelsAll code = (convEndings s.config.numberedLabels (loopsOf a k) k).map (Label.mk s.number) := by
  have hkind : s.order.kind = .conv := by
    obtain ⟨k, -, -, -, hsome, -⟩ := accumulator_of_conv h
    unfold LoopOrder.accumulator? at hsome
    split at hsome
    · assumption
    · cases hsome
  rw [hkind] at hfit
  obtain ⟨k, hsup⟩ := LoopOrder.supported_of_fits hfit
  obtain ⟨a, shape, o, ha, -, -, rfl⟩ := conv_of_supported hsup h
  refine ⟨a, k, ha, ?_⟩
  rw [labelsAll_append, labelsAll_append, header_labels, declarations_labels, convNest_labels hk]
  rfl

/-- What a layer's labels end in: no two ends are equal, and none can be taken for more of the number. -/
structure Apart (es : List String) : Prop where
  nodup : es.Nodup
  ends : ∀ e ∈ es, isEnd e.toList = true
  words : ∀ e ∈ es, e.toList.all isWordChar = true

instance (es : List String) : Decidable (Apart es) :=
  decidable_of_iff (es.Nodup ∧ (∀ e ∈ es, isEnd e.toList = true) ∧ ∀ e ∈ es, e.toList.all isWordChar = true)
    ⟨fun h => ⟨h.1, h.2.1, h.2.2⟩, fun h => ⟨h.nodup, h.ends, h.words⟩⟩

theorem apart_convEndings (numbered : Bool) {a : Axis} (ha : a = .ox ∨ a = .oy) (k : Accumulator) :
    Apart (convEndings numbered (loopsOf a k) k) := by
  rcases ha with rfl | rfl <;> cases numbered <;> cases k <;> decide +kernel

def plainAxes : Kind → List Axis
  | .conv => []
  | .pooling => [.ox, .oy, .oz, .kx, .ky]
  | .flatten => [.ox, .oy, .oz]
  | .dense => [.ox, .ix]

theorem apart_plainAxes (k : Kind) (numbered : Bool) : Apart ((plainAxes k).map (ending k numbered)) := by
  cases k <;> cases numbered <;> decide +kernel

theorem plain_labels (hk : s.layer.kind ≠ .conv) (h : s.code = .ok code) : labelsAll code =
      ((plainAxes s.layer.kind).map (ending s.layer.kind s.config.numberedLabels)).map (Label.mk s.number) := by
  unfold Site.code at h
  cases hkind : s.layer.kind with
  | conv => exact absurd hkind hk
  | pooling =>
    simp only [hkind, pooling, bind_eq_ok, pure_eq_ok] at h
    obtain ⟨_, -, shape, -, seed, -, rfl⟩ := h
    simp [header_labels, declarations_labels, poolingNest, labelsAll, Tree.labels, loop_label, hkind, plainAxes]
  | flatten =>
    simp only [hkind, flatten, bind_eq_ok, pure_eq_ok] at h
    obtain ⟨_, -, shape, -, rfl⟩ := h
    simp [header_labels, declarations_labels, flattenNest, labelsAll, innermost_labels, loop_label, hkind, plainAxes]
  | dense =>
    simp only [hkind, dense, bind_eq_ok, pure_eq_ok] at h
    obtain ⟨shape, -, rfl⟩ := h
    simp [header_labels, declarations_labels, denseNest, labelsAll, Tree.labels, innermost_labels, loop_label, hkind,
      plainAxes]

theorem code_labels (hfit : s.order.Fits s.order.kind) (h : s.code = .ok code) :
    ∃ es, labelsAll code = es.map (Label.mk s.number) ∧ Apart es := by
  by_cases hk : s.layer.kind = .conv
  · rw [Site.code, hk] at h
    obtain ⟨a, k, ha, hlabels⟩ := conv_labels hk hfit h
    exact ⟨_, hlabels, apart_convEndings _ ha k⟩
  · exact ⟨_, plain_labels hk h, apart_plainAxes _ _⟩

end Site

/-! ## Labels of a program -/

namespace Forward

variable {net : Network} {c : Config} {orders : List LoopOrder} {profile : String}

theorem site_order {l : Layer} {n : Nat} {s : Site} (ho : ∀ o ∈ orders, o.Fits o.kind)
    (h : site net c orders profile l n = .ok s) : s.order.Fits s.order.kind := by
  simp only [site, bind_eq_ok, pure_eq_ok] at h
  obtain ⟨_, -, rfl⟩ := h
  cases hget : orders[n - 1]? with
  | none => exact LoopOrder.canonical_fits l.kind
  | some o => exact ho o (List.mem_of_getElem? hget)

theorem inputCapture_labels {l : Layer} {n : Nat} {capture : List Tree} (h : inputCapture c l n = .ok capture) :
    labelsAll capture = [] := by
  rcases inputCapture_cases h with rfl | ⟨heads, value, x, y, z, hheads, rfl⟩
  · rfl
  · have hnone : heads.flatMap (fun h => h.label.toList) = [] := by
      rw [List.flatMap_eq_nil_iff]
      intro k hk
      rw [hheads k hk]
      rfl
    simp [labelsAll, Tree.labels, hnone]

theorem separator_labels (c : Config) (n : Nat) : labelsAll (separator c n) = [] := by
  unfold separator
  split <;> rfl

/-- The labels of layers carry their numbers, so that those of different layers differ. -/
theorem layersCode_labels (ho : ∀ o ∈ orders, o.Fits o.kind) {layers : List (Layer × Nat)} {code : List Tree}
    (h : layersCode net c orders profile layers = .ok code) :
    (∀ l ∈ labelsAll code, l.number ∈ layers.map Prod.snd ∧ isEnd l.suffix.toList = true ∧ l.Worded) ∧
      ((layers.map Prod.snd).Nodup → (labelsAll code).Nodup) := by
  induction layers generalizing code with
  | nil =>
    cases h
    exact ⟨List.forall_mem_nil _, fun _ => List.nodup_nil⟩
  | cons x rest ih =>
    obtain ⟨s, own, more, hs, hown, hmore, rfl⟩ := layersCode_cons.mp h
    obtain ⟨es, hes, hapart⟩ := Site.code_labels (site_order ho hs) hown
    obtain ⟨hrest, hdistinct⟩ := ih hmore
    obtain ⟨-, hnumber, -, -⟩ := site_fields hs
    have hbetween : labelsAll (if rest.isEmpty then [] else separator c x.2) = [] := by
      split
      · rfl
      · exact separator_labels c x.2
    rw [labelsAll_append, labelsAll_append, hbetween, hes, hnumber, List.append_nil, List.map_cons]
    constructor
    · rw [List.forall_mem_append, List.forall_mem_map]
      refine ⟨fun e he => ⟨List.mem_cons_self, hapart.ends e he, hapart.words e he⟩, fun l hl => ?_⟩
      exact ⟨List.mem_cons_of_mem _ (hrest l hl).1, (hrest l hl).2⟩
    · intro hnodup
      obtain ⟨hfresh, hnodup⟩ := List.nodup_cons.mp hnodup
      have hinj : Function.Injective (Label.mk x.2) := fun _ _ h => (Label.mk.inj h).2
      refine (hapart.nodup.map hinj).append (hdistinct hnodup) ?_
      intro l hown hmore
      obtain ⟨e, -, rfl⟩ := List.mem_map.mp hown
      exact hfresh (hrest _ hmore).1

end Forward

open Forward in
theorem Network.program_labels {net : Network} {c : Config} {orders : List LoopOrder} {profile : String} {p : Program}
    (h : net.program c orders profile = .ok p) (ho : ∀ o ∈ orders, o.Fits o.kind) :
    (labelsAll p.body).Nodup ∧ ∀ l ∈ labelsAll p.body, isEnd l.suffix.toList = true ∧ l.Worded := by
  obtain ⟨-, layers, first, n, last, m, types, parameters, capture, code, hlayers, -, -, -, -, hcapture, hcode, rfl⟩ :=
    Network.program_eq_ok.mp h
  obtain ⟨hall, hnodup⟩ := layersCode_labels ho hcode
  simp only [labelsAll_append, inputCapture_labels hcapture, List.nil_append]
  exact ⟨hnodup (emittedLayers_nodup hlayers).1, fun l hl => (hall l hl).2⟩

theorem Network.body_tidy {net : Network} {c : Config} {orders : List LoopOrder} {profile : String} {p : Program}
    (h : net.program c orders profile = .ok p) (ho : ∀ o ∈ orders, o.Fits o.kind) : Tidy p.body :=
  ⟨Network.body_spotless h, fun l hl => ((Network.program_labels h ho).2 l hl).2⟩

namespace Code

theorem avoids_group (g : Group) : Avoids codeMarks g.text := by
  cases g with
  | faults => exact avoids_literal (by decide)
  | declared ds active =>
    have hbody : Avoids codeMarks (", ".intercalate (ds.map Declaration.text)) :=
      avoids_intercalate (avoids_literal (by decide)) (by simp [avoids_declaration])
    cases active with
    | true => exact hbody.start (by decide)
    | false => exact (hbody.start (by decide)).stop (by decide)

end Code

namespace Program

variable (p : Program)

/-- The instructions in front of the generated function. -/
def front (p : Program) : List Instr :=
  piecesInstrs (p.prologue ++ p.macros) ++ p.types.map (fun l => Instr.line l.text) ++ [Instr.blank 1]

def function (p : Program) : List Instr :=
  [.line "void forward(InputType inputs, OutputType &outputs", .extend (p.parameters.map Group.text), .line ")",
    .block "" (instrsAll p.body)]

theorem instrs_eq : p.instrs = p.front ++ p.function := rfl

theorem function_steady : Instr.allSteady p.function = true := by
  simp [function, Instr.allSteady, Instr.isSteady, instrsAll_steady]

theorem text_eq : p.text = render p.front ++ render p.function := by
  have hsteady := p.instrs_steady
  rw [instrs_eq, Instr.allSteady_append, Bool.and_eq_true] at hsteady
  rw [text, instrs_eq]
  refine render_append hsteady.1 hsteady.2 ?_ (by simp [function, Instr.linesAllAt, Instr.linesAt])
  simp [front, Instr.linesAllAt, Instr.linesAt]

theorem function_lines : Instr.linesAllAt 0 p.function =
    indent 0 "void forward(InputType inputs, OutputType &outputs" :: (p.parameters.map Group.text).map (indent 0) ++
      indent 0 ")" :: indent 0 "\x7b" :: Instr.linesAllAt 1 (instrsAll p.body) ++ [indent 0 "\x7d"] := by
  simp [function, Instr.linesAllAt, Instr.linesAt]

theorem soundAll_function {p : Program} (h : Tidy p.body) : SoundAll p.function := by
  have hsignature : Avoids lineMarks "void forward(InputType inputs, OutputType &outputs" := avoids_literal (by decide)
  have hclose : Avoids lineMarks ")" := avoids_literal (by decide)
  have hempty : Avoids lineMarks "" := nofun
  have hgroups : SoundAll [.extend (p.parameters.map Group.text)] := by
    intro level
    rw [Instr.linesAllAt, Instr.linesAt, Instr.linesAllAt, List.append_nil]
    refine sound_of_whole (List.forall_mem_map.mpr (List.forall_mem_map.mpr fun g _ => ?_))
    exact (whole_of_avoids (avoids_group g).lines).indent level
  have hhead := (soundAll_line (whole_of_avoids hsignature)).append hgroups
  exact (hhead.append (soundAll_line (whole_of_avoids hclose))).append
    ((Tree.sound_all p.body h).block (whole_of_avoids hempty))

theorem labelsIn_function {p : Program} (h : Tidy p.body) :
    labelsIn (render p.function) = (labelsAll p.body).map fun l => l.text.toList := by
  have hlines := fileLines_render p.function_steady (by rw [function_lines]; simp) (soundAll_function h 0).lines
  have hplain (t : String) (ht : Unlabelled t) : lineLabels (indent 0 t).toList = [] := ht.labels 0
  have hgroups : labelsOn ((p.parameters.map Group.text).map (indent 0)) = [] :=
    flatMap_unlabelled (fun t => lineLabels_of_not_mem)
      (List.forall_mem_map.mpr fun g _ => unlabelled_of_avoids (avoids_group g)) 0
  have hends : Unlabelled ")" ∧ Unlabelled "\x7b" ∧ Unlabelled "\x7d" := by
    refine ⟨?_, ?_, ?_⟩ <;> exact unlabelled_of_not_mem (by decide)
  have hsignature : Unlabelled "void forward(InputType inputs, OutputType &outputs" :=
    unlabelled_of_avoids (avoids_literal (by decide))
  rw [labelsIn, hlines, function_lines]
  simp only [labelsOn_append, labelsOn_cons, labelsOn_nil, hgroups, labelsOn_linesAll 1 h,
    hplain _ hsignature, hplain _ hends.1, hplain _ hends.2.1, hplain _ hends.2.2, List.nil_append, List.append_nil]
  exact List.append_nil _

end Program

/-- The labels in the text of the generated function are those of its loops, and no two of them are equal. -/
theorem loop_labels_distinct {net : Network} {c : Config} {orders : List LoopOrder} {profile : String} {p : Program}
    (h : net.program c orders profile = .ok p) (ho : ∀ o ∈ orders, o.Fits o.kind) :
    p.text = render p.front ++ render p.function ∧
      labelsIn (render p.function) = (labelsAll p.body).map (fun l => l.text.toList) ∧
      (labelsIn (render p.function)).Nodup := by
  have htidy := Network.body_tidy h ho
  obtain ⟨hnodup, hends⟩ := Network.program_labels h ho
  refine ⟨p.text_eq, Program.labelsIn_function htidy, ?_⟩
  rw [Program.labelsIn_function htidy]
  refine List.Nodup.map_on (fun l hl m hm heq => ?_) hnodup
  exact Label.text_inj (hends l hl).1 (hends m hm).1 (String.toList_inj.mp heq)

/-- Twelve dense layers, so that a number with two digits meets an end that is a digit. -/
def denseTower : Network :=
  { layers := List.replicate 12 { form := .dense (some 2), input := some (.flat 2), output := some (.flat 2) } }

def towerOrders : List LoopOrder := List.replicate 12 (.canonical .dense)

theorem loop_labels_distinct_tower : ∃ p, denseTower.program { numberedLabels := true } towerOrders "" = .ok p ∧
    (∀ o ∈ towerOrders, o.Fits o.kind) ∧ (labelsIn (render p.function)).Nodup ∧
    (labelsAll p.body).length = 24 ∧ "for11".toList ∈ labelsIn (render p.function) ∧
    "for11t".toList ∈ labelsIn (render p.function) := by
  have hfits : ∀ o ∈ towerOrders, o.Fits o.kind := by
    intro o ho
    rw [List.eq_of_mem_replicate ho]
    exact LoopOrder.canonical_fits .dense
  have hrun : (denseTower.program { numberedLabels := true } towerOrders "").toOption.map
      (fun p => (labelsAll p.body).map fun l => (l.number, l.suffix)) =
      some ((List.range 12).flatMap fun n => [(n + 1, ""), (n + 1, "1")]) := by
    decide +kernel
  cases hp : denseTower.program { numberedLabels := true } towerOrders "" with
  | error f =>
    rw [hp] at hrun
    cases hrun
  | ok p =>
    rw [hp] at hrun
    obtain ⟨-, hlabels, hnodup⟩ := loop_labels_distinct hp hfits
    have hpairs := Option.some.inj hrun
    have hlength : (labelsAll p.body).length = 24 := by
      have hlen := congrArg List.length hpairs
      rwa [List.length_map] at hlen
    have hmem (n : Nat) (e : String) (h : (n, e) ∈ (List.range 12).flatMap fun n => [(n + 1, ""), (n + 1, "1")]) :
        (Label.mk n e).text.toList ∈ labelsIn (render p.function) := by
      rw [← hpairs] at h
      obtain ⟨l, hl, heq⟩ := List.mem_map.mp h
      cases heq
      rw [hlabels]
      exact List.mem_map_of_mem hl
    exact ⟨p, rfl, hfits, hnodup, hlength, hmem 1 "1" (by decide), hmem 11 "" (by decide)⟩

end LayerLoops
