import LayerLoops.LoopOrder
import Mathlib.Data.List.DropRight

/-! # Texts that are joined, split and trimmed

Parts of a text that hold no separator are found again when the text is split at the separators. A text without blanks
is not changed by trimming, and one of small letters and signs is not changed by lower case. -/

namespace LayerLoops

namespace Text

variable {cs : List Char} {ls : List String}

/-! ## Joined texts -/

theorem map_intercalate {α β : Type} (f : α → β) (sep : List α) (xss : List (List α)) :
    (sep.intercalate xss).map f = (sep.map f).intercalate (xss.map (List.map f)) := by
  induction xss with
  | nil => rfl
  | cons xs xss ih =>
    cases xss with
    | nil => simp
    | cons ys yss =>
      rw [List.intercalate_cons_cons, List.map_append, List.map_append, ih]
      exact List.intercalate_cons_cons.symm

def unhashed (c : Char) : Char := if c = '#' then '\n' else c

theorem map_unhashed (h : '#' ∉ cs) : cs.map unhashed = cs := by
  induction cs with
  | nil => rfl
  | cons c cs ih =>
    rw [List.mem_cons, not_or] at h
    rw [List.map_cons, ih h.2, unhashed, if_neg (Ne.symm h.1)]

theorem unhashed_intercalate (h : ∀ l ∈ ls, '#' ∉ l.toList) :
    ("#".intercalate ls).map unhashed = "\n".intercalate ls := by
  have hlines : (ls.map String.toList).map (List.map unhashed) = ls.map String.toList := by
    rw [List.map_map]
    exact List.map_congr_left fun l hl => map_unhashed (h l hl)
  apply String.toList_inj.mp
  rw [String.toList_map, String.toList_intercalate, map_intercalate, hlines, String.toList_intercalate]
  rfl

theorem intercalate_eq_empty_iff (h : ∀ l ∈ ls, '#' ∉ l.toList) :
    "\n".intercalate ls = "" ↔ "#".intercalate ls = "" := by
  rw [← unhashed_intercalate h, ← String.toList_eq_nil_iff, String.toList_map, List.map_eq_nil_iff,
    String.toList_eq_nil_iff]

theorem takeLine_cons {c : Char} (cs : List Char) (h : isLineBreak c = false) :
    takeLine (c :: cs) = (c :: (takeLine cs).1, (takeLine cs).2) := by
  rw [takeLine.eq_def]
  split
  · contradiction
  · rename_i heq
    cases heq
    exact absurd h (by decide)
  · rename_i heq
    cases heq
    rw [if_neg (by rw [h]; decide)]

theorem takeLine_of_unbroken (h : ∀ c ∈ cs, isLineBreak c = false) : takeLine cs = (cs, []) := by
  induction cs with
  | nil => rfl
  | cons c cs ih =>
    obtain ⟨hc, hcs⟩ := List.forall_mem_cons.mp h
    rw [takeLine_cons cs hc, ih hcs]

theorem takeLine_append (h : ∀ c ∈ cs, isLineBreak c = false) (rest : List Char) :
    takeLine (cs ++ '\n' :: rest) = (cs, rest) := by
  induction cs with
  | nil => rfl
  | cons c cs ih =>
    obtain ⟨hc, hcs⟩ := List.forall_mem_cons.mp h
    rw [List.cons_append, takeLine_cons _ hc, ih hcs]

theorem lines_of_unbroken {s : String} (hne : s ≠ "") (h : ∀ c ∈ s.toList, isLineBreak c = false) : lines s = [s] := by
  have hchars : lineChars s.toList = [s.toList] := by
    cases hs : s.toList with
    | nil => exact absurd (String.toList_eq_nil_iff.mp hs) hne
    | cons c cs =>
      rw [hs] at h
      rw [lineChars, takeLine_of_unbroken h, lineChars]
  rw [lines, hchars, List.map_singleton, String.ofList_toList]

theorem mem_intercalate {sep : List Char} {xss : List (List Char)} {c : Char} (h : c ∈ sep.intercalate xss) :
    c ∈ sep ∨ ∃ xs ∈ xss, c ∈ xs := by
  induction xss with
  | nil => cases h
  | cons xs xss ih =>
    cases xss with
    | nil => exact .inr ⟨xs, List.mem_cons_self, by simpa using h⟩
    | cons ys yss =>
      rw [List.intercalate_cons_cons, List.mem_append, List.mem_append] at h
      rcases h with (h | h) | h
      · exact .inr ⟨xs, List.mem_cons_self, h⟩
      · exact .inl h
      · exact (ih h).imp_right fun ⟨zs, hzs, hc⟩ => ⟨zs, List.mem_cons_of_mem xs hzs, hc⟩

theorem lines_hash (hne : "#".intercalate ls ≠ "") (h : ∀ l ∈ ls, ∀ c ∈ l.toList, isLineBreak c = false) :
    lines ("#".intercalate ls) = ["#".intercalate ls] := by
  apply lines_of_unbroken hne
  intro c hc
  rw [String.toList_intercalate] at hc
  rcases mem_intercalate hc with hc | ⟨xs, hxs, hc⟩
  · rw [List.mem_singleton.mp hc]
    decide
  · obtain ⟨l, hl, rfl⟩ := List.mem_map.mp hxs
    exact h l hl c hc

theorem lineChars_intercalate {xss : List (List Char)} (h : ∀ xs ∈ xss, ∀ c ∈ xs, isLineBreak c = false) :
    xss = lineChars (['\n'].intercalate xss) ∨ xss = lineChars (['\n'].intercalate xss) ++ [[]] := by
  induction xss with
  | nil => exact .inl (by simp [lineChars])
  | cons xs xss ih =>
    obtain ⟨hxs, hxss⟩ := List.forall_mem_cons.mp h
    cases xss with
    | nil =>
      cases xs with
      | nil => exact .inr (by simp [lineChars])
      | cons c cs =>
        left
        rw [List.intercalate_singleton, lineChars, takeLine_of_unbroken hxs, lineChars]
    | cons ys yss =>
      have hlines : lineChars (['\n'].intercalate (xs :: ys :: yss)) =
          xs :: lineChars (['\n'].intercalate (ys :: yss)) := by
        have hsplit := takeLine_append hxs (['\n'].intercalate (ys :: yss))
        rw [List.intercalate_cons_cons, List.append_assoc, List.singleton_append]
        cases hall : xs ++ '\n' :: ['\n'].intercalate (ys :: yss) with
        | nil => simp at hall
        | cons c cs => rw [lineChars, ← hall, hsplit]
      rw [hlines, List.cons_append]
      exact (ih hxss).imp (congrArg (xs :: ·)) (congrArg (xs :: ·))

/-! ## Trimmed and lowered texts -/

theorem stripChars_eq (cs : List Char) : stripChars cs = (cs.dropWhile isBlank).rdropWhile isBlank := rfl

theorem stripChars_stripChars (cs : List Char) : stripChars (stripChars cs) = stripChars cs := by
  have hcut : stripChars cs <+: cs.dropWhile isBlank := List.rdropWhile_prefix _ _
  -- the end was cut from a list that starts with no blank
  have hfront : (stripChars cs).dropWhile isBlank = stripChars cs := by
    rw [List.dropWhile_eq_self_iff]
    intro hpos
    have hstart := List.dropWhile_eq_self_iff.mp (List.dropWhile_idempotent isBlank cs)
    rw [hcut.getElem hpos]
    exact hstart (hpos.trans_le hcut.length_le)
  rw [stripChars_eq (stripChars cs), hfront, stripChars_eq, List.rdropWhile_idempotent]

theorem strip_strip (s : String) : strip (strip s) = strip s := by
  rw [strip, strip, String.toList_ofList, stripChars_stripChars]

theorem dropWhile_of_all_false {p : Char → Bool} (h : ∀ c ∈ cs, p c = false) : cs.dropWhile p = cs := by
  cases cs with
  | nil => rfl
  | cons c cs => rw [List.dropWhile_cons_of_neg (by simp [h c List.mem_cons_self])]

theorem stripChars_of_unblank (h : ∀ c ∈ cs, isBlank c = false) : stripChars cs = cs := by
  have hreverse : ∀ c ∈ cs.reverse, isBlank c = false := by simpa using h
  rw [stripChars, dropWhile_of_all_false h, dropWhile_of_all_false hreverse, List.reverse_reverse]

theorem lowerFrom_of_lowered (h : ∀ c ∈ cs, c.toNat < 128 ∧ c.toLower = c) (before : List Char) :
    lowerFrom before cs = cs := by
  induction cs generalizing before with
  | nil => rfl
  | cons c cs ih =>
    obtain ⟨⟨hascii, hlower⟩, hrest⟩ := List.forall_mem_cons.mp h
    rw [lowerFrom, if_pos hascii, hlower, ih hrest]
    rfl

end Text

/-! ## Parts between dashes -/

theorem splitAtChar_eq_splitOn (sep : Char) (cs : List Char) : splitAtChar sep cs = cs.splitOn sep := by
  induction cs with
  | nil => rfl
  | cons c cs ih =>
    rw [splitAtChar, ih, List.splitOn_cons_eq_if_modifyHead]
    by_cases hc : c = sep
    · rw [if_pos hc, if_pos (beq_iff_eq.mpr hc)]
    · rw [if_neg hc, if_neg (mt beq_iff_eq.mp hc)]
      cases hs : cs.splitOn sep with
      | nil => exact absurd hs (List.splitOn_ne_nil sep cs)
      | cons first rest => rfl

theorem dashed_intercalate {parts : List String} (hne : parts ≠ []) (h : ∀ p ∈ parts, '-' ∉ p.toList) :
    dashed ("-".intercalate parts) = parts := by
  have hsplit : ("-".intercalate parts).toList.splitOn '-' = parts.map String.toList := by
    rw [String.toList_intercalate]
    exact List.splitOn_intercalate '-' (List.forall_mem_map.mpr h) (by simpa using hne)
  rw [dashed, splitAtChar_eq_splitOn, hsplit, List.map_map]
  exact List.map_id'' (fun _ => String.ofList_toList) parts

end LayerLoops
