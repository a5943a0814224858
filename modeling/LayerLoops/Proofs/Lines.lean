import LayerLoops.Proofs.Words

/-! # The lines of a listing

Instructions that nothing stops write their texts one to a line, indented by the level they stand at, with braces around
the bodies of blocks. Where no text holds a line feed, the rendered text falls into exactly these lines. -/

namespace LayerLoops

variable {is : List Instr}

namespace Text

/-- The lines of a text, the last one ended by the end of the text. -/
def fileLines (s : String) : List String := (s.toList.splitOn '\n').map String.ofList

/-- A text behind the given number of tabs; an empty text is not indented. -/
def indent (level : Int) (t : String) : String := if t.isEmpty then "" else "".pushn '\t' level.toNat ++ t

theorem toList_indent (level : Int) (t : String) :
    ∃ n, (indent level t).toList = List.replicate n '\t' ++ t.toList := by
  unfold indent
  by_cases ht : t.isEmpty = true
  · rw [if_pos ht, String.isEmpty_iff.mp ht]
    exact ⟨0, rfl⟩
  · rw [if_neg ht, String.toList_append, toList_tabs]
    exact ⟨_, rfl⟩

theorem mem_indent {level : Int} {t : String} {c : Char} (h : c ∈ (indent level t).toList) :
    c = '\t' ∨ c ∈ t.toList := by
  obtain ⟨n, hn⟩ := toList_indent level t
  rw [hn] at h
  exact (List.mem_append.mp h).imp_left List.eq_of_mem_replicate

end Text

open Text

/-! ## What instructions write -/

def headersAt (level : Int) : List String → List String
  | [] => []
  | h :: hs => indent level h :: headersAt (level + 1) hs

mutual

def Instr.linesAt (level : Int) : Instr → List String
  | .line text => [indent level text]
  | .extend texts => texts.map (indent level)
  | .blank count => List.replicate count.toNat ""
  | .block header body =>
    (if header.isEmpty then [] else [indent level header]) ++ indent level "\x7b" ::
      Instr.linesAllAt (level + 1) body ++ [indent level "\x7d"]
  | .indented levels body => Instr.linesAllAt (level + levels) body
  | .nested headers body => headersAt level headers ++ Instr.linesAllAt (level + headers.length) body
  | .stop => []
  | .attempt body => Instr.linesAllAt level body

def Instr.linesAllAt (level : Int) : List Instr → List String
  | [] => []
  | i :: is => i.linesAt level ++ Instr.linesAllAt level is

end

@[simp] theorem Instr.linesAllAt_append (level : Int) (is js : List Instr) :
    Instr.linesAllAt level (is ++ js) = Instr.linesAllAt level is ++ Instr.linesAllAt level js := by
  induction is with
  | nil => rfl
  | cons i is ih => rw [List.cons_append, Instr.linesAllAt, Instr.linesAllAt, ih, List.append_assoc]

namespace Listing

variable (l : Listing)

def extend (l : Listing) (lines : List String) : Listing := { l with written := lines.reverse ++ l.written }

theorem extend_extend (a b : List String) : (l.extend a).extend b = l.extend (a ++ b) := by
  simp [extend]

theorem put_eq (t : String) : l.put t = l.extend [indent l.level t] := rfl

theorem putAll_eq (ts : List String) : l.putAll ts = l.extend (ts.map (indent l.level)) := by
  induction ts generalizing l with
  | nil => rfl
  | cons t ts ih =>
    have hstep : l.putAll (t :: ts) = (l.put t).putAll ts := rfl
    rw [hstep, ih, put_eq, extend_extend]
    rfl

theorem skip_eq (count : Int) : l.skip count = l.extend (List.replicate count.toNat "") := by
  simp [skip, extend]

theorem shift_extend (lines : List String) (levels : Int) :
    (l.extend lines).shift levels = (l.shift levels).extend lines := rfl

theorem shift_shift (levels : Int) : (l.shift levels).shift (-levels) = l := by
  have hlevel : l.level + levels + -levels = l.level := by omega
  simp only [shift, hlevel]

theorem descend_eq (hs : List String) : l.descend hs = (l.shift hs.length).extend (headersAt l.level hs) := by
  induction hs generalizing l with
  | nil => simp [descend, shift, extend, headersAt]
  | cons h hs ih =>
    have hstep : l.descend (h :: hs) = ((l.put h).shift 1).descend hs := rfl
    have hlevel : (((l.put h).shift 1).shift hs.length) =
        (l.shift ((h :: hs).length : Int)).extend [indent l.level h] := by
      simp only [put_eq, extend, shift, List.length_cons, Listing.mk.injEq]
      exact ⟨trivial, by push_cast; omega⟩
    rw [hstep, ih, hlevel, extend_extend]
    rfl

end Listing

mutual

theorem Instr.run_eq (l : Listing) : ∀ i : Instr, i.isSteady = true → i.run l = ⟨l.extend (i.linesAt l.level), false⟩
  | .line _, _ => rfl
  | .extend texts, _ => by rw [Instr.run, Listing.putAll_eq, Instr.linesAt]
  | .blank count, _ => by rw [Instr.run, Listing.skip_eq, Instr.linesAt]
  | .block header body, h => by
    have hopen : (if header.isEmpty then l else l.put header).put "\x7b" = l.extend
        ((if header.isEmpty then [] else [indent l.level header]) ++ [indent l.level "\x7b"]) := by
      split
      · rfl
      · rw [Listing.put_eq, Listing.put_eq, Listing.extend_extend]
        rfl
    rw [Instr.run, hopen, Instr.runAll_eq _ body h]
    simp only [Bool.false_eq_true, if_false, Listing.shift_extend, Listing.shift_shift, Listing.put_eq,
      Listing.extend_extend, Instr.linesAt, List.append_assoc, List.cons_append, List.nil_append]
    rfl
  | .indented levels body, h => by
    simp only [Instr.run, Instr.runAll_eq _ body h, Listing.shift_extend, Listing.shift_shift]
    rfl
  | .nested headers body, h => by
    simp only [Instr.run, Instr.runAll_eq _ body h, Listing.descend_eq, Listing.shift_extend, Listing.shift_shift,
      Listing.extend_extend]
    rfl
  | .stop, h => by cases h
  | .attempt body, h => by
    simp only [Instr.run, Instr.runAll_eq _ body h]
    rfl

theorem Instr.runAll_eq (l : Listing) : ∀ is : List Instr, Instr.allSteady is = true →
    Instr.runAll l is = ⟨l.extend (Instr.linesAllAt l.level is), false⟩
  | [], _ => rfl
  | i :: is, h => by
    obtain ⟨hi, his⟩ := Bool.and_eq_true_iff.mp h
    simp only [Instr.runAll, Instr.run_eq l i hi, Instr.runAll_eq _ is his, Bool.false_eq_true, if_false,
      Listing.extend_extend]
    rfl

end

/-! ## Rendered texts -/

theorem render_eq (h : Instr.allSteady is = true) : render is = "\n".intercalate (Instr.linesAllAt 0 is) ++ "\n" := by
  simp [render, Instr.runAll_eq {} is h, Listing.text, Listing.lines, Listing.extend]

theorem render_append {js : List Instr} (his : Instr.allSteady is = true) (hjs : Instr.allSteady js = true)
    (hi : Instr.linesAllAt 0 is ≠ []) (hj : Instr.linesAllAt 0 js ≠ []) :
    render (is ++ js) = render is ++ render js := by
  have hboth : Instr.allSteady (is ++ js) = true := by rw [Instr.allSteady_append, his, hjs]; rfl
  rw [render_eq hboth, render_eq his, render_eq hjs, Instr.linesAllAt_append,
    String.intercalate_append_of_ne_nil hi hj]
  simp only [String.append_assoc]

theorem fileLines_render (h : Instr.allSteady is = true) (hne : Instr.linesAllAt 0 is ≠ [])
    (hlines : ∀ t ∈ Instr.linesAllAt 0 is, '\n' ∉ t.toList) :
    fileLines (render is) = Instr.linesAllAt 0 is ++ [""] := by
  have hend : render is = "\n".intercalate (Instr.linesAllAt 0 is ++ [""]) := by
    rw [render_eq h, String.intercalate_append_of_ne_nil hne (List.cons_ne_nil _ _)]
    simp
  have hall : ∀ l ∈ (Instr.linesAllAt 0 is ++ [""]).map String.toList, '\n' ∉ l := by
    rw [List.forall_mem_map, List.forall_mem_append, List.forall_mem_singleton]
    exact ⟨hlines, List.not_mem_nil⟩
  have hsplit : (render is).toList.splitOn '\n' = (Instr.linesAllAt 0 is ++ [""]).map String.toList := by
    rw [hend, String.toList_intercalate]
    exact List.splitOn_intercalate '\n' hall (by simp)
  rw [fileLines, hsplit, List.map_map]
  exact List.map_id'' (fun _ => String.ofList_toList) _

end LayerLoops
