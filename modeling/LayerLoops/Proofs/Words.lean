import LayerLoops.Listing
import Mathlib.Data.List.Basic

/-! # The words of a text

A word is a longest run of letters, digits and underscores. Words never reach over a character that is none of
these, so the words of a text are those of its parts wherever one part ends or the next one begins with such a
character. The words of what instructions write are the words of the texts in them: line feeds, indentation and
braces separate words and add none. -/

namespace LayerLoops

namespace Text

variable {a : String} {c : Char} {cs : List Char}

def isWordChar (c : Char) : Bool := c.isAlphanum || c == '_'

def wordsOf (cs : List Char) : List (List Char) :=
  (cs.splitOnP fun c => !isWordChar c).filter fun w => !w.isEmpty

def words (s : String) : List String := (wordsOf s.toList).map String.ofList

theorem mem_of_mem_splitOnP {p : Char → Bool} {w : List Char} (h : w ∈ cs.splitOnP p) : ∀ c ∈ w, c ∈ cs := by
  induction cs generalizing w with
  | nil => simp_all
  | cons d cs ih =>
    rw [List.splitOnP_cons_eq_if_modifyHead] at h
    split at h
    · rcases List.mem_cons.mp h with rfl | h
      · exact List.forall_mem_nil _
      · exact fun c hc => List.mem_cons_of_mem d (ih h c hc)
    · cases hs : cs.splitOnP p with
      | nil => exact absurd hs (List.splitOnP_ne_nil p cs)
      | cons v vs =>
        rw [hs] at h ih
        rcases List.mem_cons.mp h with rfl | h
        · exact List.forall_mem_cons.mpr
            ⟨List.mem_cons_self, fun c hc => List.mem_cons_of_mem d (ih List.mem_cons_self c hc)⟩
        · exact fun c hc => List.mem_cons_of_mem d (ih (List.mem_cons_of_mem v h) c hc)

theorem mem_of_mem_words {t w : String} (h : w ∈ words t) (hc : c ∈ w.toList) : c ∈ t.toList := by
  obtain ⟨cs, hcs, rfl⟩ := List.mem_map.mp h
  rw [String.toList_ofList] at hc
  exact mem_of_mem_splitOnP (List.mem_filter.mp hcs).1 c hc

def opens (s : String) : Bool := s.toList.head?.all fun c => !isWordChar c

def closes (s : String) : Bool := s.toList.getLast?.all fun c => !isWordChar c

@[simp] theorem wordsOf_nil : wordsOf [] = [] := rfl

@[simp] theorem words_empty : words "" = [] := rfl

theorem wordsOf_append_break (hc : isWordChar c = false) (a b : List Char) :
    wordsOf (a ++ c :: b) = wordsOf a ++ wordsOf b := by
  have hsplit : (a ++ c :: b).splitOnP (fun c => !isWordChar c) =
      a.splitOnP (fun c => !isWordChar c) ++ b.splitOnP (fun c => !isWordChar c) :=
    List.splitOnP_append_cons a b (by simp [hc])
  rw [wordsOf, hsplit, List.filter_append]
  rfl

theorem wordsOf_cons_break (hc : isWordChar c = false) (b : List Char) : wordsOf (c :: b) = wordsOf b :=
  wordsOf_append_break hc [] b

theorem wordsOf_of_breaks (h : ∀ c ∈ cs, isWordChar c = false) : wordsOf cs = [] := by
  induction cs with
  | nil => rfl
  | cons c cs ih =>
    rw [wordsOf_cons_break (h c List.mem_cons_self)]
    exact ih fun d hd => h d (List.mem_cons_of_mem c hd)

theorem opens_cases (h : opens a = true) : a = "" ∨ ∃ c x, a.toList = c :: x ∧ isWordChar c = false := by
  cases ha : a.toList with
  | nil => exact .inl (String.toList_eq_nil_iff.mp ha)
  | cons c x =>
    rw [opens, ha] at h
    exact .inr ⟨c, x, rfl, by simpa using h⟩

theorem closes_cases (h : closes a = true) : a = "" ∨ ∃ x c, a.toList = x ++ [c] ∧ isWordChar c = false := by
  rcases List.eq_nil_or_concat a.toList with ha | ⟨x, c, ha⟩
  · exact .inl (String.toList_eq_nil_iff.mp ha)
  · rw [List.concat_eq_append] at ha
    rw [closes, ha, List.getLast?_concat] at h
    exact .inr ⟨x, c, ha, by simpa using h⟩

theorem words_append_of_closes (h : closes a = true) (b : String) : words (a ++ b) = words a ++ words b := by
  unfold words
  rw [String.toList_append, ← List.map_append]
  rcases closes_cases h with rfl | ⟨x, c, ha, hc⟩
  · rfl
  · rw [ha, List.append_assoc, List.singleton_append, wordsOf_append_break hc, wordsOf_append_break hc]
    simp

theorem words_append_of_opens (a : String) {b : String} (h : opens b = true) :
    words (a ++ b) = words a ++ words b := by
  unfold words
  rw [String.toList_append, ← List.map_append]
  rcases opens_cases h with rfl | ⟨c, x, hb, hc⟩
  · simp
  · rw [hb, wordsOf_append_break hc, wordsOf_cons_break hc]

theorem opens_append (ha : a ≠ "") (h : opens a = true) (b : String) : opens (a ++ b) = true := by
  unfold opens at *
  rw [String.toList_append]
  cases hc : a.toList with
  | nil => exact absurd (String.toList_eq_nil_iff.mp hc) ha
  | cons c x =>
    rw [hc] at h
    exact h

theorem closes_append (a : String) {b : String} (hb : b ≠ "") (h : closes b = true) : closes (a ++ b) = true := by
  unfold closes at *
  rw [String.toList_append, List.getLast?_append]
  cases hc : b.toList.getLast? with
  | none => exact absurd (String.toList_eq_nil_iff.mp (List.getLast?_eq_none_iff.mp hc)) hb
  | some c =>
    rw [hc] at h
    exact h

theorem mem_words_glue (sep : String) (ho : opens sep = true) (hc : closes sep = true) (hne : sep ≠ "") {w : String}
    (b : String) (hw : w ∈ words a) : w ∈ words (a ++ sep ++ b) := by
  rw [words_append_of_closes (closes_append a hne hc), words_append_of_opens a ho]
  exact List.mem_append_left _ (List.mem_append_left _ hw)

theorem begins_ofList {ds : List Char} (h : cs.isPrefixOf ds = true) :
    (String.ofList cs).toList <+: (String.ofList ds).toList := by
  rw [String.toList_ofList, String.toList_ofList]
  exact List.isPrefixOf_iff_prefix.mp h

theorem words_eq_singleton {s : String} (hs : s ≠ "") (h : ∀ c ∈ s.toList, isWordChar c = true) :
    words s = [s] := by
  have hsplit : s.toList.splitOnP (fun c => !isWordChar c) = [s.toList] :=
    List.splitOnP_eq_singleton fun c hc => by simp [h c hc]
  have hne : s.toList.isEmpty = false := by
    rw [List.isEmpty_eq_false_iff]
    exact fun hnil => hs (String.toList_eq_nil_iff.mp hnil)
  simp [words, wordsOf, hsplit, hne]

theorem words_intercalate {sep : String} (hne : sep ≠ "") (ho : opens sep = true) (hc : closes sep = true)
    (hw : words sep = []) (ts : List String) : words (sep.intercalate ts) = ts.flatMap words := by
  induction ts with
  | nil => simp
  | cons t ts ih =>
    cases ts with
    | nil => simp
    | cons u us =>
      rw [String.intercalate_cons_cons, words_append_of_closes (closes_append t hne hc),
        words_append_of_opens t ho, hw, ih]
      simp

theorem toList_tabs (n : Nat) : ("".pushn '\t' n).toList = List.replicate n '\t' := by
  induction n with
  | zero => rfl
  | succ n ih =>
    have hpush : "".pushn '\t' (n + 1) = ("".pushn '\t' n).push '\t' := by
      simp only [String.pushn_eq_repeat_push]
      rfl
    rw [hpush, String.toList_push, ih, List.replicate_succ']

theorem wordsOf_tabs (n : Nat) (cs : List Char) : wordsOf (("".pushn '\t' n).toList ++ cs) = wordsOf cs := by
  rw [toList_tabs]
  induction n with
  | zero => rfl
  | succ n ih =>
    rw [List.replicate_succ, List.cons_append, wordsOf_cons_break (by decide), ih]

end Text

open Text

def Listing.words (l : Listing) : List String := l.lines.flatMap Text.words

namespace Listing

variable (l : Listing)

theorem words_put (t : String) : (l.put t).words = l.words ++ Text.words t := by
  have hline : Text.words (if t.isEmpty then "" else "".pushn '\t' l.level.toNat ++ t) = Text.words t := by
    by_cases ht : t.isEmpty
    · rw [if_pos ht, String.isEmpty_iff.mp ht]
    · rw [if_neg ht]
      unfold Text.words
      rw [String.toList_append, wordsOf_tabs]
  simp only [put, Listing.words, lines, List.reverse_cons, List.flatMap_append, List.flatMap_singleton, hline]

theorem words_putAll (ts : List String) : (l.putAll ts).words = l.words ++ ts.flatMap Text.words := by
  induction ts generalizing l with
  | nil => simp [putAll]
  | cons t ts ih =>
    have hstep : l.putAll (t :: ts) = (l.put t).putAll ts := rfl
    rw [hstep, ih, words_put]
    simp

@[simp] theorem words_shift (levels : Int) : (l.shift levels).words = l.words := rfl

theorem words_skip (count : Int) : (l.skip count).words = l.words := by
  have hblank : (List.replicate count.toNat "").reverse.flatMap Text.words = [] := by
    simp
  simp only [skip, Listing.words, lines, List.reverse_append, List.flatMap_append, hblank, List.append_nil]

theorem words_descend (headers : List String) : (l.descend headers).words = l.words ++ headers.flatMap Text.words := by
  induction headers generalizing l with
  | nil => simp [descend]
  | cons h hs ih =>
    have hstep : l.descend (h :: hs) = ((l.put h).shift 1).descend hs := rfl
    rw [hstep, ih, words_shift, words_put]
    simp

theorem words_text : Text.words l.text = l.words := by
  have hend : closes "\n" = true := by decide
  rw [text, words_append_of_opens _ (by decide), words_intercalate (by decide) (by decide) hend (by decide)]
  simp [Listing.words, show Text.words "\n" = [] by decide]

end Listing

mutual

def Instr.texts : Instr → List String
  | .line text => [text]
  | .extend texts => texts
  | .blank _ => []
  | .block header body => header :: Instr.textsAll body
  | .indented _ body => Instr.textsAll body
  | .nested headers body => headers ++ Instr.textsAll body
  | .stop => []
  | .attempt body => Instr.textsAll body

def Instr.textsAll : List Instr → List String
  | [] => []
  | i :: is => i.texts ++ Instr.textsAll is

end

mutual

def Instr.isSteady : Instr → Bool
  | .line _ | .extend _ | .blank _ => true
  | .block _ body | .indented _ body | .nested _ body | .attempt body => Instr.allSteady body
  | .stop => false

def Instr.allSteady : List Instr → Bool
  | [] => true
  | i :: is => i.isSteady && Instr.allSteady is

end

@[simp] theorem Instr.textsAll_append (is js : List Instr) :
    Instr.textsAll (is ++ js) = Instr.textsAll is ++ Instr.textsAll js := by
  induction is with
  | nil => rfl
  | cons i is ih =>
    rw [List.cons_append, Instr.textsAll, Instr.textsAll, ih, List.append_assoc]

@[simp] theorem Instr.allSteady_append (is js : List Instr) :
    Instr.allSteady (is ++ js) = (Instr.allSteady is && Instr.allSteady js) := by
  induction is with
  | nil => rfl
  | cons i is ih =>
    rw [List.cons_append, Instr.allSteady, Instr.allSteady, ih, Bool.and_assoc]

mutual

theorem Instr.run_words (l : Listing) : ∀ i : Instr, i.isSteady = true →
    (i.run l).stopped = false ∧ (i.run l).listing.words = l.words ++ i.texts.flatMap Text.words
  | .line text, _ => ⟨rfl, by simp [Instr.run, Instr.texts, Listing.words_put]⟩
  | .extend texts, _ => ⟨rfl, by simp [Instr.run, Instr.texts, Listing.words_putAll]⟩
  | .blank count, _ => ⟨rfl, by simp [Instr.run, Instr.texts, Listing.words_skip]⟩
  | .block header body, h => by
    have hopen : ((if header.isEmpty then l else l.put header).put "\x7b").words = l.words ++ Text.words header := by
      rw [Listing.words_put, show Text.words "\x7b" = [] by decide, List.append_nil]
      by_cases hh : header.isEmpty
      · rw [if_pos hh, String.isEmpty_iff.mp hh]
        simp
      · rw [if_neg hh, Listing.words_put]
    obtain ⟨hrun, hwords⟩ := Instr.runAll_words
      (((if header.isEmpty then l else l.put header).put "\x7b").shift 1) body h
    rw [Listing.words_shift, hopen] at hwords
    simp only [Instr.run, hrun]
    refine ⟨rfl, ?_⟩
    rw [if_neg Bool.false_ne_true, Listing.words_put, Listing.words_shift, hwords,
      show Text.words "\x7d" = [] by decide]
    simp [Instr.texts]
  | .indented levels body, h => by
    obtain ⟨hrun, hwords⟩ := Instr.runAll_words (l.shift levels) body h
    exact ⟨hrun, hwords⟩
  | .nested headers body, h => by
    obtain ⟨hrun, hwords⟩ := Instr.runAll_words (l.descend headers) body h
    refine ⟨hrun, ?_⟩
    rw [Listing.words_descend] at hwords
    simp [Instr.run, hwords, Instr.texts]
  | .stop, h => by cases h
  | .attempt body, h => ⟨rfl, (Instr.runAll_words l body h).2⟩

theorem Instr.runAll_words (l : Listing) : ∀ is : List Instr, Instr.allSteady is = true →
    (Instr.runAll l is).stopped = false ∧
      (Instr.runAll l is).listing.words = l.words ++ (Instr.textsAll is).flatMap Text.words
  | [], _ => ⟨rfl, by simp [Instr.runAll, Instr.textsAll]⟩
  | i :: is, h => by
    obtain ⟨hi, his⟩ := Bool.and_eq_true_iff.mp h
    obtain ⟨hfirst, hwords⟩ := Instr.run_words l i hi
    obtain ⟨hrest, hmore⟩ := Instr.runAll_words (i.run l).listing is his
    simp only [Instr.runAll, hfirst]
    refine ⟨hrest, ?_⟩
    rw [if_neg Bool.false_ne_true, hmore, hwords]
    simp [Instr.textsAll]

end

theorem words_render {is : List Instr} (h : Instr.allSteady is = true) :
    words (render is) = (Instr.textsAll is).flatMap words := by
  rw [render, Listing.words_text, (Instr.runAll_words {} is h).2]
  rfl

end LayerLoops
