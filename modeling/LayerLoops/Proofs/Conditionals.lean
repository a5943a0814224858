import LayerLoops.Proofs.Lines
import LayerLoops.Proofs.Marks
import LayerLoops.Proofs.Preprocessed

/-! # Conditional parts and braces

Generated files hold parts that are compiled only under a condition. Their directives are nested, and what is left under
any assumption about the macros has its braces in balance. A piece of code is sound if this holds of its lines wherever
they stand; soundness is kept when pieces follow each other, stand in a block or stand under a condition. -/

namespace LayerLoops

variable {is : List Instr}

namespace Text

variable {a test : List Char} {c o t : String} {ks ls ms : List String} {wanted : Bool} (level : Int)

/-! ## What a preprocessor leaves -/

/-- A directive that decides what is compiled. -/
inductive Conditional
  /-- What follows is left out unless the test turns out as wanted. -/
  | opening (test : List Char) (wanted : Bool)
  | middle
  | closing
  deriving DecidableEq, Repr

def isMargin (c : Char) : Bool := c == ' ' || c == '\t'

def directive? (cs : List Char) : Option Conditional :=
  let argument (n : Nat) := (cs.drop n).dropWhile isMargin
  if "ifdef".toList.isPrefixOf cs then some (.opening (argument 5) true)
  else if "ifndef".toList.isPrefixOf cs then some (.opening (argument 6) false)
  else if "if".toList.isPrefixOf cs then some (.opening (argument 2) true)
  else if "else".toList.isPrefixOf cs then some .middle
  else if "endif".toList.isPrefixOf cs then some .closing
  else none

def conditionalIn? (cs : List Char) : Option Conditional :=
  match cs.dropWhile isMargin with
  | '#' :: cs => directive? cs
  | _ => none

def conditional? (line : String) : Option Conditional := conditionalIn? line.toList

/-- A part that is open: whether its lines are compiled, and whether they stand behind an `#else`. -/
structure Frame where
  active : Bool
  turned : Bool := false

/-- The open parts behind a directive; `on` says which tests hold. -/
def advance (on : List Char → Bool) : Conditional → List Frame → Option (List Frame)
  | .opening test wanted, fs => some ({ active := on test == wanted } :: fs)
  | .middle, ⟨active, false⟩ :: fs => some (⟨!active, true⟩ :: fs)
  | .closing, _ :: fs => some fs
  | _, _ => none

/-- The lines that are left, unless the directives are not nested or a part stays open. -/
def keptFrom (on : List Char → Bool) : List Frame → List String → Option (List String)
  | fs, [] => if fs.isEmpty then some [] else none
  | fs, line :: lines =>
    match conditional? line with
    | some d => (advance on d fs).bind fun gs => keptFrom on gs lines
    | none => (keptFrom on fs lines).map fun kept => if fs.all Frame.active then line :: kept else kept

/-- The lines of a text that a preprocessor leaves. -/
def keptLines (on : List Char → Bool) (s : String) : Option (List String) := keptFrom on [] (fileLines s)

/-- No brace is closed that was not opened, and none stays open. -/
structure Balanced (cs : List Char) : Prop where
  opened : ∀ p, p <+: cs → p.count '}' ≤ p.count '{'
  closed : cs.count '{' = cs.count '}'

instance (cs : List Char) : Decidable (Balanced cs) :=
  decidable_of_iff ((∀ p ∈ cs.inits, p.count '}' ≤ p.count '{') ∧ cs.count '{' = cs.count '}')
    ⟨fun h => ⟨fun p hp => h.1 p ((List.mem_inits p cs).mpr hp), h.2⟩,
      fun h => ⟨fun p hp => h.opened p ((List.mem_inits p cs).mp hp), h.closed⟩⟩

theorem prefix_append_cases {b p : List Char} (h : p <+: a ++ b) : p <+: a ∨ ∃ q, q <+: b ∧ p = a ++ q := by
  rcases List.prefix_or_prefix_of_prefix h (List.prefix_append a b) with hp | ⟨q, rfl⟩
  · exact .inl hp
  · exact .inr ⟨q, (List.prefix_append_right_inj a).mp h, rfl⟩

theorem Balanced.append {b : List Char} (ha : Balanced a) (hb : Balanced b) : Balanced (a ++ b) := by
  constructor
  · intro p hp
    rcases prefix_append_cases hp with hp | ⟨q, hq, rfl⟩
    · exact ha.opened p hp
    · have hrest := hb.opened q hq
      have hfirst := ha.closed
      rw [List.count_append, List.count_append]
      omega
  · rw [List.count_append, List.count_append, ha.closed, hb.closed]

theorem balanced_of_not_mem {cs : List Char} (ho : '{' ∉ cs) (hc : '}' ∉ cs) : Balanced cs := by
  constructor
  · intro p hp
    rw [List.count_eq_zero_of_not_mem fun h => hc (hp.subset h)]
    exact Nat.zero_le _
  · rw [List.count_eq_zero_of_not_mem ho, List.count_eq_zero_of_not_mem hc]

theorem Balanced.wrap (ha : Balanced a) : Balanced ('{' :: (a ++ ['}'])) := by
  have hclosed := ha.closed
  constructor
  · intro p hp
    rcases List.prefix_cons_iff.mp hp with rfl | ⟨t, rfl, ht⟩
    · exact le_refl _
    · rw [List.count_cons_of_ne (by decide), List.count_cons_self]
      rcases prefix_append_cases ht with ht | ⟨q, hq, rfl⟩
      · exact Nat.le_succ_of_le (ha.opened t ht)
      · have hlast : q.count '}' ≤ 1 := hq.sublist.count_le '}'
        rw [List.count_append, List.count_append]
        omega
  · rw [List.count_cons_self, List.count_cons_of_ne (by decide), List.count_append, List.count_append, hclosed]
    rfl

/-! ## Pieces of text wherever they stand -/

/-- Wherever the lines stand, the preprocessor leaves `ks` of them, or nothing if they are not compiled at all. -/
def Leaves (on : List Char → Bool) (ls ks : List String) : Prop :=
  ∀ fs rest, keptFrom on fs (ls ++ rest) =
    (keptFrom on fs rest).map fun kept => (if fs.all Frame.active then ks else []) ++ kept

variable {on : List Char → Bool}

theorem leaves_nil : Leaves on [] [] := by
  intro fs rest
  simp

theorem Leaves.append {js : List String} (hl : Leaves on ls ks) (hm : Leaves on ms js) :
    Leaves on (ls ++ ms) (ks ++ js) := by
  intro fs rest
  rw [List.append_assoc, hl, hm, Option.map_map]
  congr 1
  funext kept
  by_cases hactive : fs.all Frame.active = true
  · simp [hactive]
  · simp [hactive]

theorem leaves_line {line : String} (h : conditional? line = none) : Leaves on [line] [line] := by
  intro fs rest
  rw [List.singleton_append, keptFrom, h]
  by_cases hactive : fs.all Frame.active = true
  · simp [hactive]
  · simp [hactive]

theorem Leaves.part (ho : conditional? o = some (.opening test wanted)) (hc : conditional? c = some .closing)
    (h : Leaves on ls ks) : Leaves on (o :: ls ++ [c]) (if on test == wanted then ks else []) := by
  intro fs rest
  rw [List.cons_append, List.cons_append, List.append_assoc, List.singleton_append, keptFrom, ho]
  simp only [advance, Option.bind_some]
  rw [h, keptFrom, hc]
  simp only [advance, Option.bind_some, List.all_cons]
  congr 1
  funext kept
  cases on test == wanted <;> simp

theorem Leaves.choice {m : String} (ho : conditional? o = some (.opening test wanted))
    (hm : conditional? m = some .middle) (hc : conditional? c = some .closing) {js : List String}
    (hl : Leaves on ls ks) (hms : Leaves on ms js) :
    Leaves on (o :: ls ++ m :: ms ++ [c]) (if on test == wanted then ks else js) := by
  intro fs rest
  simp only [List.cons_append, List.append_assoc, List.nil_append]
  rw [keptFrom, ho]
  simp only [advance, Option.bind_some]
  rw [hl, keptFrom, hm]
  simp only [advance, Option.bind_some]
  rw [hms, keptFrom, hc]
  simp only [advance, Option.bind_some, List.all_cons, Option.map_map]
  congr 1
  funext kept
  cases on test == wanted <;> simp

theorem Leaves.keptFrom (h : Leaves on ls ks) : keptFrom on [] ls = some ks := by
  have hrun := h [] []
  simpa [Text.keptFrom] using hrun

/-! ## Sound lines -/

/-- The lines hold no line feeds, their directives are nested, and what is left of them has its braces in balance. -/
structure Sound (ls : List String) : Prop where
  lines : ∀ l ∈ ls, '\n' ∉ l.toList
  leaves : ∀ on, ∃ ks, Leaves on ls ks ∧ Balanced (ks.flatMap String.toList)

theorem sound_nil : Sound [] := ⟨List.forall_mem_nil _, fun _ => ⟨[], leaves_nil, by decide⟩⟩

theorem Sound.append (hl : Sound ls) (hm : Sound ms) : Sound (ls ++ ms) := by
  refine ⟨List.forall_mem_append.mpr ⟨hl.lines, hm.lines⟩, fun on => ?_⟩
  obtain ⟨ks, hks, hkb⟩ := hl.leaves on
  obtain ⟨js, hjs, hjb⟩ := hm.leaves on
  refine ⟨ks ++ js, hks.append hjs, ?_⟩
  rw [List.flatMap_append]
  exact hkb.append hjb

theorem Sound.part (ho : conditional? o = some (.opening test wanted)) (hol : '\n' ∉ o.toList)
    (hc : conditional? c = some .closing) (hcl : '\n' ∉ c.toList) (h : Sound ls) : Sound (o :: ls ++ [c]) := by
  refine ⟨?_, fun on => ?_⟩
  · rw [List.forall_mem_append, List.forall_mem_cons, List.forall_mem_singleton]
    exact ⟨⟨hol, h.lines⟩, hcl⟩
  · obtain ⟨ks, hks, hb⟩ := h.leaves on
    refine ⟨_, hks.part ho hc, ?_⟩
    split
    · exact hb
    · decide

theorem Sound.choice {m : String} (ho : conditional? o = some (.opening test wanted)) (hol : '\n' ∉ o.toList)
    (hm : conditional? m = some .middle) (hml : '\n' ∉ m.toList) (hc : conditional? c = some .closing)
    (hcl : '\n' ∉ c.toList) (hls : Sound ls) (hms : Sound ms) : Sound (o :: ls ++ m :: ms ++ [c]) := by
  refine ⟨?_, fun on => ?_⟩
  · rw [List.forall_mem_append, List.forall_mem_append, List.forall_mem_cons, List.forall_mem_cons,
      List.forall_mem_singleton]
    exact ⟨⟨⟨hol, hls.lines⟩, hml, hms.lines⟩, hcl⟩
  · obtain ⟨ks, hks, hkb⟩ := hls.leaves on
    obtain ⟨js, hjs, hjb⟩ := hms.leaves on
    refine ⟨_, hks.choice ho hm hc hjs, ?_⟩
    split
    · exact hkb
    · exact hjb

/-- A line that is no conditional directive and closes the braces that it opens. -/
structure Whole (t : String) : Prop where
  line : '\n' ∉ t.toList
  plain : conditional? t = none
  braces : Balanced t.toList

theorem dropWhile_tabs (n : Nat) (cs : List Char) :
    (List.replicate n '\t' ++ cs).dropWhile isMargin = cs.dropWhile isMargin := by
  rw [List.dropWhile_append_of_pos]
  intro c hc
  rw [List.eq_of_mem_replicate hc]
  decide

theorem conditional?_indent (t : String) : conditional? (indent level t) = conditional? t := by
  obtain ⟨n, hn⟩ := toList_indent level t
  rw [conditional?, conditional?, hn, conditionalIn?, conditionalIn?, dropWhile_tabs]

theorem not_mem_indent (h : '\n' ∉ t.toList) : '\n' ∉ (indent level t).toList := by
  intro hmem
  rcases mem_indent hmem with htab | hmem
  · cases htab
  · exact h hmem

theorem balanced_tabs (n : Nat) : Balanced (List.replicate n '\t') := by
  apply balanced_of_not_mem <;>
  · intro hmem
    cases List.eq_of_mem_replicate hmem

theorem balanced_indent (h : Balanced t.toList) : Balanced (indent level t).toList := by
  obtain ⟨n, hn⟩ := toList_indent level t
  rw [hn]
  exact (balanced_tabs n).append h

theorem Whole.indent (h : Whole t) (level : Int) : Whole (indent level t) :=
  ⟨not_mem_indent level h.line, (conditional?_indent level t).trans h.plain, balanced_indent level h.braces⟩

theorem Whole.sound (h : Whole t) : Sound [t] := by
  refine ⟨List.forall_mem_singleton.mpr h.line, fun on => ⟨[t], leaves_line h.plain, ?_⟩⟩
  rw [List.flatMap_singleton]
  exact h.braces

theorem sound_of_whole {ts : List String} (h : ∀ t ∈ ts, Whole t) : Sound ts := by
  induction ts with
  | nil => exact sound_nil
  | cons t ts ih =>
    obtain ⟨ht, hts⟩ := List.forall_mem_cons.mp h
    exact ht.sound.append (ih hts)

theorem whole_of_avoids (h : Code.Avoids Code.lineMarks t) : Whole t := by
  have hmark (c : Char) (hc : c ∈ Code.lineMarks) : c ∉ t.toList := fun hmem => h c hmem hc
  refine ⟨hmark _ (by decide), ?_, balanced_of_not_mem (hmark _ (by decide)) (hmark _ (by decide))⟩
  unfold conditional? conditionalIn?
  split
  · rename_i cs hcs
    have hmem : '#' ∈ t.toList.dropWhile isMargin := hcs ▸ List.mem_cons_self
    exact absurd ((List.dropWhile_sublist _).subset hmem) (hmark _ (by decide))
  · rfl

theorem balanced_braced (h : Balanced (ls.flatMap String.toList)) :
    Balanced ((indent level "\x7b" :: ls ++ [indent level "\x7d"]).flatMap String.toList) := by
  obtain ⟨n, hopen⟩ := toList_indent level "\x7b"
  obtain ⟨m, hclose⟩ := toList_indent level "\x7d"
  have htext : (indent level "\x7b" :: ls ++ [indent level "\x7d"]).flatMap String.toList =
      List.replicate n '\t' ++ '{' :: ((ls.flatMap String.toList ++ List.replicate m '\t') ++ ['}']) := by
    simp only [List.flatMap_append, List.flatMap_cons, List.flatMap_nil, List.append_nil, hopen, hclose,
      List.append_assoc]
    rfl
  rw [htext]
  exact (balanced_tabs n).append (h.append (balanced_tabs m)).wrap

theorem leaves_indent (h : conditional? t = none) : Leaves on [indent level t] [indent level t] :=
  leaves_line ((conditional?_indent level t).trans h)

theorem Sound.braced (h : Sound ls) (level : Int) :
    Sound (Text.indent level "\x7b" :: ls ++ [Text.indent level "\x7d"]) := by
  refine ⟨?_, fun on => ?_⟩
  · rw [List.forall_mem_append, List.forall_mem_cons, List.forall_mem_singleton]
    exact ⟨⟨not_mem_indent level (by decide), h.lines⟩, not_mem_indent level (by decide)⟩
  · obtain ⟨ks, hks, hb⟩ := h.leaves on
    exact ⟨_, ((leaves_indent level (by decide)).append hks).append (leaves_indent level (by decide)),
      balanced_braced level hb⟩

theorem sound_watched (ho : conditional? o = some (.opening test wanted)) (hol : '\n' ∉ o.toList)
    (hc : conditional? c = some .closing) (hcl : '\n' ∉ c.toList) (level : Int) (ht : Whole t) {ts : List String}
    (hts : ∀ u ∈ ts, Whole u) :
    Sound ([indent level o, indent level "\x7b", indent level c] ++ [t] ++
      (indent (level + 1) o :: (ts ++ [indent level "\x7d"]) ++ [indent level c])) := by
  have hopen (k : Int) : conditional? (indent k o) = some (.opening test wanted) := (conditional?_indent k o).trans ho
  have hclose : conditional? (indent level c) = some .closing := (conditional?_indent level c).trans hc
  have hstored := sound_of_whole hts
  refine ⟨?_, fun on => ?_⟩
  · have hleft : '\n' ∉ (indent level "\x7b").toList := not_mem_indent level (by decide)
    have hright : '\n' ∉ (indent level "\x7d").toList := not_mem_indent level (by decide)
    have hends := And.intro (not_mem_indent level hol) (not_mem_indent level hcl)
    simp only [List.forall_mem_append, List.forall_mem_cons]
    exact ⟨⟨⟨hends.1, hleft, hends.2, List.forall_mem_nil _⟩, ht.line, List.forall_mem_nil _⟩,
      ⟨not_mem_indent _ hol, hstored.lines, hright, List.forall_mem_nil _⟩, hends.2, List.forall_mem_nil _⟩
  · obtain ⟨ks, hks, hb⟩ := hstored.leaves on
    have hbegin : Leaves on ([indent level o, indent level "\x7b", indent level c]) _ :=
      (leaves_indent level (by decide)).part (hopen level) hclose
    have hright : Leaves on [indent level "\x7d"] [indent level "\x7d"] := leaves_indent level (by decide)
    have hend := (hks.append hright).part (hopen (level + 1)) hclose
    refine ⟨_, (hbegin.append (leaves_line ht.plain)).append hend, ?_⟩
    cases on test == wanted with
    | true =>
      have hinner : Balanced ((t :: ks).flatMap String.toList) := by
        rw [List.flatMap_cons]
        exact ht.braces.append hb
      have hall := balanced_braced level hinner
      simpa using hall
    | false => simpa using ht.braces

end Text

open Code Text

/-! ## Trees and pieces -/

def SoundAll (is : List Instr) : Prop := ∀ level, Sound (Instr.linesAllAt level is)

theorem soundAll_nil : SoundAll [] := fun _ => sound_nil

theorem SoundAll.append {js : List Instr} (hi : SoundAll is) (hj : SoundAll js) : SoundAll (is ++ js) := by
  intro level
  rw [Instr.linesAllAt_append]
  exact (hi level).append (hj level)

theorem soundAll_line {t : String} (h : Whole t) : SoundAll [.line t] := fun level => (h.indent level).sound

theorem soundAll_blank (n : Int) : SoundAll [.blank n] := by
  intro level
  refine sound_of_whole ?_
  intro t ht
  rw [Instr.linesAllAt, Instr.linesAllAt, List.append_nil] at ht
  rw [List.eq_of_mem_replicate ht]
  exact whole_of_avoids nofun

theorem SoundAll.indented (h : SoundAll is) (levels : Int) : SoundAll [.indented levels is] := by
  intro level
  rw [Instr.linesAllAt, Instr.linesAllAt, List.append_nil]
  exact h (level + levels)

theorem SoundAll.block {header : String} (hh : Whole header) (h : SoundAll is) : SoundAll [.block header is] := by
  intro level
  have hlines : Instr.linesAllAt level [.block header is] = (if header.isEmpty then [] else [indent level header]) ++
      (indent level "\x7b" :: Instr.linesAllAt (level + 1) is ++ [indent level "\x7d"]) := by
    rw [Instr.linesAllAt, Instr.linesAllAt, List.append_nil, Instr.linesAt, List.append_assoc]
  rw [hlines]
  refine Sound.append ?_ ((h (level + 1)).braced level)
  split
  · exact sound_nil
  · exact (hh.indent level).sound

namespace Code

variable {cs : List Char}

theorem sound_beginSimulated : conditional? beginSimulated = some (.opening "_HLS_RUN".toList false) ∧
    '\n' ∉ beginSimulated.toList ∧ conditional? endSimulated = some .closing ∧ '\n' ∉ endSimulated.toList := by
  decide

theorem whole_stmt {st : Stmt} (h : st.Clean) : Whole st.text := whole_of_avoids (avoids_lineMarks h)

theorem soundAll_watched {st : Stmt} (h : st.Clean) {stored : List Stmt} (hs : ∀ u ∈ stored, u.Clean) :
    SoundAll (Tree.instrs (.watched st stored)) := by
  obtain ⟨ho, hol, hc, hcl⟩ := sound_beginSimulated
  intro level
  have hstored : ∀ t ∈ (stored.map Stmt.text).map (indent (level + 1)), Whole t := by
    rw [List.forall_mem_map, List.forall_mem_map]
    exact fun u hu => (whole_stmt (hs u hu)).indent (level + 1)
  have hall := sound_watched ho hol hc hcl level ((whole_stmt h).indent (level + 1)) hstored
  simpa [Tree.instrs, Instr.linesAllAt, Instr.linesAt] using hall

mutual

theorem Tree.sound : ∀ t : Tree, Tidy [t] → SoundAll t.instrs
  | .stmt st, h => soundAll_line (whole_stmt (h.stmts st (by simp [stmtsAll, Tree.stmts])))
  | .blank, _ => soundAll_blank 1
  | .loop hd layout body, h => by
    obtain ⟨hstmts, hlabels⟩ := h
    simp only [stmtsAll, Tree.stmts, List.append_nil] at hstmts
    simp only [labelsAll, Tree.labels, List.append_nil, List.forall_mem_append, Option.mem_toList] at hlabels
    have hhead : Avoids lineMarks hd.text := avoids_head hlabels.1
    have hbody (hne : layout ≠ .sameLine) : SoundAll (instrsAll body) :=
      Tree.sound_all body ⟨hstmts, by simpa [hne] using hlabels.2⟩
    cases layout with
    | sameLine => exact soundAll_line (whole_of_avoids (hhead.glue (by decide) (avoids_inline hstmts)))
    | deeper => exact (soundAll_line (whole_of_avoids hhead)).append ((hbody (by decide)).indented 1)
    | braced => exact (hbody (by decide)).block (whole_of_avoids hhead)
    | flush => exact (soundAll_line (whole_of_avoids hhead)).append (hbody (by decide))
  | .choose b inside outside, h => by
    have hstmts := h.stmts
    simp only [stmtsAll, Tree.stmts, List.append_nil, List.forall_mem_cons] at hstmts
    have hline (st : Stmt) (hst : st.Clean) : SoundAll [.indented 1 [.line st.text]] :=
      (soundAll_line (whole_stmt hst)).indented 1
    have hif := (soundAll_line (whole_of_avoids (avoids_bounds b).lines)).append (hline inside hstmts.1)
    refine hif.append ?_
    cases outside with
    | none => exact soundAll_nil
    | some st =>
      have helse : Avoids lineMarks "else" := avoids_literal (by decide)
      exact (soundAll_line (whole_of_avoids helse)).append (hline st (hstmts.2 st (by simp)))
  | .simulated body, h => by
    obtain ⟨ho, hol, hc, hcl⟩ := sound_beginSimulated
    obtain ⟨hstmts, hlabels⟩ := h
    simp only [stmtsAll, Tree.stmts, List.append_nil] at hstmts
    simp only [labelsAll, Tree.labels, List.append_nil] at hlabels
    intro level
    have hpart := (Tree.sound_all body ⟨hstmts, hlabels⟩ level).part ((conditional?_indent level _).trans ho)
      (not_mem_indent level hol) ((conditional?_indent level _).trans hc) (not_mem_indent level hcl)
    simpa [Tree.instrs, Instr.linesAllAt, Instr.linesAt] using hpart
  | .watched st stored, h => by
    have hstmts := h.stmts
    simp only [stmtsAll, Tree.stmts, List.append_nil, List.forall_mem_cons] at hstmts
    exact soundAll_watched hstmts.1 hstmts.2

theorem Tree.sound_all : ∀ ts : List Tree, Tidy ts → SoundAll (instrsAll ts)
  | [], _ => soundAll_nil
  | t :: ts, h => (Tree.sound t (tidy_cons.mp h).1).append (Tree.sound_all ts (tidy_cons.mp h).2)

end

/-- The characters that a line of a file must not be broken or left open by. -/
def breakMarks : List Char := ['{', '}', '\n']

theorem Avoids.breaks {s : String} (h : Avoids codeMarks s) : Avoids breakMarks s := h.mono (by decide)

theorem whole_literal (h : (cs.all fun c => !breakMarks.contains c) = true) (hc : conditionalIn? cs = none) :
    Whole (String.ofList cs) := by
  have hmarks : Avoids breakMarks (String.ofList cs) := avoids_literal h
  have hnot (c : Char) (hc : c ∈ breakMarks) : c ∉ (String.ofList cs).toList := fun hmem => hmarks c hmem hc
  refine ⟨hnot _ (by decide), ?_, balanced_of_not_mem (hnot _ (by decide)) (hnot _ (by decide))⟩
  rw [conditional?, String.toList_ofList]
  exact hc

theorem whole_begin (h : (cs.all fun c => !breakMarks.contains c) = true)
    (hc : ∀ more, conditionalIn? (cs ++ more) = none) {t : String} (hline : '\n' ∉ t.toList)
    (hbraces : Balanced t.toList) : Whole (String.ofList cs ++ t) := by
  have hnot (c : Char) (hc : c ∈ breakMarks) : c ∉ cs := fun hmem => by simpa [hc] using List.all_eq_true.mp h c hmem
  have htext : (String.ofList cs ++ t).toList = cs ++ t.toList := by rw [String.toList_append, String.toList_ofList]
  constructor
  · rw [htext, List.mem_append]
    exact not_or.mpr ⟨hnot _ (by decide), hline⟩
  · rw [conditional?, htext]
    exact hc t.toList
  · rw [htext]
    exact (balanced_of_not_mem (hnot _ (by decide)) (hnot _ (by decide))).append hbraces

theorem whole_start (h : (cs.all fun c => !breakMarks.contains c) = true)
    (hc : ∀ more, conditionalIn? (cs ++ more) = none) {t : String} (ht : Avoids breakMarks t) :
    Whole (String.ofList cs ++ t) := by
  have hnot (c : Char) (hc : c ∈ breakMarks) : c ∉ t.toList := fun hmem => ht c hmem hc
  exact whole_begin h hc (hnot _ (by decide)) (balanced_of_not_mem (hnot _ (by decide)) (hnot _ (by decide)))

namespace Guard

variable (g : Guard)

theorem conditional?_opening : ∃ test wanted, conditional? g.opening = some (.opening test wanted) := by
  unfold opening conditional?
  cases g.defined with
  | true =>
    rw [if_pos rfl, String.toList_append]
    exact ⟨_, _, rfl⟩
  | false =>
    rw [if_neg (by decide), String.toList_append]
    exact ⟨_, _, rfl⟩

theorem conditional?_middle : conditional? g.middle = some .middle := by
  unfold middle conditional?
  split
  · rw [String.toList_append]
    rfl
  · rfl

theorem conditional?_closing : conditional? g.closing = some .closing := by
  unfold closing conditional?
  split
  · rw [String.toList_append]
    rfl
  · rfl

theorem lines_of_name {g : Guard} (h : '\n' ∉ g.name.toList) :
    '\n' ∉ g.opening.toList ∧ '\n' ∉ g.middle.toList ∧ '\n' ∉ g.closing.toList := by
  have happend (a : String) (ha : '\n' ∉ a.toList) : '\n' ∉ (a ++ g.name).toList := by
    rw [String.toList_append, List.mem_append]
    exact not_or.mpr ⟨ha, h⟩
  refine ⟨happend _ ?_, ?_, ?_⟩
  · split <;> decide
  · unfold middle
    split
    · exact happend _ (by decide)
    · decide
  · unfold closing
    split
    · exact happend _ (by decide)
    · decide

end Guard

mutual

/-- The lines of a piece are whole, and so are the names of its conditions. -/
def Piece.Tidy : Piece → Prop
  | .line l => Whole l.text
  | .blank _ => True
  | .function header body => Whole header ∧ Whole body
  | .guarded g body => '\n' ∉ g.name.toList ∧ Piece.AllTidy body
  | .guardedElse g body otherwise => '\n' ∉ g.name.toList ∧ Piece.AllTidy body ∧ Piece.AllTidy otherwise

def Piece.AllTidy : List Piece → Prop
  | [] => True
  | p :: ps => p.Tidy ∧ Piece.AllTidy ps

end

@[simp] theorem Piece.allTidy_append {ps qs : List Piece} :
    Piece.AllTidy (ps ++ qs) ↔ Piece.AllTidy ps ∧ Piece.AllTidy qs := by
  induction ps with
  | nil => simp [Piece.AllTidy]
  | cons p ps ih => rw [List.cons_append, Piece.AllTidy, Piece.AllTidy, ih, and_assoc]

theorem Piece.allTidy_iff {ps : List Piece} : Piece.AllTidy ps ↔ ∀ p ∈ ps, p.Tidy := by
  induction ps with
  | nil => simp [Piece.AllTidy]
  | cons p ps ih => rw [Piece.AllTidy, ih, List.forall_mem_cons]

theorem Piece.allTidy_plainLines {ts : List String} : Piece.AllTidy (plainLines ts) ↔ ∀ t ∈ ts, Whole t := by
  rw [Piece.allTidy_iff, plainLines, List.forall_mem_map]
  rfl

mutual

theorem Piece.sound : ∀ p : Piece, p.Tidy → SoundAll p.instrs
  | .line _, h => soundAll_line h
  | .blank n, _ => soundAll_blank n
  | .function _ _, h => (soundAll_line h.2).block h.1
  | .guarded g body, h => by
    obtain ⟨hol, -, hcl⟩ := Guard.lines_of_name h.1
    obtain ⟨test, wanted, ho⟩ := g.conditional?_opening
    intro level
    have hpart := (Piece.sound_all body h.2 level).part ((conditional?_indent level _).trans ho)
      (not_mem_indent level hol) ((conditional?_indent level _).trans g.conditional?_closing) (not_mem_indent level hcl)
    simpa [Piece.instrs, Instr.linesAllAt, Instr.linesAt] using hpart
  | .guardedElse g body otherwise, h => by
    obtain ⟨hol, hml, hcl⟩ := Guard.lines_of_name h.1
    obtain ⟨test, wanted, ho⟩ := g.conditional?_opening
    intro level
    have hchoice := Sound.choice ((conditional?_indent level _).trans ho) (not_mem_indent level hol)
      ((conditional?_indent level _).trans g.conditional?_middle) (not_mem_indent level hml)
      ((conditional?_indent level _).trans g.conditional?_closing) (not_mem_indent level hcl)
      (Piece.sound_all body h.2.1 level) (Piece.sound_all otherwise h.2.2 level)
    simpa [Piece.instrs, Instr.linesAllAt, Instr.linesAt] using hchoice

theorem Piece.sound_all : ∀ ps : List Piece, Piece.AllTidy ps → SoundAll (piecesInstrs ps)
  | [], _ => soundAll_nil
  | p :: ps, h => (Piece.sound p h.1).append (Piece.sound_all ps h.2)

end

end Code
end LayerLoops
