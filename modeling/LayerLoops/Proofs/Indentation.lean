import LayerLoops.Proofs.Lines

/-! # The indentation of a listing

Whatever instructions write, and wherever a stop leaves them, they only add lines to a listing and give back the level
that they were given. A block that comes to its end stands between two braces at its own level, and what is written
inside it stands deeper, as long as no instruction in it reaches outwards. -/

namespace LayerLoops

open Text

namespace Text

/-- The line is empty or begins with the tabs of a level. -/
def Deep (level : Int) (line : String) : Prop := line = "" ∨ List.replicate level.toNat '\t' <+: line.toList

theorem deep_indent (level : Int) (t : String) : Deep level (indent level t) := by
  unfold indent
  split
  · exact .inl rfl
  · right
    rw [String.toList_append, toList_tabs]
    exact List.prefix_append _ _

theorem Deep.mono {low high : Int} (h : low ≤ high) {line : String} (hline : Deep high line) : Deep low line := by
  refine hline.imp_right fun hdeep => ?_
  obtain ⟨more, hmore⟩ := Nat.exists_eq_add_of_le (Int.toNat_le_toNat h)
  rw [hmore, List.replicate_add] at hdeep
  exact (List.prefix_append _ _).trans hdeep

theorem deep_headersAt (level : Int) (headers : List String) : ∀ t ∈ headersAt level headers, Deep level t := by
  induction headers generalizing level with
  | nil => exact List.forall_mem_nil _
  | cons h hs ih =>
    refine List.forall_mem_cons.mpr ⟨deep_indent level h, fun t ht => ?_⟩
    exact (ih (level + 1) t ht).mono (Int.le_add_one (Int.le_refl level))

end Text

/-! ## Bodies -/

namespace Instr

variable (l : Listing) (i : Instr)

/-- The instructions that an instruction encloses. -/
def body : Instr → List Instr
  | .block _ body | .indented _ body | .nested _ body | .attempt body => body
  | _ => []

/-- The listing that the enclosed instructions start from: the instruction's own lines are written. -/
def enter (l : Listing) : Instr → Listing
  | .line text => l.put text
  | .extend texts => l.putAll texts
  | .blank count => l.skip count
  | .block header _ => ((if header.isEmpty then l else l.put header).put "\x7b").shift 1
  | .indented levels _ => l.shift levels
  | .nested headers _ => l.descend headers
  | .stop | .attempt _ => l

def depth : Instr → Int
  | .block .. => 1
  | .indented levels _ => levels
  | .nested headers _ => headers.length
  | .line _ | .extend _ | .blank _ | .stop | .attempt _ => 0

def openingAt (level : Int) : Instr → List String
  | .line text => [indent level text]
  | .extend texts => texts.map (indent level)
  | .blank count => List.replicate count.toNat ""
  | .block header _ => (if header.isEmpty then [] else [indent level header]) ++ [indent level "\x7b"]
  | .nested headers _ => headersAt level headers
  | .indented .. | .stop | .attempt _ => []

def closingAt (level : Int) (stopped : Bool) : Instr → List String
  | .block .. => if stopped then [] else [indent level "\x7d"]
  | _ => []

theorem enter_eq : i.enter l = (l.shift i.depth).extend (i.openingAt l.level) := by
  have hstay : l.shift 0 = l := by simp only [Listing.shift, Int.add_zero]
  cases i with
  | block header body =>
    simp only [enter, depth, openingAt]
    split
    · rfl
    · rw [Listing.put_eq, Listing.put_eq, Listing.extend_extend, Listing.shift_extend]
      rfl
  | nested headers body => exact Listing.descend_eq l headers
  | indented levels body => rfl
  | line text => rw [enter, depth, hstay, Listing.put_eq, openingAt]
  | extend texts => rw [enter, depth, hstay, Listing.putAll_eq, openingAt]
  | blank count => rw [enter, depth, hstay, Listing.skip_eq, openingAt]
  | stop | attempt body => exact hstay.symm

theorem run_listing {inner : Written} (h : Instr.runAll (i.enter l) i.body = inner) :
    (i.run l).listing = (inner.listing.shift (-i.depth)).extend
      (i.closingAt (inner.listing.shift (-i.depth)).level inner.stopped) := by
  have hstay (m : Listing) : m = (m.shift (-0)).extend [] := by simp [Listing.shift, Listing.extend]
  cases i with
  | block header body =>
    simp only [Instr.body, enter] at h
    simp only [Instr.run, h, depth, closingAt]
    cases inner.stopped <;> rfl
  | indented levels body =>
    simp only [Instr.body, enter] at h
    simp only [Instr.run, h]
    rfl
  | nested headers body =>
    simp only [Instr.body, enter] at h
    simp only [Instr.run, h]
    rfl
  | attempt body =>
    simp only [Instr.body, enter] at h
    simp only [Instr.run, h]
    exact hstay _
  | line | extend | blank | stop =>
    subst h
    exact hstay _

theorem run_surrounds {inner : List String} (h : (Instr.runAll (i.enter l) i.body).listing = (i.enter l).extend inner) :
    (i.run l).listing = l.extend (i.openingAt l.level ++ inner ++
      i.closingAt l.level (Instr.runAll (i.enter l) i.body).stopped) := by
  have hleave : (Instr.runAll (i.enter l) i.body).listing.shift (-i.depth) =
      l.extend (i.openingAt l.level ++ inner) := by
    rw [h, enter_eq, Listing.extend_extend, Listing.shift_extend, Listing.shift_shift]
  rw [run_listing l i rfl, hleave, Listing.extend_extend]
  rfl

theorem level_enter : (i.enter l).level = l.level + i.depth := by
  rw [enter_eq]
  rfl

theorem sizeOf_body_le : sizeOf i.body ≤ sizeOf i := by
  cases i <;> simp [body]

theorem deep_openingAt (level : Int) (i : Instr) : ∀ t ∈ i.openingAt level, Deep level t := by
  cases i with
  | line text => exact List.forall_mem_singleton.mpr (deep_indent level text)
  | extend texts => exact List.forall_mem_map.mpr fun t _ => deep_indent level t
  | blank count => exact fun t ht => .inl (List.eq_of_mem_replicate ht)
  | block header body =>
    rw [openingAt, List.forall_mem_append, List.forall_mem_singleton]
    refine ⟨?_, deep_indent level _⟩
    split
    · exact List.forall_mem_nil _
    · exact List.forall_mem_singleton.mpr (deep_indent level header)
  | nested headers body => exact deep_headersAt level headers
  | indented | stop | attempt => exact List.forall_mem_nil _

theorem deep_closingAt (level : Int) (stopped : Bool) (i : Instr) : ∀ t ∈ i.closingAt level stopped, Deep level t := by
  cases i with
  | block header body =>
    cases stopped with
    | true => exact List.forall_mem_nil _
    | false => exact List.forall_mem_singleton.mpr (deep_indent level _)
  | line | extend | blank | indented | nested | stop | attempt => exact List.forall_mem_nil _

mutual

def isInward : Instr → Bool
  | .indented levels body => 0 ≤ levels && allInward body
  | .block _ body | .nested _ body | .attempt body => allInward body
  | .line _ | .extend _ | .blank _ | .stop => true

def allInward : List Instr → Bool
  | [] => true
  | i :: is => i.isInward && allInward is

end

theorem inward_body {i : Instr} (h : i.isInward = true) : 0 ≤ i.depth ∧ allInward i.body = true := by
  cases i with
  | indented levels body =>
    obtain ⟨hlevels, hbody⟩ := Bool.and_eq_true_iff.mp h
    exact ⟨of_decide_eq_true hlevels, hbody⟩
  | block header body => exact ⟨Int.one_nonneg, h⟩
  | nested headers body => exact ⟨Int.natCast_nonneg _, h⟩
  | attempt body => exact ⟨Int.le_refl 0, h⟩
  | line | extend | blank | stop => exact ⟨Int.le_refl 0, rfl⟩

/-! ## Runs -/

theorem runAll_cons (is : List Instr) :
    Instr.runAll l (i :: is) = if (i.run l).stopped then i.run l else Instr.runAll (i.run l).listing is := rfl

-- A stop may leave an instruction at any depth, so both statements are about whatever was written until then.
mutual

theorem run_adds (l : Listing) (i : Instr) : ∃ lines, (i.run l).listing = l.extend lines ∧
    (i.isInward = true → ∀ t ∈ lines, Deep l.level t) := by
  obtain ⟨inner, hinner, hdeep⟩ := runAll_adds (i.enter l) i.body
  refine ⟨_, run_surrounds l i hinner, fun hi => ?_⟩
  obtain ⟨hdepth, hbody⟩ := inward_body hi
  have hlevel := level_enter l i
  rw [List.forall_mem_append, List.forall_mem_append]
  refine ⟨⟨deep_openingAt l.level i, fun t ht => ?_⟩, deep_closingAt l.level _ i⟩
  exact (hdeep hbody t ht).mono (by omega)
termination_by 2 * sizeOf i + 1
decreasing_by exact Nat.lt_succ_of_le (Nat.mul_le_mul_left 2 (sizeOf_body_le i))

theorem runAll_adds (l : Listing) (is : List Instr) : ∃ lines, (Instr.runAll l is).listing = l.extend lines ∧
    (allInward is = true → ∀ t ∈ lines, Deep l.level t) := by
  match is with
  | [] => exact ⟨[], rfl, fun _ => List.forall_mem_nil _⟩
  | i :: is =>
    obtain ⟨first, hfirst, hi⟩ := run_adds l i
    rw [runAll_cons]
    split
    · exact ⟨first, hfirst, fun h => hi (Bool.and_eq_true_iff.mp h).1⟩
    · obtain ⟨rest, hrest, his⟩ := runAll_adds (i.run l).listing is
      rw [hfirst] at hrest his
      refine ⟨first ++ rest, ?_, fun h => ?_⟩
      · rw [hfirst, hrest, Listing.extend_extend]
      · obtain ⟨hinward, hall⟩ := Bool.and_eq_true_iff.mp h
        exact List.forall_mem_append.mpr ⟨hi hinward, his hall⟩
termination_by 2 * sizeOf is

end

/-- While instructions are carried out from one listing, an instruction is carried out from another one. -/
inductive Visits : Listing → List Instr → Listing → Instr → Prop
  | first {l : Listing} {i : Instr} {is : List Instr} : Visits l (i :: is) l i
  | later {l m : Listing} {i j : Instr} {is : List Instr} :
      (i.run l).stopped = false → Visits (i.run l).listing is m j → Visits l (i :: is) m j
  | within {l m : Listing} {i j : Instr} {is : List Instr} : Visits (i.enter l) i.body m j → Visits l (i :: is) m j

end Instr

namespace Listing

variable (l : Listing) (i : Instr) (is : List Instr)

theorem lines_extend (more : List String) : (l.extend more).lines = l.lines ++ more := by
  simp [lines, extend]

theorem prefix_extend (more : List String) : l.lines <+: (l.extend more).lines := by
  rw [lines_extend]
  exact List.prefix_append _ _

theorem level_run : (i.run l).listing.level = l.level := by
  obtain ⟨lines, hlines, -⟩ := Instr.run_adds l i
  rw [hlines]
  rfl

theorem level_runAll : (Instr.runAll l is).listing.level = l.level := by
  obtain ⟨lines, hlines, -⟩ := Instr.runAll_adds l is
  rw [hlines]
  rfl

theorem prefix_run : l.lines <+: (i.run l).listing.lines := by
  obtain ⟨lines, hlines, -⟩ := Instr.run_adds l i
  rw [hlines]
  exact prefix_extend l lines

theorem prefix_runAll : l.lines <+: (Instr.runAll l is).listing.lines := by
  obtain ⟨lines, hlines, -⟩ := Instr.runAll_adds l is
  rw [hlines]
  exact prefix_extend l lines

theorem prefix_enter : l.lines <+: (i.enter l).lines := by
  rw [Instr.enter_eq]
  exact prefix_extend (l.shift i.depth) _

theorem prefix_leave : (Instr.runAll (i.enter l) i.body).listing.lines <+: (i.run l).listing.lines := by
  rw [Instr.run_listing l i rfl]
  exact prefix_extend ((Instr.runAll (i.enter l) i.body).listing.shift (-i.depth)) _

theorem prefix_cons : (i.run l).listing.lines <+: (Instr.runAll l (i :: is)).listing.lines := by
  rw [Instr.runAll_cons]
  split
  · exact List.prefix_refl _
  · exact prefix_runAll (i.run l).listing is

end Listing

namespace Instr

variable {l : Listing}

theorem Visits.lines {m : Listing} {is : List Instr} {i : Instr} (h : Visits l is m i) :
    l.lines <+: m.lines ∧ (i.run m).listing.lines <+: (Instr.runAll l is).listing.lines := by
  induction h with
  | first => exact ⟨List.prefix_refl _, Listing.prefix_cons _ _ _⟩
  | @later l m i j is hi _ ih =>
    rw [runAll_cons, hi]
    exact ⟨(Listing.prefix_run l i).trans ih.1, ih.2⟩
  | @within l m i j is _ ih =>
    refine ⟨(Listing.prefix_enter l i).trans ih.1, ?_⟩
    exact (ih.2.trans (Listing.prefix_leave l i)).trans (Listing.prefix_cons l i is)

theorem Visits.level_le {m : Listing} {is : List Instr} {i : Instr} (h : Visits l is m i) (his : allInward is = true) :
    l.level ≤ m.level := by
  induction h with
  | first => exact Int.le_refl _
  | @later l m i j is _ _ ih =>
    have hrest := ih (Bool.and_eq_true_iff.mp his).2
    rwa [l.level_run i] at hrest
  | @within l m i j is _ ih =>
    obtain ⟨hdepth, hbody⟩ := inward_body (Bool.and_eq_true_iff.mp his).1
    have hinner := ih hbody
    have hlevel := level_enter l i
    omega

theorem stopped_block (l : Listing) (header : String) (body : List Instr) :
    ((Instr.block header body).run l).stopped =
      (Instr.runAll ((Instr.block header body).enter l) body).stopped := by
  rw [Instr.run, enter]
  cases Instr.runAll (((if header.isEmpty then l else l.put header).put "\x7b").shift 1) body with
  | mk listing stopped => cases stopped <;> rfl

theorem run_block {header : String} {body : List Instr} (h : ((Instr.block header body).run l).stopped = false) :
    ∃ inner, (Instr.runAll ((Instr.block header body).enter l) body).listing.lines =
        ((Instr.block header body).enter l).lines ++ inner ∧
      ((Instr.block header body).run l).listing.lines = l.lines ++ ((if header.isEmpty then [] else
        [indent l.level header]) ++ indent l.level "\x7b" :: inner ++ [indent l.level "\x7d"]) ∧
      (allInward body = true → ∀ t ∈ inner, Deep (l.level + 1) t) := by
  obtain ⟨inner, hinner, hdeep⟩ := runAll_adds ((Instr.block header body).enter l) body
  have hclosing : (Instr.block header body).closingAt l.level
      (Instr.runAll ((Instr.block header body).enter l) body).stopped = [indent l.level "\x7d"] := by
    rw [← stopped_block, h]
    rfl
  refine ⟨inner, ?_, ?_, ?_⟩
  · rw [hinner, Listing.lines_extend]
  · have hlines := run_surrounds l (.block header body) hinner
    rw [Instr.body, hclosing] at hlines
    rw [hlines, Listing.lines_extend, openingAt, List.append_assoc _ [indent l.level "\x7b"] inner,
      List.singleton_append]
  · intro hbody t ht
    exact level_enter l (.block header body) ▸ hdeep hbody t ht

end Instr

/-- Instructions give back the level they were given, and leave the lines written before them as they are; so does each
instruction that is carried out on the way, at any depth, whether it comes to its end or a stop leaves it. A block that
comes to its end adds one opening and one closing brace at the level it started from, and what its body writes between
them. If that level is not negative and nothing in the body reaches outwards, each line between the braces is empty or
one tab deeper than they are, at least. -/
theorem listing_level_restored (l : Listing) (is : List Instr) :
    (Instr.runAll l is).listing.level = l.level ∧ l.lines <+: (Instr.runAll l is).listing.lines ∧
    ∀ m i, Instr.Visits l is m i →
      (i.run m).listing.level = m.level ∧ l.lines <+: m.lines ∧ m.lines <+: (i.run m).listing.lines ∧
      (i.run m).listing.lines <+: (Instr.runAll l is).listing.lines ∧
      (Instr.allInward is = true → l.level ≤ m.level) ∧
      ∀ header body, i = .block header body → (i.run m).stopped = false →
        ∃ inner, (Instr.runAll (i.enter m) body).listing.lines = (i.enter m).lines ++ inner ∧
          (i.run m).listing.lines = m.lines ++ ((if header.isEmpty then [] else [indent m.level header]) ++
            indent m.level "\x7b" :: inner ++ [indent m.level "\x7d"]) ∧
          (0 ≤ m.level → Instr.allInward body = true →
            ∀ t ∈ inner, t ≠ "" → List.replicate (m.level.toNat + 1) '\t' <+: t.toList) := by
  refine ⟨l.level_runAll is, l.prefix_runAll is, fun m i hvisit => ?_⟩
  refine ⟨m.level_run i, hvisit.lines.1, m.prefix_run i, hvisit.lines.2, hvisit.level_le, ?_⟩
  rintro header body rfl hdone
  obtain ⟨inner, hinner, hblock, hdeep⟩ := Instr.run_block hdone
  refine ⟨inner, hinner, hblock, fun hlevel hbody t ht hne => ?_⟩
  have htabs : (m.level + 1).toNat = m.level.toNat + 1 := by omega
  exact htabs ▸ (hdeep hbody t ht).resolve_left hne

/-- A stop leaves two loops and is caught; the block behind them stands at the margin. -/
example : (Instr.runAll {} [.attempt [.nested ["for", "for"] [.line "x", .stop, .line "y"]],
    .block "if" [.line "z", .indented 2 [.line "", .line "w"]]]).listing =
      ⟨["\x7d", "\t\t\tw", "", "\tz", "\x7b", "if", "\t\tx", "\tfor", "for"], 0⟩ := by
  decide +kernel

end LayerLoops
