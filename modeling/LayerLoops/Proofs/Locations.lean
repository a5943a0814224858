import LayerLoops.Proofs.Concatenation
import LayerLoops.Proofs.Positions

/-! # Locations

Every part of a document has a location. It is the place in the given lines where the part is written, from its first
character to the end of its last lexeme, whatever lines were skipped before and however many lines the statement takes. -/

namespace LayerLoops.Source

variable {c : Chunk} {lines rest : List String} {s : Statement} {us : List Statement}

/-! ## Parts of a statement -/

mutual

def Value.parts : Value → List Node
  | .tuple items l => .value (.tuple items l) :: partsOf items
  | v => [.value v]

def partsOf : List Value → List Node
  | [] => []
  | v :: vs => v.parts ++ partsOf vs

end

def Keyword.parts (k : Keyword) : List Node := .argument (.keyword k) :: k.value.parts

def Call.parts (c : Call) : List Node := .call c :: (partsOf c.args ++ c.kwargs.flatMap Keyword.parts)

/-- A statement, its call, and all keywords and values in it. -/
def Statement.parts (s : Statement) : List Node := .statement s :: s.call.parts

def Argument.parts : Argument → List Node
  | .positional v => v.parts
  | .keyword k => k.parts

namespace Node

def parts : Node → List Node
  | .value v => v.parts
  | .values vs => partsOf vs
  | .argument a => a.parts
  | .arguments as => as.flatMap Argument.parts
  | .path _ => []
  | .call c => c.parts
  | .statement s => s.parts
  | .statements ss => ss.flatMap Statement.parts

def location? : Node → Option Location
  | .value v => some v.location
  | .argument (.keyword k) => some k.location
  | .call c => some c.location
  | .statement s => some s.location
  | _ => none

end Node

theorem partsOf_append (vs us : List Value) : partsOf (vs ++ us) = partsOf vs ++ partsOf us := by
  induction vs with
  | nil => rfl
  | cons v vs ih => rw [List.cons_append, partsOf, partsOf, ih, List.append_assoc]

/-- Each of the parts is derived from some of the lexemes, in a row, and has the place that they have. -/
def Holds (file : Option String) (ls : List Lexeme) (ns : List Node) : Prop :=
  ∀ n ∈ ns, ∃ block l, block <:+: ls ∧ Stands file block n ∧ n.location? = some l ∧ Occupies file block l

namespace Holds

variable {file : Option String} {ls ks : List Lexeme} {ns ms : List Node}

theorem mono (h : Holds file ls ns) (hls : ls <:+: ks) : Holds file ks ns := by
  intro n hn
  obtain ⟨block, l, hblock, hstands⟩ := h n hn
  exact ⟨block, l, hblock.trans hls, hstands⟩

theorem append (hn : Holds file ls ns) (hm : Holds file ls ms) : Holds file ls (ns ++ ms) :=
  fun n h => (List.mem_append.mp h).elim (hn n) (hm n)

theorem cons {n : Node} {l : Location} (hn : Stands file ls n) (hplace : n.location? = some l)
    (hl : Occupies file ls l) (h : Holds file ls ns) : Holds file ls (n :: ns) :=
  List.forall_mem_cons.mpr ⟨⟨ls, l, List.infix_refl ls, hn, hplace, hl⟩, h⟩

theorem nil : Holds file ls [] := fun _ hn => nomatch hn

end Holds

theorem Holds.call {file : Option String} {ls ks : List Lexeme} {ns : List String} {as : List Argument} {l : Location}
    (hcall : Stands file ks (.call (.of ns as l))) (hl : Occupies file ks l)
    (h : Holds file ls (as.flatMap Argument.parts)) (hls : ls <:+: ks) :
    Holds file ks (Call.of ns as l).parts := by
  have hargs : ∀ as : List Argument, Holds file ls (as.flatMap Argument.parts) →
      Holds file ls (partsOf (as.filterMap Argument.positional?) ++
        (as.filterMap Argument.keyword?).flatMap Keyword.parts) := by
    intro as has
    induction as with
    | nil => exact .nil
    | cons a as ih =>
      rw [List.flatMap_cons] at has
      have hrest := ih fun n hn => has n (List.mem_append_right _ hn)
      have hfirst : Holds file ls a.parts := fun n hn => has n (List.mem_append_left _ hn)
      cases a with
      | positional v =>
        change Holds file ls (v.parts ++ partsOf _ ++ _)
        rw [List.append_assoc]
        exact hfirst.append hrest
      | keyword k =>
        change Holds file ls (_ ++ (k.parts ++ _))
        refine .append (fun n hn => hrest n (List.mem_append_left _ hn)) (hfirst.append fun n hn => ?_)
        exact hrest n (List.mem_append_right _ hn)
  exact .cons hcall rfl hl ((hargs as h).mono hls)

theorem Stands.holds {file : Option String} {ls : List Lexeme} {n : Node} (h : Stands file ls n) :
    Holds file ls n.parts := by
  induction h with
  | integer ht hl => exact .cons (.integer ht hl) rfl hl .nil
  | real ht hl => exact .cons (.real ht hl) rfl hl .nil
  | text ht hl => exact .cons (.text ht hl) rfl hl .nil
  | name ht hl => exact .cons (.name ht hl) rfl hl .nil
  | unit ha hb hl => exact .cons (.unit ha hb hl) rfl hl .nil
  | @tuple a b w o vs l ha hw ho hb hl ih =>
    exact .cons (.tuple ha hw ho hb hl) rfl hl (ih.mono ⟨[a], o ++ [b], by simp⟩)
  | @oneValue w v _ ih =>
    change Holds file w (v.parts ++ [])
    rwa [List.append_nil]
  | @moreValues u w k vs v _ _ _ ihu ihw =>
    change Holds file _ (partsOf (vs ++ [v]))
    rw [partsOf_append]
    refine (ihu.mono (List.infix_append' [] u _)).append ?_
    change Holds file _ (v.parts ++ [])
    rw [List.append_nil]
    exact ihw.mono ⟨u ++ [k], [], by simp⟩
  | @keyword n e w k v l hn he hw hl ih => exact .cons (.keyword hn he hw hl) rfl hl (ih.mono ⟨[n, e], [], by simp⟩)
  | positional _ ih => exact ih
  | @oneArgument w a _ ih =>
    change Holds file w (a.parts ++ [])
    rwa [List.append_nil]
  | @moreArguments u w k as a _ _ _ ihu ihw =>
    change Holds file _ ((as ++ [a]).flatMap Argument.parts)
    rw [List.flatMap_append, List.flatMap_singleton]
    exact (ihu.mono (List.infix_append' [] u _)).append (ihw.mono ⟨u ++ [k], [], by simp⟩)
  | oneName | moreNames => exact .nil
  | @bareCall w a b ns l hw ha hb hl => exact .call (.bareCall hw ha hb hl) hl (.nil : Holds file [] _) List.nil_infix
  | @call w u o a b ns as l hw ha hu ho hb hl _ ihu =>
    exact .call (.call hw ha hu ho hb hl) hl ihu ⟨w ++ [a], o ++ [b], by simp⟩
  | @statement h w o b c l text hh hw hb ho hl ih =>
    exact .cons (.statement text hh hw hb ho hl) rfl hl (ih.mono ⟨h, b :: o, by simp⟩)
  | @oneStatement w s _ ih =>
    change Holds file w (s.parts ++ [])
    rwa [List.append_nil]
  | @moreStatements u w ss s _ _ ihu ihw =>
    change Holds file _ ((ss ++ [s]).flatMap Statement.parts)
    rw [List.flatMap_append, List.flatMap_singleton]
    exact (ihu.mono (List.infix_append' [] u w)).append (ihw.mono ⟨u, [], by simp⟩)

/-! ## Chunks -/

/-- The lines of the chunk stand in a row among others. -/
def Chunk.Among (c : Chunk) (lines : List String) : Prop :=
  c.lines ≠ [] ∧ ∃ front back, lines = front ++ c.lines ++ back ∧ c.first = front.length + 1

/-- The statement in progress holds the lines before the ones that are left. -/
def Pending.Among (p : Pending) (lines : List String) (number : Nat) (rest : List String) : Prop :=
  ∃ front, lines = front ++ p.lines.reverse ++ rest ∧ p.first = front.length + 1 ∧
    number = front.length + p.lines.length + 1

theorem Pending.Among.chunk {p : Pending} {number : Nat} (h : p.Among lines number rest) (hne : p.lines ≠ []) :
    p.chunk.Among lines := by
  obtain ⟨front, hlines, hfirst, -⟩ := h
  exact ⟨List.reverse_ne_nil_iff.mpr hne, front, rest, hlines, hfirst⟩

theorem Pending.Among.extend {p : Pending} {line : String} {number : Nat} (h : p.Among lines number (line :: rest)) :
    (p.extend line).Among lines (number + 1) rest := by
  obtain ⟨front, rfl, hfirst, rfl⟩ := h
  refine ⟨front, ?_, hfirst, ?_⟩
  · simp [Pending.extend]
  · simp only [Pending.extend, List.length_cons]
    omega

section Lines

variable {number : Nat} {pending : Option Pending} {line : String} {p q : Pending}

theorem startedBy_cases (h : startedBy number pending line = some p) :
    pending = some p ∨ pending = none ∧ p = ⟨number, [], 0⟩ := by
  cases pending with
  | some q => exact .inl h
  | none =>
    rw [startedBy] at h
    split_ifs at h
    cases h
    exact .inr ⟨rfl, rfl⟩

theorem pendingBehind_eq_some (h : pendingBehind number pending line = some q) :
    ∃ p, startedBy number pending line = some p ∧ q = p.extend line := by
  rw [pendingBehind] at h
  cases hp : startedBy number pending line with
  | none =>
    rw [hp] at h
    cases h
  | some p =>
    rw [hp] at h
    dsimp only at h
    split_ifs at h
    cases h
    exact ⟨p, rfl, rfl⟩

theorem mem_completedBy {c : Chunk} (h : c ∈ (completedBy number pending line).chunks) :
    ∃ p, startedBy number pending line = some p ∧ c = (p.extend line).chunk := by
  rw [completedBy] at h
  cases hp : startedBy number pending line with
  | none =>
    rw [hp] at h
    cases h
  | some p =>
    rw [hp] at h
    dsimp only at h
    split_ifs at h
    · exact ⟨p, rfl, List.mem_singleton.mp h⟩
    · cases h

end Lines

theorem scanFrom_among (front : List String) {number : Nat} {pending : Option Pending}
    (hnone : lines = front ++ rest ∧ number = front.length + 1)
    (hsome : ∀ p ∈ pending, p.lines ≠ [] ∧ p.Among lines number rest) :
    ∀ c ∈ (scanFrom number pending rest).chunks, c.Among lines := by
  induction rest generalizing number pending front with
  | nil =>
    intro c hc
    cases pending with
    | none => cases hc
    | some p =>
      rw [List.mem_singleton.mp hc]
      exact (hsome p rfl).2.chunk (hsome p rfl).1
  | cons line rest ih =>
    obtain ⟨rfl, rfl⟩ := hnone
    have hstarted {p : Pending} (hp : startedBy (front.length + 1) pending line = some p) :
        p.Among (front ++ line :: rest) (front.length + 1) (line :: rest) := by
      rcases startedBy_cases hp with rfl | ⟨-, rfl⟩
      · exact (hsome p rfl).2
      · exact ⟨front, by simp, rfl, rfl⟩
    rw [scanFrom_cons]
    intro c hc
    rcases List.mem_append.mp hc with hc | hc
    · obtain ⟨p, hp, rfl⟩ := mem_completedBy hc
      exact (hstarted hp).extend.chunk (List.cons_ne_nil _ _)
    · refine ih (front ++ [line]) ⟨by simp, by simp⟩ (fun q hq => ?_) c hc
      obtain ⟨p, hp, rfl⟩ := pendingBehind_eq_some hq
      exact ⟨List.cons_ne_nil _ _, (hstarted hp).extend⟩

theorem scan_among (lines : List String) : ∀ c ∈ (scan lines).chunks, c.Among lines :=
  scanFrom_among [] ⟨rfl, rfl⟩ fun _ hp => nomatch hp

theorem scanFrom_ordered (number : Nat) (pending : Option Pending) (rest : List String)
    (h : ∀ p ∈ pending, p.first + p.lines.length = number) :
    (∀ c ∈ (scanFrom number pending rest).chunks, pending.elim number Pending.first ≤ c.first) ∧
      (scanFrom number pending rest).chunks.Pairwise fun c e => c.first + c.lines.length ≤ e.first := by
  induction rest generalizing number pending with
  | nil =>
    cases pending with
    | none => exact ⟨List.forall_mem_nil _, List.Pairwise.nil⟩
    | some p => exact ⟨List.forall_mem_singleton.mpr (Nat.le_refl _), List.pairwise_singleton _ _⟩
  | cons line rest ih =>
    have hstarted {p : Pending} (hp : startedBy number pending line = some p) :
        p.first + p.lines.length = number ∧ pending.elim number Pending.first = p.first := by
      rcases startedBy_cases hp with rfl | ⟨rfl, rfl⟩
      · exact ⟨h p rfl, rfl⟩
      · exact ⟨rfl, rfl⟩
    have hlow : pending.elim number Pending.first ≤ number := by
      cases pending with
      | none => exact Nat.le_refl _
      | some p => exact h p rfl ▸ Nat.le_add_right _ _
    rw [scanFrom_cons, completedBy, pendingBehind]
    cases hp : startedBy number pending line with
    | none =>
      obtain ⟨hfirst, hpairs⟩ := ih (number + 1) none (by rintro _ ⟨⟩)
      exact ⟨fun c hc => (hlow.trans (Nat.le_succ _)).trans (hfirst c hc), hpairs⟩
    | some p =>
      obtain ⟨hcount, hstart⟩ := hstarted hp
      have hextended : (p.extend line).first + (p.extend line).lines.length = number + 1 := by
        rw [← hcount]
        rfl
      dsimp only
      split_ifs with hclosed
      · obtain ⟨hfirst, hpairs⟩ := ih (number + 1) none (by rintro _ ⟨⟩)
        refine ⟨List.forall_mem_cons.mpr ⟨hstart.le, fun c hc => ?_⟩, List.pairwise_cons.mpr ⟨fun c hc => ?_, hpairs⟩⟩
        · exact (hlow.trans (Nat.le_succ _)).trans (hfirst c hc)
        · change (p.extend line).first + (p.extend line).lines.reverse.length ≤ c.first
          rw [List.length_reverse, hextended]
          exact hfirst c hc
      · obtain ⟨hfirst, hpairs⟩ := ih (number + 1) (some (p.extend line)) <| by
          rintro _ ⟨⟩
          exact hextended
        exact ⟨fun c hc => hstart.trans_le (hfirst c hc), hpairs⟩

/-! ## Documents -/

theorem readStatements_located {file : Option String} {offset : Int} {text : String} {sts : List Statement}
    (h : readStatements file offset text = .ok sts) :
    (∀ l ∈ lexemesFrom ⟨1 + offset, 1⟩ text.toList, l.terminal ≠ .junk) ∧
      Stands file (lexemesFrom ⟨1 + offset, 1⟩ text.toList) (.statements sts) := by
  obtain ⟨ts, ss, hlex, hderives, haccepted, -, hlength⟩ := readStatements_accepted h
  obtain ⟨sts', hread, -, hstands⟩ := readStatements_stands hlex hderives haccepted hlength file offset
  obtain rfl := Except.ok.inj (h.symm.trans hread)
  obtain ⟨rfl, hjunk⟩ := hlex.lexemes ⟨1 + offset, 1⟩
  exact ⟨fun l hl heq => hjunk (heq ▸ List.mem_map_of_mem hl), hstands⟩

/-- The first chunk gives its statements or is passed over. -/
theorem readChunks_cases {file : Option String} {c : Chunk} {cs : List Chunk} {ss : List Statement}
    (h : (readChunks file (c :: cs)).outcome = .ok ss) :
    (∃ us ss', c.read file = .ok us ∧ ss = us ++ ss' ∧ (readChunks file cs).outcome = .ok ss') ∨
      (readChunks file cs).outcome = .ok ss := by
  have hgives : Gives file (c :: cs) ss (Journal.errors (readChunks file (c :: cs)).journal) := ⟨h, rfl⟩
  rcases hgives.cases_cons with ⟨us, ss', hread, rfl, hrest⟩ | ⟨d, es', -, -, hrest⟩
  · exact .inl ⟨us, ss', hread, rfl, hrest.1⟩
  · exact .inr hrest.1

theorem mem_readChunks {file : Option String} {cs : List Chunk} {ss : List Statement}
    (h : (readChunks file cs).outcome = .ok ss) (hs : s ∈ ss) : ∃ c ∈ cs, ∃ us, c.read file = .ok us ∧ s ∈ us := by
  induction cs generalizing ss with
  | nil =>
    cases h
    cases hs
  | cons c cs ih =>
    rcases readChunks_cases h with ⟨us, ss', hread, rfl, hrest⟩ | hrest
    · rcases List.mem_append.mp hs with hs | hs
      · exact ⟨c, List.mem_cons_self, us, hread, hs⟩
      · obtain ⟨c', hc', hmore⟩ := ih hrest hs
        exact ⟨c', List.mem_cons_of_mem _ hc', hmore⟩
    · obtain ⟨c', hc', hmore⟩ := ih hrest hs
      exact ⟨c', List.mem_cons_of_mem _ hc', hmore⟩

theorem Stands.blocks {file : Option String} {ls : List Lexeme} {ss : List Statement}
    (h : Stands file ls (.statements ss)) :
    ∃ blocks : List (List Lexeme), blocks.flatten = ls ∧
      List.Forall₂ (fun b s => Stands file b (.statement s)) blocks ss := by
  generalize hn : Node.statements ss = n at h
  induction h generalizing ss with
  | @oneStatement w s hw =>
    cases hn
    exact ⟨[w], List.append_nil w, .cons hw .nil⟩
  | @moreStatements u w ss s _ hw ihu =>
    cases hn
    obtain ⟨blocks, rfl, hblocks⟩ := ihu rfl
    refine ⟨blocks ++ [w], ?_, List.rel_append hblocks (.cons hw .nil)⟩
    rw [List.flatten_append, List.flatten_singleton]
  | _ => cases hn

theorem Chunk.read_blocks {file : Option String} (h : c.read file = .ok us) :
    (∀ l ∈ c.lexemes, l.terminal ≠ .junk) ∧ ∃ blocks : List (List Lexeme), blocks.flatten = c.lexemes ∧
      List.Forall₂ (fun b s => Stands file b (.statement s)) blocks us := by
  rw [Chunk.read] at h
  obtain ⟨sts, hsts, hus⟩ := bind_eq_ok.mp h
  cases hus
  obtain ⟨hjunk, hstands⟩ := readStatements_located hsts
  obtain ⟨blocks, hflat, hblocks⟩ := hstands.blocks
  refine ⟨hjunk, blocks, hflat, List.forall₂_map_right_iff.mpr (hblocks.imp fun b s hs => ?_)⟩
  cases hs with
  | statement _ hh hw hb ho hl => exact .statement _ hh hw hb ho hl

theorem exists_block {file : Option String} {blocks : List (List Lexeme)}
    (h : List.Forall₂ (fun b s => Stands file b (.statement s)) blocks us) (hs : s ∈ us) :
    ∃ ls ∈ blocks, Stands file ls (.statement s) := by
  induction h with
  | nil => cases hs
  | @cons b t blocks us hb _ ih =>
    rcases List.mem_cons.mp hs with rfl | hs
    · exact ⟨b, List.mem_cons_self, hb⟩
    · obtain ⟨ls, hls, hstands⟩ := ih hs
      exact ⟨ls, List.mem_cons_of_mem _ hls, hstands⟩

theorem exists_chunk {file : Option String} {d : Document} (h : (Document.ofLines file lines).outcome = .ok d)
    (hs : s ∈ d.statements) :
    ∃ c : Chunk, c.Among lines ∧ (∀ l ∈ c.lexemes, l.terminal ≠ .junk) ∧
      ∃ ls, ls <:+: c.lexemes ∧ Stands file ls (.statement s) := by
  obtain ⟨ss, hss, hdoc⟩ := Step.outcome_bind_eq_ok.mp h
  cases hdoc
  obtain ⟨c, hc, us, hread, hmem⟩ := mem_readChunks hss hs
  obtain ⟨hjunk, blocks, hflat, hblocks⟩ := c.read_blocks hread
  obtain ⟨ls, hls, hstands⟩ := exists_block hblocks hmem
  exact ⟨c, scan_among lines c hc, hjunk, ls, hflat ▸ List.infix_of_mem_flatten hls, hstands⟩

/-! ## Order -/

/-- The first place ends before the second starts. -/
def Precedes (file : Option String) (s t : Statement) : Prop :=
  ∃ a b c d, s.location = place file a b ∧ t.location = place file c d ∧ b.Upto c

theorem Stands.statement_occupies {file : Option String} {ls : List Lexeme} (h : Stands file ls (.statement s)) :
    Occupies file ls s.location := by
  cases h with
  | statement _ _ _ _ _ hl => exact hl

theorem precedes_of_blocks {file : Option String} {ls ks : List Lexeme} {t : Statement}
    (hs : Stands file ls (.statement s)) (ht : Stands file ks (.statement t))
    (h : ∀ a ∈ ls, ∀ b ∈ ks, a.stop.Upto b.start) : Precedes file s t := by
  obtain ⟨a, b, -, hb, hl⟩ := hs.statement_occupies
  obtain ⟨c, d, hc, -, hm⟩ := ht.statement_occupies
  exact ⟨a.start, b.stop, c.start, d.stop, hl, hm, h b (List.mem_of_getLast? hb) c (List.mem_of_head? hc)⟩

theorem Chunk.read_ordered {file : Option String} (h : c.read file = .ok us) : us.Pairwise (Precedes file) := by
  obtain ⟨-, blocks, hflat, hblocks⟩ := c.read_blocks h
  have hordered : blocks.Pairwise fun ls ks => ∀ a ∈ ls, ∀ b ∈ ks, a.stop.Upto b.start := by
    have hlexemes := (lexemesFrom_ordered ⟨1 + ((c.first : Int) - 1), 1⟩ c.text.toList).2
    change c.lexemes.Pairwise _ at hlexemes
    rw [← hflat] at hlexemes
    exact (List.pairwise_flatten.mp hlexemes).2
  clear hflat h
  induction hblocks with
  | nil => exact .nil
  | @cons ls s blocks us hs hblocks ih =>
    obtain ⟨hfirst, hrest⟩ := List.pairwise_cons.mp hordered
    refine List.pairwise_cons.mpr ⟨fun t ht => ?_, ih hrest⟩
    obtain ⟨ks, hks, hstands⟩ := exists_block hblocks ht
    exact precedes_of_blocks hs hstands (hfirst ks hks)

theorem Chunk.read_lines {file : Option String} (h : c.read file = .ok us) (hne : c.lines ≠ [])
    (hplain : ∀ l ∈ c.lines, '\n' ∉ l.toList) (hs : s ∈ us) :
    ∃ a b, s.location = place file a b ∧ (c.first : Int) ≤ a.line ∧ b.line < c.first + c.lines.length := by
  obtain ⟨-, blocks, hflat, hblocks⟩ := c.read_blocks h
  obtain ⟨ls, hls, hstands⟩ := exists_block hblocks hs
  obtain ⟨a, b, ha, hb, hl⟩ := hstands.statement_occupies
  have hmem : ∀ t ∈ ls, t ∈ c.lexemes := fun t ht => hflat ▸ List.mem_flatten.mpr ⟨ls, hls, ht⟩
  have hwithin := (lexemesFrom_ordered ⟨1 + ((c.first : Int) - 1), 1⟩ c.text.toList).1
  have hstart := (hwithin a (hmem a (List.mem_of_head? ha))).1
  have hstop := (hwithin b (hmem b (List.mem_of_getLast? hb))).2
  have hlast : ((⟨1 + ((c.first : Int) - 1), 1⟩ : Position).after c.text.toList).line + 1 =
      c.first + c.lines.length := by
    obtain ⟨line, rest, hlines⟩ := List.exists_cons_of_ne_nil hne
    rw [Position.line_after, Chunk.text, hlines, count_joined (hlines ▸ hplain), List.length_cons]
    dsimp only
    omega
  refine ⟨a.start, b.stop, hl, ?_, ?_⟩
  · unfold Position.Upto at hstart
    dsimp only at hstart
    omega
  · unfold Position.Upto at hstop
    omega

theorem readChunks_ordered {file : Option String} {cs : List Chunk} {ss : List Statement}
    (h : (readChunks file cs).outcome = .ok ss)
    (hlines : ∀ c ∈ cs, c.lines ≠ [] ∧ ∀ l ∈ c.lines, '\n' ∉ l.toList)
    (hchunks : cs.Pairwise fun c e => c.first + c.lines.length ≤ e.first) : ss.Pairwise (Precedes file) := by
  induction cs generalizing ss with
  | nil =>
    cases h
    exact .nil
  | cons c cs ih =>
    obtain ⟨hbehind, hrest⟩ := List.pairwise_cons.mp hchunks
    obtain ⟨hc, hcs⟩ := List.forall_mem_cons.mp hlines
    rcases readChunks_cases h with ⟨us, ss', hread, rfl, hmore⟩ | hmore
    · refine List.pairwise_append.mpr ⟨c.read_ordered hread, ih hmore hcs hrest, fun s hs t ht => ?_⟩
      obtain ⟨e, he, us', hread', ht⟩ := mem_readChunks hmore ht
      obtain ⟨a, b, hl, -, hend⟩ := c.read_lines hread hc.1 hc.2 hs
      obtain ⟨a', b', hm, hstart, -⟩ := e.read_lines hread' (hcs e he).1 (hcs e he).2 ht
      refine ⟨a, b, a', b', hl, hm, .inl ?_⟩
      have hnext := hbehind e he
      omega
    · exact ih hmore hcs hrest

theorem statements_ordered {file : Option String} (hplain : ∀ l ∈ lines, '\n' ∉ l.toList) {d : Document}
    (h : (Document.ofLines file lines).outcome = .ok d) : d.statements.Pairwise (Precedes file) := by
  obtain ⟨ss, hss, hdoc⟩ := Step.outcome_bind_eq_ok.mp h
  cases hdoc
  refine readChunks_ordered hss (fun c hc => ?_) (scanFrom_ordered 1 none lines fun _ hp => nomatch hp).2
  obtain ⟨hne, front, back, rfl, -⟩ := scan_among lines c hc
  exact ⟨hne, fun l hl => hplain l (by simp [hl])⟩

/-! ## Locations in lines -/

/-- The text is what is written in the lines at the location. -/
def Covers (file : Option String) (lines : List String) (l : Location) (w : List Char) : Prop :=
  ∃ start stop rest, l = place file start stop ∧ Reaches lines start (w ++ rest) ∧ Reaches lines stop rest

theorem Chunk.Among.covers (h : c.Among lines) (hplain : ∀ l ∈ lines, '\n' ∉ l.toList)
    (hjunk : ∀ l ∈ c.lexemes, l.terminal ≠ .junk) {file : Option String} {ls : List Lexeme} (hls : ls <:+: c.lexemes)
    {l : Location} (hl : Occupies file ls l) : ∃ w, Tight ls w ∧ Covers file lines l w := by
  obtain ⟨a, b, ha, hb, rfl⟩ := hl
  obtain ⟨ls, rfl⟩ : ∃ ts, ls = a :: ts := List.head?_eq_some_iff.mp ha
  obtain ⟨u, w, v, htext, hstart, hw⟩ := tight_of_infix hjunk hls
  obtain ⟨_, _, ⟨⟩, hlast, hstop⟩ := hw.stop
  cases hb.symm.trans hlast
  obtain ⟨hne, front, back, rfl, hfirst⟩ := h
  have hlines : ∀ l ∈ c.lines, '\n' ∉ l.toList := fun l hl => hplain l (by simp [hl])
  have horigin : (⟨1 + ((c.first : Int) - 1), 1⟩ : Position) = ⟨front.length + 1, 1⟩ := by
    rw [hfirst]
    congr 1
    omega
  rw [horigin] at hstart
  refine ⟨w, hw, a.start, b.stop, v ++ back.flatMap fun line => '\n' :: line.toList, rfl, ?_, ?_⟩
  · rw [hstart, ← List.append_assoc]
    exact reaches_joined hne hlines (by rw [← List.append_assoc]; exact htext)
  · rw [hstop, hstart, ← Position.after_append]
    exact reaches_joined hne hlines htext

/-- How integers, texts and bare names are written. -/
def Node.Literal : Node → List Char → Prop
  | .value (.integer n _), w => IsDigits w ∧ n = Decimal.digitsValue w
  | .value (.text s _), w => ∃ q, (q = '\'' ∨ q = '"') ∧ q ∉ s.toList ∧ w = q :: (s.toList ++ [q])
  | .value (.name s _), w => w = s.toList
  | _, _ => True

theorem Stands.literal {file : Option String} {ls : List Lexeme} {n : Node} (h : Stands file ls n) {w : List Char}
    (hw : Tight ls w) : n.Literal w := by
  cases h with
  | integer ht =>
    cases hw with
    | one hspells =>
      rw [ht] at hspells
      obtain ⟨hds, rfl⟩ := hspells.of_integer
      exact ⟨hds, rfl⟩
  | text ht =>
    cases hw with
    | one hspells => exact (ht ▸ hspells).of_text
  | name ht =>
    cases hw with
    | one hspells => exact (ht ▸ hspells).of_name
  | _ => exact True.intro

/-- Every statement of a document is written in the given lines where its location says, each behind the one before it.
The lexemes there derive the statement, and among them, in a row, stand those that derive each call, keyword and value in
it; the location of each is where these lexemes are, from the first character of the first to the end of the last. At the
location of an integer, a text or a bare name stands just the literal. -/
theorem parts_located {file : Option String} {lines : List String} (hplain : ∀ l ∈ lines, '\n' ∉ l.toList) {d : Document}
    (h : (Document.ofLines file lines).outcome = .ok d) :
    d.statements.Pairwise (Precedes file) ∧ ∀ s ∈ d.statements, ∃ ls text, Stands file ls (.statement s) ∧
      Tight ls text ∧ Covers file lines s.location text ∧
      ∀ n ∈ s.parts, ∃ block w l, block <:+: ls ∧ Stands file block n ∧ Tight block w ∧
        n.location? = some l ∧ Covers file lines l w ∧ n.Literal w := by
  refine ⟨statements_ordered hplain h, fun s hs => ?_⟩
  obtain ⟨c, hamong, hjunk, ls, hls, hstands⟩ := exists_chunk h hs
  obtain ⟨text, htext, hcovers⟩ := hamong.covers hplain hjunk hls hstands.statement_occupies
  refine ⟨ls, text, hstands, htext, hcovers, fun n hn => ?_⟩
  obtain ⟨block, l, hblock, hpart, hl, hoccupies⟩ := hstands.holds n hn
  obtain ⟨w, hw, hcovers⟩ := hamong.covers hplain hjunk (hblock.trans hls) hoccupies
  exact ⟨block, w, l, hblock, hpart, hw, hl, hcovers, hpart.literal hw⟩

/-- The first and last lines and columns of the parts of a document. -/
def Document.extents (d : Document) : List (Int × Int × Option Int × Option Int) :=
  (d.statements.flatMap Statement.parts).filterMap fun n =>
    n.location?.map fun l => (l.line, l.column, l.endLine, l.endColumn)

def nestedTuple : List String := ["import keras", "", " model.add(Conv2D(6, # six", "k=('a',", "  (5, same))) );"]

/-- A statement, its call, an integer, a keyword, a tuple and its items, over three lines. -/
theorem parts_located_nestedTuple : ∃ d, (Document.ofLines none nestedTuple).outcome = .ok d ∧
    (∀ l ∈ nestedTuple, '\n' ∉ l.toList) ∧ d.statements.Pairwise (Precedes none) ∧
    (∀ s ∈ d.statements, ∃ ls text, Stands none ls (.statement s) ∧
      Tight ls text ∧ Covers none nestedTuple s.location text ∧
      ∀ n ∈ s.parts, ∃ block w l, block <:+: ls ∧ Stands none block n ∧ Tight block w ∧
        n.location? = some l ∧ Covers none nestedTuple l w ∧ n.Literal w) ∧
    d.extents = [(3, 2, some 5, some 17), (3, 12, some 5, some 14), (3, 19, some 3, some 20), (4, 1, some 5, some 13),
      (4, 3, some 5, some 13), (4, 4, some 4, some 7), (5, 3, some 5, some 12), (5, 4, some 5, some 5),
      (5, 7, some 5, some 11)] := by
  have hplain : ∀ l ∈ nestedTuple, '\n' ∉ l.toList := by decide +kernel
  have hextents : (Document.ofLines none nestedTuple).outcome.toOption.map Document.extents = some [
      (3, 2, some 5, some 17), (3, 12, some 5, some 14), (3, 19, some 3, some 20), (4, 1, some 5, some 13),
      (4, 3, some 5, some 13), (4, 4, some 4, some 7), (5, 3, some 5, some 12), (5, 4, some 5, some 5),
      (5, 7, some 5, some 11)] := by
    decide +kernel
  cases h : (Document.ofLines none nestedTuple).outcome with
  | error f =>
    rw [h] at hextents
    cases hextents
  | ok d =>
    rw [h] at hextents
    obtain ⟨hordered, hlocated⟩ := parts_located hplain h
    exact ⟨d, rfl, hplain, hordered, hlocated, Option.some.inj hextents⟩

end LayerLoops.Source
