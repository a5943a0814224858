import LayerLoops.Proofs.Concatenation
import LayerLoops.Proofs.LineTokens
import LayerLoops.Proofs.Positions

/-! # Statements over several lines

A statement that starts on one line and ends on a later one is found by counting parentheses line by line. Where none of
its quoted texts goes over the end of a line, its lexemes are those of its lines, and the count is that of the grammar:
some parenthesis stays open up to the last line, and there none does. -/

namespace LayerLoops.Source

variable {cs : List Char} {lines : List String} {s : Sentence} {t : Terminal} {w : List Terminal}

/-! ## Lexemes of lines -/

theorem cut_of_append {c : Char} {as bs : List Char} {n : Nat} (h : cut c (as ++ bs) = (some t, n)) (ht : t ≠ .junk)
    (hn : n ≤ as.length) : cut c as = (some t, n) := by
  have hspells := spells_of_cut h ht
  rw [List.take_append_of_le_length hn] at hspells
  obtain ⟨u, m, hu, hjunk, hle, hsame⟩ :=
    cut_of_spells hspells (List.cons_prefix_cons.mpr ⟨rfl, List.take_prefix n as⟩)
  have hm := cut_le_length hu
  -- no terminal could be longer in the longer text
  obtain ⟨t', n', hcut, -, hlonger, -⟩ := cut_of_spells (spells_of_cut hu hjunk)
    (List.cons_prefix_cons.mpr ⟨rfl, (List.take_prefix m as).trans (List.prefix_append as bs)⟩)
  obtain ⟨-, rfl⟩ := Prod.mk.inj (h.symm.trans hcut)
  rw [List.length_cons, List.length_take_of_le hn] at hle hsame
  rw [List.length_cons, List.length_take_of_le hm] at hlonger
  obtain rfl : n = m := by omega
  rw [hu, hsame rfl]

theorem Terminal.Spells.text_of_newline {w : List Char} (h : t.Spells w) (hw : '\n' ∈ w) :
    ∃ s, t = .text s ∧ '\n' ∈ s.toList := by
  cases h with
  | @name c cs hc hcs =>
    rcases List.mem_cons.mp hw with rfl | hw
    · exact absurd hc (by decide)
    · exact absurd (hcs _ hw) (by decide)
  | integer hds => exact absurd (hds.2 _ hw) (by decide)
  | @real ds fs hds hfs =>
    rcases List.mem_append.mp hw with hw | hw
    · exact absurd (hds.2 _ hw) (by decide)
    · obtain ⟨xs, es, hxs, hes, rfl⟩ := hfs
      rcases List.mem_append.mp ((List.mem_cons.mp hw).resolve_left (by decide)) with hw | hw
      · exact absurd (hxs.2 _ hw) (by decide)
      · rcases hes with rfl | ⟨e, sign, ys, he, hsign, hys, rfl⟩
        · cases hw
        · rcases List.mem_cons.mp hw with rfl | hw
          · exact absurd he (by decide)
          · rcases List.mem_append.mp hw with hw | hw
            · rcases hsign with rfl | rfl | rfl <;> exact absurd hw (by decide)
            · exact absurd (hys.2 _ hw) (by decide)
  | @text q cs hq hcs =>
    refine ⟨_, rfl, ?_⟩
    rw [String.toList_ofList]
    rcases List.mem_cons.mp hw with rfl | hw
    · exact absurd hq (by decide)
    · rcases List.mem_append.mp hw with hw | hw
      · exact hw
      · rw [← List.mem_singleton.mp hw] at hq
        exact absurd hq (by decide)
  | mark hc =>
    rw [← List.mem_singleton.mp hw] at hc
    cases hc

/-- No quoted text goes over the end of a line, and all of the text is terminals. -/
def Whole (ts : List Terminal) : Prop := .junk ∉ ts ∧ ∀ s, .text s ∈ ts → '\n' ∉ s.toList

theorem whole_append {as bs : List Terminal} (h : Whole (as ++ bs)) : Whole as ∧ Whole bs :=
  ⟨⟨fun hj => h.1 (List.mem_append_left _ hj), fun s hs => h.2 s (List.mem_append_left _ hs)⟩,
    ⟨fun hj => h.1 (List.mem_append_right _ hj), fun s hs => h.2 s (List.mem_append_right _ hs)⟩⟩

theorem run_line (h : '\n' ∉ cs) (rest : List Char) (hrest : ∀ c ∈ rest.head?, c = '\n') :
    run (· != '\n') (cs ++ rest) = cs.length := by
  refine run_append (fun c hc => ?_) fun c hc => ?_
  · exact bne_iff_ne.mpr fun heq => h (heq ▸ hc)
  · rw [hrest c hc]
    rfl

theorem cut_of_line {c : Char} {bs : List Char} {n : Nat} (h : cut c (cs ++ '\n' :: bs) = (some t, n))
    (hjunk : t ≠ .junk) (htext : ∀ s, t = .text s → '\n' ∉ s.toList) : n ≤ cs.length ∧ cut c cs = (some t, n) := by
  have hn : n ≤ cs.length := by
    by_contra hlong
    have hfeed : '\n' ∈ c :: (cs ++ '\n' :: bs).take n := by
      refine List.mem_cons_of_mem _ (List.mem_take_iff_getElem.mpr ⟨cs.length, ?_, ?_⟩)
      · rw [List.length_append, List.length_cons]
        omega
      · simp
    obtain ⟨s, rfl, hs⟩ := (spells_of_cut h hjunk).text_of_newline hfeed
    exact htext s rfl hs
  exact ⟨hn, cut_of_append h hjunk hn⟩

theorem lexemesFrom_line {as : List Char} (has : '\n' ∉ as) (bs : List Char) (p : Position)
    (h : Whole ((lexemesFrom p (as ++ '\n' :: bs)).map Lexeme.terminal)) :
    lexemesFrom p (as ++ '\n' :: bs) = lexemesFrom p as ++ lexemesFrom ⟨p.line + 1, 1⟩ bs := by
  induction hlen : as.length using Nat.strong_induction_on generalizing as p with
  | _ len ih =>
  rcases as with _ | ⟨c, cs⟩
  · rw [List.nil_append, lexemesFrom_skip (cut_space rfl bs), lexemesFrom.eq_1 p]
    rfl
  · have hline : '\n' ∉ cs := fun hcs => has (List.mem_cons_of_mem _ hcs)
    rw [List.cons_append] at h ⊢
    -- what is cut off first lies within the line, and the rest of the line is shorter
    have hrest : ∀ n, n ≤ cs.length →
        Whole ((lexemesFrom (p.after (c :: cs.take n)) (cs.drop n ++ '\n' :: bs)).map Lexeme.terminal) →
        lexemesFrom (p.after (c :: cs.take n)) (cs.drop n ++ '\n' :: bs) =
          lexemesFrom (p.after (c :: cs.take n)) (cs.drop n) ++ lexemesFrom ⟨p.line + 1, 1⟩ bs := by
      intro n hn hwhole
      have hshorter : (cs.drop n).length < len := by
        rw [← hlen, List.length_drop, List.length_cons]
        omega
      have htake : '\n' ∉ c :: cs.take n := fun hmem =>
        has ((List.cons_sublist_cons.mpr (List.take_sublist n cs)).mem hmem)
      rw [ih _ hshorter (fun hmem => hline (List.mem_of_mem_drop hmem)) _ hwhole rfl, Position.line_after_plain htake]
    rcases hcut : cut c (cs ++ '\n' :: bs) with ⟨_ | t, n⟩
    · have hskip : n ≤ cs.length ∧ cut c cs = (none, n) := by
        rcases cut_skips hcut with ⟨hspace, rfl⟩ | ⟨rfl, rfl⟩
        · exact ⟨Nat.zero_le _, cut_space hspace cs⟩
        · have hrun := run_line hline [] (by rintro c ⟨⟩)
          rw [List.append_nil] at hrun
          rw [run_line hline ('\n' :: bs) (by rintro c ⟨⟩; rfl), cut_comment, hrun]
          exact ⟨le_rfl, rfl⟩
      rw [lexemesFrom_skip hcut, List.take_append_of_le_length hskip.1, List.drop_append_of_le_length hskip.1] at h ⊢
      rw [lexemesFrom_skip hskip.2]
      exact hrest n hskip.1 h
    · have hjunk : t ≠ .junk := by
        rintro rfl
        rw [lexemesFrom, hcut] at h
        exact h.1 List.mem_cons_self
      rw [lexemesFrom_cut hcut hjunk, List.map_cons] at h
      obtain ⟨hn, hcut'⟩ := cut_of_line hcut hjunk fun s hs => h.2 s (hs ▸ List.mem_cons_self)
      rw [lexemesFrom_cut hcut hjunk, lexemesFrom_cut hcut' hjunk]
      rw [List.take_append_of_le_length hn, List.drop_append_of_le_length hn] at h ⊢
      rw [List.cons_append, hrest n hn (whole_append (show Whole ([t] ++ _) from h)).2]

/-- The lexemes of lines, line by line; the first of them has the number `n`. -/
def lexemesOf (n : Int) : List String → List Lexeme
  | [] => []
  | line :: rest => lexemesFrom ⟨n, 1⟩ line.toList ++ lexemesOf (n + 1) rest

theorem lexemesOf_append (n : Int) (front back : List String) :
    lexemesOf n (front ++ back) = lexemesOf n front ++ lexemesOf (n + front.length) back := by
  induction front generalizing n with
  | nil => simp [lexemesOf]
  | cons line front ih =>
    rw [List.cons_append, lexemesOf, lexemesOf, ih, List.append_assoc, List.length_cons, Nat.cast_succ, Int.add_assoc,
      Int.add_comm 1]

theorem lexemesFrom_joined (hplain : ∀ l ∈ lines, '\n' ∉ l.toList) (n : Int)
    (h : Whole ((lexemesFrom ⟨n, 1⟩ ("\n".intercalate lines).toList).map Lexeme.terminal)) :
    lexemesFrom ⟨n, 1⟩ ("\n".intercalate lines).toList = lexemesOf n lines := by
  induction lines generalizing n with
  | nil => exact lexemesFrom.eq_1 _
  | cons line rest ih =>
    obtain ⟨hline, hrest⟩ := List.forall_mem_cons.mp hplain
    rcases rest with _ | ⟨next, rest⟩
    · rw [toList_joined_singleton, lexemesOf, lexemesOf, List.append_nil]
    · rw [toList_joined_cons] at h ⊢
      have hsplit := lexemesFrom_line hline _ ⟨n, 1⟩ h
      rw [hsplit, List.map_append] at h
      rw [hsplit, ih hrest (n + 1) (whole_append h).2]
      rfl

theorem line_of_lexeme (hcs : '\n' ∉ cs) {p : Position} {t : Lexeme} (ht : t ∈ lexemesFrom p cs) :
    t.start.line = p.line := by
  have hstop : ∀ (p : Position) (c : Char) (cs : List Char) (n : Nat), '\n' ∉ c :: cs →
      (p.after (c :: cs.take n)).line = p.line ∧ '\n' ∉ cs.drop n := by
    intro p c cs n h
    refine ⟨Position.line_after_plain (fun hmem => h ?_) p, fun hmem => h ?_⟩
    · exact (List.cons_sublist_cons.mpr (List.take_sublist n cs)).mem hmem
    · exact List.mem_cons_of_mem _ (List.mem_of_mem_drop hmem)
  fun_induction lexemesFrom p cs with
  | case1 => cases ht
  | case2 p c cs n stop hcut => rw [List.mem_singleton.mp ht]
  | case3 p c cs n stop k hne hcut ih =>
    rcases List.mem_cons.mp ht with rfl | ht
    · rfl
    · rw [ih (hstop p c cs n hcs).2 ht, (hstop p c cs n hcs).1]
  | case4 p c cs n stop hcut ih => rw [ih (hstop p c cs n hcs).2 ht, (hstop p c cs n hcs).1]

theorem line_of_lexemesOf (hplain : ∀ l ∈ lines, '\n' ∉ l.toList) {n : Int} {t : Lexeme} (ht : t ∈ lexemesOf n lines) :
    n ≤ t.start.line ∧ t.start.line < n + lines.length := by
  induction lines generalizing n with
  | nil => cases ht
  | cons line rest ih =>
    obtain ⟨hline, hrest⟩ := List.forall_mem_cons.mp hplain
    rw [List.length_cons, Nat.cast_succ]
    rcases List.mem_append.mp ht with ht | ht
    · rw [line_of_lexeme hline ht]
      change n ≤ n ∧ n < _
      omega
    · have hbehind := ih hrest ht
      omega

/-! ## Statements in progress -/

theorem balance_lexemesOf (hplain : ∀ l ∈ lines, '\n' ∉ l.toList) (n : Int)
    (hjunk : .junk ∉ (lexemesOf n lines).map Lexeme.terminal)
    (hapart : ((lexemesOf n lines).map Lexeme.terminal).IsChain Apart) :
    (lines.map (balance ∘ tokens)).sum = depth ((lexemesOf n lines).map Lexeme.terminal) := by
  induction lines generalizing n with
  | nil => rfl
  | cons line rest ih =>
    obtain ⟨hline, hrest⟩ := List.forall_mem_cons.mp hplain
    rw [lexemesOf, List.map_append] at hjunk hapart ⊢
    obtain ⟨hfirst, hbehind⟩ := not_or.mp (List.mem_append.not.mp hjunk)
    have hlex : Lexes line.toList ((lexemesFrom ⟨n, 1⟩ line.toList).map Lexeme.terminal) :=
      lexes_iff.mpr ⟨rfl, hfirst⟩
    rw [List.map_cons, List.sum_cons, ih hrest _ hbehind hapart.right_of_append, depth_append, Function.comp_apply,
      hlex.balance_tokens hline hapart.left_of_append]

theorem scanFrom_open {p : Pending} (hne : lines ≠ [])
    (hopen : ∀ front back, lines = front ++ back → front ≠ [] → back ≠ [] →
      0 < p.depth + (front.map (balance ∘ tokens)).sum) (number : Nat) :
    scanFrom number (some p) lines = { chunks := [⟨p.first, p.lines.reverse ++ lines⟩] } := by
  induction lines generalizing p number with
  | nil => exact absurd rfl hne
  | cons line rest ih =>
    have hchunk : (p.extend line).chunk = ⟨p.first, p.lines.reverse ++ [line]⟩ := by
      rw [Pending.chunk, Pending.extend, List.reverse_cons]
    rcases rest with _ | ⟨next, rest⟩
    · rw [scanFrom_cons, completedBy, pendingBehind, startedBy]
      dsimp only
      split_ifs
      · rw [hchunk]
        rfl
      · rw [scanFrom, hchunk]
        rfl
    · have hdepth : (p.extend line).depth = p.depth + ([line].map (balance ∘ tokens)).sum := by
        rw [List.map_singleton, List.sum_singleton]
        rfl
      have hstays : ¬ (p.extend line).depth ≤ 0 := by
        have hpos := hopen [line] (next :: rest) rfl (List.cons_ne_nil _ _) (List.cons_ne_nil _ _)
        omega
      rw [scanFrom_cons, completedBy, pendingBehind, startedBy]
      dsimp only
      rw [if_neg hstays, if_neg hstays, ih (List.cons_ne_nil _ _) ?_]
      · simp [Scan.append, Pending.extend]
      · intro front back hsplit hfront hback
        have hpos := hopen (line :: front) back (congrArg (line :: ·) hsplit) (List.cons_ne_nil _ _) hback
        rw [List.map_cons, List.sum_cons] at hpos
        rw [hdepth, List.map_singleton, List.sum_singleton]
        omega

theorem scan_open {first : String} {rest : List String} (hopens : opensStatement (tokens first) = true)
    (hopen : ∀ front back, first :: rest = front ++ back → front ≠ [] → back ≠ [] →
      0 < (front.map (balance ∘ tokens)).sum) :
    scan (first :: rest) = { chunks := [⟨1, first :: rest⟩] } := by
  have hstart : startedBy 1 none first = startedBy 1 (some ⟨1, [], 0⟩) first := if_pos hopens
  have hscan : scan (first :: rest) = scanFrom 1 (some ⟨1, [], 0⟩) (first :: rest) := by
    rw [scan, scanFrom_cons, scanFrom_cons, completedBy, pendingBehind, hstart]
    rfl
  rw [hscan, scanFrom_open (List.cons_ne_nil _ _)]
  · rfl
  · intro front back hsplit hfront hback
    rw [Int.zero_add]
    exact hopen front back hsplit hfront hback

/-! ## One statement -/

theorem Derives.statements_ne_nil {phrase : Phrase} (h : Derives w phrase) : phrase ≠ .statements [] := by
  cases h with
  | moreStatements _ _ =>
    intro hnil
    exact List.append_ne_nil_of_right_ne_nil _ (List.cons_ne_nil _ _) (Phrase.statements.inj hnil)
  | _ => exact fun hnil => nomatch hnil

theorem Derives.single (h : Derives w (.statements [s])) : Derives w (.statement s) := by
  generalize hphrase : Phrase.statements [s] = phrase at h
  cases h with
  | oneStatement h =>
    cases hphrase
    exact h
  | @moreStatements u v ss t hu _ =>
    have hnil : ss = [] := by
      have hlen := congrArg List.length (Phrase.statements.inj hphrase)
      rw [List.length_append, List.length_singleton, List.length_singleton] at hlen
      exact List.length_eq_zero_iff.mp (by omega)
    subst hnil
    exact absurd rfl hu.statements_ne_nil
  | _ => cases hphrase

theorem Derives.openers (h : Derives w (.statement s)) (hs : s.Accepted) : openers <+: w := by
  cases h with
  | statement r m _ _ =>
    obtain ⟨rfl, rfl, -⟩ := hs
    exact List.prefix_append Source.openers _

theorem Derives.open {a b : List Terminal} (h : Derives (a ++ b) (.statement s)) (ha : 4 ≤ a.length) (hb : .rpar ∈ b) :
    0 < depth a := by
  generalize hw : a ++ b = w at h
  cases h with
  | @statement w o ns as r m hcall ho =>
    obtain ⟨x₁, x₂, x₃, x₄, a, rfl⟩ : ∃ x₁ x₂ x₃ x₄ c, a = x₁ :: x₂ :: x₃ :: x₄ :: c := by
      match a, ha with
      | x₁ :: x₂ :: x₃ :: x₄ :: c, _ => exact ⟨x₁, x₂, x₃, x₄, c, rfl⟩
    simp only [List.cons_append, List.cons.injEq] at hw
    obtain ⟨rfl, rfl, rfl, rfl, hw⟩ := hw
    have hinside : 0 ≤ depth a := by
      rcases List.append_eq_append_iff.mp hw with ⟨c, rfl, hc⟩ | ⟨c, rfl, hc⟩
      · exact hcall.enclosed.opened a c rfl
      · -- past the call stands the parenthesis that closes the statement, and none behind it
        rcases List.cons_eq_append_iff.mp hc with ⟨rfl, -⟩ | ⟨d, rfl, hd⟩
        · rw [List.append_nil, hcall.enclosed.closed]
        · have hmem : Terminal.rpar ∈ o := hd ▸ List.mem_append_right d hb
          rcases ho with rfl | rfl
          · cases hmem
          · exact absurd hmem (by decide)
    simp only [depth_cons]
    change 0 < 0 + (0 + (0 + (1 + depth a)))
    omega

/-! ## Lines of one statement -/

section Lines

variable {front back : List String} (hplain : ∀ l ∈ front ++ back, '\n' ∉ l.toList)

include hplain

theorem four_le_length (hs : openers <+: (lexemesOf 1 (front ++ back)).map Lexeme.terminal) (hfront : front ≠ [])
    (hopening : ∀ t ∈ (lexemesOf 1 (front ++ back)).take 4, t.start.line = 1) : 4 ≤ (lexemesOf 1 front).length := by
  by_contra hshort
  have hlength : 4 ≤ (lexemesOf 1 (front ++ back)).length := by
    have hle := hs.length_le
    rwa [List.length_map] at hle
  rw [lexemesOf_append] at hopening hlength
  -- the first lexeme behind these lines is one of the four, and stands too far down
  obtain ⟨t, ts, hback⟩ : ∃ t ts, lexemesOf (1 + front.length) back = t :: ts := by
    refine List.exists_cons_of_ne_nil fun hnil => ?_
    rw [hnil, List.append_nil] at hlength
    exact hshort hlength
  have hmem : t ∈ (lexemesOf 1 front ++ lexemesOf (1 + front.length) back).take 4 := by
    rw [hback, List.take_append, List.mem_append]
    refine .inr ?_
    obtain ⟨k, hk⟩ : ∃ k, 4 - (lexemesOf 1 front).length = k + 1 := ⟨3 - (lexemesOf 1 front).length, by omega⟩
    rw [hk]
    exact List.mem_cons_self
  have hline := (line_of_lexemesOf (fun l hl => hplain l (List.mem_append_right _ hl)) (hback ▸ List.mem_cons_self)).1
  have hpos := List.length_pos_iff.mpr hfront
  rw [hopening t hmem] at hline
  omega

theorem rpar_mem_behind (hback : back ≠ []) {t : Lexeme} (ht : t ∈ lexemesOf 1 (front ++ back))
    (hrpar : t.terminal = .rpar) (hline : t.start.line = (front ++ back).length) :
    .rpar ∈ (lexemesOf (1 + front.length) back).map Lexeme.terminal := by
  rw [lexemesOf_append] at ht
  rcases List.mem_append.mp ht with ht | ht
  · have hbefore := (line_of_lexemesOf (fun l hl => hplain l (List.mem_append_left _ hl)) ht).2
    have hpos := List.length_pos_iff.mpr hback
    rw [hline, List.length_append, Nat.cast_add] at hbefore
    omega
  · exact hrpar ▸ List.mem_map_of_mem ht

end Lines

def joinedLexemes (lines : List String) : List Lexeme := lexemesFrom {} ("\n".intercalate lines).toList

/-- The last line has a closing parenthesis, and no lexeme goes over the end of a line. -/
structure Spans (lines : List String) : Prop where
  plain : ∀ l ∈ lines, '\n' ∉ l.toList
  closing : ∃ t ∈ joinedLexemes lines, t.terminal = .rpar ∧ t.start.line = lines.length
  whole : ∀ t ∈ joinedLexemes lines, t.stop.line = t.start.line

theorem whole_of_lines {p : Position} (hjunk : .junk ∉ (lexemesFrom p cs).map Lexeme.terminal)
    (h : ∀ t ∈ lexemesFrom p cs, t.stop.line = t.start.line) : Whole ((lexemesFrom p cs).map Lexeme.terminal) := by
  refine ⟨hjunk, fun s hs hfeed => ?_⟩
  obtain ⟨t, ht, hterminal⟩ := List.mem_map.mp hs
  have hnone : ∀ l ∈ lexemesFrom p cs, l.terminal ≠ .junk := fun l hl heq => hjunk (heq ▸ List.mem_map_of_mem hl)
  obtain ⟨as, bs, hsplit⟩ := List.append_of_mem ht
  have hinfix : [t] <:+: lexemesFrom p cs := ⟨as, bs, by rw [hsplit, List.append_assoc, List.singleton_append]⟩
  obtain ⟨u, w, v, -, -, hw⟩ := tight_of_infix hnone hinfix
  cases hw with
  | one hspells hstop =>
    have hlines := h t ht
    rw [hstop, Position.line_after] at hlines
    have hzero : w.count '\n' = 0 := by omega
    rw [hterminal] at hspells
    obtain ⟨q, -, -, rfl⟩ := hspells.of_text
    exact List.count_eq_zero.mp hzero (List.mem_cons_of_mem _ (List.mem_append_left _ hfeed))

theorem Spans.derives (h : Spans lines) {file : Option String} {s : Statement}
    (hread : readStatements file 0 ("\n".intercalate lines) = .ok [s]) :
    joinedLexemes lines = lexemesOf 1 lines ∧ .junk ∉ (lexemesOf 1 lines).map Lexeme.terminal ∧
      ∃ sentence : Sentence, sentence.Accepted ∧
        Derives ((lexemesOf 1 lines).map Lexeme.terminal) (.statement sentence) := by
  obtain ⟨ts, ss, hlex, hderives, haccepted, hadd, -⟩ := readStatements_accepted hread
  obtain ⟨rfl, hjunk⟩ := hlex.lexemes ⟨1, 1⟩
  have hlines : joinedLexemes lines = lexemesOf 1 lines :=
    lexemesFrom_joined h.plain 1 (whole_of_lines hjunk h.whole)
  obtain ⟨sentence, rfl⟩ : ∃ sentence, ss = [sentence] := by
    have hlength := congrArg List.length hadd
    rw [List.length_map, List.length_map] at hlength
    exact List.length_eq_one_iff.mp hlength.symm
  change .junk ∉ (joinedLexemes lines).map Lexeme.terminal at hjunk
  change Derives ((joinedLexemes lines).map Lexeme.terminal) _ at hderives
  rw [hlines] at hjunk hderives
  exact ⟨hlines, hjunk, sentence, haccepted sentence List.mem_cons_self, hderives.single⟩

theorem opens_iff {first : String} {rest : List String} (hplain : ∀ l ∈ first :: rest, '\n' ∉ l.toList)
    (hjunk : .junk ∉ (lexemesOf 1 (first :: rest)).map Lexeme.terminal)
    (hapart : ((lexemesOf 1 (first :: rest)).map Lexeme.terminal).IsChain Apart)
    (hopen : openers <+: (lexemesOf 1 (first :: rest)).map Lexeme.terminal) :
    opensStatement (tokens first) = true ↔ ∀ t ∈ (lexemesOf 1 (first :: rest)).take 4, t.start.line = 1 := by
  have hfirst : '\n' ∉ first.toList := hplain first List.mem_cons_self
  have hfour : (∀ t ∈ (lexemesOf 1 (first :: rest)).take 4, t.start.line = 1) →
      4 ≤ (lexemesOf 1 [first]).length := @four_le_length [first] rest hplain hopen (List.cons_ne_nil _ _)
  have hsplit : lexemesOf 1 (first :: rest) = lexemesOf 1 [first] ++ lexemesOf 2 rest := lexemesOf_append 1 [first] rest
  rw [hsplit] at hfour ⊢
  rw [hsplit, List.map_append] at hjunk hapart hopen
  have hone : lexemesOf 1 [first] = lexemesFrom ⟨1, 1⟩ first.toList := List.append_nil _
  rw [hone] at hfour hjunk hapart hopen ⊢
  have hlex : Lexes first.toList ((lexemesFrom ⟨1, 1⟩ first.toList).map Lexeme.terminal) :=
    lexes_iff.mpr ⟨rfl, fun hmem => hjunk (List.mem_append_left _ hmem)⟩
  rw [hlex.opensStatement_iff hfirst hapart.left_of_append hopen, List.length_map]
  refine ⟨fun hlength t ht => ?_, hfour⟩
  rw [List.take_append_of_le_length hlength] at ht
  exact line_of_lexeme hfirst (List.mem_of_mem_take ht)

/-- The scanner of lines and the grammar agree on a statement over several lines. If it opens on the first line, which
both tell alike, and closes on the last, then the document of the lines is that statement: no line is skipped, none is
left to another statement, and no error is recorded. -/
theorem document_of_spanning {file : Option String} {first : String} {rest : List String} {s : Statement}
    (h : Spans (first :: rest)) (hread : readStatements file 0 ("\n".intercalate (first :: rest)) = .ok [s]) :
    (opensStatement (tokens first) = true ↔ ∀ t ∈ (joinedLexemes (first :: rest)).take 4, t.start.line = 1) ∧
      (opensStatement (tokens first) = true →
        Document.ofLines file (first :: rest) =
          ⟨[.event (.parsed 1 0)],
            .ok { file
                  statements := [{ s with text := Text.strip ("\n".intercalate (first :: rest)) }]
                  skipped := 0 }⟩) := by
  obtain ⟨hlexemes, hjunk, sentence, haccepted, hderives⟩ := h.derives hread
  have hapart := hderives.spread.1
  have hopens := opens_iff h.plain hjunk hapart (hderives.openers haccepted)
  rw [hlexemes]
  refine ⟨hopens, fun hopen => ?_⟩
  have hscan : scan (first :: rest) = { chunks := [⟨1, first :: rest⟩] } := by
    refine scan_open hopen fun front back hsplit hfront hback => ?_
    have hplain := h.plain
    obtain ⟨t, ht, hrpar, hline⟩ := h.closing
    have hfour := hopens.mp hopen
    have hstart := hderives.openers haccepted
    rw [hlexemes] at ht
    rw [hsplit] at hplain hderives hjunk hapart ht hline hfour hstart
    have hlength := four_le_length hplain hstart hfront hfour
    have hbehind := rpar_mem_behind hplain hback ht hrpar hline
    rw [lexemesOf_append, List.map_append] at hderives hjunk hapart
    rw [balance_lexemesOf (fun l hl => hplain l (List.mem_append_left _ hl)) 1
      (fun hmem => hjunk (List.mem_append_left _ hmem)) hapart.left_of_append]
    exact hderives.open (by rwa [List.length_map]) hbehind
  have hchunk : Chunk.read file ⟨1, first :: rest⟩ =
      .ok [{ s with text := Text.strip ("\n".intercalate (first :: rest)) }] := by
    change (readStatements file 0 ("\n".intercalate (first :: rest))).map _ = _
    rw [hread]
    rfl
  rw [Document.ofLines, hscan]
  dsimp only
  rw [readChunks, hchunk]
  rfl

/-- A statement with parentheses in a text and in comments, and a fraction that the scanner cuts into pieces. -/
def brokenStatement : List String :=
  ["model . add(Conv2D((), # ((", "  name='a)#(', scale=(3.25e+2,", "# )))", "  1.5E4),", "  filters=8, ) # (", " );"]

theorem document_of_brokenStatement : Spans brokenStatement ∧
    ∃ s, readStatements none 0 ("\n".intercalate brokenStatement) = .ok [s] ∧
      Document.ofLines none brokenStatement = ⟨[.event (.parsed 1 0)],
        .ok { statements := [{ s with text := Text.strip ("\n".intercalate brokenStatement) }] }⟩ := by
  have hspans : Spans brokenStatement := by
    refine ⟨?_, ?_, ?_⟩ <;> decide +kernel
  have hone : (readStatements none 0 ("\n".intercalate brokenStatement)).toOption.map List.length = some 1 := by
    decide +kernel
  cases hread : readStatements none 0 ("\n".intercalate brokenStatement) with
  | error f =>
    rw [hread] at hone
    cases hone
  | ok ss => 
    rw [hread] at hone
    obtain ⟨s, rfl⟩ := List.length_eq_one_iff.mp (Option.some.inj hone)
    have hopens : opensStatement (tokens "model . add(Conv2D((), # ((") = true := by decide +kernel
    exact ⟨hspans, s, rfl, (document_of_spanning hspans hread).2 hopens⟩

end LayerLoops.Source
