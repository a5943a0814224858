import LayerLoops.Proofs.Layout

/-! # Where lexemes stand

The lexemes of a text are its words, one after the other, and between two of them stand only white space and comments.
The position of each is the place of its word. -/

namespace LayerLoops.Source

variable {cs w : List Char} {p : Position} {t : Lexeme} {ts : List Lexeme}

namespace Position

variable (p : Position)

theorem after_append (as bs : List Char) : p.after (as ++ bs) = (p.after as).after bs :=
  List.foldl_append

theorem line_next (c : Char) : (p.next c).line = p.line + [c].count '\n' := by
  rw [next]
  by_cases hfeed : c = '\n'
  · rw [if_pos hfeed, hfeed]
    rfl
  · rw [if_neg hfeed, List.count_eq_zero_of_not_mem fun hmem => hfeed (List.mem_singleton.mp hmem).symm]
    split_ifs <;> exact (Int.add_zero _).symm

theorem line_after (cs : List Char) : (p.after cs).line = p.line + cs.count '\n' := by
  induction cs generalizing p with
  | nil => exact (Int.add_zero _).symm
  | cons c cs ih =>
    have hcount : ([c] ++ cs).count '\n' = [c].count '\n' + cs.count '\n' := List.count_append
    rw [List.singleton_append] at hcount
    change ((p.next c).after cs).line = _
    rw [ih, line_next, hcount]
    omega

theorem line_after_plain {cs : List Char} (h : '\n' ∉ cs) (p : Position) : (p.after cs).line = p.line := by
  rw [line_after, List.count_eq_zero_of_not_mem h]
  exact Int.add_zero _

theorem after_plain {cs : List Char} (h : '\n' ∉ cs) (p : Position) :
    p.after cs = ⟨p.line, p.column + Text.width cs⟩ := by
  induction cs generalizing p with
  | nil => simp [after, Text.width]
  | cons c cs ih =>
    obtain ⟨hc, hcs⟩ := not_or.mp (List.mem_cons.not.mp h)
    change (p.next c).after cs = _
    rw [ih hcs, next, if_neg (Ne.symm hc), Text.width, Text.width, List.countP_cons]
    by_cases hmark : c = Text.mark
    · simp [hmark]
    · simp [hmark]
      omega

def Upto (p q : Position) : Prop := p.line < q.line ∨ p.line = q.line ∧ p.column ≤ q.column

theorem upto_refl : p.Upto p := .inr ⟨rfl, Int.le_refl _⟩

theorem Upto.trans {p q r : Position} (h : p.Upto q) (h' : q.Upto r) : p.Upto r := by
  unfold Upto at *
  omega

theorem upto_next (c : Char) : p.Upto (p.next c) := by
  rw [next]
  split_ifs
  · exact .inl (Int.lt_succ p.line)
  · exact p.upto_refl
  · exact .inr ⟨rfl, Int.le_add_one (Int.le_refl _)⟩

theorem upto_after (cs : List Char) : p.Upto (p.after cs) := by
  induction cs generalizing p with
  | nil => exact p.upto_refl
  | cons c cs ih => exact (p.upto_next c).trans (ih (p.next c))

end Position

theorem lexemesFrom_ordered (p : Position) (cs : List Char) :
    (∀ t ∈ lexemesFrom p cs, p.Upto t.start ∧ t.stop.Upto (p.after cs)) ∧
      (lexemesFrom p cs).Pairwise fun a b => a.stop.Upto b.start := by
  have htext : ∀ (p : Position) (c : Char) (cs : List Char) (n : Nat),
      p.after (c :: cs) = (p.after (c :: cs.take n)).after (cs.drop n) := by
    intro p c cs n
    rw [← Position.after_append, List.cons_append, List.take_append_drop]
  fun_induction lexemesFrom p cs with
  | case1 => exact ⟨List.forall_mem_nil _, List.Pairwise.nil⟩
  | case2 p c cs n stop =>
    refine ⟨fun t ht => ?_, List.pairwise_singleton _ _⟩
    rw [List.mem_singleton.mp ht, htext p c cs n]
    exact ⟨p.upto_refl, Position.upto_after _ _⟩
  | case3 p c cs n stop k hne hcut =>
    rename_i ih
    rw [htext p c cs n]
    refine ⟨List.forall_mem_cons.mpr ⟨⟨p.upto_refl, Position.upto_after _ _⟩, fun t ht => ?_⟩, ?_⟩
    · exact ⟨(p.upto_after _).trans (ih.1 t ht).1, (ih.1 t ht).2⟩
    · exact List.pairwise_cons.mpr ⟨fun t ht => (ih.1 t ht).1, ih.2⟩
  | case4 p c cs n stop hcut =>
    rename_i ih
    rw [htext p c cs n]
    exact ⟨fun t ht => ⟨(p.upto_after _).trans (ih.1 t ht).1, (ih.1 t ht).2⟩, ih.2⟩

/-! ## Words of a text -/

theorem not_literal_of_punctuation? {c : Char} {t : Terminal} (h : Terminal.punctuation? c = some t) :
    (∀ s, t ≠ .text s) ∧ (∀ s, t ≠ .name s) ∧ ∀ ds, t ≠ .integer ds := by
  unfold Terminal.punctuation? at h
  split at h <;> cases h <;> simp

theorem Terminal.Spells.of_text {s : String} (h : Terminal.Spells (.text s) w) :
    ∃ q, (q = '\'' ∨ q = '"') ∧ q ∉ s.toList ∧ w = q :: (s.toList ++ [q]) := by
  generalize ht : Terminal.text s = t at h
  cases h with
  | @text q cs hq hcs =>
    cases ht
    refine ⟨q, hq, ?_, ?_⟩ <;> rw [String.toList_ofList]
    exact hcs
  | mark hc => exact absurd ht.symm ((not_literal_of_punctuation? hc).1 s)
  | _ => cases ht

theorem Terminal.Spells.of_name {s : String} (h : Terminal.Spells (.name s) w) : w = s.toList := by
  generalize ht : Terminal.name s = t at h
  cases h with
  | name _ _ =>
    cases ht
    exact String.toList_ofList.symm
  | mark hc => exact absurd ht.symm ((not_literal_of_punctuation? hc).2.1 s)
  | _ => cases ht

theorem Terminal.Spells.of_integer {ds : List Char} (h : Terminal.Spells (.integer ds) w) : IsDigits ds ∧ w = ds := by
  generalize ht : Terminal.integer ds = t at h
  cases h with
  | integer hds =>
    cases ht
    exact ⟨hds, rfl⟩
  | mark hc => exact absurd ht.symm ((not_literal_of_punctuation? hc).2.2 ds)
  | _ => cases ht

/-- Lexemes as they are written: each is its word, and behind it stands the next one after a gap. -/
inductive Tight : List Lexeme → List Char → Prop
  | one {t : Lexeme} {w : List Char} : t.terminal.Spells w → t.stop = t.start.after w → Tight [t] w
  | more {t u : Lexeme} {ts : List Lexeme} {w g v : List Char} : t.terminal.Spells w → t.stop = t.start.after w →
    Gap g → u.start = t.stop.after g → Tight (u :: ts) v → Tight (t :: u :: ts) (w ++ g ++ v)

theorem Tight.stop {ls : List Lexeme} (h : Tight ls w) :
    ∃ a b, ls.head? = some a ∧ ls.getLast? = some b ∧ b.stop = a.start.after w := by
  induction h with
  | @one t w _ hstop => exact ⟨t, t, rfl, rfl, hstop⟩
  | @more t u ts w g v _ hstop _ hnext _ ih =>
    obtain ⟨a, b, ha, hb, hlast⟩ := ih
    cases ha
    refine ⟨t, b, rfl, hb, ?_⟩
    rw [hlast, hnext, hstop, Position.after_append, Position.after_append]

theorem Terminal.Spells.not_space {t : Terminal} {c : Char} (h : t.Spells (c :: w)) : isSpace c = false := by
  rw [← Bool.not_eq_true]
  intro hspace
  obtain ⟨u, n, hcut, -⟩ := cut_of_spells h (List.prefix_refl _)
  rw [cut_space hspace] at hcut
  cases hcut

theorem Tight.exists_cons (h : Tight (t :: ts) w) : ∃ c v, w = c :: v ∧ isSpace c = false := by
  cases h with
  | one hw =>
    obtain ⟨c, v, rfl⟩ := List.exists_cons_of_ne_nil hw.ne_nil
    exact ⟨c, v, rfl, hw.not_space⟩
  | more hw =>
    obtain ⟨c, v, rfl⟩ := List.exists_cons_of_ne_nil hw.ne_nil
    exact ⟨c, _, rfl, hw.not_space⟩

theorem tight_of_lexemes {rest : List Lexeme} (hjunk : ∀ l ∈ t :: ts, l.terminal ≠ .junk)
    (h : lexemesFrom p cs = t :: ts ++ rest) :
    ∃ g w tail, cs = g ++ w ++ tail ∧ Gap g ∧ t.start = p.after g ∧ Tight (t :: ts) w := by
  revert t ts
  fun_induction lexemesFrom p cs with
  | case1 => rintro _ _ - ⟨⟩
  | case2 p c cs n stop =>
    intro t ts hjunk h
    obtain ⟨rfl, -⟩ := List.cons.inj h
    exact absurd rfl (hjunk _ List.mem_cons_self)
  | case3 p c cs n stop k hne hcut =>
    rename_i ih
    intro t ts hjunk h
    obtain ⟨rfl, hrest⟩ := List.cons.inj h
    have hspells := spells_of_cut hcut (hjunk _ List.mem_cons_self)
    have htext : c :: cs = (c :: cs.take n) ++ cs.drop n := by rw [List.cons_append, List.take_append_drop]
    rcases ts with _ | ⟨u, ts⟩
    · exact ⟨[], c :: cs.take n, cs.drop n, htext, .nil, rfl, .one hspells rfl⟩
    · obtain ⟨g, w, tail, htail, hg, hstart, hw⟩ := ih (fun l hl => hjunk l (List.mem_cons_of_mem _ hl)) hrest
      refine ⟨[], c :: cs.take n ++ g ++ w, tail, ?_, .nil, rfl, .more hspells rfl hg hstart hw⟩
      rw [htext, htail]
      simp only [List.nil_append, List.append_assoc]
  | case4 p c cs n stop hcut =>
    rename_i ih
    intro t ts hjunk h
    obtain ⟨g, w, tail, htail, hg, hstart, hw⟩ := ih hjunk h
    have htext : c :: cs = (c :: cs.take n ++ g) ++ w ++ tail := by
      rw [List.append_assoc, List.append_assoc, ← List.append_assoc g, ← htail, List.cons_append, List.take_append_drop]
    refine ⟨c :: cs.take n ++ g, w, tail, htext, ?_, ?_, hw⟩
    · rcases cut_skips hcut with ⟨hspace, rfl⟩ | ⟨rfl, rfl⟩
      · exact .space hspace hg
      · -- the line feed behind a comment is part of the gap, as no lexeme starts with it
        have hline : '\n' ∉ cs.take (run (· != '\n') cs) := fun hmem => by simpa using mem_take_run hmem
        have hend : ∀ d ∈ (g ++ w ++ tail).head?, d = '\n' := by
          rw [← htail]
          exact fun d hd => by simpa using drop_run hd
        obtain ⟨c, v, rfl, hc⟩ := hw.exists_cons
        cases hg with
        | nil =>
          rw [hend c rfl] at hc
          cases hc
        | @space d g _ hg =>
          rw [hend d rfl]
          exact .comment hline hg
        | comment => exact absurd (hend '#' rfl) (by decide)
    · rw [hstart, Position.after_append]

theorem lexemesFrom_suffix {as bs : List Lexeme} (h : lexemesFrom p cs = as ++ bs)
    (hjunk : ∀ l ∈ as, l.terminal ≠ .junk) : ∃ u v, cs = u ++ v ∧ lexemesFrom (p.after u) v = bs := by
  have hcons : ∀ (c : Char) (cs : List Char) (n : Nat) (p : Position) (bs : List Lexeme),
      (∃ u v, cs.drop n = u ++ v ∧ lexemesFrom ((p.after (c :: cs.take n)).after u) v = bs) →
      ∃ u v, c :: cs = u ++ v ∧ lexemesFrom (p.after u) v = bs := by
    rintro c cs n p _ ⟨u, v, hdrop, rfl⟩
    refine ⟨c :: cs.take n ++ u, v, ?_, by rw [Position.after_append]⟩
    rw [List.append_assoc, ← hdrop, List.cons_append, List.take_append_drop]
  rcases as with _ | ⟨a, as⟩
  · exact ⟨[], cs, rfl, h⟩
  revert a as
  fun_induction lexemesFrom p cs with
  | case1 => rintro _ _ ⟨⟩
  | case2 p c cs n stop =>
    intro a as h hjunk
    obtain ⟨rfl, -⟩ := List.cons.inj h
    exact absurd rfl (hjunk _ List.mem_cons_self)
  | case3 p c cs n stop k hne hcut =>
    rename_i ih
    intro a as h hjunk
    obtain ⟨rfl, hrest⟩ := List.cons.inj h
    refine hcons c cs n p bs ?_
    rcases as with _ | ⟨a, as⟩
    · exact ⟨[], cs.drop n, rfl, hrest⟩
    · exact ih a as hrest fun l hl => hjunk l (List.mem_cons_of_mem _ hl)
  | case4 p c cs n stop hcut =>
    rename_i ih
    exact fun a as h hjunk => hcons c cs n p bs (ih a as h hjunk)

theorem tight_of_infix (hjunk : ∀ l ∈ lexemesFrom p cs, l.terminal ≠ .junk) (h : t :: ts <:+: lexemesFrom p cs) :
    ∃ u w v, cs = u ++ w ++ v ∧ t.start = p.after u ∧ Tight (t :: ts) w := by
  obtain ⟨as, bs, hsplit⟩ := h
  rw [List.append_assoc] at hsplit
  have hmem : ∀ l, l ∈ as ∨ l ∈ t :: ts → l.terminal ≠ .junk := fun l hl => hjunk l <| by
    rw [← hsplit, List.mem_append, List.mem_append]
    exact hl.imp_right .inl
  obtain ⟨u, v, rfl, hv⟩ := lexemesFrom_suffix hsplit.symm fun l hl => hmem l (.inl hl)
  obtain ⟨g, w, tail, rfl, -, hstart, hw⟩ := tight_of_lexemes (fun l hl => hmem l (.inr hl)) hv
  refine ⟨u ++ g, w, tail, by simp only [List.append_assoc], ?_, hw⟩
  rw [hstart, Position.after_append]

/-! ## Places in lines -/

theorem toList_joined_singleton (line : String) : ("\n".intercalate [line]).toList = line.toList := by
  rw [String.toList_intercalate]
  exact List.intercalate_singleton

theorem toList_joined_cons (line next : String) (rest : List String) :
    ("\n".intercalate (line :: next :: rest)).toList =
      line.toList ++ '\n' :: ("\n".intercalate (next :: rest)).toList := by
  rw [String.toList_intercalate, String.toList_intercalate, List.map_cons, List.map_cons, List.intercalate_cons_cons,
    List.append_assoc]
  rfl

/-- What is written in some lines from a position on. -/
def Reaches (lines : List String) (p : Position) (rest : List Char) : Prop :=
  ∃ above here below left right, lines = above ++ here :: below ∧ here.toList = left ++ right ∧
    p = ⟨above.length + 1, Text.width left + 1⟩ ∧ rest = right ++ below.flatMap fun line => '\n' :: line.toList

theorem flatMap_lines (next : String) (rest : List String) :
    (next :: rest).flatMap (fun line => '\n' :: line.toList) = '\n' :: ("\n".intercalate (next :: rest)).toList := by
  induction rest generalizing next with
  | nil => rw [toList_joined_singleton, List.flatMap_singleton]
  | cons line rest ih => rw [List.flatMap_cons, ih, toList_joined_cons, List.cons_append]

theorem count_joined {line : String} {rest : List String} (hplain : ∀ l ∈ line :: rest, '\n' ∉ l.toList) :
    ("\n".intercalate (line :: rest)).toList.count '\n' = rest.length := by
  induction rest generalizing line with
  | nil =>
    rw [toList_joined_singleton]
    exact List.count_eq_zero_of_not_mem (hplain line List.mem_cons_self)
  | cons next rest ih =>
    obtain ⟨hline, hrest⟩ := List.forall_mem_cons.mp hplain
    rw [toList_joined_cons, List.count_append, List.count_eq_zero_of_not_mem hline, List.count_cons_self, ih hrest,
      Nat.zero_add, List.length_cons]

theorem after_newline {line : List Char} (h : '\n' ∉ line) (n : Int) (u : List Char) :
    (⟨n, 1⟩ : Position).after (line ++ '\n' :: u) = (⟨n + 1, 1⟩ : Position).after u := by
  rw [Position.after_append, Position.after_plain h]
  rfl

theorem after_joined {lines : List String} (hne : lines ≠ []) (hplain : ∀ l ∈ lines, '\n' ∉ l.toList) {u rest : List Char}
    (h : ("\n".intercalate lines).toList = u ++ rest) (n : Int) :
    ∃ above here below left right, lines = above ++ here :: below ∧ here.toList = left ++ right ∧
      (⟨n, 1⟩ : Position).after u = ⟨n + above.length, Text.width left + 1⟩ ∧
      rest = right ++ below.flatMap fun line => '\n' :: line.toList := by
  induction lines generalizing u n with
  | nil => exact absurd rfl hne
  | cons line lines ih =>
    obtain ⟨hline, hlines⟩ := List.forall_mem_cons.mp hplain
    have hbegin : ∀ {left right : List Char}, line.toList = left ++ right →
        (⟨n, 1⟩ : Position).after left = ⟨n + ([] : List String).length, Text.width left + 1⟩ := by
      intro left right hsplit
      rw [Position.after_plain fun hmem => hline (hsplit ▸ List.mem_append_left _ hmem), Int.add_comm 1]
      exact congrArg (Position.mk · _) (Int.add_zero n).symm
    rcases lines with _ | ⟨next, lines⟩
    · rw [toList_joined_singleton] at h
      exact ⟨[], line, [], u, rest, rfl, h, hbegin h, (List.append_nil rest).symm⟩
    · rw [toList_joined_cons] at h
      rcases List.append_eq_append_iff.mp h with ⟨v, rfl, hv⟩ | ⟨v, hv, rfl⟩
      · rcases List.cons_eq_append_iff.mp hv with ⟨rfl, rfl⟩ | ⟨v, rfl, htail⟩
        · rw [List.append_nil]
          refine ⟨[], line, next :: lines, line.toList, [], rfl, (List.append_nil _).symm,
            hbegin (List.append_nil _).symm, ?_⟩
          rw [flatMap_lines]
          rfl
        · obtain ⟨above, here, below, left, right, hsplit, hhere, hpos, hrest⟩ :=
            ih (List.cons_ne_nil _ _) hlines htail (n + 1)
          refine ⟨line :: above, here, below, left, right, by rw [hsplit, List.cons_append], hhere, ?_, hrest⟩
          rw [after_newline hline, hpos, List.length_cons]
          congr 1
          omega
      · refine ⟨[], line, next :: lines, u, v, rfl, hv, hbegin hv, ?_⟩
        rw [flatMap_lines]

theorem reaches_joined {front lines back : List String} (hne : lines ≠ []) (hplain : ∀ l ∈ lines, '\n' ∉ l.toList)
    {u rest : List Char} (h : ("\n".intercalate lines).toList = u ++ rest) :
    Reaches (front ++ lines ++ back) ((⟨front.length + 1, 1⟩ : Position).after u)
      (rest ++ back.flatMap fun line => '\n' :: line.toList) := by
  obtain ⟨above, here, below, left, right, rfl, hhere, hpos, rfl⟩ := after_joined hne hplain h (front.length + 1)
  refine ⟨front ++ above, here, below ++ back, left, right, ?_, hhere, ?_, ?_⟩
  · simp only [List.append_assoc, List.cons_append]
  · rw [hpos, List.length_append]
    congr 1
    omega
  · rw [List.flatMap_append, List.append_assoc]

end LayerLoops.Source
