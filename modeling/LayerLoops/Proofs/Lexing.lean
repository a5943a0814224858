import LayerLoops.Proofs.Grammar
import Mathlib.Data.Bool.AllAny
import Mathlib.Data.List.TakeWhile

/-! # The lexemes of a text

Cutting a text takes the longest terminal at each place. So the lexemes of a text hold its terminals, unless one of
them is junk, and a text with junk has no terminals. -/

namespace LayerLoops.Source

variable {c q : Char} {cs v : List Char} {n : Nat} {t : Terminal}

/-! ## Runs of characters -/

variable {p : Char → Bool}

theorem take_run (p : Char → Bool) (cs : List Char) : cs.take (run p cs) = cs.takeWhile p :=
  (List.prefix_iff_eq_take.mp (List.takeWhile_prefix p)).symm

theorem mem_take_run (h : c ∈ cs.take (run p cs)) : p c = true := by
  rw [take_run] at h
  exact List.mem_takeWhile_imp h

theorem drop_run (h : c ∈ (cs.drop (run p cs)).head?) : p c = false := by
  induction cs with
  | nil => cases h
  | cons d cs ih =>
    rw [run, List.takeWhile_cons] at h
    by_cases hd : p d = true
    · rw [if_pos hd] at h
      exact ih h
    · rw [if_neg hd] at h
      cases h
      exact Bool.eq_false_iff.mpr hd

theorem run_le_length (p : Char → Bool) (cs : List Char) : run p cs ≤ cs.length := (List.takeWhile_prefix p).length_le

theorem length_le_run (h : v <+: cs) (hv : ∀ c ∈ v, p c = true) : v.length ≤ run p cs := by
  obtain ⟨rest, rfl⟩ := h
  rw [run, List.takeWhile_append_of_pos hv, List.length_append]
  exact Nat.le_add_right _ _

theorem run_append (hv : ∀ c ∈ v, p c = true) {rest : List Char} (hr : ∀ c ∈ rest.head?, p c = false) :
    run p (v ++ rest) = v.length := by
  have hstop : rest.takeWhile p = [] := by
    cases rest with
    | nil => rfl
    | cons c rest => rw [List.takeWhile_cons_of_neg (by rw [hr c rfl]; decide)]
  rw [run, List.takeWhile_append_of_pos hv, hstop, List.append_nil]

theorem digits_prefix (h : IsDigits v) (hv : v <+: cs) : v.length ≤ run Decimal.isDigit cs :=
  length_le_run hv h.2

theorem isDigits_take (h : run Decimal.isDigit cs ≠ 0) : IsDigits (cs.take (run Decimal.isDigit cs)) := by
  refine ⟨?_, fun c hc => mem_take_run hc⟩
  rw [take_run]
  exact fun hnil => h (congrArg List.length hnil)

/-! ## Fractions -/

theorem signLength_of_digit (hc : Decimal.isDigit c = true) (cs : List Char) : signLength (c :: cs) = 0 := by
  have hsign : ∀ d ∈ ['+', '-'], Decimal.isDigit d = false :=
    List.all_iff_forall_prop.mp (by decide)
  rw [signLength, if_neg]
  intro hs
  have hmem : c ∈ ['+', '-'] := by simpa using hs
  rw [hsign c hmem] at hc
  cases hc

theorem exponent_prefix {es : List Char} (h : IsExponent es) (hes : es <+: cs) : es.length ≤ exponentLength cs := by
  obtain ⟨e, sign, ds, he, hsign, hds, rfl⟩ := h
  obtain ⟨rest, rfl⟩ := hes
  have hletter : (e = 'e' || e = 'E') = true := by simpa using he
  obtain ⟨d, ds', rfl⟩ := List.exists_cons_of_ne_nil hds.1
  have hd : Decimal.isDigit d = true := hds.2 d List.mem_cons_self
  have hlength : signLength (sign ++ (d :: ds') ++ rest) = sign.length := by
    rcases hsign with rfl | rfl | rfl
    · exact signLength_of_digit hd _
    · rfl
    · rfl
  have hdrop : (sign ++ (d :: ds') ++ rest).drop sign.length = (d :: ds') ++ rest := by
    rw [List.append_assoc, List.drop_left]
  have hrun : (d :: ds').length ≤ run Decimal.isDigit ((d :: ds') ++ rest) := digits_prefix hds (List.prefix_append _ _)
  rw [List.cons_append, exponentLength, hlength, hdrop, hletter]
  rw [List.length_cons] at hrun
  rw [if_pos (by simp only [Bool.true_and, bne_iff_ne]; omega), List.length_cons, List.length_append, List.length_cons]
  omega

theorem exponentLength_le (cs : List Char) : exponentLength cs ≤ cs.length := by
  cases cs with
  | nil => exact le_refl _
  | cons e tail =>
    have hrun := run_le_length Decimal.isDigit (tail.drop (signLength tail))
    have hsign : signLength tail ≤ tail.length := by
      cases tail with
      | nil => exact le_refl _
      | cons s tail =>
        rw [signLength, List.length_cons]
        split <;> omega
    rw [List.length_drop] at hrun
    rw [exponentLength, List.length_cons]
    split <;> omega

theorem isExponent_take (h : exponentLength cs ≠ 0) : IsExponent (cs.take (exponentLength cs)) := by
  cases cs with
  | nil => exact absurd rfl h
  | cons e tail =>
    have hletter : ((e = 'e' || e = 'E') && run Decimal.isDigit (tail.drop (signLength tail)) != 0) = true := by
      by_contra hnot
      exact h (by rw [exponentLength]; exact if_neg hnot)
    rw [exponentLength, if_pos hletter, Nat.add_assoc, Nat.add_comm, List.take_succ_cons, List.take_add]
    rw [Bool.and_eq_true, bne_iff_ne] at hletter
    refine ⟨e, tail.take (signLength tail), _, by simpa using hletter.1, ?_, isDigits_take hletter.2, rfl⟩
    cases tail with
    | nil => exact .inl rfl
    | cons s tail =>
      rw [signLength]
      by_cases hs : (s = '+' || s = '-') = true
      · rw [if_pos hs]
        rcases (by simpa using hs : s = '+' ∨ s = '-') with rfl | rfl
        · exact .inr (.inl rfl)
        · exact .inr (.inr rfl)
      · rw [if_neg hs]
        exact .inl rfl

theorem fraction_prefix {fs : List Char} (h : IsFraction fs) (hfs : fs <+: cs) : fs.length ≤ fractionLength cs := by
  obtain ⟨ds, es, hds, hes, rfl⟩ := h
  obtain ⟨rest, rfl⟩ := hfs
  have hpos : ds.length ≠ 0 := fun hzero => hds.1 (List.length_eq_zero_iff.mp hzero)
  -- The digits are followed by the exponent, by other text that is no digit, or by more digits.
  have hrun : ds.length ≤ run Decimal.isDigit (ds ++ es ++ rest) :=
    digits_prefix hds (List.append_assoc ds es rest ▸ List.prefix_append _ _)
  rw [List.cons_append, fractionLength, if_neg (by omega), List.length_cons, List.length_append]
  rcases hes with rfl | hes
  · rw [List.length_nil]
    omega
  · have hfirst : ∀ c ∈ (es ++ rest).head?, Decimal.isDigit c = false := by
      obtain ⟨e, sign, ds', he, -, -, rfl⟩ := hes
      rintro c ⟨⟩
      rcases he with rfl | rfl <;> decide
    have hexact : run Decimal.isDigit (ds ++ es ++ rest) = ds.length := by
      rw [List.append_assoc]
      exact run_append hds.2 hfirst
    have hexponent := exponent_prefix hes (List.prefix_append es rest)
    rw [hexact, List.append_assoc, List.drop_left]
    omega

theorem fractionLength_le (cs : List Char) : fractionLength cs ≤ cs.length := by
  unfold fractionLength
  split
  · rename_i rest
    have hrun := run_le_length Decimal.isDigit rest
    have hexponent := exponentLength_le (rest.drop (run Decimal.isDigit rest))
    rw [List.length_drop] at hexponent
    rw [List.length_cons]
    dsimp only
    split <;> omega
  · exact Nat.zero_le _

theorem isFraction_take (h : fractionLength cs ≠ 0) : IsFraction (cs.take (fractionLength cs)) := by
  unfold fractionLength at h ⊢
  split at h
  · rename_i rest
    by_cases hn : run Decimal.isDigit rest = 0
    · exact absurd (if_pos hn) h
    · dsimp only
      rw [if_neg hn, Nat.add_assoc, Nat.add_comm, List.take_succ_cons, List.take_add]
      refine ⟨_, _, isDigits_take hn, ?_, rfl⟩
      by_cases he : exponentLength (rest.drop (run Decimal.isDigit rest)) = 0
      · rw [he]
        exact .inl rfl
      · exact .inr (isExponent_take he)
  · exact absurd rfl h

/-! ## Cutting -/

theorem not_skipped (h : isNameStart c = true ∨ Decimal.isDigit c = true ∨ c = '\'' ∨ c = '"' ∨
    ∃ t, Terminal.punctuation? c = some t) : isSpace c = false ∧ c ≠ '#' := by
  have hno : ∀ d ∈ [' ', '\t', Char.ofNat 12, '\r', '\n', '#'], isNameStart d = false ∧ Decimal.isDigit d = false ∧
      d ≠ '\'' ∧ d ≠ '"' ∧ Terminal.punctuation? d = none := List.all_iff_forall_prop.mp (by decide)
  have hmem : c ∉ [' ', '\t', Char.ofNat 12, '\r', '\n', '#'] := by
    intro hc
    obtain ⟨hname, hdigit, hsingle, hdouble, hmark⟩ := hno c hc
    rcases h with h | h | h | h | ⟨t, h⟩
    · rw [hname] at h
      cases h
    · rw [hdigit] at h
      cases h
    · exact hsingle h
    · exact hdouble h
    · rw [hmark] at h
      cases h
  simp only [List.mem_cons, List.not_mem_nil, or_false, not_or] at hmem
  simp [isSpace, hmem]

theorem isNameStart_of_isDigit (h : Decimal.isDigit c = true) : isNameStart c = false := by
  rw [← Bool.not_eq_true]
  intro hstart
  simp [Decimal.isDigit, Char.le_def, UInt32.le_iff_toNat_le] at h
  rw [isNameStart] at hstart
  delta Char.isAlpha Char.isUpper Char.isLower at hstart
  simp [UInt32.le_iff_toNat_le] at hstart
  rcases hstart with hletter | rfl
  · omega
  · exact absurd h (by decide)

theorem of_punctuation? (h : Terminal.punctuation? c = some t) :
    isNameStart c = false ∧ Decimal.isDigit c = false ∧ c ≠ '\'' ∧ c ≠ '"' ∧ t ≠ .junk := by
  unfold Terminal.punctuation? at h
  split at h <;> cases h <;> decide

theorem of_quote (h : q = '\'' ∨ q = '"') : isNameStart q = false ∧ Decimal.isDigit q = false := by
  rcases h with rfl | rfl <;> decide

theorem cut_name (h : isNameStart c = true) (cs : List Char) : cut c cs =
    (some (.name (String.ofList (c :: cs.take (run isNameChar cs)))), run isNameChar cs) := by
  obtain ⟨hspace, hhash⟩ := not_skipped (.inl h)
  rw [cut, if_neg (by simp [hspace]), if_neg hhash, if_pos h]

theorem cut_digit (h : Decimal.isDigit c = true) (cs : List Char) : cut c cs =
    if fractionLength (cs.drop (run Decimal.isDigit cs)) = 0 then
      (some (.integer (c :: cs.take (run Decimal.isDigit cs))), run Decimal.isDigit cs)
    else
      (some (.real (c :: cs.take (run Decimal.isDigit cs + fractionLength (cs.drop (run Decimal.isDigit cs))))),
        run Decimal.isDigit cs + fractionLength (cs.drop (run Decimal.isDigit cs))) := by
  obtain ⟨hspace, hhash⟩ := not_skipped (.inr (.inl h))
  rw [cut, if_neg (by simp [hspace]), if_neg hhash, if_neg (by simp [isNameStart_of_isDigit h]), if_pos h]

theorem cut_quote (hq : q = '\'' ∨ q = '"') (h : q ∈ cs) : cut q cs =
    (some (.text (String.ofList (cs.take (run (· != q) cs)))), run (· != q) cs + 1) := by
  obtain ⟨hspace, hhash⟩ := not_skipped (.inr (.inr (or_assoc.mp (.inl hq))))
  obtain ⟨hname, hdigit⟩ := of_quote hq
  rw [cut, if_neg (by simp [hspace]), if_neg hhash, if_neg (by simp [hname]), if_neg (by simp [hdigit]),
    if_pos (by simp [hq, h])]

theorem cut_mark (h : Terminal.punctuation? c = some t) (cs : List Char) : cut c cs = (some t, 0) := by
  obtain ⟨hspace, hhash⟩ := not_skipped (.inr (.inr (.inr (.inr ⟨t, h⟩))))
  obtain ⟨hname, hdigit, hsingle, hdouble, -⟩ := of_punctuation? h
  rw [cut, if_neg (by simp [hspace]), if_neg hhash, if_neg (by simp [hname]), if_neg (by simp [hdigit]),
    if_neg (by simp [hsingle, hdouble]), h]

theorem run_quoted {as : List Char} (h : q ∉ as) (bs : List Char) : run (· != q) (as ++ q :: bs) = as.length := by
  refine run_append (fun c hc => ?_) ?_
  · rw [bne_iff_ne]
    exact fun heq => h (heq ▸ hc)
  · rintro c ⟨⟩
    simp

theorem Terminal.Spells.ne_nil {w : List Char} (h : t.Spells w) : w ≠ [] := by
  cases h with
  | integer hds => exact hds.1
  | real hds _ => exact fun hnil => hds.1 (List.append_eq_nil_iff.mp hnil).1
  | name _ _ | text _ _ | mark _ => exact List.cons_ne_nil _ _

theorem spells_of_cut (h : cut c cs = (some t, n)) (ht : t ≠ .junk) : t.Spells (c :: cs.take n) := by
  by_cases hname : isNameStart c = true
  · rw [cut_name hname] at h
    cases h
    exact .name hname fun d hd => mem_take_run hd
  by_cases hdigit : Decimal.isDigit c = true
  · have hdigits : IsDigits (c :: cs.take (run Decimal.isDigit cs)) :=
      ⟨List.cons_ne_nil _ _, List.forall_mem_cons.mpr ⟨hdigit, fun d hd => mem_take_run hd⟩⟩
    rw [cut_digit hdigit] at h
    split at h
    · cases h
      exact .integer hdigits
    · rename_i hfraction
      cases h
      rw [List.take_add, ← List.cons_append]
      exact .real hdigits (isFraction_take hfraction)
  by_cases hquote : (c = '\'' ∨ c = '"') ∧ c ∈ cs
  · obtain ⟨hq, hmem⟩ := hquote
    rw [cut_quote hq hmem] at h
    cases h
    obtain ⟨as, bs, rfl, has⟩ := List.eq_append_cons_of_mem hmem
    rw [run_quoted has, List.take_left, List.take_length_add_append]
    exact .text hq has
  · have hopen : ((c = '\'' || c = '"') && cs.contains c) = false := by simpa using hquote
    simp only [cut, hname, hdigit, hopen, if_false, Bool.false_eq_true] at h
    split at h
    · cases h
    split at h
    · cases h
    split at h
    · rename_i hmark
      cases h
      exact .mark hmark
    · cases h
      exact absurd rfl ht

theorem cut_le_length {t : Option Terminal} (h : cut c cs = (t, n)) : n ≤ cs.length := by
  have hdigits := run_le_length Decimal.isDigit cs
  have hfraction := fractionLength_le (cs.drop (run Decimal.isDigit cs))
  rw [List.length_drop] at hfraction
  unfold cut at h
  dsimp only at h
  split_ifs at h with hspace hhash hname hdigit hwhole hquote
  · cases h
    exact Nat.zero_le _
  · cases h
    exact run_le_length _ cs
  · cases h
    exact run_le_length _ cs
  · cases h
    exact hdigits
  · cases h
    omega
  · cases h
    obtain ⟨as, bs, rfl, has⟩ := List.eq_append_cons_of_mem (by simpa using (Bool.and_eq_true_iff.mp hquote).2)
    rw [run_quoted has, List.length_append, List.length_cons]
    omega
  · split at h <;> cases h <;> exact Nat.zero_le _

theorem cut_of_spells {u : Terminal} (h : u.Spells v) (hv : v <+: c :: cs) :
    ∃ t n, cut c cs = (some t, n) ∧ t ≠ .junk ∧ v.length ≤ n + 1 ∧ (v.length = n + 1 → t = u) := by
  cases h with
  | @name d ds hd hds =>
    obtain ⟨rfl, hds'⟩ := List.cons_prefix_cons.mp hv
    refine ⟨_, _, cut_name hd cs, by simp, Nat.succ_le_succ (length_le_run hds' hds), fun hlen => ?_⟩
    rw [List.length_cons, Nat.add_right_cancel_iff] at hlen
    rw [← hlen, ← List.prefix_iff_eq_take.mp hds']
  | @integer ds hds =>
    obtain ⟨d, ds, rfl⟩ := List.exists_cons_of_ne_nil hds.1
    obtain ⟨rfl, hprefix⟩ := List.cons_prefix_cons.mp hv
    obtain ⟨hd, htail⟩ := List.forall_mem_cons.mp hds.2
    have hlen := length_le_run hprefix htail
    rw [cut_digit hd]
    split
    · refine ⟨_, _, rfl, by simp, Nat.succ_le_succ hlen, fun heq => ?_⟩
      rw [List.length_cons, Nat.add_right_cancel_iff] at heq
      rw [← heq, ← List.prefix_iff_eq_take.mp hprefix]
    · rename_i hfraction
      refine ⟨_, _, rfl, by simp, by rw [List.length_cons]; omega, fun heq => ?_⟩
      rw [List.length_cons] at heq
      omega
  | @real ds fs hds hfs =>
    obtain ⟨d, ds, rfl⟩ := List.exists_cons_of_ne_nil hds.1
    rw [List.cons_append] at hv
    obtain ⟨rfl, rest, rfl⟩ := List.cons_prefix_cons.mp hv
    obtain ⟨hd, htail⟩ := List.forall_mem_cons.mp hds.2
    have hpoint : ∀ c ∈ (fs ++ rest).head?, Decimal.isDigit c = false := by
      obtain ⟨_, _, -, -, rfl⟩ := hfs
      rintro c ⟨⟩
      decide
    have hrun : run Decimal.isDigit (ds ++ (fs ++ rest)) = ds.length := run_append htail hpoint
    have hlen := fraction_prefix hfs (List.prefix_append fs rest)
    have hpos : 0 < fs.length := by
      obtain ⟨_, _, -, -, rfl⟩ := hfs
      exact Nat.succ_pos _
    rw [List.append_assoc, cut_digit hd, hrun, List.drop_left, if_neg (by omega)]
    refine ⟨_, _, rfl, by simp, by rw [List.cons_append, List.length_cons, List.length_append]; omega, fun heq => ?_⟩
    rw [List.cons_append, List.length_cons, List.length_append] at heq
    have hfs' : fractionLength (fs ++ rest) = fs.length := by omega
    rw [hfs', List.take_length_add_append, List.take_left, List.cons_append]
  | @text q ds hq hds =>
    obtain ⟨rfl, rest, hcs⟩ := List.cons_prefix_cons.mp hv
    have hcs' : cs = ds ++ q :: rest := by rw [← hcs, List.append_assoc]; rfl
    rw [hcs', cut_quote hq (by simp), run_quoted hds, List.take_left]
    exact ⟨_, _, rfl, by simp, by simp, fun _ => rfl⟩
  | @mark d _ hd =>
    obtain ⟨rfl, -⟩ := List.cons_prefix_cons.mp hv
    exact ⟨u, 0, cut_mark hd cs, (of_punctuation? hd).2.2.2.2, le_refl _, fun _ => rfl⟩

/-! ## Lexemes -/

theorem cut_skips (h : cut c cs = (none, n)) : (isSpace c = true ∧ n = 0) ∨ (c = '#' ∧ n = run (· != '\n') cs) := by
  unfold cut at h
  dsimp only at h
  split_ifs at h with hspace hhash
  · cases h
    exact .inl ⟨hspace, rfl⟩
  · cases h
    exact .inr ⟨hhash, rfl⟩
  all_goals first | cases h | (split at h <;> cases h)

theorem cut_space (h : isSpace c = true) (cs : List Char) : cut c cs = (none, 0) := by
  rw [cut, if_pos h]

theorem cut_comment (cs : List Char) : cut '#' cs = (none, run (· != '\n') cs) := by
  rw [cut, if_neg (by decide), if_pos rfl]

theorem lexemesFrom_skip (h : cut c cs = (none, n)) (p : Position) :
    lexemesFrom p (c :: cs) = lexemesFrom (p.after (c :: cs.take n)) (cs.drop n) := by
  rw [lexemesFrom, h]

theorem lexemesFrom_cut (h : cut c cs = (some t, n)) (ht : t ≠ .junk) (p : Position) : lexemesFrom p (c :: cs) =
      ⟨t, p, p.after (c :: cs.take n)⟩ :: lexemesFrom (p.after (c :: cs.take n)) (cs.drop n) := by
  rw [lexemesFrom, h]
  cases t <;> first | rfl | exact absurd rfl ht

theorem lexes_of_lexemes {p : Position} (h : ∀ l ∈ lexemesFrom p cs, l.terminal ≠ .junk) :
    Lexes cs ((lexemesFrom p cs).map Lexeme.terminal) := by
  fun_induction lexemesFrom p cs with
  | case1 => exact .nil
  | case2 p c cs n stop hcut => exact absurd rfl (h _ List.mem_cons_self)
  | case3 p c cs n stop t hne hcut ih =>
    obtain ⟨ht, hrest⟩ := List.forall_mem_cons.mp h
    have hspells := spells_of_cut hcut ht
    have htext : (c :: cs.take n) ++ cs.drop n = c :: cs := by rw [List.cons_append, List.take_append_drop]
    rw [← htext, List.map_cons]
    refine .token hspells (fun u v hv hprefix => ?_) (ih hrest)
    rw [htext] at hprefix
    obtain ⟨t', m, hcut', -, hlen, -⟩ := cut_of_spells hv hprefix
    cases hcut.symm.trans hcut'
    have hle := hprefix.length_le
    rw [List.length_cons] at hle ⊢
    rw [List.length_take]
    omega
  | case4 p c cs n stop hcut ih =>
    rcases cut_skips hcut with ⟨hspace, rfl⟩ | ⟨rfl, rfl⟩
    · exact .space hspace (ih h)
    · have hline : '\n' ∉ cs.take (run (· != '\n') cs) := fun hmem => by simpa using mem_take_run hmem
      have hend : ∀ c ∈ (cs.drop (run (· != '\n') cs)).head?, c = '\n' := fun c hc => by simpa using drop_run hc
      have hcomment := Lexes.comment hline hend (ih h)
      rwa [List.take_append_drop] at hcomment

theorem Lexes.lexemes {ts : List Terminal} (h : Lexes cs ts) (p : Position) :
    (lexemesFrom p cs).map Lexeme.terminal = ts ∧ .junk ∉ ts := by
  induction h generalizing p with
  | nil =>
    rw [lexemesFrom]
    exact ⟨rfl, List.not_mem_nil⟩
  | @space c cs ts hc _ ih =>
    rw [lexemesFrom_skip (cut_space hc cs)]
    exact ih _
  | @comment body rest ts hbody hrest _ ih =>
    have hrun : run (· != '\n') (body ++ rest) = body.length := by
      refine run_append (fun c hc => ?_) fun c hc => ?_
      · rw [bne_iff_ne]
        exact fun heq => hbody (heq ▸ hc)
      · rw [hrest c hc]
        rfl
    rw [lexemesFrom_skip (cut_comment _), hrun, List.drop_left]
    exact ih _
  | @token t w rest ts hw hlongest _ ih =>
    obtain ⟨c, w, rfl⟩ := List.exists_cons_of_ne_nil hw.ne_nil
    rw [List.cons_append] at hlongest ⊢
    obtain ⟨t', n, hcut, hjunk, hle, heq⟩ := cut_of_spells hw
      (List.cons_prefix_cons.mpr ⟨rfl, List.prefix_append w rest⟩)
    -- What is cut off is not longer either.
    have hcutoff := hlongest t' _ (spells_of_cut hcut hjunk) (List.cons_prefix_cons.mpr ⟨rfl, List.take_prefix n _⟩)
    rw [List.length_cons, List.length_cons, List.length_take, List.length_append] at hcutoff
    rw [List.length_cons] at hle heq
    have hn : n = w.length := by
      have hbound := cut_le_length hcut
      rw [List.length_append] at hbound
      omega
    subst hn
    cases heq rfl
    rw [lexemesFrom_cut hcut hjunk, List.drop_left, List.map_cons, (ih _).1]
    exact ⟨rfl, fun hmem => (List.mem_cons.mp hmem).elim (fun h => hjunk h.symm) (ih p).2⟩

theorem lexes_iff {p : Position} {ts : List Terminal} :
    Lexes cs ts ↔ (lexemesFrom p cs).map Lexeme.terminal = ts ∧ .junk ∉ ts := by
  refine ⟨fun h => h.lexemes p, ?_⟩
  rintro ⟨rfl, hjunk⟩
  exact lexes_of_lexemes fun l hl heq => hjunk (heq ▸ List.mem_map_of_mem hl)

end LayerLoops.Source
