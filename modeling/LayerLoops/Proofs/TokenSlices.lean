import LayerLoops.Proofs.LineTokens

/-! # Where the tokens of a line stand

A line is a row of codes. Its tokens are slices of it, one behind the other, and between them there are only blanks; a
number sign outside quoted texts ends the scan. A half of a character is held as two characters, and no token ends
between the two, so that the places of tokens are places of codes. -/

namespace LayerLoops

namespace Text

theorem ofCodes_cons (n : Nat) (ns : List Nat) : ofCodes (n :: ns) = ofCode n ++ ofCodes ns := List.flatMap_cons

theorem toNat_standIn {k : Nat} (small : k ≤ halfCount) : (Char.ofNat (firstStandIn + k)).toNat = firstStandIn + k := by
  unfold halfCount at small
  refine toNat_ofNat ?_ ?_
  · unfold firstStandIn codeLimit
    omega
  · rw [isHalf_iff]
    unfold firstStandIn
    omega

theorem isOther_standIn {s : Char} {k : Nat} (small : k ≤ halfCount) (hs : s.toNat = firstStandIn + k) :
    Source.isOther s = true := by
  have hne {d : Char} (hd : d.toNat < firstStandIn) : s ≠ d := by
    rintro rfl
    omega
  have hblank : isBlank s = false := by
    rw [← Bool.not_eq_true]
    intro hb
    simp only [isBlank, Bool.or_eq_true, Bool.and_eq_true, decide_eq_true_eq, beq_iff_eq] at hb
    unfold halfCount at small
    unfold firstStandIn at hs
    omega
  have hmark : Source.Delimiter.ofChar? s = none := by
    unfold Source.Delimiter.ofChar?
    split <;> first | rfl | exact absurd rfl (hne (by decide))
  rw [Source.isOther, hblank, hmark]
  simpa using hne (d := '#') (by decide)

theorem ofCode_cases {n : Nat} (small : n < codeLimit) :
    (ofCode n = [Char.ofNat n] ∧ Char.ofNat n ≠ mark) ∨
      ∃ s, ofCode n = [mark, s] ∧ s ≠ mark ∧ Source.isOther s = true := by
  have hpair {k : Nat} (hk : k ≤ halfCount) : ∃ s, [mark, Char.ofNat (firstStandIn + k)] = [mark, s] ∧ s ≠ mark ∧
      Source.isOther s = true := by
    have hcode := toNat_standIn hk
    refine ⟨_, rfl, fun same => ?_, isOther_standIn hk hcode⟩
    rw [same, toNat_mark] at hcode
    unfold firstStandIn at hcode
    unfold halfCount at hk
    omega
  unfold ofCode
  split
  next half =>
    obtain ⟨low, high⟩ := isHalf_iff.mp half
    right
    apply hpair
    unfold firstHalf halfCount
    omega
  next whole =>
    split
    next => exact .inr (hpair (Nat.le_refl _))
    next other =>
      refine .inl ⟨rfl, fun same => other ?_⟩
      rw [← toNat_ofNat small whole, same]

theorem width_ofCodes {ns : List Nat} (small : ∀ n ∈ ns, n < codeLimit) : width (ofCodes ns) = ns.length := by
  induction ns with
  | nil => rfl
  | cons n ns ih =>
    obtain ⟨hn, hns⟩ := List.forall_mem_cons.mp small
    have hone : width (ofCode n) = 1 := by
      rcases ofCode_cases hn with ⟨hplain, hne⟩ | ⟨s, hpair, hne, -⟩
      · rw [hplain, width, List.countP_singleton, if_pos (by simpa using hne)]
      · simp [hpair, width, hne]
    have happend : width (ofCode n ++ ofCodes ns) = width (ofCode n) + width (ofCodes ns) := List.countP_append
    rw [ofCodes_cons, happend, hone, ih hns, List.length_cons, Nat.add_comm]

theorem ofCodes_eq_append {ns : List Nat} (small : ∀ n ∈ ns, n < codeLimit) {us vs : List Char}
    (h : ofCodes ns = us ++ vs) : (∃ as bs, ns = as ++ bs ∧ us = ofCodes as ∧ vs = ofCodes bs) ∨
      us.getLast? = some mark ∧ ∃ s, s ∈ vs.head? ∧ Source.isOther s = true := by
  induction ns generalizing us with
  | nil =>
    obtain ⟨hus, hvs⟩ := List.append_eq_nil_iff.mp h.symm
    exact .inl ⟨[], [], rfl, hus, hvs⟩
  | cons n ns ih =>
    obtain ⟨hn, hns⟩ := List.forall_mem_cons.mp small
    rw [ofCodes_cons] at h
    rcases us with _ | ⟨u, us⟩
    · exact .inl ⟨[], n :: ns, rfl, rfl, by rw [ofCodes_cons, h]; rfl⟩
    -- The first code is cut off as a whole, or the cut is behind its mark.
    have hrest {us' : List Char} (hus : ofCodes ns = us' ++ vs) (hcode : u :: us = ofCode n ++ us')
        (hlast : us'.getLast? = some mark → (u :: us).getLast? = some mark) :
        (∃ as bs, n :: ns = as ++ bs ∧ u :: us = ofCodes as ∧ vs = ofCodes bs) ∨
          (u :: us).getLast? = some mark ∧ ∃ s, s ∈ vs.head? ∧ Source.isOther s = true := by
      rcases ih hns hus with ⟨as, bs, rfl, rfl, rfl⟩ | ⟨hmark, hnext⟩
      · exact .inl ⟨n :: as, bs, rfl, by rw [hcode, ofCodes_cons], rfl⟩
      · exact .inr ⟨hlast hmark, hnext⟩
    have hlast (xs : List Char) {us' : List Char} (h : us'.getLast? = some mark) : (xs ++ us').getLast? = some mark := by
      rw [List.getLast?_append, h]
      rfl
    rcases ofCode_cases hn with ⟨hplain, -⟩ | ⟨s, hpair, -, hother⟩
    · rw [hplain] at h hrest
      obtain ⟨rfl, hus⟩ := List.cons.inj h
      exact hrest hus rfl fun hm => hlast [Char.ofNat n] hm
    · rw [hpair] at h hrest
      obtain ⟨rfl, hus⟩ := List.cons.inj h
      rcases us with _ | ⟨w, us⟩
      · have hvs : s :: ofCodes ns = vs := hus
        exact .inr ⟨rfl, s, by rw [← hvs]; rfl, hother⟩
      · obtain ⟨rfl, htail⟩ := List.cons.inj hus
        exact hrest htail rfl fun hm => hlast [mark, s] hm

theorem ofCode_toNat {c : Char} (plain : c ≠ mark) : ofCode c.toNat = [c] := by
  have hvalid : ¬ isHalf c.toNat = true := by
    rw [isHalf_iff]
    rcases c.valid with low | ⟨high, -⟩ <;> unfold Char.toNat <;> omega
  rw [ofCode, if_neg hvalid, if_neg (fun same => plain (Char.toNat_inj.mp same)), Char.ofNat_toNat]

theorem mem_ofCodes {c : Char} (plain : c ≠ mark) {ns : List Nat} (h : c.toNat ∈ ns) : c ∈ ofCodes ns :=
  List.mem_flatMap.mpr ⟨c.toNat, h, by rw [ofCode_toNat plain]; exact List.mem_singleton_self c⟩

theorem exists_of_mem_codes {p : Char → Bool} {n : Nat} {ns : List Nat} (small : ∀ n ∈ ns, n < codeLimit) (hn : n ∈ ns)
    (hmark : p mark = false) (h : ∀ c ∈ ofCodes ns, p c = true) : ∃ c : Char, c.toNat = n ∧ p c = true := by
  have hheld {c : Char} (hc : c ∈ ofCode n) : p c = true := h c (List.mem_flatMap.mpr ⟨n, hn, hc⟩)
  rcases ofCode_cases (small n hn) with ⟨hplain, hne⟩ | ⟨s, hpair, -, -⟩
  · have hcode : codes (ofCode n ++ []) = [n] := codes_ofCode_append (small n hn) []
    rw [hplain, List.append_nil, codes_cons_of_ne hne] at hcode
    exact ⟨Char.ofNat n, (List.cons.inj hcode).1, hheld (by rw [hplain]; exact List.mem_singleton_self _)⟩
  · have hheld := hheld (c := mark) (by rw [hpair]; exact List.mem_cons_self)
    rw [hheld] at hmark
    cases hmark

end Text

namespace Source

/-! ## One token -/

/-- What a token of a kind holds. -/
def TokenKind.Holds : TokenKind → List Char → Prop
  | .text, cs => ∃ q body, (q = '\'' ∨ q = '"') ∧ q ∉ body ∧ cs = q :: (body ++ [q])
  | .number, cs => IsDigits cs
  | .name, cs => ∃ c w, cs = c :: w ∧ isNameStart c = true ∧ ∀ d ∈ w, isNameChar d = true
  | .delimiter d, cs => ∃ c, Delimiter.ofChar? c = some d ∧ cs = [c]
  | .other, cs => cs ≠ [] ∧ ∀ c ∈ cs, isOther c = true

/-- The characters that are cut off a line hold a token, or are blank. -/
def Munched (kind : Option TokenKind) (cs : List Char) : Prop :=
  match kind with
  | some k => k.Holds cs
  | none => ∀ c ∈ cs, Text.isBlank c = true

/-- The cut is not behind a mark, or what follows does not run on. -/
def Ends (cs rest : List Char) : Prop := cs.getLast? ≠ some Text.mark ∨ ∀ d ∈ rest.head?, isOther d = false

theorem ends_of_all {p : Char → Bool} (hp : p Text.mark = false) {cs : List Char} (h : ∀ c ∈ cs, p c = true)
    (rest : List Char) : Ends cs rest := by
  refine .inl fun hlast => ?_
  rw [h Text.mark (List.mem_of_getLast? hlast)] at hp
  cases hp

theorem munch_spec {c : Char} (hc : c ≠ '#') (cs : List Char) :
    Munched (munch c cs).1 (c :: cs.take (munch c cs).2) ∧
      Ends (c :: cs.take (munch c cs).2) (cs.drop (munch c cs).2) := by
  have hnumber {n : Nat} (hdigit : Decimal.isDigit c = true) (hn : n ≤ run Decimal.isDigit cs) :
      Munched (some .number) (c :: cs.take n) ∧ Ends (c :: cs.take n) (cs.drop n) := by
    have hall : ∀ d ∈ c :: cs.take n, Decimal.isDigit d = true :=
      List.forall_mem_cons.mpr ⟨hdigit, fun d hd => mem_take_run (List.take_subset_take_left cs hn hd)⟩
    exact ⟨⟨List.cons_ne_nil _ _, hall⟩, ends_of_all (p := Decimal.isDigit) (by decide) hall _⟩
  unfold munch
  dsimp only
  split
  next hquoted =>
    obtain ⟨hquote, hmem⟩ : (c = '\'' ∨ c = '"') ∧ c ∈ cs := by simpa using hquoted
    obtain ⟨body, rest, rfl, hbody⟩ := List.eq_append_cons_of_mem hmem
    have htake : (body ++ c :: rest).take (body.length + 1) = body ++ [c] := by
      simp [List.take_append, List.take_of_length_le]
    rw [run_quoted hbody, htake]
    refine ⟨⟨c, body, hquote, hbody, rfl⟩, .inl fun hlast => ?_⟩
    rw [← List.cons_append, List.getLast?_concat] at hlast
    have hmark := Option.some.inj hlast
    rcases hquote with rfl | rfl <;> exact absurd hmark (by decide)
  next =>
    split
    next hdigits => exact hnumber (Bool.and_eq_true_iff.mp hdigits).1 (Nat.le_refl _)
    next =>
      split
      next hdigits => exact hnumber (Bool.and_eq_true_iff.mp hdigits).1 (Nat.sub_le _ 1)
      next =>
        split
        next hname =>
          have hall : ∀ d ∈ cs.take (run isNameChar cs), isNameChar d = true := fun d hd => mem_take_run hd
          refine ⟨⟨c, _, rfl, hname, hall⟩, ends_of_all (p := isNameChar) (by decide) ?_ _⟩
          exact List.forall_mem_cons.mpr ⟨isNameChar_of_isNameStart hname, hall⟩
        next =>
          split
          next d hd =>
            refine ⟨⟨c, hd, rfl⟩, .inl fun hlast => ?_⟩
            have hmark : c = Text.mark := by simpa using hlast
            rw [hmark] at hd
            cases hd
          next hdelim =>
            split
            next hblank =>
              have hall : ∀ d ∈ c :: cs.take (run Text.isBlank cs), Text.isBlank d = true :=
                List.forall_mem_cons.mpr ⟨hblank, fun d hd => mem_take_run hd⟩
              exact ⟨hall, ends_of_all (p := Text.isBlank) (by decide) hall _⟩
            next hblank =>
              refine ⟨⟨List.cons_ne_nil _ _, List.forall_mem_cons.mpr ⟨?_, fun d hd => mem_take_run hd⟩⟩, .inr ?_⟩
              · simp [isOther, hblank, hdelim, hc]
              · exact fun d hd => drop_run hd

/-! ## The cuts of a line -/

def Token.codes (t : Token) : List Nat := Text.codes t.chars

/-- The place behind a token. -/
def Token.stop (t : Token) : Nat := t.start + t.codes.length

/-- How a line is cut from the place `i` on: token after token, blank after blank, up to the place `j` where it ends or
a comment starts. -/
inductive Cuts (row : List Nat) : Nat → List Token → Nat → Prop
  | done {i : Nat} (rest : i = row.length ∨ row[i]? = some '#'.toNat) : Cuts row i [] i
  | blank {i j : Nat} {c : Char} {ts : List Token} (code : row[i]? = some c.toNat) (blank : Text.isBlank c = true)
      (tail : Cuts row (i + 1) ts j) : Cuts row i ts j
  | token {j : Nat} {t : Token} {ts : List Token} (filled : t.codes ≠ []) (slice : t.codes <+: row.drop t.start)
      (whole : t.chars = Text.ofCodes t.codes) (holds : t.kind.Holds t.chars) (tail : Cuts row t.stop ts j) :
      Cuts row t.start (t :: ts) j

theorem Cuts.blanks {row before as bs : List Nat} {ts : List Token} {j : Nat} (hrow : row = before ++ (as ++ bs))
    (hblank : ∀ n ∈ as, ∃ c : Char, c.toNat = n ∧ Text.isBlank c = true)
    (tail : Cuts row (before.length + as.length) ts j) : Cuts row before.length ts j := by
  induction as generalizing before with
  | nil => exact tail
  | cons n as ih =>
    obtain ⟨⟨c, rfl, hc⟩, has⟩ := List.forall_mem_cons.mp hblank
    have hcode : row[before.length]? = some c.toNat := by
      rw [hrow, List.getElem?_append_right (Nat.le_refl _), Nat.sub_self]
      rfl
    refine .blank hcode hc ?_
    rw [← List.length_singleton (a := c.toNat), ← List.length_append]
    refine ih (by rw [hrow, List.append_assoc]; rfl) has ?_
    convert tail using 1
    simp only [List.length_append, List.length_cons, List.length_nil]
    omega

theorem cuts_tokensFrom (before : List Nat) {rest : List Nat} (small : ∀ n ∈ rest, n < Text.codeLimit) :
    ∃ j, Cuts (before ++ rest) before.length (tokensFrom before.length (Text.ofCodes rest)) j := by
  -- One cut takes at least one code, so the induction is on the number of codes that are left.
  induction hlen : rest.length using Nat.strong_induction_on generalizing before rest with
  | _ k ih =>
  rcases hchars : Text.ofCodes rest with _ | ⟨c, cs⟩
  · have hnil : rest = [] := by rw [← Text.codes_ofCodes small, hchars]; rfl
    subst hnil
    rw [tokensFrom]
    exact ⟨before.length, .done (.inl (by rw [List.append_nil]))⟩
  by_cases hc : c = '#'
  · have hrest : rest = '#'.toNat :: Text.codes cs := by
      rw [← Text.codes_ofCodes small, hchars, hc]
      exact Text.codes_cons_of_ne (by decide) cs
    rw [tokensFrom, if_pos hc]
    exact ⟨before.length, .done (.inr (by rw [hrest]; simp))⟩
  obtain ⟨hheld, hends⟩ := munch_spec hc cs
  have hsplit : Text.ofCodes rest = (c :: cs.take (munch c cs).2) ++ cs.drop (munch c cs).2 := by
    rw [hchars, List.cons_append, List.take_append_drop]
  rcases Text.ofCodes_eq_append small hsplit with ⟨as, bs, rfl, has, hbs⟩ | ⟨hmark, s, hs, hother⟩
  swap
  · rcases hends with hlast | hnext
    · exact absurd hmark hlast
    · rw [hnext s hs] at hother
      cases hother
  have hsmall := List.forall_mem_append.mp small
  have hpos : 0 < as.length := by
    rcases as with _ | ⟨a, as⟩
    · cases has
    · exact Nat.succ_pos _
  obtain ⟨j, hcuts⟩ := ih bs.length (by rw [← hlen, List.length_append]; omega) (before ++ as) hsmall.2 rfl
  rw [List.append_assoc, List.length_append] at hcuts
  rw [tokensFrom_cons hc, has, hbs, Text.width_ofCodes hsmall.1]
  rw [has] at hheld
  refine ⟨j, ?_⟩
  rcases hkind : (munch c cs).1 with _ | kind <;> rw [hkind] at hheld
  · exact hcuts.blanks rfl fun n hn => Text.exists_of_mem_codes hsmall.1 hn (by decide) hheld
  · have hcodes : Token.codes ⟨kind, Text.ofCodes as, before.length⟩ = as := Text.codes_ofCodes hsmall.1
    refine .token (t := ⟨kind, Text.ofCodes as, before.length⟩) ?_ ?_ ?_ hheld ?_
    · rw [hcodes]
      exact List.ne_nil_of_length_pos hpos
    · rw [hcodes, List.drop_left]
      exact List.prefix_append as bs
    · rw [hcodes]
    · rw [Token.stop, hcodes]
      exact hcuts

namespace Cuts

variable {row : List Nat} {i j : Nat} {ts : List Token}

theorem le (h : Cuts row i ts j) : i ≤ j := by
  induction h with
  | done => exact Nat.le_refl _
  | blank _ _ _ ih => omega
  | token _ _ _ _ _ ih => exact Nat.le_trans (Nat.le_add_right _ _) ih

theorem start_le (h : Cuts row i ts j) : ∀ t ∈ ts, i ≤ t.start := by
  induction h with
  | done => exact List.forall_mem_nil _
  | blank _ _ _ ih => exact fun t ht => Nat.le_of_succ_le (ih t ht)
  | token _ _ _ _ _ ih =>
    exact List.forall_mem_cons.mpr ⟨Nat.le_refl _, fun t ht => Nat.le_trans (Nat.le_add_right _ _) (ih t ht)⟩

theorem stop_le (h : Cuts row i ts j) : ∀ t ∈ ts, t.stop ≤ j := by
  induction h with
  | done => exact List.forall_mem_nil _
  | blank _ _ _ ih => exact ih
  | token _ _ _ _ tail ih => exact List.forall_mem_cons.mpr ⟨tail.le, ih⟩

theorem pairwise (h : Cuts row i ts j) : ts.Pairwise fun t u => t.stop ≤ u.start := by
  induction h with
  | done => exact .nil
  | blank _ _ _ ih => exact ih
  | token _ _ _ _ tail ih => exact .cons tail.start_le ih

theorem slices (h : Cuts row i ts j) : ∀ t ∈ ts, t.codes ≠ [] ∧ t.codes <+: row.drop t.start ∧
    t.chars = Text.ofCodes t.codes ∧ t.kind.Holds t.chars := by
  induction h with
  | done => exact List.forall_mem_nil _
  | blank _ _ _ ih => exact ih
  | token filled slice whole holds _ ih => exact List.forall_mem_cons.mpr ⟨⟨filled, slice, whole, holds⟩, ih⟩

theorem rest (h : Cuts row i ts j) : j = row.length ∨ row[j]? = some '#'.toNat := by
  induction h with
  | done rest => exact rest
  | blank _ _ _ ih => exact ih
  | token _ _ _ _ _ ih => exact ih

theorem covers (h : Cuts row i ts j) {p : Nat} (low : i ≤ p) (high : p < j) :
    (∃ t ∈ ts, t.start ≤ p ∧ p < t.stop) ∨ ∃ c : Char, row[p]? = some c.toNat ∧ Text.isBlank c = true := by
  induction h with
  | done => omega
  | @blank i _ c _ code blank _ ih =>
    rcases Nat.eq_or_lt_of_le low with rfl | low
    · exact .inr ⟨c, code, blank⟩
    · exact ih low high
  | @token _ t _ _ _ _ _ _ ih =>
    by_cases hp : p < t.stop
    · exact .inl ⟨t, List.mem_cons_self, low, hp⟩
    · refine (ih (by omega) high).imp_left ?_
      rintro ⟨u, hu, hin⟩
      exact ⟨u, List.mem_cons_of_mem _ hu, hin⟩

end Cuts

/-! ## Marks outside quoted texts -/

/-- The place `p` is inside a quoted text. -/
def quoted (ts : List Token) (p : Nat) : Bool := ts.any fun t => t.kind == .text && (t.start ≤ p && p < t.stop)

/-- The character `c` stands at the place `p`, and not inside a quoted text. -/
def loose (row : List Nat) (ts : List Token) (c : Char) (p : Nat) : Bool := row[p]? == some c.toNat && !quoted ts p

theorem TokenKind.Holds.plain {k : TokenKind} {cs : List Char} (h : k.Holds cs) (hk : k ≠ .text) :
    (∃ c d, k = .delimiter d ∧ Delimiter.ofChar? c = some d ∧ cs = [c]) ∨
      (∀ d, k ≠ .delimiter d) ∧ ∀ c ∈ cs, isOther c = true := by
  cases k with
  | text => exact absurd rfl hk
  | number => exact .inr ⟨by rintro d ⟨⟩, fun c hc => isOther_of_isNameChar (isNameChar_of_isDigit (h.2 c hc))⟩
  | name =>
    obtain ⟨c, w, rfl, hc, hw⟩ := h
    refine .inr ⟨by rintro d ⟨⟩, List.forall_mem_cons.mpr ⟨?_, fun d hd => isOther_of_isNameChar (hw d hd)⟩⟩
    exact isOther_of_isNameChar (isNameChar_of_isNameStart hc)
  | delimiter d =>
    obtain ⟨c, hc, rfl⟩ := h
    exact .inl ⟨c, d, rfl, hc, rfl⟩
  | other => exact .inr ⟨by rintro d ⟨⟩, h.2⟩

theorem Delimiter.ofChar?_inj {b c : Char} {d : Delimiter} (hb : Delimiter.ofChar? b = some d)
    (hc : Delimiter.ofChar? c = some d) : b = c := by
  have hchar {a : Char} (ha : Delimiter.ofChar? a = some d) : some a = "();+,.=".toList[d.ctorIdx]? := by
    unfold Delimiter.ofChar? at ha
    split at ha <;> cases ha <;> rfl
  exact Option.some.inj ((hchar hb).trans (hchar hc).symm)

theorem ofChar?_of_isOther {c : Char} (h : isOther c = true) : Delimiter.ofChar? c = none := by
  simp only [isOther, Bool.and_eq_true, Option.isNone_iff_eq_none] at h
  exact h.1.2

theorem of_outside {c : Char} (h : c = '#' ∨ Text.isBlank c = true) :
    c ≠ Text.mark ∧ Delimiter.ofChar? c = none ∧ isOther c = false := by
  rcases h with rfl | h
  · decide
  · refine ⟨?_, (of_isBlank h).2.2.2.2, by rw [isOther, h]; rfl⟩
    rintro rfl
    exact absurd h (by decide)

section Loose

variable {row : List Nat} {j : Nat} {t : Token} {ts : List Token} {c : Char} {d : Delimiter}

theorem quoted_cons (t : Token) (ts : List Token) (p : Nat) :
    quoted (t :: ts) p = (t.kind == .text && (t.start ≤ p && p < t.stop) || quoted ts p) := rfl

theorem quoted_of_lt {p : Nat} (h : ∀ u ∈ ts, p < u.start) : quoted ts p = false := by
  refine List.any_eq_false.mpr fun u hu => ?_
  simp [Nat.not_le.mpr (h u hu)]

theorem loose_cons {p : Nat} (h : t.stop ≤ p) : loose row (t :: ts) c p = loose row ts c p := by
  rw [loose, loose, quoted_cons, decide_eq_false (Nat.not_lt.mpr h), Bool.and_false, Bool.and_false, Bool.false_or]

theorem getElem?_slice (slice : t.codes <+: row.drop t.start) {k : Nat} (hk : k < t.codes.length) :
    row[t.start + k]? = t.codes[k]? := by
  obtain ⟨rest, hrest⟩ := slice
  rw [← List.getElem?_drop, ← hrest, List.getElem?_append_left hk]

theorem filter_loose (hd : Delimiter.ofChar? c = some d) (slice : t.codes <+: row.drop t.start)
    (whole : t.chars = Text.ofCodes t.codes) (holds : t.kind.Holds t.chars) (behind : ∀ u ∈ ts, t.stop ≤ u.start) :
    (List.range' t.start t.codes.length).filter (loose row (t :: ts) c) =
      if t.kind == .delimiter d then [t.start] else [] := by
  have hmark {b : Char} {e : Delimiter} (hb : Delimiter.ofChar? b = some e) : b ≠ Text.mark := by
    rintro rfl
    cases hb
  by_cases hkind : t.kind = .text
  · rw [if_neg (by simp [hkind])]
    refine List.filter_eq_nil_iff.mpr fun p hp => ?_
    obtain ⟨low, high⟩ := List.mem_range'_1.mp hp
    simp [loose, quoted_cons, hkind, low, Token.stop, high]
  have hquoted {p : Nat} (hp : p < t.stop) : quoted (t :: ts) p = false := by
    rw [quoted_cons, quoted_of_lt fun u hu => Nat.lt_of_lt_of_le hp (behind u hu)]
    simp [hkind]
  rcases holds.plain hkind with ⟨b, e, he, hb, hchars⟩ | ⟨hnone, hother⟩
  · have hcodes : t.codes = [b.toNat] := by
      rw [Token.codes, hchars]
      exact Text.codes_cons_of_ne (hmark hb) []
    have hplace : row[t.start]? = some b.toNat := by
      simpa [hcodes] using getElem?_slice (k := 0) slice (by simp [hcodes])
    have hloose : loose row (t :: ts) c t.start = decide (b = c) := by
      rw [loose, hplace, hquoted (by simp [Token.stop, hcodes]), Bool.eq_iff_iff]
      simp [Char.toNat_inj]
    have hiff : b = c ↔ e = d := by
      refine ⟨?_, ?_⟩
      · rintro rfl
        exact Option.some.inj (hb.symm.trans hd)
      · rintro rfl
        exact Delimiter.ofChar?_inj hb hd
    rw [hcodes, List.length_singleton, List.range'_one, List.filter_singleton, hloose, he]
    simp [hiff]
  · rw [if_neg (by simpa using hnone d)]
    refine List.filter_eq_nil_iff.mpr fun p hp hloose => ?_
    obtain ⟨low, high⟩ := List.mem_range'_1.mp hp
    obtain ⟨k, rfl⟩ := Nat.exists_eq_add_of_le low
    have hcode : row[t.start + k]? = some c.toNat := by simpa using (Bool.and_eq_true_iff.mp hloose).1
    rw [getElem?_slice slice (by omega)] at hcode
    have hmem : c ∈ t.chars := by
      rw [whole]
      exact Text.mem_ofCodes (hmark hd) (List.mem_of_getElem? hcode)
    rw [ofChar?_of_isOther (hother c hmem)] at hd
    cases hd

end Loose

theorem Cuts.marks {row : List Nat} {i j : Nat} {ts : List Token} (h : Cuts row i ts j) {c : Char} {d : Delimiter}
    (hd : Delimiter.ofChar? c = some d) : (ts.filter fun t => t.kind == .delimiter d).map Token.start =
      (List.range' i (j - i)).filter (loose row ts c) := by
  induction h with
  | done => rw [Nat.sub_self]; rfl
  | @blank i j b ts code blank tail ih =>
    have hfirst : loose row ts c i = false := by
      have hne : b ≠ c := by
        rintro rfl
        rw [(of_isBlank blank).2.2.2.2] at hd
        cases hd
      simp [loose, code, Char.toNat_inj, hne]
    obtain ⟨k, rfl⟩ := Nat.exists_eq_add_of_le tail.le
    rw [ih, Nat.add_sub_cancel_left, Nat.add_assoc, Nat.add_sub_cancel_left, Nat.add_comm 1 k, List.range'_succ,
      List.filter_cons_of_neg (by rw [hfirst]; exact Bool.false_ne_true)]
  | @token j t ts filled slice whole holds tail ih =>
    obtain ⟨k, rfl⟩ := Nat.exists_eq_add_of_le tail.le
    have hbehind : (List.range' t.stop k).filter (loose row (t :: ts) c) =
        (List.range' t.stop k).filter (loose row ts c) :=
      List.filter_congr fun p hp => loose_cons (List.mem_range'_1.mp hp).1
    have hsplit : List.range' t.start (t.stop + k - t.start) =
        List.range' t.start t.codes.length ++ List.range' t.stop k := by
      rw [Token.stop, List.range'_append_1]
      congr 1
      omega
    rw [Nat.add_sub_cancel_left] at ih
    rw [hsplit, List.filter_append, filter_loose hd slice whole holds tail.start_le, hbehind, ← ih, List.filter_cons]
    split <;> rfl

theorem balance_eq_length (ts : List Token) :
    balance ts = ((ts.filter fun t => t.kind == .delimiter .lpar).length : Int) -
      (ts.filter fun t => t.kind == .delimiter .rpar).length := by
  rw [balance_eq_tally]
  induction ts with
  | nil => rfl
  | cons t ts ih =>
    have hweight : t.shape.weight = (if t.kind == .delimiter .lpar then 1 else 0) -
        (if t.kind == .delimiter .rpar then 1 else 0) := by
      unfold Shape.weight Token.weight Token.shape
      split <;> simp_all
    rw [List.map_cons, tally_cons, ih, hweight, ← List.countP_eq_length_filter, ← List.countP_eq_length_filter,
      ← List.countP_eq_length_filter, ← List.countP_eq_length_filter, List.countP_cons, List.countP_cons]
    push_cast
    omega

/-! ## The tokens of a line -/

/-- Tokens that make up a line as far as the place `stop`. -/
structure Slices (row : List Nat) (ts : List Token) (stop : Nat) : Prop where
  /-- Tokens stand one behind the other. -/
  ordered : ts.Pairwise fun t u => t.stop ≤ u.start
  /-- A token is the part of the line between two places, and not empty. -/
  slice : ∀ t ∈ ts, t.start < t.stop ∧ t.stop ≤ stop ∧ (row.drop t.start).take (t.stop - t.start) = t.codes ∧
    t.chars = Text.ofCodes t.codes ∧ t.column = t.start + 1
  holds : ∀ t ∈ ts, t.kind.Holds t.chars
  /-- What is in no token is blank. -/
  gaps : ∀ p < stop, (∃ t ∈ ts, t.start ≤ p ∧ p < t.stop) ∨
    ∃ c : Char, row[p]? = some c.toNat ∧ Text.isBlank c = true
  /-- Behind the last token and the blanks after it the line ends, or a comment starts. -/
  rest : stop = row.length ∨ row[stop]? = some '#'.toNat
  /-- A token with a number sign or a blank is a quoted text. -/
  plain : ∀ t ∈ ts, ∀ c : Char, c.toNat ∈ t.codes → c = '#' ∨ Text.isBlank c = true → t.kind = .text
  /-- A delimiter before the comment is a token of its own, or inside a quoted text. -/
  marks : ∀ c d, Delimiter.ofChar? c = some d →
    (ts.filter fun t => t.kind == .delimiter d).map Token.start = (List.range stop).filter (loose row ts c)
  /-- The parentheses that count are those outside quoted texts. -/
  balance : balance ts =
    ((List.range stop).countP (loose row ts '(') : Int) - (List.range stop).countP (loose row ts ')')

theorem tokens_slices {ns : List Nat} (small : ∀ n ∈ ns, n < Text.codeLimit) :
    ∃ stop, Slices ns (tokens (String.ofList (Text.ofCodes ns))) stop := by
  obtain ⟨j, hcuts⟩ := cuts_tokensFrom [] small
  rw [List.nil_append, List.length_nil] at hcuts
  have hmarks {c : Char} {d : Delimiter} (hd : Delimiter.ofChar? c = some d) := hcuts.marks hd
  rw [Nat.sub_zero, ← List.range_eq_range'] at hmarks
  rw [tokens, String.toList_ofList]
  refine ⟨j, hcuts.pairwise, fun t ht => ?_, fun t ht => (hcuts.slices t ht).2.2.2,
    fun p hp => hcuts.covers (Nat.zero_le p) hp, hcuts.rest, fun t ht c hc hblank => ?_, fun c d hd => hmarks hd, ?_⟩
  · obtain ⟨filled, slice, whole, -⟩ := hcuts.slices t ht
    have hpos := List.length_pos_iff.mpr filled
    refine ⟨Nat.lt_add_of_pos_right hpos, hcuts.stop_le t ht, ?_, whole, rfl⟩
    rw [Token.stop, Nat.add_sub_cancel_left]
    exact (List.prefix_iff_eq_take.mp slice).symm
  · by_contra hkind
    obtain ⟨hmark, hdelim, hother⟩ := of_outside hblank
    obtain ⟨-, -, whole, holds⟩ := hcuts.slices t ht
    have hmem : c ∈ t.chars := by
      rw [whole]
      exact Text.mem_ofCodes hmark hc
    rcases holds.plain hkind with ⟨b, d, -, hb, hchars⟩ | ⟨-, hall⟩
    · rw [hchars, List.mem_singleton] at hmem
      rw [← hmem, hdelim] at hb
      cases hb
    · rw [hall c hmem] at hother
      cases hother
  · rw [balance_eq_length, List.countP_eq_length_filter, List.countP_eq_length_filter, ← hmarks rfl, ← hmarks rfl,
      List.length_map, List.length_map]

/-- A quoted text with a number sign and a parenthesis, a quote that stays open, a half and a comment. -/
def mixedLine : List Nat := Text.codes "add('#( ',12ab\")".toList ++ [0xD800, 0x20] ++ Text.codes "# x(".toList

theorem tokens_slices_mixedLine : (∀ n ∈ mixedLine, n < Text.codeLimit) ∧
    (tokens (String.ofList (Text.ofCodes mixedLine))).map (fun t => (t.kind, t.column, t.codes.length)) =
      [(.name, 1, 3), (.delimiter .lpar, 4, 1), (.text, 5, 5), (.delimiter .comma, 10, 1), (.number, 11, 1),
        (.other, 12, 4), (.delimiter .rpar, 16, 1), (.other, 17, 1)] ∧
    ∃ stop, Slices mixedLine (tokens (String.ofList (Text.ofCodes mixedLine))) stop := by
  have hsmall : ∀ n ∈ mixedLine, n < Text.codeLimit := List.all_iff_forall_prop.mp (by decide +kernel)
  exact ⟨hsmall, by decide +kernel, tokens_slices hsmall⟩

end Source
end LayerLoops
