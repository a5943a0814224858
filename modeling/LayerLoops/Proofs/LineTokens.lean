import LayerLoops.Proofs.Layout
import Mathlib.Algebra.Ring.Int.Defs

/-! # Tokens of a line of statements

The scanner of lines cuts a text by rules of its own: a fraction falls apart, a sign is a delimiter, and what is neither
word nor number runs on to the next blank or delimiter. Where the terminals of a line stand beside each other as in a
statement, both views agree on names and marks, and so on the parentheses. -/

namespace LayerLoops.Source

variable {c : Char} {cs rest : List Char} {kss : List (List Shape)} {t : Terminal} {ts : List Terminal}

/-! ## Tokens without their places -/

abbrev Shape := TokenKind × List Char

def Token.shape (t : Token) : Shape := (t.kind, t.chars)

def Shape.weight (s : Shape) : Int := Token.weight ⟨s.1, s.2, 0⟩

def tally (ss : List Shape) : Int := (ss.map Shape.weight).sum

@[simp] theorem tally_nil : tally [] = 0 := rfl

@[simp] theorem tally_cons (s : Shape) (ss : List Shape) : tally (s :: ss) = s.weight + tally ss := by
  simp [tally]

@[simp] theorem tally_append (ss us : List Shape) : tally (ss ++ us) = tally ss + tally us := by
  simp [tally]

theorem balance_eq_tally (ts : List Token) : balance ts = tally (ts.map Token.shape) := by
  have hfold : ∀ n : Int, ts.foldl (fun n t => n + t.weight) n = n + tally (ts.map Token.shape) := by
    induction ts with
    | nil => exact fun n => (Int.add_zero n).symm
    | cons t ts ih =>
      intro n
      rw [List.foldl_cons, ih, List.map_cons, tally_cons, ← Int.add_assoc]
      rfl
  rw [balance, hfold, Int.zero_add]

def shapes (cs : List Char) : List Shape := (tokensFrom 0 cs).map Token.shape

theorem tokensFrom_cons (hc : c ≠ '#') (cs : List Char) (start : Nat) : tokensFrom start (c :: cs) =
      (((munch c cs).1.map fun k => ⟨k, c :: cs.take (munch c cs).2, start⟩).toList ++
        tokensFrom (start + Text.width (c :: cs.take (munch c cs).2)) (cs.drop (munch c cs).2)) := by
  rw [tokensFrom, if_neg hc]
  rcases munch c cs with ⟨_ | k, n⟩ <;> rfl

theorem map_shape_tokensFrom (start : Nat) (cs : List Char) : (tokensFrom start cs).map Token.shape = shapes cs := by
  have hsame : ∀ n (cs : List Char), cs.length ≤ n → ∀ i j,
      (tokensFrom i cs).map Token.shape = (tokensFrom j cs).map Token.shape := by
    intro n
    induction n with
    | zero =>
      intro cs hcs i j
      rw [List.length_eq_zero_iff.mp (Nat.le_zero.mp hcs), tokensFrom, tokensFrom]
    | succ n ih =>
      rintro (_ | ⟨c, cs⟩) hcs i j
      · rw [tokensFrom, tokensFrom]
      · by_cases hc : c = '#'
        · rw [tokensFrom, tokensFrom, if_pos hc, if_pos hc]
        · have hlength : (cs.drop (munch c cs).2).length ≤ n := by
            rw [List.length_cons] at hcs
            rw [List.length_drop]
            omega
          rw [tokensFrom_cons hc, tokensFrom_cons hc, List.map_append, List.map_append, ih _ hlength _
            (j + Text.width (c :: cs.take (munch c cs).2))]
          cases (munch c cs).1 <;> rfl
  exact hsame cs.length cs le_rfl start 0

theorem shapes_nil : shapes [] = [] := by
  rw [shapes, tokensFrom]
  rfl

theorem shapes_comment (cs : List Char) : shapes ('#' :: cs) = [] := by
  rw [shapes, tokensFrom, if_pos rfl]
  rfl

theorem shapes_skip {n : Nat} (hc : c ≠ '#') (h : munch c cs = (none, n)) : shapes (c :: cs) = shapes (cs.drop n) := by
  rw [shapes, tokensFrom_cons hc, h]
  exact map_shape_tokensFrom _ _

theorem shapes_munch {k : TokenKind} {n : Nat} (hc : c ≠ '#') (h : munch c cs = (some k, n)) :
    shapes (c :: cs) = (k, c :: cs.take n) :: shapes (cs.drop n) := by
  rw [shapes, tokensFrom_cons hc, h, List.map_append, map_shape_tokensFrom]
  rfl

/-! ## The first token -/

theorem isNameChar_of_isNameStart (h : isNameStart c = true) : isNameChar c = true := by
  unfold isNameStart at h
  unfold isNameChar Char.isAlphanum
  rcases Bool.or_eq_true_iff.mp h with h | h
  · rw [h]
    rfl
  · rw [h, Bool.or_true]

theorem not_blank_of_isNameChar (h : isNameChar c = true) : Text.isBlank c = false := by
  rw [← Bool.not_eq_true]
  intro hblank
  simp only [Text.isBlank, Bool.or_eq_true, Bool.and_eq_true, decide_eq_true_eq, beq_iff_eq] at hblank
  rw [isNameChar, Char.isAlphanum] at h
  delta Char.isAlpha Char.isUpper Char.isLower at h
  simp [Char.isDigit, UInt32.le_iff_toNat_le] at h
  have hnat : c.toNat = c.val.toNat := rfl
  rcases h with h | rfl
  · omega
  · revert hblank
    decide

theorem ofChar?_of_isNameChar (h : isNameChar c = true) : Delimiter.ofChar? c = none := by
  unfold Delimiter.ofChar?
  split <;> first | rfl | exact absurd h (by decide)

theorem isOther_of_isNameChar (h : isNameChar c = true) : isOther c = true := by
  have hhash : c ≠ '#' := by
    rintro rfl
    exact absurd h (by decide)
  rw [isOther, not_blank_of_isNameChar h, ofChar?_of_isNameChar h]
  simpa using hhash

theorem not_isNameChar (h : isOther c = false) : isNameChar c = false := by
  rw [← Bool.not_eq_true]
  intro hname
  rw [isOther_of_isNameChar hname] at h
  cases h

theorem of_isBlank (h : Text.isBlank c = true) :
    c ≠ '#' ∧ c ≠ '\'' ∧ c ≠ '"' ∧ isNameChar c = false ∧ Delimiter.ofChar? c = none := by
  refine ⟨?_, ?_, ?_, ?_, ?_⟩
  · rintro rfl
    exact absurd h (by decide)
  · rintro rfl
    exact absurd h (by decide)
  · rintro rfl
    exact absurd h (by decide)
  · rw [← Bool.not_eq_true]
    intro hname
    rw [not_blank_of_isNameChar hname] at h
    cases h
  · unfold Delimiter.ofChar?
    split <;> first | rfl | exact absurd h (by decide)

theorem isDigit_eq_false (h : isNameChar c = false) : Decimal.isDigit c = false := by
  rw [← Bool.not_eq_true]
  intro hdigit
  rw [isNameChar_of_isDigit hdigit] at h
  cases h

theorem isNameStart_eq_false (h : isNameChar c = false) : isNameStart c = false := by
  rw [← Bool.not_eq_true]
  intro hstart
  rw [isNameChar_of_isNameStart hstart] at h
  cases h

theorem munch_blank (h : Text.isBlank c = true) (cs : List Char) : munch c cs = (none, run Text.isBlank cs) := by
  obtain ⟨-, hsingle, hdouble, hname, hmark⟩ := of_isBlank h
  simp [munch, hsingle, hdouble, isDigit_eq_false hname, isNameStart_eq_false hname, hmark, h]

theorem shapes_blank (h : Text.isBlank c = true) (cs : List Char) : shapes (c :: cs) = shapes cs := by
  rw [shapes_skip (of_isBlank h).1 (munch_blank h cs)]
  cases cs with
  | nil => rfl
  | cons d ds =>
    by_cases hd : Text.isBlank d = true
    · rw [shapes_skip (of_isBlank hd).1 (munch_blank hd ds), run, List.takeWhile_cons_of_pos hd, List.length_cons,
        List.drop_succ_cons]
      rfl
    · rw [run, List.takeWhile_cons_of_neg hd]
      rfl

theorem not_hash_of_isNameChar (h : isNameChar c = true) : c ≠ '#' := by
  rintro rfl
  exact absurd h (by decide)

theorem not_quote_of_isNameChar (h : isNameChar c = true) : (decide (c = '\'') || decide (c = '"')) = false := by
  rw [← Bool.not_eq_true]
  intro hquote
  rcases (by simpa using hquote : c = '\'' ∨ c = '"') with rfl | rfl <;> exact absurd h (by decide)

theorem shapes_name {w : List Char} (hc : isNameStart c = true) (hw : ∀ d ∈ w, isNameChar d = true)
    (hrest : ∀ d ∈ rest.head?, isOther d = false) : shapes (c :: w ++ rest) = (.name, c :: w) :: shapes rest := by
  have hchar := isNameChar_of_isNameStart hc
  have hdigit : Decimal.isDigit c = false := by
    rw [← Bool.not_eq_true]
    intro hd
    rw [isNameStart_of_isDigit hd] at hc
    cases hc
  have hrun : run isNameChar (w ++ rest) = w.length := run_append hw fun d hd => not_isNameChar (hrest d hd)
  have hmunch : munch c (w ++ rest) = (some .name, w.length) := by
    simp [munch, not_quote_of_isNameChar hchar, hdigit, hc, hrun]
  rw [List.cons_append, shapes_munch (not_hash_of_isNameChar hchar) hmunch, List.take_left, List.drop_left]

theorem shapes_text {q : Char} (hq : q = '\'' ∨ q = '"') (hcs : q ∉ cs) (rest : List Char) :
    shapes (q :: (cs ++ [q]) ++ rest) = (.text, q :: (cs ++ [q])) :: shapes rest := by
  have hhash : q ≠ '#' := by rcases hq with rfl | rfl <;> decide
  have hmunch : munch q (cs ++ [q] ++ rest) = (some .text, (cs ++ [q]).length) := by
    have hrun : run (· != q) (cs ++ q :: rest) = cs.length := run_quoted hcs rest
    simp [munch, hq, hrun]
  rw [List.cons_append, shapes_munch hhash hmunch, List.take_left, List.drop_left]

theorem shapes_delimiter {d : Delimiter} (h : Delimiter.ofChar? c = some d) (rest : List Char) :
    shapes (c :: rest) = (.delimiter d, [c]) :: shapes rest := by
  have hname : isNameChar c = false := by
    rw [← Bool.not_eq_true]
    intro hname
    rw [ofChar?_of_isNameChar hname] at h
    cases h
  have hother : c ≠ '#' ∧ c ≠ '\'' ∧ c ≠ '"' := by
    refine ⟨?_, ?_, ?_⟩ <;>
      · rintro rfl
        cases h
  have hmunch : munch c rest = (some (.delimiter d), 0) := by
    simp [munch, hother, isDigit_eq_false hname, isNameStart_eq_false hname, h]
  rw [shapes_munch hother.1 hmunch]
  rfl

/-! ## Numbers -/

theorem shapes_digits {ds : List Char} (hds : IsDigits ds) (hrest : ∀ c ∈ rest.head?, isNameChar c = false) :
    shapes (ds ++ rest) = (.number, ds) :: shapes rest := by
  obtain ⟨d, ds, rfl⟩ := List.exists_cons_of_ne_nil hds.1
  have hd : Decimal.isDigit d = true := hds.2 d List.mem_cons_self
  have hchar := isNameChar_of_isDigit hd
  have hrun : run Decimal.isDigit (ds ++ rest) = ds.length :=
    run_append (fun c hc => hds.2 c (List.mem_cons_of_mem _ hc)) fun c hc => isDigit_eq_false (hrest c hc)
  have hmunch : munch d (ds ++ rest) = (some .number, ds.length) := by
    have hletter : rest.head?.any isNameStart = false := by
      cases hhead : rest.head? with
      | none => rfl
      | some c => exact isNameStart_eq_false (hrest c hhead)
    simp [munch, not_quote_of_isNameChar hchar, hd, hrun, hletter]
  rw [List.cons_append, shapes_munch (not_hash_of_isNameChar hchar) hmunch, List.take_left, List.drop_left]

theorem shapes_exponent {d : Char} {es : List Char} (hd : Decimal.isDigit d = true) (hes : IsExponent es)
    (hrest : ∀ c ∈ rest.head?, isOther c = false) :
    ∃ ks, shapes (d :: es ++ rest) = ks ++ shapes rest ∧ tally ks = 0 := by
  obtain ⟨e, sign, ds, he, hsign, hds, rfl⟩ := hes
  have hchar := isNameChar_of_isDigit hd
  have hletter : isNameStart e = true := by rcases he with rfl | rfl <;> decide
  have hother := isOther_of_isNameChar (isNameChar_of_isNameStart hletter)
  have hdigits : ∀ c ∈ ds, isOther c = true := fun c hc => isOther_of_isNameChar (isNameChar_of_isDigit (hds.2 c hc))
  have hnumber : ∀ c ∈ rest.head?, isNameChar c = false := fun c hc => not_isNameChar (hrest c hc)
  have hstart : isNameStart d = false := by
    rw [← Bool.not_eq_true]
    intro hstart
    rw [isNameStart_of_isDigit hd] at hstart
    cases hstart
  have hmunch : munch d (e :: (sign ++ ds) ++ rest) = (some .other, run isOther (e :: (sign ++ ds) ++ rest)) := by
    have hrun : run Decimal.isDigit (e :: (sign ++ (ds ++ rest))) = 0 := by
      rcases he with rfl | rfl <;> rfl
    simp [munch, not_quote_of_isNameChar hchar, hd, hrun, hletter, hstart, ofChar?_of_isNameChar hchar,
      not_blank_of_isNameChar hchar]
  rw [List.cons_append, shapes_munch (not_hash_of_isNameChar hchar) hmunch]
  by_cases hplus : sign = ['+']
  · -- the sign is a delimiter and ends the token
    subst hplus
    have hrun : run isOther (e :: (['+'] ++ ds) ++ rest) = 1 := by
      have hsplit : e :: (['+'] ++ ds) ++ rest = [e] ++ ('+' :: (ds ++ rest)) := rfl
      rw [hsplit, run_append (by simpa using hother) (by simp [isOther, Delimiter.ofChar?])]
      rfl
    rw [hrun]
    refine ⟨[(.other, [d, e]), (.delimiter .plus, ['+']), (.number, ds)], ?_, rfl⟩
    have hdrop : (e :: (['+'] ++ ds) ++ rest).drop 1 = '+' :: (ds ++ rest) := rfl
    rw [hdrop, shapes_delimiter rfl, shapes_digits hds hnumber]
    rfl
  · have hsigns : ∀ c ∈ sign, isOther c = true := by
      rcases hsign with rfl | rfl | rfl
      · simp
      · exact absurd rfl hplus
      · simp [isOther, Delimiter.ofChar?, Text.isBlank]
    have hall : ∀ c ∈ e :: (sign ++ ds), isOther c = true := by
      intro c hc
      rcases List.mem_cons.mp hc with rfl | hc
      · exact hother
      · exact (List.mem_append.mp hc).elim (hsigns c) (hdigits c)
    rw [run_append hall hrest, List.take_left, List.drop_left]
    exact ⟨[(.other, d :: e :: (sign ++ ds))], rfl, rfl⟩

theorem shapes_digits_exponent {ds es : List Char} (hds : IsDigits ds) (hes : IsExponent es)
    (hrest : ∀ c ∈ rest.head?, isOther c = false) :
    ∃ ks, shapes (ds ++ es ++ rest) = ks ++ shapes rest ∧ tally ks = 0 := by
  obtain ⟨ds, d, rfl⟩ : ∃ us u, ds = us ++ [u] :=
    ⟨_, _, (List.dropLast_append_getLast hds.1).symm⟩
  have hd : Decimal.isDigit d = true := hds.2 d (by simp)
  obtain ⟨ks, hks, hflat⟩ := shapes_exponent hd hes hrest
  rcases ds with _ | ⟨c, ds⟩
  · exact ⟨ks, hks, hflat⟩
  · have hc : Decimal.isDigit c = true := hds.2 c (by simp)
    have hchar := isNameChar_of_isDigit hc
    obtain ⟨e, es, rfl, hletter, hdigit⟩ : ∃ e us, es = e :: us ∧ isNameStart e = true ∧ Decimal.isDigit e = false := by
      obtain ⟨e, sign, xs, he, -, -, rfl⟩ := hes
      rcases he with rfl | rfl <;> exact ⟨_, _, rfl, rfl, rfl⟩
    have hrun : run Decimal.isDigit (ds ++ d :: e :: (es ++ rest)) = ds.length + 1 := by
      have hsplit : ds ++ d :: e :: (es ++ rest) = (ds ++ [d]) ++ e :: (es ++ rest) := by simp
      have hdigits : ∀ x ∈ ds ++ [d], Decimal.isDigit x = true := fun x hx => hds.2 x (List.mem_cons_of_mem _ hx)
      rw [hsplit, run_append hdigits (by rintro x ⟨⟩; exact hdigit), List.length_append, List.length_singleton]
    have hdrop : (ds ++ d :: e :: (es ++ rest)).drop (ds.length + 1) = e :: (es ++ rest) := by
      rw [List.drop_append]
      simp
    have hmunch : munch c (ds ++ d :: e :: (es ++ rest)) = (some .number, ds.length) := by
      simp [munch, not_quote_of_isNameChar hchar, hc, hrun, hdrop, hletter]
    have hsplit : c :: ds ++ [d] ++ (e :: es) ++ rest = c :: (ds ++ d :: e :: (es ++ rest)) := by simp
    refine ⟨(.number, c :: ds) :: ks, ?_, ?_⟩
    · rw [hsplit, shapes_munch (not_hash_of_isNameChar hchar) hmunch, List.take_left, List.drop_left, List.cons_append,
        ← hks]
      rfl
    · rw [tally_cons, hflat]
      rfl

theorem shapes_fraction {fs : List Char} (hfs : IsFraction fs) (hrest : ∀ c ∈ rest.head?, isOther c = false) :
    ∃ ks, shapes (fs ++ rest) = ks ++ shapes rest ∧ tally ks = 0 := by
  obtain ⟨ds, es, hds, hes, rfl⟩ := hfs
  have hpoint : shapes ('.' :: (ds ++ es) ++ rest) = (.delimiter .dot, ['.']) :: shapes (ds ++ es ++ rest) :=
    shapes_delimiter rfl _
  obtain ⟨ks, hks, hflat⟩ : ∃ ks, shapes (ds ++ es ++ rest) = ks ++ shapes rest ∧ tally ks = 0 := by
    rcases hes with rfl | hes
    · rw [List.append_nil, shapes_digits hds fun c hc => not_isNameChar (hrest c hc)]
      exact ⟨[(.number, ds)], rfl, rfl⟩
    · exact shapes_digits_exponent hds hes hrest
  refine ⟨(.delimiter .dot, ['.']) :: ks, ?_, ?_⟩
  · rw [hpoint, hks, List.cons_append]
  · rw [tally_cons, hflat]
    rfl

/-! ## Terminals as tokens -/

def Terminal.shape? : Terminal → Option Shape
  | .name s => some (.name, s.toList)
  | .dot => some (.delimiter .dot, ['.'])
  | .lpar => some (.delimiter .lpar, ['('])
  | .rpar => some (.delimiter .rpar, [')'])
  | .comma => some (.delimiter .comma, [','])
  | .equal => some (.delimiter .equal, ['='])
  | .semicolon => some (.delimiter .semicolon, [';'])
  | _ => none

def Terminal.weight (t : Terminal) : Int := t.shape?.elim 0 Shape.weight

/-- The tokens that a terminal is cut into: names and marks stay whole, and the pieces of any other terminal open and
close no parenthesis. -/
def Terminal.ShownAs (t : Terminal) (ks : List Shape) : Prop := tally ks = t.weight ∧ ∀ s ∈ t.shape?, ks = [s]

theorem shownAs_shape {s : Shape} (h : t.shape? = some s) : t.ShownAs [s] := by
  refine ⟨?_, fun k hk => ?_⟩
  · rw [Terminal.weight, h, tally_cons]
    exact Int.add_zero _
  · rw [Option.mem_def.mp hk] at h
    cases h
    rfl

theorem shownAs_flat {ks : List Shape} (h : t.shape? = none) (hks : tally ks = 0) : t.ShownAs ks := by
  refine ⟨?_, fun k hk => ?_⟩
  · rw [Terminal.weight, h, hks]
    rfl
  · rw [Option.mem_def.mp hk] at h
    cases h

theorem shape?_of_punctuation? (h : Terminal.punctuation? c = some t) :
    ∃ d, Delimiter.ofChar? c = some d ∧ t.shape? = some (.delimiter d, [c]) := by
  unfold Terminal.punctuation? at h
  split at h <;> cases h <;> exact ⟨_, rfl, rfl⟩

theorem Spells.shapes {w : List Char} (h : t.Spells w) (hrest : t.isWord = true → ∀ c ∈ rest.head?, isOther c = false) :
    ∃ ks, shapes (w ++ rest) = ks ++ shapes rest ∧ t.ShownAs ks := by
  cases h with
  | @name c cs hc hcs =>
    refine ⟨[(.name, c :: cs)], shapes_name hc hcs (hrest rfl), shownAs_shape ?_⟩
    rw [Terminal.shape?, String.toList_ofList]
  | integer hds =>
    exact ⟨[(.number, _)], shapes_digits hds fun c hc => not_isNameChar (hrest rfl c hc), shownAs_flat rfl rfl⟩
  | @real ds fs hds hfs =>
    obtain ⟨ks, hks, hflat⟩ := shapes_fraction hfs (hrest rfl)
    have hpoint : ∀ c ∈ (fs ++ rest).head?, isNameChar c = false := by
      obtain ⟨xs, es, -, -, rfl⟩ := hfs
      rintro c ⟨⟩
      rfl
    refine ⟨(.number, ds) :: ks, ?_, shownAs_flat rfl ?_⟩
    · rw [List.append_assoc, shapes_digits hds hpoint, hks, List.cons_append]
    · rw [tally_cons, hflat]
      rfl
  | text hq hcs => exact ⟨[(.text, _)], shapes_text hq hcs rest, shownAs_flat rfl rfl⟩
  | mark hc =>
    obtain ⟨d, hd, hshape⟩ := shape?_of_punctuation? hc
    exact ⟨[(.delimiter d, _)], shapes_delimiter hd rest, shownAs_shape hshape⟩

/-! ## Lines -/

theorem isOther_of_punctuation? (h : Terminal.punctuation? c = some t) : isOther c = false := by
  obtain ⟨d, hd, -⟩ := shape?_of_punctuation? h
  rw [isOther, hd]
  simp

theorem isBlank_of_isSpace (h : isSpace c = true) : Text.isBlank c = true := by
  rcases (by simpa [isSpace, or_assoc] using h : c = ' ' ∨ c = '\t' ∨ c = Char.ofNat 12 ∨ c = '\r' ∨ c = '\n') with
    rfl | rfl | rfl | rfl | rfl <;> decide

theorem Lexes.ends (h : Lexes cs ts) (ht : ∀ u ∈ ts.head?, Apart t u) (hword : t.isWord = true) :
    ∀ c ∈ cs.head?, isOther c = false := by
  cases h with
  | nil => rintro c ⟨⟩
  | space hc =>
    rintro c ⟨⟩
    rw [isOther, isBlank_of_isSpace hc]
    rfl
  | comment =>
    rintro c ⟨⟩
    rfl
  | @token u w rest ts hu =>
    have hmark := ht u rfl hword
    cases hu with
    | mark hc =>
      rintro c ⟨⟩
      exact isOther_of_punctuation? hc
    | _ => exact hmark.elim

theorem Lexes.shapes (h : Lexes cs ts) (hline : '\n' ∉ cs) (hapart : ts.IsChain Apart) :
    ∃ kss, shapes cs = kss.flatten ∧ List.Forall₂ Terminal.ShownAs ts kss := by
  induction h with
  | nil => exact ⟨[], shapes_nil, .nil⟩
  | @space c cs ts hc _ ih =>
    rw [shapes_blank (isBlank_of_isSpace hc)]
    exact ih (fun hcs => hline (List.mem_cons_of_mem _ hcs)) hapart
  | @comment body rest ts _ hrest h _ =>
    -- the comment takes the rest of the line
    have hempty : rest = [] := by
      rcases rest with _ | ⟨c, rest⟩
      · rfl
      · exact absurd (by simp [hrest c rfl]) hline
    subst hempty
    have hnone := (h.lexemes {}).1
    rw [lexemesFrom] at hnone
    obtain rfl : [] = ts := hnone
    exact ⟨[], shapes_comment _, .nil⟩
  | @token t w rest ts ht _ h ih =>
    have hchain := List.isChain_cons.mp hapart
    obtain ⟨kss, hkss, hall⟩ := ih (fun hrest => hline (List.mem_append_right _ hrest)) hchain.2
    obtain ⟨ks, hks, hshown⟩ := Spells.shapes ht (h.ends hchain.1)
    refine ⟨ks :: kss, ?_, .cons hshown hall⟩
    rw [hks, hkss, List.flatten_cons]

def depth (ts : List Terminal) : Int := (ts.map Terminal.weight).sum

@[simp] theorem depth_nil : depth [] = 0 := rfl

@[simp] theorem depth_cons (t : Terminal) (ts : List Terminal) : depth (t :: ts) = t.weight + depth ts := by
  simp [depth]

@[simp] theorem depth_append (ts us : List Terminal) : depth (ts ++ us) = depth ts + depth us := by
  simp [depth]

theorem tally_flatten (h : List.Forall₂ Terminal.ShownAs ts kss) : tally kss.flatten = depth ts := by
  induction h with
  | nil => rfl
  | cons hk _ ih => rw [List.flatten_cons, tally_append, hk.1, ih, depth_cons]

theorem Lexes.balance_tokens {line : String} (h : Lexes line.toList ts) (hline : '\n' ∉ line.toList)
    (hapart : ts.IsChain Apart) : balance (tokens line) = depth ts := by
  obtain ⟨kss, hkss, hall⟩ := h.shapes hline hapart
  rw [balance_eq_tally, tokens, map_shape_tokensFrom, hkss, tally_flatten hall]

theorem take_flatten {us : List Terminal} {ss : List Shape} (hus : us.map Terminal.shape? = ss.map some)
    (h : List.Forall₂ Terminal.ShownAs ts kss) (hstart : us <+: ts) : ss <+: kss.flatten := by
  induction us generalizing ss ts kss with
  | nil =>
    rw [List.map_eq_nil_iff.mp hus.symm]
    exact List.nil_prefix
  | cons u us ih =>
    obtain ⟨rest, rfl⟩ := hstart
    obtain ⟨s, ss, rfl⟩ := List.exists_cons_of_ne_nil (l := ss) (by rintro rfl; cases hus)
    obtain ⟨hu, hus⟩ := List.cons.inj hus
    cases h with
    | @cons _ k _ kss hk hkss =>
      rw [hk.2 s hu, List.flatten_cons]
      exact List.cons_prefix_cons.mpr ⟨rfl, ih hus hkss ⟨rest, rfl⟩⟩

theorem length_flatten (h : List.Forall₂ Terminal.ShownAs ts kss) (hts : ∀ t ∈ ts, t.shape?.isSome = true) :
    kss.flatten.length = ts.length := by
  induction h with
  | nil => rfl
  | @cons t ks ts kss hk _ ih =>
    obtain ⟨ht, hrest⟩ := List.forall_mem_cons.mp hts
    obtain ⟨s, hs⟩ := Option.isSome_iff_exists.mp ht
    rw [List.flatten_cons, hk.2 s hs, List.length_append, ih hrest, List.length_singleton, List.length_cons,
      Nat.add_comm]

/-- A line of a statement opens it if all of `model.add(` stands on the line. -/
theorem Lexes.opensStatement_iff {line : String} {us : List Terminal} (h : Lexes line.toList ts)
    (hline : '\n' ∉ line.toList) (hapart : ts.IsChain Apart) (hopen : openers <+: ts ++ us) :
    opensStatement (tokens line) = true ↔ 4 ≤ ts.length := by
  obtain ⟨kss, hkss, hall⟩ := h.shapes hline hapart
  have htokens : opensStatement (tokens line) = true ↔ kss.flatten.take 4 = opening := by
    have htake : ((tokens line).take 4).map Token.shape = kss.flatten.take 4 := by
      rw [List.map_take, tokens, map_shape_tokensFrom, hkss]
    rw [opensStatement, beq_iff_eq, ← htake]
    rfl
  rw [htokens]
  constructor
  · intro hopening
    by_contra hshort
    -- the few terminals of the line are names and marks, and there are not more tokens than these
    have hfew : ts <+: openers :=
      List.prefix_of_prefix_length_le (List.prefix_append ts us) hopen (Nat.le_of_not_ge hshort)
    have hshapes : ∀ t ∈ openers, t.shape?.isSome = true := List.all_eq_true.mp rfl
    have hlength := length_flatten hall fun t ht => hshapes t (hfew.subset ht)
    have hfour := congrArg List.length hopening
    rw [List.length_take, hlength] at hfour
    change min 4 ts.length = 4 at hfour
    omega
  · intro hlength
    have hprefix : openers <+: ts := List.prefix_of_prefix_length_le hopen (List.prefix_append ts us) hlength
    have hopening : opening <+: kss.flatten := take_flatten rfl hall hprefix
    exact (List.prefix_iff_eq_take.mp hopening).symm

/-! ## Nesting -/

/-- No parenthesis closes that was not open, and all of them close. -/
structure Enclosed (w : List Terminal) : Prop where
  opened : ∀ u v, w = u ++ v → 0 ≤ depth u
  closed : depth w = 0

namespace Enclosed

theorem nil : Enclosed [] where
  opened _ _ huv := Int.le_of_eq (congrArg depth (List.append_eq_nil_iff.mp huv.symm).1).symm
  closed := rfl

theorem append {w v : List Terminal} (hw : Enclosed w) (hv : Enclosed v) : Enclosed (w ++ v) where
  opened a b hab := by
    rcases List.append_eq_append_iff.mp hab with ⟨c, rfl, hc⟩ | ⟨c, hc, rfl⟩
    · rw [depth_append, hw.closed, Int.zero_add]
      exact hv.opened c b hc
    · exact hw.opened a c hc
  closed := by rw [depth_append, hw.closed, hv.closed, Int.add_zero]

theorem cons {t : Terminal} {w : List Terminal} (ht : t.weight = 0) (hw : Enclosed w) : Enclosed (t :: w) where
  opened a b hab := by
    rcases List.cons_eq_append_iff.mp hab with ⟨rfl, -⟩ | ⟨a, rfl, ha⟩
    · exact Int.le_refl 0
    · rw [depth_cons, ht, Int.zero_add]
      exact hw.opened a b ha
  closed := by rw [depth_cons, ht, hw.closed, Int.add_zero]

theorem parentheses {w : List Terminal} (h : Enclosed w) : Enclosed (.lpar :: (w ++ [.rpar])) where
  opened a b hab := by
    rcases List.cons_eq_append_iff.mp hab with ⟨rfl, -⟩ | ⟨a, rfl, ha⟩
    · exact Int.le_refl 0
    · rw [depth_cons]
      change 0 ≤ 1 + depth a
      rcases List.append_eq_append_iff.mp ha with ⟨c, rfl, hc⟩ | ⟨c, hc, -⟩
      · rw [depth_append, h.closed]
        rcases List.cons_eq_append_iff.mp hc with ⟨rfl, -⟩ | ⟨d, rfl, hd⟩
        · decide
        · rw [(List.append_eq_nil_iff.mp hd.symm).1]
          decide
      · have := h.opened a c hc
        omega
  closed := by
    rw [depth_cons, depth_append, h.closed]
    rfl

end Enclosed

theorem enclosed_comma {o : List Terminal} (h : IsComma o) : Enclosed o := by
  rcases h with rfl | rfl
  · exact .nil
  · exact .cons rfl .nil

theorem enclosed_semicolon {o : List Terminal} (h : o = [] ∨ o = [.semicolon]) : Enclosed o := by
  rcases h with rfl | rfl
  · exact .nil
  · exact .cons rfl .nil

theorem Derives.enclosed {w : List Terminal} {phrase : Phrase} (h : Derives w phrase) : Enclosed w := by
  induction h with
  | integer | real | text | name | oneName => exact .cons rfl .nil
  | unit => exact Enclosed.nil.parentheses
  | tuple _ ho ih => exact (ih.append (enclosed_comma ho)).parentheses
  | oneValue _ ih | positional _ ih | oneArgument _ ih | oneStatement _ ih => exact ih
  | moreValues _ _ ihu ihw | moreArguments _ _ ihu ihw => exact ihu.append (.cons rfl ihw)
  | keyword k _ ih => exact .cons rfl (.cons rfl ih)
  | moreNames n _ ih => exact ih.append (.cons rfl (.cons rfl .nil))
  | bareCall _ ih => exact ih.append Enclosed.nil.parentheses
  | call _ _ ho ihw ihu => exact ihw.append (ihu.append (enclosed_comma ho)).parentheses
  | @statement w o ns as r m _ ho ih =>
    have hparens := (ih.parentheses.append (enclosed_semicolon ho))
    rw [List.cons_append, List.append_assoc] at hparens
    exact .cons rfl (.cons rfl (.cons rfl hparens))
  | moreStatements _ _ ihu ihw => exact ihu.append ihw

end LayerLoops.Source
