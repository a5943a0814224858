/-! # Halves of characters

Sixteen-bit units write a character beyond the first plane as a pair of halves. A half on its own is no
character, but an escape may name one, so a text is a row of codes, some of which are halves. It is held as
characters: a code of a character is that character, and a half is a stand-in after a mark. The mark itself is
held as a stand-in after a mark too. A stand-in is never the mark, so `codes` reads the codes back. -/

namespace LayerLoops.Text

def firstHalf : Nat := 0xD800

def halfCount : Nat := 0x800

/-- The least number that is no code. -/
def codeLimit : Nat := 0x110000

def isHalf (n : Nat) : Bool := firstHalf ≤ n && n < firstHalf + halfCount

/-- The character that stands for the least half, after a mark. The one after the last half stands for the mark. -/
def firstStandIn : Nat := 0x10F000

def mark : Char := Char.ofNat 0x10F801

def ofCode (n : Nat) : List Char :=
  if isHalf n then [mark, Char.ofNat (firstStandIn + (n - firstHalf))]
  else if n = mark.toNat then [mark, Char.ofNat (firstStandIn + halfCount)]
  else [Char.ofNat n]

/-- The characters that hold some codes. -/
def ofCodes (ns : List Nat) : List Char := ns.flatMap ofCode

def ofPlain (s : String) : String := String.ofList (ofCodes (s.toList.map Char.toNat))

def unmarked : List Nat → List Nat
  | n :: ns => (if n < firstStandIn + halfCount then firstHalf + (n - firstStandIn) else mark.toNat) :: ns
  | [] => []

/-- The codes that characters hold. -/
def codes (cs : List Char) : List Nat :=
  cs.foldr (fun c ns => if c = mark then unmarked ns else c.toNat :: ns) []

def width (cs : List Char) : Nat := cs.countP (· != mark)

def splitFirst : List Char → List Char × List Char
  | c :: d :: cs => if c = mark then ([c, d], cs) else ([c], d :: cs)
  | cs => (cs, [])

theorem isHalf_iff {n : Nat} : isHalf n = true ↔ 0xD800 ≤ n ∧ n < 0xE000 := by
  unfold isHalf firstHalf halfCount
  rw [Bool.and_eq_true, decide_eq_true_iff, decide_eq_true_iff]

theorem toNat_ofNat {n : Nat} (small : n < codeLimit) (whole : ¬ isHalf n = true) :
    (Char.ofNat n).toNat = n := by
  have valid : n.isValidChar := by
    rw [isHalf_iff] at whole
    unfold codeLimit at small
    unfold Nat.isValidChar
    omega
  rw [Char.ofNat, dif_pos valid]
  rfl

theorem toNat_mark : mark.toNat = 0x10F801 := rfl

theorem codes_cons_of_ne {c : Char} (plain : c ≠ mark) (cs : List Char) :
    codes (c :: cs) = c.toNat :: codes cs := if_neg plain

theorem codes_mark_cons (cs : List Char) : codes (mark :: cs) = unmarked (codes cs) := by
  unfold codes
  rw [List.foldr_cons, if_pos rfl]

theorem codes_standIn {k : Nat} (small : k ≤ halfCount) (cs : List Char) :
    codes (mark :: Char.ofNat (firstStandIn + k) :: cs) =
      (if k < halfCount then firstHalf + k else mark.toNat) :: codes cs := by
  have code : (Char.ofNat (firstStandIn + k)).toNat = firstStandIn + k := by
    unfold halfCount at small
    refine toNat_ofNat ?_ ?_
    · unfold firstStandIn codeLimit
      omega
    · rw [isHalf_iff]
      unfold firstStandIn
      omega
  have plain : Char.ofNat (firstStandIn + k) ≠ mark := fun same => by
    rw [same, toNat_mark] at code
    unfold firstStandIn at code
    unfold halfCount at small
    omega
  rw [codes_mark_cons, codes_cons_of_ne plain, code, unmarked, Nat.add_sub_cancel_left]
  simp only [Nat.add_lt_add_iff_left]

theorem codes_ofCode_append {n : Nat} (small : n < codeLimit) (cs : List Char) :
    codes (ofCode n ++ cs) = n :: codes cs := by
  unfold ofCode
  split
  next half =>
    have low : firstHalf ≤ n := (isHalf_iff.mp half).1
    have near : n - firstHalf < halfCount := Nat.sub_lt_left_of_lt_add low (isHalf_iff.mp half).2
    rw [List.cons_append, List.cons_append, List.nil_append, codes_standIn (Nat.le_of_lt near), if_pos near,
      Nat.add_sub_cancel' low]
  next whole =>
    split
    next same =>
      rw [List.cons_append, List.cons_append, List.nil_append, codes_standIn (Nat.le_refl _),
        if_neg (Nat.lt_irrefl _), same]
    next other =>
      have code := toNat_ofNat small whole
      rw [List.cons_append, List.nil_append, codes_cons_of_ne, code]
      intro same
      rw [same] at code
      exact other code.symm

theorem codes_ofCodes {ns : List Nat} (small : ∀ n ∈ ns, n < codeLimit) : codes (ofCodes ns) = ns := by
  induction ns with
  | nil => rfl
  | cons n ns ih =>
    unfold ofCodes at ih ⊢
    rw [List.flatMap_cons, codes_ofCode_append (small n List.mem_cons_self),
      ih fun m member => small m (List.mem_cons_of_mem n member)]

end LayerLoops.Text
