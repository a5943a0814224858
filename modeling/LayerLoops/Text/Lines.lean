/-! # Lines of a text

A line ends at a line feed, a carriage return (with the line feed after it, if there is one), a vertical
tab, a form feed, one of the separators `U+001C` to `U+001E`, a next-line character or a Unicode line or
paragraph separator. The text after the last break is a line only if it is not empty. -/

namespace LayerLoops.Text

def isLineBreak (c : Char) : Bool :=
  let n := c.toNat
  (10 ≤ n && n ≤ 13) || (28 ≤ n && n ≤ 30) || n == 0x85 || n == 0x2028 || n == 0x2029

def takeLine : List Char → List Char × List Char
  | [] => ([], [])
  | '\r' :: '\n' :: cs => ([], cs)
  | c :: cs =>
    if isLineBreak c then ([], cs)
    else
      let (line, rest) := takeLine cs
      (c :: line, rest)

theorem length_takeLine_le (cs : List Char) : (takeLine cs).2.length ≤ cs.length := by
  fun_induction takeLine cs with
  | case1 => exact Nat.le_refl _
  | case2 cs => exact Nat.le_add_right _ 2
  | case3 c cs => exact Nat.le_add_right _ 1
  | case4 c cs _ _ line rest h ih =>
    rw [h] at ih
    exact Nat.le_trans ih (Nat.le_add_right _ 1)

theorem length_takeLine_lt (c : Char) (cs : List Char) :
    (takeLine (c :: cs)).2.length < (c :: cs).length := by
  rw [takeLine.eq_def]
  split
  · contradiction
  · rename_i ds h
    obtain ⟨rfl, rfl⟩ := List.cons.inj h
    exact Nat.lt_add_of_pos_right (Nat.zero_lt_succ 1)
  · rename_i d ds _ h
    obtain ⟨rfl, rfl⟩ := List.cons.inj h
    split
    · exact Nat.lt_succ_self _
    · exact Nat.lt_succ_of_le (length_takeLine_le cs)

def lineChars : List Char → List (List Char)
  | [] => []
  | c :: cs => (takeLine (c :: cs)).1 :: lineChars (takeLine (c :: cs)).2
termination_by cs => cs.length
decreasing_by exact length_takeLine_lt c cs

def lines (s : String) : List String :=
  (lineChars s.toList).map String.ofList

/-- Reads every carriage return, with the line feed after it if there is one, as a line feed. -/
def unifyBreaks : List Char → List Char
  | [] => []
  | '\r' :: '\n' :: cs => '\n' :: unifyBreaks cs
  | c :: cs => (if c = '\r' then '\n' else c) :: unifyBreaks cs

end LayerLoops.Text
