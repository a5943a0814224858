import LayerLoops.Extent
import Mathlib.Data.Rat.Floor
import Mathlib.Order.Bounds.Basic

/-! # Counts of windows

A window that stays inside its axis has as many positions as fit there, and a window of odd side that may reach over
the margins has one position for every `stride` cells, begun or whole. Strided windows of odd side are aligned when the
last one is centred on the last cell. Margins are narrower than the window, so that no window lies in them altogether. -/

namespace LayerLoops.Extent

variable {size kernel stride : Int}

/-! ## Windows inside the axis -/

/-- There are `m` positions exactly if the window at the last of them still fits. -/
theorem le_valid_iff (hs : 0 < stride) {m : Int} : m ≤ valid size kernel stride ↔ (m - 1) * stride + kernel ≤ size := by
  have hdiv := Int.le_ediv_iff_mul_le (a := m - 1) (b := size - kernel) hs
  unfold valid
  rw [Int.fdiv_eq_ediv_of_nonneg _ hs.le]
  omega

theorem one_le_valid_iff (hs : 0 < stride) : 1 ≤ valid size kernel stride ↔ kernel ≤ size := by
  rw [le_valid_iff hs]
  omega

theorem isGreatest_valid (hs : 0 < stride) :
    IsGreatest {m | (m - 1) * stride + kernel ≤ size} (valid size kernel stride) := by
  constructor
  · exact (le_valid_iff hs).mp le_rfl
  · intro m hm
    exact (le_valid_iff hs).mpr hm

/-! ## Windows over the margins -/

theorem two_mul_margin (kernel : Int) : 2 * margin kernel = if kernel % 2 = 1 then kernel - 1 else kernel - 2 := by
  unfold margin
  rw [Int.fdiv_eq_ediv_of_nonneg _ (by decide)]
  split <;> omega

theorem slack_of_odd (h : kernel % 2 = 1) (size : Int) : slack size kernel = size - 1 := by
  have hmargin := two_mul_margin kernel
  rw [if_pos h] at hmargin
  unfold slack
  omega

theorem slack_of_even (h : kernel % 2 ≠ 1) (size : Int) : slack size kernel = size - 2 := by
  have hmargin := two_mul_margin kernel
  rw [if_neg h] at hmargin
  unfold slack
  omega

theorem same_of_odd (h : kernel % 2 = 1) (size stride : Int) :
    same size kernel stride = (slack size kernel).fdiv stride + 1 := by
  unfold same
  split
  · rename_i hone
    rw [hone, slack_of_odd h, Int.fdiv_one]
    omega
  · rfl

/-- The windows begin at every `stride`-th cell, whatever their side is. -/
theorem same_eq_ceil (h : kernel % 2 = 1) (hs : 0 < stride) (size : Int) :
    same size kernel stride = ⌈(size : ℚ) / stride⌉ := by
  have hpos : (0 : ℚ) < stride := by exact_mod_cast hs
  rw [same_of_odd h, slack_of_odd h, Int.fdiv_eq_ediv_of_nonneg _ hs.le, eq_comm, Int.ceil_eq_iff]
  have hlow := Int.mul_ediv_self_le (x := size - 1) hs.ne'
  have hhigh := Int.lt_mul_ediv_self_add (x := size - 1) hs
  set q := (size - 1) / stride
  constructor
  · rw [lt_div_iff₀ hpos]
    have hlt : q * stride < size := by
      rw [Int.mul_comm]
      omega
    push_cast
    rw [add_sub_cancel_right]
    exact_mod_cast hlt
  · rw [div_le_iff₀ hpos]
    have hle : size ≤ (q + 1) * stride := by
      rw [Int.add_mul, Int.mul_comm q]
      omega
    exact_mod_cast hle

theorem unaligned_eq_false_iff (size kernel stride : Int) :
    unaligned size kernel stride = false ↔ stride = 1 ∨ stride ∣ slack size kernel := by
  unfold unaligned
  rw [Bool.and_eq_false_iff, bne_eq_false_iff_eq, bne_eq_false_iff_eq, Int.dvd_iff_fmod_eq_zero]

theorem dvd_slack_iff (hs : stride ≠ 1) :
    stride ∣ slack size kernel ↔ (same size kernel stride - 1) * stride = slack size kernel := by
  rw [same, if_neg hs, Int.add_sub_cancel]
  constructor
  · exact Int.fdiv_mul_cancel
  · intro h
    exact ⟨_, (h.symm.trans (Int.mul_comm _ _))⟩

/-- Strided windows of odd side are aligned if the last one is centred on the last cell; of those of even side the last
one leaves a cell more, and windows that move by one cell are always aligned. -/
theorem unaligned_eq_false_iff_last (size kernel stride : Int) :
    unaligned size kernel stride = false ↔
      (same size kernel stride - 1) * stride = if kernel % 2 = 1 ∨ stride = 1 then size - 1 else size - 2 := by
  rw [unaligned_eq_false_iff]
  by_cases hone : stride = 1
  · simp [hone, same]
  · rw [dvd_slack_iff hone]
    by_cases hodd : kernel % 2 = 1
    · simp [hone, hodd, slack_of_odd hodd]
    · simp [hone, hodd, slack_of_even hodd]

/-- The cells under the window at an output position, of which those below zero or from the size on are margin. -/
def window (kernel stride position : Int) : Set Int :=
  {p | ∃ i, 0 ≤ i ∧ i < kernel ∧ p = position * stride + i - margin kernel}

theorem center_lt_of_lt_same (hs : 0 < stride) {position : Int} (h : position < same size kernel stride) :
    position * stride < size := by
  by_cases hone : stride = 1
  · rw [same, if_pos hone] at h
    rw [hone]
    omega
  · rw [same, if_neg hone, Int.lt_add_one_iff, Int.fdiv_eq_ediv_of_nonneg _ hs.le, Int.le_ediv_iff_mul_le hs] at h
    by_cases hodd : kernel % 2 = 1
    · rw [slack_of_odd hodd] at h
      omega
    · rw [slack_of_even hodd] at h
      omega

theorem center_mem_window (hk : 0 < kernel) (stride position : Int) :
    position * stride ∈ window kernel stride position := by
  have hmargin := two_mul_margin kernel
  refine ⟨margin kernel, ?_, ?_, ?_⟩
  · split at hmargin <;> omega
  · split at hmargin <;> omega
  · omega

/-! ## All counts -/

/-- What the two counts and the alignment of windows are, for every size, side and stride. -/
theorem window_counts (size : Int) (hk : 1 ≤ kernel) (hs : 1 ≤ stride) :
    (1 ≤ valid size kernel stride ↔ kernel ≤ size) ∧
      IsGreatest {m | (m - 1) * stride + kernel ≤ size} (valid size kernel stride) ∧
      (kernel % 2 = 1 → same size kernel stride = ⌈(size : ℚ) / stride⌉ ∧
        same size kernel stride = (slack size kernel).fdiv stride + 1) ∧
      (unaligned size kernel stride = false ↔
        (same size kernel stride - 1) * stride = if kernel % 2 = 1 ∨ stride = 1 then size - 1 else size - 2) ∧
      ∀ position, 0 ≤ position → position < same size kernel stride →
        ∃ p ∈ window kernel stride position, 0 ≤ p ∧ p < size := by
  refine ⟨one_le_valid_iff hs, isGreatest_valid hs, ?_, unaligned_eq_false_iff_last size kernel stride, ?_⟩
  · intro hodd
    exact ⟨same_eq_ceil hodd hs size, same_of_odd hodd size stride⟩
  · intro position h0 hlt
    refine ⟨position * stride, center_mem_window hk stride position, ?_, center_lt_of_lt_same hs hlt⟩
    exact Int.mul_nonneg h0 (by omega)

/-- Windows of side 3 that move by 2 over 6 cells: two fit inside, three are centred on a cell, and the last of these
leaves the last cell to its side. -/
theorem window_counts_strided : IsGreatest {m : Int | (m - 1) * 2 + 3 ≤ 6} 2 ∧ (3 : Int) = ⌈((6 : Int) : ℚ) / (2 : Int)⌉ ∧
    unaligned 6 3 2 = true ∧ ∃ p ∈ window 3 2 2, 0 ≤ p ∧ p < 6 := by
  obtain ⟨-, hgreatest, hodd, haligned, hinside⟩ := window_counts 6 (show (1 : Int) ≤ 3 by decide) (show (1 : Int) ≤ 2 by decide)
  refine ⟨hgreatest, (hodd (by decide)).1, ?_, hinside 2 (by decide) (by decide)⟩
  rw [← Bool.not_eq_false, haligned]
  decide

/-- The last of the aligned windows of side 2 is not centred on the last cell. -/
theorem even_windows_off_center :
    ¬ (unaligned 4 2 2 = false ↔ (same 4 2 2 - 1) * 2 = 4 - 1) := by
  decide

end LayerLoops.Extent
