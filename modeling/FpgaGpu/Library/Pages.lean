import Mathlib.Algebra.BigOperators.Group.Finset.Basic
import Mathlib.Order.Interval.Finset.Nat

/-! A range of places on a line of pages: the pages it touches, and its cut at
the page boundaries. -/
namespace FpgaGpu.Library

/-- `[start, start + size)`, over pages of one width. -/
structure PageRange where
  width : Nat
  start : Nat
  size : Nat
  width_pos : 0 < width
  size_pos : 0 < size

/-- The pages that hold a place of the range. -/
def PageRange.touched (r : PageRange) : Finset Nat :=
  (Finset.range r.size).image fun k => (r.start + k) / r.width

/-- The places of the range that are in a page. -/
def PageRange.part (r : PageRange) (page : Nat) : Finset Nat :=
  {b ∈ Finset.Ico r.start (r.start + r.size) | b / r.width = page}

/-- From the offset of the start in its page to the end, rounded up to pages. -/
def PageRange.count (r : PageRange) : Nat :=
  (r.start % r.width + r.size + (r.width - 1)) / r.width

/-- The first place of page `i` of the range. -/
def PageRange.base (r : PageRange) (i : Nat) : Nat := (r.start / r.width + i) * r.width

/-! The cut. Piece `i` is in page `i`; only the first has an offset in its page. -/

def PageRange.offset (r : PageRange) (i : Nat) : Nat := if i = 0 then r.start % r.width else 0

/-- What is left of the range once `i` pages are cut off. -/
def PageRange.left (r : PageRange) (i : Nat) : Nat := r.size - (i * r.width - r.start % r.width)

def PageRange.length (r : PageRange) (i : Nat) : Nat := min (r.left i) (r.width - r.offset i)

variable (r : PageRange)

theorem PageRange.offset_lt (i : Nat) : r.offset i < r.width := by
  unfold offset
  split
  · exact Nat.mod_lt _ r.width_pos
  · exact r.width_pos

@[simp] theorem PageRange.left_zero : r.left 0 = r.size := by
  simp [left]

theorem PageRange.left_succ (i : Nat) : r.left (i + 1) = r.left i - r.length i := by
  have hlt := Nat.mod_lt r.start r.width_pos
  unfold length left offset
  rw [Nat.add_mul, Nat.one_mul]
  split
  next hi =>
    subst hi
    omega
  next hi =>
    have hle : r.width ≤ i * r.width := Nat.le_mul_of_pos_left _ (Nat.pos_of_ne_zero hi)
    omega

/-- There is something left exactly before the last page is cut off. -/
theorem PageRange.left_pos_iff (i : Nat) : 0 < r.left i ↔ i < r.count := by
  have hlt := Nat.mod_lt r.start r.width_pos
  have hsize := r.size_pos
  have hcount : i < r.count ↔ (i + 1) * r.width ≤ r.start % r.width + r.size + (r.width - 1) := by
    rw [← Nat.succ_le_iff, count, Nat.le_div_iff_mul_le r.width_pos]
  rw [hcount, left, Nat.add_mul, Nat.one_mul]
  omega

theorem PageRange.count_pos : 0 < r.count := by
  rw [← left_pos_iff, left_zero]
  exact r.size_pos

theorem PageRange.left_count : r.left r.count = 0 := by
  have h := (r.left_pos_iff r.count).not.mpr (Nat.lt_irrefl _)
  exact Nat.eq_zero_of_not_pos h

theorem PageRange.length_pos {i : Nat} (h : i < r.count) : 0 < r.length i := by
  have hleft := (r.left_pos_iff i).mpr h
  have hlt := r.offset_lt i
  unfold length
  omega

theorem PageRange.length_le (i : Nat) : r.length i ≤ r.width - r.offset i := Nat.min_le_right _ _

/-- The pieces add up to what has been cut off. -/
theorem PageRange.sum_length (n : Nat) : ∑ i ∈ Finset.range n, r.length i = r.size - r.left n := by
  induction n with
  | zero => simp
  | succ n ih =>
    have hle : r.left n ≤ r.size := Nat.sub_le _ _
    have hpiece : r.length n ≤ r.left n := Nat.min_le_left _ _
    rw [Finset.sum_range_succ, ih, left_succ]
    omega

/-- Piece `i` is what page `i` holds of the range. -/
theorem PageRange.piece_eq_part (i : Nat) :
    Finset.Ico (r.base i + r.offset i) (r.base i + r.offset i + r.length i) =
      r.part (r.start / r.width + i) := by
  have hmod := Nat.mod_lt r.start r.width_pos
  have hstart := Nat.div_add_mod' r.start r.width
  ext b
  have hpage : b / r.width = r.start / r.width + i ↔
      r.base i ≤ b ∧ b < r.base i + r.width := by
    rw [Nat.div_eq_iff r.width_pos, base]
    have hpos := r.width_pos
    omega
  rw [part, Finset.mem_filter, Finset.mem_Ico, Finset.mem_Ico, hpage]
  unfold length left offset base
  rw [Nat.add_mul]
  split
  next hi =>
    subst hi
    omega
  next hi =>
    have hle : r.width ≤ i * r.width := Nat.le_mul_of_pos_left _ (Nat.pos_of_ne_zero hi)
    omega

/-- The range touches as many pages as it is cut into. -/
theorem PageRange.card_touched : r.touched.card = r.count := by
  have hmem : ∀ page, page ∈ r.touched ↔ (r.part page).Nonempty := by
    intro page
    constructor
    · intro h
      obtain ⟨k,hk,hpage⟩ := Finset.mem_image.mp h
      refine ⟨r.start + k,Finset.mem_filter.mpr ⟨?_,hpage⟩⟩
      rw [Finset.mem_range] at hk
      rw [Finset.mem_Ico]
      omega
    · rintro ⟨b,hb⟩
      obtain ⟨hrange,hpage⟩ := Finset.mem_filter.mp hb
      rw [Finset.mem_Ico] at hrange
      refine Finset.mem_image.mpr ⟨b - r.start,Finset.mem_range.mpr (by omega),?_⟩
      rw [Nat.add_sub_cancel' hrange.1, hpage]
  have htouched : r.touched =
      (Finset.range r.count).image fun i => r.start / r.width + i := by
    ext page
    rw [hmem, Finset.mem_image]
    constructor
    · rintro ⟨b,hb⟩
      obtain ⟨hrange,hpage⟩ := Finset.mem_filter.mp hb
      have hle : r.start / r.width ≤ page := by
        rw [← hpage]
        exact Nat.div_le_div_right (Finset.mem_Ico.mp hrange).1
      have hpiece := r.piece_eq_part (page - r.start / r.width)
      rw [Nat.add_sub_cancel' hle] at hpiece
      rw [← hpiece, Finset.mem_Ico] at hb
      refine ⟨page - r.start / r.width,Finset.mem_range.mpr ?_,Nat.add_sub_cancel' hle⟩
      rw [← left_pos_iff]
      unfold length at hb
      omega
    · rintro ⟨i,hi,rfl⟩
      have hpos := r.length_pos (Finset.mem_range.mp hi)
      rw [← piece_eq_part]
      exact Finset.nonempty_Ico.mpr (by omega)
  rw [htouched, Finset.card_image_of_injective _ (fun i j h => Nat.add_left_cancel h),
    Finset.card_range]

end FpgaGpu.Library
