import Mathlib.Algebra.Order.Floor.Div

/-! A line of places cut into tiles of one width. -/
namespace FpgaGpu.Library

/-- `tiles` tiles, each `width` places wide, one after the other. -/
structure Tiling where
  tiles : Nat
  width : Nat

/-- The place at an offset in a tile. -/
def Tiling.place (t : Tiling) (tile offset : Nat) : Nat := tile * t.width + offset

/-- Each of the first `n` places is at exactly one offset in exactly one tile. -/
def Tiling.Covers (t : Tiling) (n : Nat) : Prop :=
  ∀ x < n, ∃! at' : Nat × Nat, at'.1 < t.tiles ∧ at'.2 < t.width ∧ t.place at'.1 at'.2 = x

/-- No tile lies wholly behind the first `n` places. -/
def Tiling.Meets (t : Tiling) (n : Nat) : Prop :=
  ∀ tile < t.tiles, ∃ offset < t.width, t.place tile offset < n

theorem Tiling.place_eq_iff {t : Tiling} {tile offset x : Nat} (h : offset < t.width) :
    t.place tile offset = x ↔ tile = x / t.width ∧ offset = x % t.width := by
  have hpos : 0 < t.width := Nat.lt_of_le_of_lt (Nat.zero_le _) h
  unfold place
  constructor
  · rintro rfl
    rw [Nat.mul_comm, Nat.mul_add_div hpos, Nat.mul_add_mod, Nat.div_eq_of_lt h,
      Nat.mod_eq_of_lt h]
    simp
  · rintro ⟨rfl,rfl⟩
    exact Nat.div_add_mod' x t.width

/-- As many tiles as a line of `n` places needs. -/
def Tiling.fit (n width : Nat) : Tiling := ⟨n ⌈/⌉ width,width⟩

theorem Tiling.lt_fit_iff {n width : Nat} (h : 0 < width) (tile : Nat) :
    tile < (fit n width).tiles ↔ width * tile < n := by
  have hle := ceilDiv_le_iff_le_mul h (b := n) (c := tile)
  rw [fit, ← Nat.not_le, hle, Nat.not_le]

theorem Tiling.fit_covers {n width : Nat} (h : 0 < width) : (fit n width).Covers n := by
  intro x hx
  refine ⟨(x / width,x % width),⟨?_,Nat.mod_lt x h,Nat.div_add_mod' x width⟩,?_⟩
  · rw [lt_fit_iff h]
    exact Nat.lt_of_le_of_lt (Nat.mul_div_le x width) hx
  · rintro ⟨tile,offset⟩ ⟨-,hoffset,hplace⟩
    obtain ⟨rfl,rfl⟩ := (place_eq_iff hoffset).mp hplace
    rfl

theorem Tiling.fit_meets {n width : Nat} (h : 0 < width) : (fit n width).Meets n := by
  intro tile htile
  refine ⟨0,h,?_⟩
  rw [lt_fit_iff h] at htile
  simpa [place, fit, Nat.mul_comm] using htile

end FpgaGpu.Library
