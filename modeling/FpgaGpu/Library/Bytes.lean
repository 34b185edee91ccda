import Mathlib.Algebra.Group.Nat.Defs

/-! Numbers kept as little-endian bytes. -/
namespace FpgaGpu.Library

/-- The number in the first `n` bytes. -/
def leNat : Nat → (Nat → UInt8) → Nat
  | 0, _ => 0
  | n + 1, bytes => leNat n bytes + (bytes n).toNat * 256 ^ n

theorem leNat_lt (n : Nat) (bytes : Nat → UInt8) : leNat n bytes < 256 ^ n := by
  induction n with
  | zero => simp [leNat]
  | succ n ih =>
    have hbyte := (bytes n).toNat_lt
    calc leNat n bytes + (bytes n).toNat * 256 ^ n
        < 256 ^ n + (bytes n).toNat * 256 ^ n := Nat.add_lt_add_right ih _
      _ = ((bytes n).toNat + 1) * 256 ^ n := by rw [Nat.add_mul, Nat.one_mul, Nat.add_comm]
      _ ≤ 256 * 256 ^ n := Nat.mul_le_mul_right _ hbyte
      _ = 256 ^ (n + 1) := by rw [Nat.pow_succ, Nat.mul_comm]

theorem leNat_inj {n : Nat} {bytes bytes' : Nat → UInt8} (h : leNat n bytes = leNat n bytes') :
    ∀ j < n, bytes j = bytes' j := by
  induction n with
  | zero => simp
  | succ n ih =>
    unfold leNat at h
    have hlow := leNat_lt n bytes
    have hlow' := leNat_lt n bytes'
    have hrest : leNat n bytes = leNat n bytes' := by
      have hmod := congrArg (· % 256 ^ n) h
      simpa [Nat.add_mul_mod_self_right, Nat.mod_eq_of_lt hlow, Nat.mod_eq_of_lt hlow'] using hmod
    have hlast : bytes n = bytes' n := by
      apply UInt8.toNat_inj.mp
      rw [hrest] at h
      exact Nat.eq_of_mul_eq_mul_right (Nat.lt_of_le_of_lt (Nat.zero_le _) hlow)
        (Nat.add_left_cancel h)
    intro j hj
    rcases Nat.lt_succ_iff_lt_or_eq.mp hj with hlt | rfl
    · exact ih hrest j hlt
    · exact hlast

end FpgaGpu.Library
