import FpgaGpu.Library.Arrays
import FpgaGpu.Library.Copy
import Mathlib.Algebra.Group.Nat.Defs

/-! Ranges of a memory with 64-bit addresses, as lists of cells, and what a copy
from one memory to another does to them. -/
namespace FpgaGpu.Library

variable {β : Type}

/-- The addresses from `addr` on. -/
def along (addr : UInt64) (k : Nat) : UInt64 := addr + UInt64.ofNat k

/-- The `n` cells from `addr` on. -/
def cells (mem : UInt64 → β) (addr : UInt64) (n : Nat) : List β :=
  (List.range n).map fun k => mem (along addr k)

@[simp] theorem length_cells (mem : UInt64 → β) (addr : UInt64) (n : Nat) :
    (cells mem addr n).length = n := by
  simp [cells]

theorem along_sub_self {addr : UInt64} {k : Nat} (h : k < 2 ^ 64) :
    (along addr k - addr).toNat = k := by
  unfold along
  rw [UInt64.toNat_sub, UInt64.toNat_add, UInt64.toNat_ofNat']
  have haddr := addr.toNat_lt
  omega

theorem along_of_sub {addr x : UInt64} : along addr (x - addr).toNat = x := by
  unfold along
  apply UInt64.toNat_inj.mp
  rw [UInt64.toNat_add, UInt64.toNat_ofNat', UInt64.toNat_sub]
  have haddr := addr.toNat_lt
  have hx := x.toNat_lt
  omega

/-- A copy of `n` cells: the target range gets the source range, nothing else changes. -/
theorem copyAll_along {src dst : UInt64 → β} {source target x : UInt64} {n : Nat}
    (hn : n ≤ 2 ^ 64) :
    copyAll src (pairUp (along source) (along target) n) dst x =
      if (x - target).toNat < n then src (along source (x - target).toNat) else dst x := by
  split
  next hlt =>
    have hinj : ∀ i < n, ∀ j < n, along target i = along target j → i = j := by
      intro i hi j hj heq
      have hsub := congrArg (fun y => (y - target).toNat) heq
      rwa [along_sub_self (by omega), along_sub_self (by omega)] at hsub
    have hcopied : copyAll src (pairUp (along source) (along target) n) dst
        (along target (x - target).toNat) = src (along source (x - target).toNat) :=
      copyAll_pairUp hinj hlt
    rwa [along_of_sub] at hcopied
  next hge =>
    apply copyAll_pairUp_other
    rintro k hk rfl
    exact hge (by rwa [along_sub_self (by omega)])

/-- The source range arrives whole. -/
theorem cells_copyAll {src dst : UInt64 → β} {source target : UInt64} {n : Nat}
    (hn : n ≤ 2 ^ 64) :
    cells (copyAll src (pairUp (along source) (along target) n) dst) target n =
      cells src source n := by
  unfold cells
  apply List.map_congr_left
  intro k hk
  have hlt : k < n := List.mem_range.mp hk
  rw [copyAll_along hn, along_sub_self (by omega), if_pos hlt]

/-- A copy into the middle of a range splices it. -/
theorem cells_copyAll_splice {src dst : UInt64 → β} {source target offset : UInt64}
    {n length : Nat} (hfit : offset.toNat + n ≤ length) (hlength : length < 2 ^ 63) :
    cells (copyAll src (pairUp (along source) (along (target + offset)) n) dst) target length =
      splice offset.toNat (cells src source n) (cells dst target length) := by
  unfold cells
  rw [splice_range hfit]
  apply List.map_congr_left
  intro k hk
  have hlt : k < length := List.mem_range.mp hk
  have hsub : (along target k - (target + offset)).toNat =
      if offset.toNat ≤ k then k - offset.toNat else 2 ^ 64 + k - offset.toNat := by
    unfold along
    rw [UInt64.toNat_sub, UInt64.toNat_add, UInt64.toNat_add, UInt64.toNat_ofNat']
    have htarget := target.toNat_lt
    have hoffset := offset.toNat_lt
    split <;> omega
  rw [copyAll_along (by omega), hsub]
  by_cases hlow : offset.toNat ≤ k
  · rw [if_pos hlow]
    by_cases hin : k < offset.toNat + n
    · rw [if_pos (by omega), if_pos ⟨hlow,hin⟩]
    · rw [if_neg (by omega), if_neg (by omega)]
  · rw [if_neg hlow, if_neg (by omega), if_neg (by omega)]

/-- A copy leaves alone a range none of whose addresses it writes. -/
theorem cells_copyAll_apart {src dst : UInt64 → β} {source target addr : UInt64}
    {n length : Nat} (hn : n ≤ 2 ^ 64)
    (hapart : ∀ k < length, n ≤ (along addr k - target).toNat) :
    cells (copyAll src (pairUp (along source) (along target) n) dst) addr length =
      cells dst addr length := by
  unfold cells
  apply List.map_congr_left
  intro k hk
  rw [copyAll_along hn, if_neg (Nat.not_lt.mpr (hapart k (List.mem_range.mp hk)))]

theorem slice_cells {mem : UInt64 → β} {addr offset : UInt64} {n length : Nat}
    (hfit : offset.toNat + n ≤ length) :
    slice offset.toNat n (cells mem addr length) = cells mem (addr + offset) n := by
  unfold cells
  rw [slice_range hfit]
  apply List.map_congr_left
  intro k _
  congr 1
  unfold along
  apply UInt64.toNat_inj.mp
  simp only [UInt64.toNat_add, UInt64.toNat_ofNat']
  omega

end FpgaGpu.Library
