import FpgaGpu.Driver.Packet
import Mathlib.Algebra.Group.Nat.Defs
import FpgaGpu.Library.Copy

/-! DMA_TRANSFER: the checks on its argument, the scatterlist of the pinned
pages, the chain of XDMA descriptors, and the engine that runs the chain. -/
namespace FpgaGpu.Driver
open Library

/-- `struct fpgagpu_dma_param`. -/
structure DmaParam where
  direction : UInt32
  size : UInt32
  ddr3Addr : UInt64
  hostVaddr : UInt64
  deriving DecidableEq, Repr

inductive DmaDirection where
  | toDevice | fromDevice
  deriving DecidableEq, Repr

def dmaDirection (direction : UInt32) : Option DmaDirection :=
  if direction = 0 then some .toDevice
  else if direction = 1 then some .fromDevice
  else none

def pageSize : Nat := 4096

/-- Entries of `desc_ring` and of `pinned_pages`. -/
def maxPages : Nat := 8192

/-- `offset_in_page`. -/
def offsetInPage (vaddr : UInt64) : UInt32 := (vaddr &&& 4095).toUInt32

/-- `DIV_ROUND_UP(page_offset + size, PAGE_SIZE)`. -/
def pagesSpanned (pageOffset size : UInt32) : UInt64 :=
  ((pageOffset + size).toUInt64 + 4096 - 1) / 4096

theorem offsetInPage_toNat (vaddr : UInt64) :
    (offsetInPage vaddr).toNat = vaddr.toNat % pageSize := by
  have hmask : (vaddr &&& 4095).toNat = vaddr.toNat % 4096 := by
    rw [UInt64.toNat_and]
    exact Nat.and_two_pow_sub_one_eq_mod vaddr.toNat 12
  rw [offsetInPage, UInt64.toNat_toUInt32, hmask, pageSize]
  omega

theorem offsetInPage_lt (vaddr : UInt64) : (offsetInPage vaddr).toNat < pageSize := by
  rw [offsetInPage_toNat]
  exact Nat.mod_lt _ (by decide)

theorem pagesSpanned_toNat {pageOffset size : UInt32}
    (h : pageOffset.toNat + size.toNat < 2 ^ 32) :
    (pagesSpanned pageOffset size).toNat =
      (pageOffset.toNat + size.toNat + (pageSize - 1)) / pageSize := by
  have hsum : (pageOffset + size).toUInt64.toNat = pageOffset.toNat + size.toNat := by
    rw [UInt32.toNat_toUInt64, UInt32.toNat_add, Nat.mod_eq_of_lt h]
  have hle : (1 : UInt64) ≤ (pageOffset + size).toUInt64 + 4096 := by
    rw [UInt64.le_iff_toNat_le, UInt64.toNat_add, hsum]
    simp only [UInt64.reduceToNat]
    omega
  rw [pagesSpanned, UInt64.toNat_div, UInt64.toNat_sub_of_le _ _ hle, UInt64.toNat_add, hsum]
  simp only [UInt64.reduceToNat, pageSize]
  omega

/-- A request that passed the checks, with the locals computed from it. -/
structure Transfer where
  param : DmaParam
  dir : DmaDirection
  pageOffset : UInt32
  numPages : Nat
  size_pos : 0 < param.size.toNat
  offset_lt : pageOffset.toNat < pageSize
  numPages_eq : numPages = (pageOffset.toNat + param.size.toNat + (pageSize - 1)) / pageSize
  numPages_le : numPages ≤ maxPages
  deriving DecidableEq

theorem accepted_lt {vaddr : UInt64} {size : UInt32} (h : ¬size > 32 * 1024 * 1024) :
    (offsetInPage vaddr).toNat + size.toNat < 2 ^ 32 := by
  have hlt := offsetInPage_lt vaddr
  have hsize : size.toNat ≤ 32 * 1024 * 1024 := UInt32.le_iff_toNat_le.mp (UInt32.not_lt.mp h)
  rw [pageSize] at hlt
  omega

/-- The checks of DMA_TRANSFER, in the order the source makes them. -/
def dmaCheck (p : DmaParam) : Except Errno Transfer :=
  if hzero : p.size = 0 ∨ p.hostVaddr = 0 then .error .EINVAL
  else if hsize : p.size > 32 * 1024 * 1024 then .error .EINVAL
  else if p.hostVaddr > 0xFFFFFFFFFFFFFFFF - (p.size - 1).toUInt64 then .error .EINVAL
  else if hpages : pagesSpanned (offsetInPage p.hostVaddr) p.size > 8192 then .error .EINVAL
  else match dmaDirection p.direction with
  | none => .error .EINVAL
  | some dir =>
    have hspan := pagesSpanned_toNat (accepted_lt hsize)
    .ok {
      param := p
      dir
      pageOffset := offsetInPage p.hostVaddr
      numPages := (pagesSpanned (offsetInPage p.hostVaddr) p.size).toNat
      size_pos := Nat.pos_of_ne_zero fun h => hzero (.inl (UInt32.toNat_inj.mp h))
      offset_lt := offsetInPage_lt _
      numPages_eq := hspan
      numPages_le := UInt64.le_iff_toNat_le.mp (UInt64.not_lt.mp hpages)}

/-- A refused request is refused with -EINVAL. -/
theorem dmaCheck_error {p : DmaParam} {e : Errno} (h : dmaCheck p = .error e) : e = .EINVAL := by
  unfold dmaCheck at h
  split_ifs at h
  · exact (Except.error.inj h).symm
  · exact (Except.error.inj h).symm
  · exact (Except.error.inj h).symm
  · exact (Except.error.inj h).symm
  · split at h
    · exact (Except.error.inj h).symm
    · contradiction

theorem dmaCheck_param {p : DmaParam} {t : Transfer} (h : dmaCheck p = .ok t) : t.param = p := by
  unfold dmaCheck at h
  split_ifs at h
  split at h
  · contradiction
  · cases h
    rfl

/-- The test on the end of the host range, which has at least one byte. -/
theorem vaddr_wraps_iff {vaddr : UInt64} {size : UInt32} (hsize : size ≠ 0) :
    vaddr > 0xFFFFFFFFFFFFFFFF - (size - 1).toUInt64 ↔ 2 ^ 64 < vaddr.toNat + size.toNat := by
  have hpos : 0 < size.toNat := Nat.pos_of_ne_zero fun h => hsize (UInt32.toNat_inj.mp h)
  have hlt := size.toNat_lt
  have hlast : (size - 1).toUInt64.toNat = size.toNat - 1 := by
    have hone : (1 : UInt32) ≤ size := UInt32.le_iff_toNat_le.mpr hpos
    rw [UInt32.toNat_toUInt64, UInt32.toNat_sub_of_le _ _ hone]
    rfl
  have hend : (0xFFFFFFFFFFFFFFFF - (size - 1).toUInt64 : UInt64).toNat =
      2 ^ 64 - 1 - (size.toNat - 1) := by
    rw [UInt64.toNat_sub_of_le, hlast]
    · rfl
    · rw [UInt64.le_iff_toNat_le, hlast]
      simp only [UInt64.reduceToNat]
      omega
  rw [gt_iff_lt, UInt64.lt_iff_toNat_lt, hend]
  omega

theorem pages_exceed_iff {vaddr : UInt64} {size : UInt32} (hsize : ¬size > 32 * 1024 * 1024) :
    pagesSpanned (offsetInPage vaddr) size > 8192 ↔
      maxPages * pageSize < vaddr.toNat % pageSize + size.toNat := by
  rw [gt_iff_lt, UInt64.lt_iff_toNat_lt, pagesSpanned_toNat (accepted_lt hsize),
    offsetInPage_toNat, maxPages, pageSize]
  simp only [UInt64.reduceToNat]
  omega

/-- What the checks let pass, over the integers. -/
theorem dmaCheck_ok_iff (p : DmaParam) : (∃ t, dmaCheck p = .ok t) ↔
    p.size ≠ 0 ∧ p.hostVaddr ≠ 0 ∧ p.size.toNat ≤ 32 * 1024 * 1024 ∧
    p.hostVaddr.toNat + p.size.toNat ≤ 2 ^ 64 ∧
    p.hostVaddr.toNat % pageSize + p.size.toNat ≤ maxPages * pageSize ∧
    (dmaDirection p.direction).isSome := by
  have hlimit : p.size > 32 * 1024 * 1024 ↔ 32 * 1024 * 1024 < p.size.toNat :=
    UInt32.lt_iff_toNat_lt
  unfold dmaCheck
  split
  next hzero =>
    simp only [reduceCtorEq, exists_false, false_iff]
    rintro ⟨hsize,hvaddr,-⟩
    exact hzero.elim hsize hvaddr
  next hzero =>
    obtain ⟨hsize,hvaddr⟩ := not_or.mp hzero
    split
    next hlarge =>
      simp only [reduceCtorEq, exists_false, false_iff]
      rintro ⟨-,-,hle,-⟩
      exact absurd (hlimit.mp hlarge) (Nat.not_lt.mpr hle)
    next hlarge =>
      split
      next hwrap =>
        simp only [reduceCtorEq, exists_false, false_iff]
        rintro ⟨-,-,-,hle,-⟩
        exact absurd ((vaddr_wraps_iff hsize).mp hwrap) (Nat.not_lt.mpr hle)
      next hwrap =>
        split
        next hpages =>
          simp only [reduceCtorEq, exists_false, false_iff]
          rintro ⟨-,-,-,-,hle,-⟩
          exact absurd ((pages_exceed_iff hlarge).mp hpages) (Nat.not_lt.mpr hle)
        next hpages =>
          split
          next hdir =>
            simp [hdir]
          next dir hdir =>
            rw [hlimit, Nat.not_lt] at hlarge
            rw [vaddr_wraps_iff hsize, Nat.not_lt] at hwrap
            rw [pages_exceed_iff (by rw [hlimit]; omega), Nat.not_lt] at hpages
            exact ⟨fun _ => ⟨hsize,hvaddr,hlarge,hwrap,hpages,by rw [hdir]; rfl⟩,fun _ => ⟨_,rfl⟩⟩

theorem Transfer.covers (t : Transfer) :
    t.pageOffset.toNat + t.param.size.toNat ≤ t.numPages * pageSize := by
  rw [t.numPages_eq, pageSize]
  omega

end FpgaGpu.Driver
