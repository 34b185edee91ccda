import Mathlib.Data.Nat.Bitwise

/-! The VRAM allocator: one cursor for the whole process, reset by every new
context. -/
namespace FpgaGpu.Umd

/-- `FPGAGPU_VRAM_USER_BASE` and `FPGAGPU_VRAM_TOTAL_SIZE`. -/
def vramUserBase : UInt64 := 0x00010000
def vramTotalSize : UInt64 := 1024 * 1024 * 1024

/-- The statics of `vram_alloc.c`. -/
structure Vram where
  currentHeapPtr : UInt64
  vramInitialized : Bool
  deriving DecidableEq, Repr

/-- The statics as the process starts. -/
def Vram.static : Vram := ⟨vramUserBase,false⟩

/-- `fpgagpu_vram_init`. -/
def Vram.init (_ : Vram) : Vram := ⟨vramUserBase,true⟩

/-- `(size + PAGE_SIZE_4K - 1) & ~(PAGE_SIZE_4K - 1)`. -/
def alignedSize (size : UInt64) : UInt64 := (size + 4096 - 1) &&& ~~~(4096 - 1)

/-- The first request initializes the allocator, unless a context has. -/
def Vram.ready (v : Vram) : Vram := if !v.vramInitialized then ⟨vramUserBase,true⟩ else v

/-- `fpgagpu_vram_alloc`. -/
def Vram.alloc (size : UInt64) (v : Vram) : UInt64 × Vram :=
  if size = 0 then (0,v)
  else
    let v := v.ready
    if v.currentHeapPtr + alignedSize size > vramTotalSize then (0,v)
    else (v.currentHeapPtr,{v with currentHeapPtr := v.currentHeapPtr + alignedSize size})

/-- `fpgagpu_vram_free`. -/
def Vram.free (_addr _size : UInt64) (v : Vram) : Vram := v

/-- Where the next allocation begins. -/
def Vram.heap (v : Vram) : UInt64 := v.ready.currentHeapPtr

@[simp] theorem Vram.ready_vramInitialized (v : Vram) : v.ready.vramInitialized = true := by
  unfold ready
  split <;> simp_all

theorem Vram.heap_of_initialized {v : Vram} (h : v.vramInitialized = true) :
    v.heap = v.currentHeapPtr := by
  simp [heap, ready, h]

/-- The mask of whole pages. -/
theorem and_pageMask_toNat (x : UInt64) : (x &&& ~~~(4096 - 1)).toNat = x.toNat / 4096 * 4096 := by
  have hmask : (~~~(4096 - 1) : UInt64).toNat = (2 ^ 52 - 1) * 2 ^ 12 := by decide
  rw [UInt64.toNat_and, hmask]
  apply Nat.eq_of_testBit_eq
  intro i
  rw [Nat.testBit_and, show (4096 : Nat) = 2 ^ 12 from rfl, Nat.testBit_mul_two_pow,
    Nat.testBit_mul_two_pow, Nat.testBit_two_pow_sub_one, Nat.testBit_div_two_pow]
  by_cases hlow : 12 ≤ i
  · by_cases hhigh : i < 64
    · simp [hlow, show i - 12 < 52 by omega, show i - 12 + 12 = i by omega]
    · have hlarge : 2 ^ 64 ≤ 2 ^ i := Nat.pow_le_pow_right (by decide) (by omega)
      have hbit : x.toNat.testBit i = false :=
        Nat.testBit_lt_two_pow (Nat.lt_of_lt_of_le x.toNat_lt hlarge)
      simp [hbit, show i - 12 + 12 = i by omega]
  · simp [hlow]

theorem alignedSize_toNat {size : UInt64} (h : size.toNat + 4095 < 2 ^ 64) :
    (alignedSize size).toNat = (size.toNat + 4095) / 4096 * 4096 := by
  have hsum : (size + 4096 - 1).toNat = size.toNat + 4095 := by
    have hadd : size + 4096 - 1 = size + 4095 := by
      rw [UInt64.sub_eq_add_neg, UInt64.add_assoc]
      rfl
    rw [hadd, UInt64.toNat_add]
    exact Nat.mod_eq_of_lt h
  rw [alignedSize, and_pageMask_toNat, hsum]

/-- What a request does: nothing that matters, or a move of the cursor. -/
theorem Vram.alloc_eq (size : UInt64) (v : Vram) :
    (v.alloc size).1 = 0 ∧ (v.alloc size).2.heap = v.heap ∨
    (v.alloc size).1 = v.heap ∧ (v.alloc size).2.heap = v.heap + alignedSize size ∧
      v.heap + alignedSize size ≤ vramTotalSize := by
  simp only [alloc]
  split_ifs with hzero hfull
  · exact .inl ⟨rfl,rfl⟩
  · exact .inl ⟨rfl,heap_of_initialized v.ready_vramInitialized⟩
  · exact .inr ⟨rfl,heap_of_initialized v.ready_vramInitialized,UInt64.not_lt.mp hfull⟩

/-- A request is refused, or gets the room it asked for. Below 2^63 neither the
rounding nor the addition to the cursor wraps. -/
theorem Vram.alloc_cases {size : UInt64} {v : Vram} (hheap : v.heap ≤ vramTotalSize)
    (hsize : size.toNat < 2 ^ 63) :
    (v.alloc size).1 = 0 ∧ (v.alloc size).2.heap = v.heap ∨
    (v.alloc size).1 = v.heap ∧ v.heap.toNat + size.toNat ≤ (v.alloc size).2.heap.toNat ∧
      (v.alloc size).2.heap ≤ vramTotalSize := by
  have htotal : vramTotalSize.toNat = 2 ^ 30 := rfl
  rw [UInt64.le_iff_toNat_le, htotal] at hheap
  refine (v.alloc_eq size).imp_right fun ⟨haddr,hnext,hle⟩ => ⟨haddr,?_,hnext ▸ hle⟩
  have haligned : (alignedSize size).toNat = (size.toNat + 4095) / 4096 * 4096 :=
    alignedSize_toNat (by omega)
  rw [hnext, UInt64.toNat_add, haligned]
  omega

end FpgaGpu.Umd
