import FpgaGpu.Driver.Packet

/-! Where the driver's MMIO accesses land in BAR0. -/
namespace FpgaGpu.Driver

def kernelStagingOffset : Nat := 0x00010000
def ringOffset : Nat := 0x00018000
def cpIrqOffset : Nat := 0x00020000
def queueSize : Nat := 512

/-- Read by GET_VERSION and by probe. -/
def majorVersionOffset : Nat := 0x20008
def minorVersionOffset : Nat := 0x2000C

/-- `offsetof(struct fpgagpu_ring_buffer, cmds)`: head, tail and 14 reserved words. -/
def cmdsOffset : Nat := 64

/-- The words the ioctls write, as the C code addresses them. -/
inductive Reg where
  | tail
  | cmd (slot word : Nat)
  | irq
  | staging (i : Nat)
  deriving DecidableEq, Repr

/-- The BAR0 offset of the first of the four bytes of a word. -/
def Reg.offset : Reg → Nat
  | .tail => ringOffset + 4
  | .cmd slot word => ringOffset + cmdsOffset + 64 * slot + 4 * word
  | .irq => cpIrqOffset
  | .staging i => kernelStagingOffset + i * 4

/-- The write of this word changes the byte at `b`. -/
def Reg.Touches (r : Reg) (b : Nat) : Prop := r.offset ≤ b ∧ b < r.offset + 4

/-- The write changes some byte of the 32-bit register at `base`. -/
def Reg.Hits (r : Reg) (base : Nat) : Prop := ∃ b, r.Touches b ∧ base ≤ b ∧ b < base + 4

theorem Reg.hits_iff (r : Reg) (base : Nat) :
    r.Hits base ↔ r.offset < base + 4 ∧ base < r.offset + 4 := by
  constructor
  · rintro ⟨b,⟨hlo,hhi⟩,hbase,hend⟩
    omega
  · rintro ⟨hlo,hhi⟩
    exact ⟨max r.offset base,⟨by omega,by omega⟩,by omega,by omega⟩

/-- `(t + 1) % QUEUE_SIZE` in the 32-bit arithmetic of the driver. -/
def nextSlot (t : UInt32) : UInt32 := (t + 1) % UInt32.ofNat queueSize

/-- The ring index of an unbounded position. -/
def slot (p : Nat) : UInt32 := UInt32.ofNat (p % queueSize)

@[simp] theorem slot_toNat (p : Nat) : (slot p).toNat = p % queueSize := by
  have hlt : p % queueSize < queueSize := Nat.mod_lt _ (by decide)
  rw [slot, UInt32.toNat_ofNat', Nat.mod_eq_of_lt (Nat.lt_trans hlt (by decide))]

theorem slot_eq_iff (p q : Nat) : slot p = slot q ↔ p % queueSize = q % queueSize := by
  rw [← UInt32.toNat_inj, slot_toNat, slot_toNat]

@[simp] theorem nextSlot_slot (p : Nat) : nextSlot (slot p) = slot (p + 1) := by
  have hlt : p % queueSize < queueSize := Nat.mod_lt _ (by decide)
  rw [← UInt32.toNat_inj, nextSlot, UInt32.toNat_mod, UInt32.toNat_add, slot_toNat, slot_toNat]
  simp only [queueSize] at hlt ⊢
  rw [Nat.mod_eq_of_lt (by simp; omega : p % 512 + (1 : UInt32).toNat < 2 ^ 32)]
  simp

@[simp] theorem slot_zero : slot 0 = 0 := rfl

end FpgaGpu.Driver
