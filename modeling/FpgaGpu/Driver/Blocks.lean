import FpgaGpu.Driver.Packet
import FpgaGpu.Library.Tiling
import Mathlib.Data.Finset.Prod
import Mathlib.Data.Finset.Range

/-! The blocks and lanes a launch packet stands for, and the work-items they hold. -/
namespace FpgaGpu.Driver
open Library

def DispatchPacket.tilingX (p : DispatchPacket) : Tiling := ⟨p.gridDimX.toNat,p.blockDimX.toNat⟩
def DispatchPacket.tilingY (p : DispatchPacket) : Tiling := ⟨p.gridDimY.toNat,p.blockDimY.toNat⟩

def DispatchPacket.blocks (p : DispatchPacket) : Finset (Nat × Nat) :=
  .range p.gridDimX.toNat ×ˢ .range p.gridDimY.toNat

def DispatchPacket.lanes (p : DispatchPacket) : Finset (Nat × Nat) :=
  .range p.blockDimX.toNat ×ˢ .range p.blockDimY.toNat

/-- The work-item (x, y, z) of a lane of a block. A packet knows no third dimension. -/
def DispatchPacket.item (p : DispatchPacket) (block lane : Nat × Nat) : Nat × Nat × Nat :=
  (p.tilingX.place block.1 lane.1,p.tilingY.place block.2 lane.2,0)

/-- The items of a range of three dimensions. -/
def items (nx ny nz : Nat) : Finset (Nat × Nat × Nat) := .range nx ×ˢ .range ny ×ˢ .range nz

theorem mem_layer {x y z nx ny : Nat} :
    (x,y,z) ∈ items nx ny 1 ↔ x < nx ∧ y < ny ∧ z = 0 := by
  unfold items
  rw [Finset.mem_product, Finset.mem_product, Finset.mem_range, Finset.mem_range,
    Finset.mem_range, Nat.lt_one_iff]

theorem mem_ranges {x y nx ny : Nat} :
    (x,y) ∈ Finset.range nx ×ˢ Finset.range ny ↔ x < nx ∧ y < ny := by
  rw [Finset.mem_product, Finset.mem_range, Finset.mem_range]

theorem DispatchPacket.covers_once {p : DispatchPacket} {nx ny : Nat}
    (hx : p.tilingX.Covers nx) (hy : p.tilingY.Covers ny) :
    ∀ item ∈ items nx ny 1, ∃! at' : (Nat × Nat) × (Nat × Nat),
      at'.1 ∈ p.blocks ∧ at'.2 ∈ p.lanes ∧ p.item at'.1 at'.2 = item := by
  rintro ⟨x,y,z⟩ hitem
  obtain ⟨hxn,hyn,rfl⟩ := mem_layer.mp hitem
  obtain ⟨⟨bx,lx⟩,⟨hbx,hlx,hplacex⟩,honlyx⟩ := hx x hxn
  obtain ⟨⟨byy,ly⟩,⟨hby,hly,hplacey⟩,honlyy⟩ := hy y hyn
  refine ⟨((bx,byy),(lx,ly)),⟨mem_ranges.mpr ⟨hbx,hby⟩,mem_ranges.mpr ⟨hlx,hly⟩,?_⟩,?_⟩
  · rw [item, hplacex, hplacey]
  · rintro ⟨⟨bx',by'⟩,⟨lx',ly'⟩⟩ ⟨hblock,hlane,hat⟩
    obtain ⟨hbx',hby'⟩ := mem_ranges.mp hblock
    obtain ⟨hlx',hly'⟩ := mem_ranges.mp hlane
    have hx' : p.tilingX.place bx' lx' = x := congrArg Prod.fst hat
    have hy' : p.tilingY.place by' ly' = y := congrArg (fun at' => at'.2.1) hat
    have heqx : (bx',lx') = (bx,lx) := honlyx (bx',lx') ⟨hbx',hlx',hx'⟩
    have heqy : (by',ly') = (byy,ly) := honlyy (by',ly') ⟨hby',hly',hy'⟩
    obtain ⟨rfl,rfl⟩ := Prod.mk.inj heqx
    obtain ⟨rfl,rfl⟩ := Prod.mk.inj heqy
    rfl

theorem DispatchPacket.meets {p : DispatchPacket} {nx ny : Nat}
    (hx : p.tilingX.Meets nx) (hy : p.tilingY.Meets ny) :
    ∀ block ∈ p.blocks, ∃ lane ∈ p.lanes, p.item block lane ∈ items nx ny 1 := by
  rintro ⟨bx,byy⟩ hblock
  obtain ⟨hbx,hby⟩ := mem_ranges.mp hblock
  obtain ⟨lx,hlx,hplacex⟩ := hx bx hbx
  obtain ⟨ly,hly,hplacey⟩ := hy byy hby
  exact ⟨(lx,ly),mem_ranges.mpr ⟨hlx,hly⟩,mem_layer.mpr ⟨hplacex,hplacey,rfl⟩⟩

theorem toNat_pos {x : UInt32} (h : x ≠ 0) : 0 < x.toNat :=
  Nat.pos_of_ne_zero fun hzero => h (UInt32.toNat_inj.mp hzero)

/-- With its defaults a task always has a block. -/
theorem submitTask_has_block (cmd : LaunchCmd) : (0,0) ∈ (submitTask cmd).blocks := by
  have hx : (submitTask cmd).gridDimX ≠ 0 := by
    by_cases h : cmd.gridDimX = 0 <;> simp [submitTask, h]
  have hy : (submitTask cmd).gridDimY ≠ 0 := by
    by_cases h : cmd.gridDimY = 0 <;> simp [submitTask, h]
  exact mem_ranges.mpr ⟨toNat_pos hx,toNat_pos hy⟩

end FpgaGpu.Driver
