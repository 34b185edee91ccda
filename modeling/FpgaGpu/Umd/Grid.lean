import FpgaGpu.Driver.Blocks
import FpgaGpu.Umd.Kernel

/-! The grid `clEnqueueNDRangeKernel` computes, and what is left of it once
SUBMIT_CMD has put its defaults in. -/
namespace FpgaGpu.Umd
open Driver Library

section
variable (nd : NDRange) (globalSize : Nat → UInt64)

/-- The requested size of a dimension; those from `work_dim` on have size 1. -/
def NDRange.extent (i : Nat) : Nat := if i < nd.workDim.toNat then (globalSize i).toNat else 1

/-- The requested work-items. -/
def NDRange.items : Finset (Nat × Nat × Nat) :=
  Driver.items (nd.extent globalSize 0) (nd.extent globalSize 1) (nd.extent globalSize 2)

/-- The sizes that are read fit 32 bits. -/
structure NDRange.Fits : Prop where
  globalSize_lt : ∀ i < 2, nd.extent globalSize i < 2 ^ 32
  localSize_lt : ∀ size, nd.localWorkSize = some size → ∀ i < nd.workDim.toNat,
    (size i).toNat < 2 ^ 32

end

/-- A quotient that fits is computed exactly: then the rounding cannot wrap. -/
theorem gridSize_exact {size : UInt64} {block : UInt32} (hblock : 0 < block.toNat)
    (hceil : size.toNat ⌈/⌉ block.toNat < 2 ^ 32) :
    (gridSize size block).toNat = size.toNat ⌈/⌉ block.toNat := by
  have hlt := block.toNat_lt
  have hcover : size.toNat ≤ block.toNat * (size.toNat ⌈/⌉ block.toNat) :=
    (ceilDiv_le_iff_le_mul hblock).mp (Nat.le_refl _)
  have hbound : block.toNat * (size.toNat ⌈/⌉ block.toNat) ≤ (2 ^ 32 - 1) * (2 ^ 32 - 1) :=
    Nat.mul_le_mul (by omega) (by omega)
  have hsum : (size + block.toUInt64).toNat = size.toNat + block.toNat := by
    rw [UInt64.toNat_add, UInt32.toNat_toUInt64]
    omega
  have hone : (1 : UInt64) ≤ size + block.toUInt64 := by
    rw [UInt64.le_iff_toNat_le, hsum]
    exact Nat.le_add_left_of_le hblock
  unfold gridSize
  rw [UInt64.toNat_toUInt32, UInt64.toNat_div, UInt64.toNat_sub_of_le _ _ hone, hsum,
    UInt32.toNat_toUInt64, Nat.ceilDiv_eq_add_pred_div] at *
  exact Nat.mod_eq_of_lt hceil

theorem gridSize_toNat {size : UInt64} {block : UInt32} (hsize : size.toNat < 2 ^ 32)
    (hblock : 0 < block.toNat) : (gridSize size block).toNat = size.toNat ⌈/⌉ block.toNat := by
  have hceil : size.toNat ⌈/⌉ block.toNat ≤ size.toNat :=
    (ceilDiv_le_iff_le_mul hblock).mpr (Nat.le_mul_of_pos_left _ hblock)
  exact gridSize_exact hblock (Nat.lt_of_le_of_lt hceil hsize)

theorem gridSize_ne_zero {size : UInt64} {block : UInt32} (hsize : size.toNat < 2 ^ 32)
    (hblock : 0 < block.toNat) (hpos : 0 < size.toNat) : gridSize size block ≠ 0 := by
  intro hzero
  have hceil := gridSize_toNat hsize hblock
  rw [hzero] at hceil
  have hle := (ceilDiv_le_iff_le_mul hblock).mp (Nat.le_of_eq hceil.symm)
  simp only [UInt32.toNat_zero, Nat.mul_zero] at hle
  omega

variable {nd : NDRange} {globalSize : Nat → UInt64} {cmd : LaunchCmd}

/-- The command where the divisions by the block sizes do not trap. -/
theorem launchCmd_some (h : launchCmd nd globalSize = some cmd) :
    0 < nd.blockX.toNat ∧ 0 < nd.blockY.toNat ∧
      cmd.gridDimX = gridSize (globalSize 0) nd.blockX ∧
      cmd.gridDimY = (if 1 < nd.workDim then gridSize (globalSize 1) nd.blockY else 1) ∧
      cmd.blockDimX = nd.blockX ∧ cmd.blockDimY = nd.blockY ∧
      cmd.numElements =
        (globalSize 0 * if 1 < nd.workDim then globalSize 1 else 1).toUInt32 := by
  unfold launchCmd at h
  split at h
  · contradiction
  next htrap =>
    obtain ⟨hx,hy⟩ := not_or.mp htrap
    obtain rfl := Option.some.inj h
    refine ⟨toNat_pos hx,toNat_pos fun hzero => ?_,rfl,rfl,rfl,rfl,rfl⟩
    by_cases hdim : 1 < nd.workDim
    · exact hy ⟨hdim,hzero⟩
    · unfold NDRange.blockY at hzero
      split at hzero <;> simp [hdim] at hzero

theorem extent_of_lt {i : Nat} (h : i < nd.workDim.toNat) :
    nd.extent globalSize i = (globalSize i).toNat := if_pos h

theorem extent_of_le {i : Nat} (h : nd.workDim.toNat ≤ i) : nd.extent globalSize i = 1 :=
  if_neg (Nat.not_lt.mpr h)

theorem one_lt_workDim : 1 < nd.workDim ↔ 1 < nd.workDim.toNat := UInt32.lt_iff_toNat_lt

/-- The task that SUBMIT_CMD makes of a command whose grid is not empty: the
defaults are not used, and the grid has the blocks the range needs. -/
structure TaskFits (nd : NDRange) (globalSize : Nat → UInt64) (cmd : LaunchCmd) : Prop where
  kept : submitTask cmd = {
    magic := magicOcl
    opcode := cmd.opcode
    gridDimX := cmd.gridDimX
    gridDimY := cmd.gridDimY
    blockDimX := cmd.blockDimX
    blockDimY := cmd.blockDimY
    srcDmaAddr := cmd.dmaSrcAddr
    dstDmaAddr := cmd.dmaDstAddr
    numElements := cmd.numElements }
  tilingX : (submitTask cmd).tilingX = Tiling.fit (nd.extent globalSize 0) nd.blockX.toNat
  tilingY : (submitTask cmd).tilingY = Tiling.fit (nd.extent globalSize 1) nd.blockY.toNat

theorem taskFits (h : launchCmd nd globalSize = some cmd) (hfits : nd.Fits globalSize)
    (hdim : nd.workDim ≠ 0) (hx : 0 < nd.extent globalSize 0) (hy : 0 < nd.extent globalSize 1) :
    TaskFits nd globalSize cmd := by
  obtain ⟨hblockX,hblockY,hgridX,hgridY,hbx,hby,-⟩ := launchCmd_some h
  have hltX := hfits.globalSize_lt 0 (by decide)
  have hltY := hfits.globalSize_lt 1 (by decide)
  rw [extent_of_lt (toNat_pos hdim)] at hx hltX
  have hceilX := gridSize_toNat hltX hblockX
  have hneX : cmd.gridDimX ≠ 0 := hgridX ▸ gridSize_ne_zero hltX hblockX hx
  have hneBX : cmd.blockDimX ≠ 0 := by
    rintro hzero
    rw [← hbx, hzero] at hblockX
    exact absurd hblockX (by decide)
  have hneBY : cmd.blockDimY ≠ 0 := by
    rintro hzero
    rw [← hby, hzero] at hblockY
    exact absurd hblockY (by decide)
  have hceilY : cmd.gridDimY.toNat = nd.extent globalSize 1 ⌈/⌉ nd.blockY.toNat ∧
      cmd.gridDimY ≠ 0 := by
    by_cases htwo : 1 < nd.workDim
    · rw [extent_of_lt (one_lt_workDim.mp htwo)] at hy hltY ⊢
      rw [hgridY, if_pos htwo]
      exact ⟨gridSize_toNat hltY hblockY,gridSize_ne_zero hltY hblockY hy⟩
    · have hone : nd.blockY = 1 := by
        unfold NDRange.blockY
        split <;> simp [htwo]
      rw [extent_of_le (Nat.not_lt.mp (mt one_lt_workDim.mpr htwo)), hgridY, if_neg htwo, hone]
      exact ⟨rfl,by decide⟩
  have hkept : submitTask cmd = ⟨magicOcl,cmd.opcode,cmd.gridDimX,cmd.gridDimY,cmd.blockDimX,
      cmd.blockDimY,cmd.dmaSrcAddr,cmd.dmaDstAddr,cmd.numElements,0,0,(0,0,0)⟩ := by
    simp [submitTask, hneX, hceilY.2, hneBX, hneBY]
  refine ⟨hkept,?_,?_⟩
  · rw [extent_of_lt (toNat_pos hdim)]
    unfold DispatchPacket.tilingX Tiling.fit
    rw [hkept, hgridX, hbx, hceilX]
  · unfold DispatchPacket.tilingY Tiling.fit
    rw [hkept, hby, hceilY.1]

/-- A range that is one item deep is cut up into the blocks of the task. -/
theorem blocks_fit (h : launchCmd nd globalSize = some cmd) (hfits : nd.Fits globalSize)
    (hdim : nd.workDim ≠ 0) (hx : 0 < nd.extent globalSize 0) (hy : 0 < nd.extent globalSize 1)
    (hz : nd.extent globalSize 2 = 1) :
    (∀ item ∈ nd.items globalSize, ∃! at' : (Nat × Nat) × (Nat × Nat),
      at'.1 ∈ (submitTask cmd).blocks ∧ at'.2 ∈ (submitTask cmd).lanes ∧
        (submitTask cmd).item at'.1 at'.2 = item) ∧
    ∀ block ∈ (submitTask cmd).blocks, ∃ lane ∈ (submitTask cmd).lanes,
      (submitTask cmd).item block lane ∈ nd.items globalSize := by
  obtain ⟨hblockX,hblockY,-⟩ := launchCmd_some h
  obtain ⟨-,htilingX,htilingY⟩ := taskFits h hfits hdim hx hy
  unfold NDRange.items
  rw [hz]
  constructor
  · apply DispatchPacket.covers_once
    · exact htilingX ▸ Tiling.fit_covers hblockX
    · exact htilingY ▸ Tiling.fit_covers hblockY
  · apply DispatchPacket.meets
    · exact htilingX ▸ Tiling.fit_meets hblockX
    · exact htilingY ▸ Tiling.fit_meets hblockY

/-- The packet of a range of one or two dimensions: its blocks hold each work-item
once, none is empty, and what the user-mode driver computed is what is written. -/
structure DispatchesWhole (nd : NDRange) (globalSize : Nat → UInt64) (cmd : LaunchCmd) :
    Prop where
  once : ∀ item ∈ nd.items globalSize, ∃! at' : (Nat × Nat) × (Nat × Nat),
    at'.1 ∈ (submitTask cmd).blocks ∧ at'.2 ∈ (submitTask cmd).lanes ∧
      (submitTask cmd).item at'.1 at'.2 = item
  used : ∀ block ∈ (submitTask cmd).blocks, ∃ lane ∈ (submitTask cmd).lanes,
    (submitTask cmd).item block lane ∈ nd.items globalSize
  count : (submitTask cmd).numElements.toNat = (nd.items globalSize).card
  kept : (submitTask cmd).gridDimX = cmd.gridDimX ∧ (submitTask cmd).gridDimY = cmd.gridDimY ∧
    (submitTask cmd).blockDimX = cmd.blockDimX ∧ (submitTask cmd).blockDimY = cmd.blockDimY

/-- The sizes of a call with one or two dimensions. -/
structure NDRange.Flat (nd : NDRange) (globalSize : Nat → UInt64) : Prop where
  workDim : nd.workDim = 1 ∨ nd.workDim = 2
  globalSize_pos : ∀ i < nd.workDim.toNat, 0 < (globalSize i).toNat
  product_lt : nd.extent globalSize 0 * nd.extent globalSize 1 < 2 ^ 32
  localSize_lt : ∀ size, nd.localWorkSize = some size → ∀ i < nd.workDim.toNat,
    (size i).toNat < 2 ^ 32

theorem NDRange.Flat.extent_pos (h : nd.Flat globalSize) (i : Nat) :
    0 < nd.extent globalSize i := by
  by_cases hi : i < nd.workDim.toNat
  · rw [extent_of_lt hi]
    exact h.globalSize_pos i hi
  · rw [extent_of_le (Nat.not_lt.mp hi)]
    exact Nat.one_pos

theorem NDRange.Flat.fits (h : nd.Flat globalSize) : nd.Fits globalSize := by
  have hx := h.extent_pos 0
  have hy := h.extent_pos 1
  have hlt := h.product_lt
  refine ⟨fun i hi => ?_,h.localSize_lt⟩
  rcases (by omega : i = 0 ∨ i = 1) with rfl | rfl
  · exact Nat.lt_of_le_of_lt (Nat.le_mul_of_pos_right _ hy) hlt
  · exact Nat.lt_of_le_of_lt (Nat.le_mul_of_pos_left _ hx) hlt

/-- `num_elements` is the product of the sizes where that fits. -/
theorem numElements_toNat (h : launchCmd nd globalSize = some cmd) (hdim : nd.workDim ≠ 0)
    (hlt : nd.extent globalSize 0 * nd.extent globalSize 1 < 2 ^ 32) :
    (submitTask cmd).numElements.toNat =
      nd.extent globalSize 0 * nd.extent globalSize 1 := by
  obtain ⟨-,-,-,-,-,-,hnum⟩ := launchCmd_some h
  have hsecond : (if 1 < nd.workDim then globalSize 1 else 1).toNat =
      nd.extent globalSize 1 := by
    by_cases htwo : 1 < nd.workDim
    · rw [if_pos htwo, extent_of_lt (one_lt_workDim.mp htwo)]
    · rw [if_neg htwo, extent_of_le (Nat.not_lt.mp (mt one_lt_workDim.mpr htwo))]
      rfl
  have hsubmit : (submitTask cmd).numElements = cmd.numElements := rfl
  rw [hsubmit, hnum, UInt64.toNat_toUInt32, UInt64.toNat_mul, hsecond,
    ← extent_of_lt (toNat_pos hdim)]
  omega

theorem flat_dispatches (h : launchCmd nd globalSize = some cmd) (hflat : nd.Flat globalSize) :
    DispatchesWhole nd globalSize cmd := by
  have hdim : nd.workDim ≠ 0 ∧ nd.workDim.toNat ≤ 2 := by
    rcases hflat.workDim with hd | hd <;> rw [hd] <;> decide
  have hz : nd.extent globalSize 2 = 1 := extent_of_le hdim.2
  have hfit := blocks_fit h hflat.fits hdim.1 (hflat.extent_pos 0) (hflat.extent_pos 1) hz
  have hkept := (taskFits h hflat.fits hdim.1 (hflat.extent_pos 0) (hflat.extent_pos 1)).kept
  refine ⟨hfit.1,hfit.2,?_,?_⟩
  · rw [numElements_toNat h hdim.1 hflat.product_lt]
    simp [NDRange.items, Driver.items, hz]
  · rw [hkept]
    exact ⟨rfl,rfl,rfl,rfl⟩

/-- The blocks hold every work-item, and no block holds none. -/
structure DispatchesFaithfully (nd : NDRange) (globalSize : Nat → UInt64) (cmd : LaunchCmd) :
    Prop where
  all : ∀ item ∈ nd.items globalSize, ∃ block ∈ (submitTask cmd).blocks,
    ∃ lane ∈ (submitTask cmd).lanes, (submitTask cmd).item block lane = item
  used : ∀ block ∈ (submitTask cmd).blocks, ∃ lane ∈ (submitTask cmd).lanes,
    (submitTask cmd).item block lane ∈ nd.items globalSize

/-- Some size is 0, or there are three of them. -/
def NDRange.EmptyOrDeep (nd : NDRange) (globalSize : Nat → UInt64) : Prop :=
  (∃ i < nd.workDim.toNat, globalSize i = 0) ∨ nd.workDim = 3

/-- Three dimensions, of which the last is one item deep. -/
def NDRange.OneLayer (nd : NDRange) (globalSize : Nat → UInt64) : Prop :=
  nd.workDim = 3 ∧ globalSize 0 ≠ 0 ∧ globalSize 1 ≠ 0 ∧ globalSize 2 = 1

theorem mem_items {x y z : Nat} : (x,y,z) ∈ nd.items globalSize ↔
    x < nd.extent globalSize 0 ∧ y < nd.extent globalSize 1 ∧ z < nd.extent globalSize 2 := by
  simp [NDRange.items, Driver.items]

theorem items_deep {block lane : Nat × Nat} {p : DispatchPacket} {x y z : Nat}
    (h : p.item block lane = (x,y,z)) : z = 0 := by
  have hlast := congrArg (fun item => item.2.2) h
  exact hlast.symm

/-- Every task has a first block, so a range that it is faithful to is not empty. -/
theorem DispatchesFaithfully.extent_pos (h : DispatchesFaithfully nd globalSize cmd) {i : Nat}
    (hi : i < 3) : 0 < nd.extent globalSize i := by
  obtain ⟨lane,-,hitem⟩ := h.used (0,0) (submitTask_has_block cmd)
  obtain ⟨hx,hy,hz⟩ := mem_items.mp hitem
  rcases (by omega : i = 0 ∨ i = 1 ∨ i = 2) with rfl | rfl | rfl <;> omega

/-- An empty range is given blocks by the defaults, and a packet has no third
dimension. -/
theorem faithfully_iff_oneLayer (h : launchCmd nd globalSize = some cmd)
    (hfits : nd.Fits globalSize) (hdim : nd.workDim ≠ 0) (hthree : ¬3 < nd.workDim)
    (hdomain : nd.EmptyOrDeep globalSize) :
    DispatchesFaithfully nd globalSize cmd ↔ nd.OneLayer globalSize := by
  have hthree : nd.workDim.toNat ≤ 3 := UInt32.le_iff_toNat_le.mp (UInt32.not_lt.mp hthree)
  constructor
  · intro hfaithful
    have hne : ∀ i < nd.workDim.toNat, globalSize i ≠ 0 := by
      intro i hi hzero
      have hext := hfaithful.extent_pos (Nat.lt_of_lt_of_le hi hthree)
      rw [extent_of_lt hi, hzero] at hext
      exact absurd hext (by decide)
    have hdeep : nd.workDim = 3 := hdomain.resolve_left fun ⟨i,hi,hzero⟩ => hne i hi hzero
    have htoNat : nd.workDim.toNat = 3 := by rw [hdeep]; rfl
    refine ⟨hdeep,hne 0 (by omega),hne 1 (by omega),?_⟩
    by_contra hlayers
    -- a second layer has a work-item that no lane of any block is
    have htwo : 1 < nd.extent globalSize 2 := by
      have hpos := hfaithful.extent_pos (i := 2) (by decide)
      have hother : nd.extent globalSize 2 ≠ 1 := by
        rw [extent_of_lt (by omega)]
        exact fun heq => hlayers (UInt64.toNat_inj.mp heq)
      omega
    have hmem : (0,0,1) ∈ nd.items globalSize :=
      mem_items.mpr ⟨hfaithful.extent_pos (by decide),hfaithful.extent_pos (by decide),htwo⟩
    obtain ⟨block,-,lane,-,hat⟩ := hfaithful.all _ hmem
    exact absurd (items_deep hat) (by decide)
  · rintro ⟨hdeep,hx,hy,hz⟩
    have htoNat : nd.workDim.toNat = 3 := by rw [hdeep]; rfl
    have hpos : ∀ i < 3, globalSize i ≠ 0 → 0 < nd.extent globalSize i := by
      intro i hi hne
      rw [extent_of_lt (by omega)]
      exact Nat.pos_of_ne_zero fun hzero => hne (UInt64.toNat_inj.mp hzero)
    have hlayer : nd.extent globalSize 2 = 1 := by
      rw [extent_of_lt (by omega), hz]
      rfl
    obtain ⟨honce,hused⟩ :=
      blocks_fit h hfits hdim (hpos 0 (by decide) hx) (hpos 1 (by decide) hy) hlayer
    refine ⟨fun item hitem => ?_,hused⟩
    obtain ⟨⟨block,lane⟩,⟨hblock,hlane,hat⟩,-⟩ := honce item hitem
    exact ⟨block,hblock,lane,hlane,hat⟩

end FpgaGpu.Umd
