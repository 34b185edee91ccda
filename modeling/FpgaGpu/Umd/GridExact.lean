import FpgaGpu.Umd.Dispatch

/-! The launch of a call with one or two dimensions against the exact one: the sizes
are any `size_t`, the fields have 32 bits. -/
namespace FpgaGpu.Umd
open Driver Library

section
variable (nd : NDRange) (globalSize : Nat → UInt64)

/-- The local size of a dimension, or its default: 2 items in the first, else 1. -/
def NDRange.localExtent (i : Nat) : Nat :=
  match nd.localWorkSize with
  | some size =>
      if i < nd.workDim.toNat ∧ 0 < size i then (size i).toNat else if i = 0 then 2 else 1
  | none => if i = 0 then 2 else 1

/-- The blocks that a dimension needs. -/
def NDRange.gridExtent (i : Nat) : Nat := nd.extent globalSize i ⌈/⌉ nd.localExtent i

/-- The exact values of the launch fit their fields. -/
structure NDRange.FieldsFit : Prop where
  localExtent_lt : ∀ i < 2, nd.localExtent i < 2 ^ 32
  gridExtent_lt : ∀ i < 2, nd.gridExtent globalSize i < 2 ^ 32
  product_lt : nd.extent globalSize 0 * nd.extent globalSize 1 < 2 ^ 32

/-- A command with the exact values. -/
structure ExactLaunch (cmd : LaunchCmd) : Prop where
  blockX : cmd.blockDimX.toNat = nd.localExtent 0
  blockY : cmd.blockDimY.toNat = nd.localExtent 1
  gridX : cmd.gridDimX.toNat = nd.gridExtent globalSize 0
  gridY : cmd.gridDimY.toNat = nd.gridExtent globalSize 1
  items : cmd.numElements.toNat = nd.extent globalSize 0 * nd.extent globalSize 1

end

variable {nd : NDRange} {globalSize : Nat → UInt64}

theorem localExtent_pos (nd : NDRange) (i : Nat) : 0 < nd.localExtent i := by
  unfold NDRange.localExtent
  split
  next size _ =>
    split
    next hsize => exact UInt64.lt_iff_toNat_lt.mp hsize.2
    next => split <;> decide
  next => split <;> decide

theorem NDRange.blockX_toNat (hdim : 0 < nd.workDim.toNat) (h : nd.localExtent 0 < 2 ^ 32) :
    nd.blockX.toNat = nd.localExtent 0 := by
  unfold localExtent at h ⊢
  unfold blockX
  cases hlocal : nd.localWorkSize with
  | none => rfl
  | some size =>
    simp only [hlocal, hdim, true_and] at h ⊢
    split
    next hpos =>
      rw [if_pos hpos] at h
      rw [UInt64.toNat_toUInt32, Nat.mod_eq_of_lt h]
    next => rfl

theorem NDRange.blockY_toNat (h : nd.localExtent 1 < 2 ^ 32) :
    nd.blockY.toNat = nd.localExtent 1 := by
  unfold localExtent at h ⊢
  unfold blockY
  cases hlocal : nd.localWorkSize with
  | none => rfl
  | some size =>
    simp only [hlocal, one_lt_workDim] at h ⊢
    split
    next hpos =>
      rw [if_pos hpos] at h
      rw [UInt64.toNat_toUInt32, Nat.mod_eq_of_lt h]
    next => rfl

/-- A dimension that is not given has one item, in one block. -/
theorem gridExtent_one (hone : ¬1 < nd.workDim) : nd.gridExtent globalSize 1 = 1 := by
  have hdim : ¬1 < nd.workDim.toNat := mt one_lt_workDim.mpr hone
  have hlocal : nd.localExtent 1 = 1 := by
    unfold NDRange.localExtent
    split
    · exact if_neg fun hsize => hdim hsize.1
    · rfl
  unfold NDRange.gridExtent
  rw [extent_of_le (Nat.not_lt.mp hdim), hlocal]
  rfl

theorem gridY_toNat (h : nd.FieldsFit globalSize) :
    (if 1 < nd.workDim then gridSize (globalSize 1) nd.blockY else 1).toNat =
      nd.gridExtent globalSize 1 := by
  split
  next htwo =>
    have hblock := nd.blockY_toNat (h.localExtent_lt 1 (by decide))
    have hceil := h.gridExtent_lt 1 (by decide)
    unfold NDRange.gridExtent at hceil ⊢
    rw [extent_of_lt (one_lt_workDim.mp htwo), ← hblock] at hceil ⊢
    exact gridSize_exact (hblock ▸ localExtent_pos nd 1) hceil
  next hone => exact (gridExtent_one hone).symm

theorem gridX_toNat (hdim : 0 < nd.workDim.toNat) (h : nd.FieldsFit globalSize) :
    (gridSize (globalSize 0) nd.blockX).toNat = nd.gridExtent globalSize 0 := by
  have hblock := nd.blockX_toNat hdim (h.localExtent_lt 0 (by decide))
  have hceil := h.gridExtent_lt 0 (by decide)
  unfold NDRange.gridExtent at hceil ⊢
  rw [extent_of_lt hdim, ← hblock] at hceil ⊢
  exact gridSize_exact (hblock ▸ localExtent_pos nd 0) hceil

theorem NDRange.FieldsFit.launches (hdim : 0 < nd.workDim.toNat) (h : nd.FieldsFit globalSize) :
    ∃ cmd, launchCmd nd globalSize = some cmd := by
  have hposX := localExtent_pos nd 0
  have hposY := localExtent_pos nd 1
  rw [← nd.blockX_toNat hdim (h.localExtent_lt 0 (by decide))] at hposX
  rw [← nd.blockY_toNat (h.localExtent_lt 1 (by decide))] at hposY
  refine ⟨_,if_neg (not_or.mpr ⟨?_,?_⟩)⟩
  · rintro hzero
    rw [hzero] at hposX
    exact absurd hposX (by decide)
  · rintro ⟨-,hzero⟩
    rw [hzero] at hposY
    exact absurd hposY (by decide)

theorem NDRange.FieldsFit.exact {cmd : LaunchCmd} (hdim : 0 < nd.workDim.toNat)
    (h : nd.FieldsFit globalSize) (hlaunch : launchCmd nd globalSize = some cmd) :
    ExactLaunch nd globalSize cmd := by
  obtain ⟨-,-,hgridX,hgridY,hblockX,hblockY,-⟩ := launchCmd_some hlaunch
  have hne : nd.workDim ≠ 0 := by
    rintro hzero
    rw [hzero] at hdim
    exact absurd hdim (by decide)
  constructor
  · rw [hblockX, nd.blockX_toNat hdim (h.localExtent_lt 0 (by decide))]
  · rw [hblockY, nd.blockY_toNat (h.localExtent_lt 1 (by decide))]
  · rw [hgridX, gridX_toNat hdim h]
  · rw [hgridY, gridY_toNat h]
  · exact numElements_toNat hlaunch hne h.product_lt

/-- What is exact has been put into fields of 32 bits. -/
theorem ExactLaunch.fits {cmd : LaunchCmd} (h : ExactLaunch nd globalSize cmd) :
    nd.FieldsFit globalSize := by
  constructor
  · intro i hi
    rcases (by omega : i = 0 ∨ i = 1) with rfl | rfl
    · exact h.blockX ▸ cmd.blockDimX.toNat_lt
    · exact h.blockY ▸ cmd.blockDimY.toNat_lt
  · intro i hi
    rcases (by omega : i = 0 ∨ i = 1) with rfl | rfl
    · exact h.gridX ▸ cmd.gridDimX.toNat_lt
    · exact h.gridY ▸ cmd.gridDimY.toNat_lt
  · exact h.items ▸ cmd.numElements.toNat_lt

theorem exactLaunch_iff {cmd : LaunchCmd} (hdim : 0 < nd.workDim.toNat)
    (hlaunch : launchCmd nd globalSize = some cmd) :
    ExactLaunch nd globalSize cmd ↔ nd.FieldsFit globalSize :=
  ⟨ExactLaunch.fits,fun h => h.exact hdim hlaunch⟩

theorem exact_iff_fieldsFit (hdim : 0 < nd.workDim.toNat) :
    (∃ cmd, launchCmd nd globalSize = some cmd ∧ ExactLaunch nd globalSize cmd) ↔
      nd.FieldsFit globalSize := by
  constructor
  · rintro ⟨cmd,-,hexact⟩
    exact hexact.fits
  · intro h
    obtain ⟨cmd,hlaunch⟩ := h.launches hdim
    exact ⟨cmd,hlaunch,h.exact hdim hlaunch⟩

theorem workDim_pos (h : nd.workDim = 1 ∨ nd.workDim = 2) : 0 < nd.workDim.toNat := by
  rcases h with hd | hd <;> rw [hd] <;> decide

variable {κ : Type} [DecidableEq κ]

/-- A call whose kernel is loaded goes on without a trap and hands SUBMIT_CMD the exact
launch if and only if the values fit, and each task put into the ring for it is made of
such an argument. A zero in the grid of the argument is not one in the packet: there
the driver puts its default. -/
theorem grid_exact_iff {queueMode : Int} {log : List (ClientEvent κ)} {u : Clients κ}
    (h : (clientSystem κ queueMode).Run log u) :
    (∀ t, u.phase t.client = .inside t → t.ioctl = .load → u.ring.pc t = .done .ok →
      ∃ pre nd mid globalSize, Entered log pre t.client nd mid ∧
        nd.globalWorkSize = some globalSize ∧ (nd.workDim = 1 ∨ nd.workDim = 2 →
          ((∃ cmd, t.launch.cmd = some cmd ∧ ExactLaunch nd globalSize cmd) ↔
            nd.FieldsFit globalSize))) ∧
    ∀ upto e post t, log = upto ++ .ring e :: post → fillsSlot t e → t.ioctl = .submit →
      ∃ pre nd mid globalSize cmd, Entered upto pre t.client nd mid ∧
        nd.globalWorkSize = some globalSize ∧ PutsTask t cmd e ∧
        (nd.workDim = 1 ∨ nd.workDim = 2 →
          (ExactLaunch nd globalSize cmd ↔ nd.FieldsFit globalSize)) := by
  constructor
  · intro t hphase _ _
    obtain ⟨pre,nd,mid,globalSize,hentered,hglobal,hlaunch⟩ := inside_entered h hphase
    refine ⟨pre,nd,mid,globalSize,hentered,hglobal,fun hdim => ?_⟩
    rw [hlaunch]
    exact exact_iff_fieldsFit (workDim_pos hdim)
  · intro upto e post t hlog hfills hio
    obtain ⟨pre,nd,mid,globalSize,cmd,hentered,hglobal,hlaunch,hputs⟩ :=
      slots_from_sizes h upto e post t hlog hfills hio
    exact ⟨pre,nd,mid,globalSize,cmd,hentered,hglobal,hputs,
      fun hdim => exactLaunch_iff (workDim_pos hdim) hlaunch⟩

theorem threeByTwo_fieldsFit : threeByTwoCall.FieldsFit threeByTwo := by
  constructor
  · intro i hi
    rcases (by omega : i = 0 ∨ i = 1) with rfl | rfl <;> decide
  · intro i hi
    rcases (by omega : i = 0 ∨ i = 1) with rfl | rfl <;> decide
  · decide

theorem grid_exact_two_rows : ∃ log u, (clientSystem Unit 0).Run log u ∧
    log.any ClientEvent.publishedLaunch = true ∧
    ∀ upto t cmd post, log = upto ++ .ring (.published t (.submit cmd)) :: post →
      t.ioctl = .submit → ExactLaunch threeByTwoCall threeByTwo cmd := by
  have hrun := ranged_run rfl threeByTwo_runs
  refine ⟨_,_,hrun,by decide +kernel,fun upto t cmd post hlog hio => ?_⟩
  obtain ⟨pre,nd,mid,globalSize,cmd',hin,hglobal,hputs,hexact⟩ :=
    (grid_exact_iff hrun).2 upto _ post t hlog rfl hio
  obtain rfl : nd = threeByTwoCall := hin.only hlog (by decide +kernel)
  obtain rfl : threeByTwo = globalSize := Option.some.inj hglobal
  cases hputs
  exact (hexact (.inr rfl)).mpr threeByTwo_fieldsFit

/-- A range of `2 ^ 16` by `2 ^ 16` items. -/
def wide : Nat → UInt64 := fun _ => 65536

def wideCall : NDRange := ranged 2 wide none

theorem wide_runs : ((clientSystem Unit 0).exec (rangedClients wideCall wide)
    (rangedSteps (rangedLaunch wideCall wide))).isSome = true := by
  decide +kernel

def oneItem : Nat → UInt64 := fun _ => 1

/-- A local size whose lower half is 0. -/
def halvedCall : NDRange := ranged 1 oneItem (some fun _ => 4294967296)

/-- The call up to the return of LOAD_KERNEL, and on. -/
def loadedSteps (launch : Launch) : List (ClientAction Unit) :=
  let t : Ticket Unit := ⟨(),0,.load,launch⟩
  [ClientAction.dma () .ok,.ioctl (),.ring (.access t)] ++
    (sectionSteps t ++ firmwareTurn ++ [Action.access t]).map ClientAction.ring ++
    [ClientAction.result () false]

theorem halved_runs : ((clientSystem Unit 0).exec (rangedClients halvedCall oneItem)
    (loadedSteps (rangedLaunch halvedCall oneItem))).isSome = true := by
  decide +kernel

def Phase.isCrashed : Phase Unit → Bool
  | .crashed => true
  | _ => false

/-- A call that succeeds has submitted 0 items where `2 ^ 32` are asked for, and a
local size of `2 ^ 32` is a division by zero. -/
theorem wide_sizes_wrap :
    (∃ log u cmd, (clientSystem Unit 0).Run log u ∧ .entered () wideCall ∈ log ∧
      log.any ClientEvent.succeeded = true ∧ submittedBy () log = [cmd] ∧
      cmd.numElements = 0 ∧ ¬ExactLaunch wideCall wide cmd) ∧
    ∃ log u, (clientSystem Unit 0).Run log u ∧ .entered () halvedCall ∈ log ∧
      (u.phase ()).isCrashed = true := by
  constructor
  · have hrun := ranged_run rfl wide_runs
    refine ⟨_,_,⟨1,32768,65536,2,1,0,0,0⟩,hrun,by simp,by decide +kernel,by decide +kernel,rfl,
      fun hexact => ?_⟩
    have hitems := hexact.items
    exact absurd hitems (by decide)
  · have hrun := ranged_run rfl halved_runs
    exact ⟨_,_,hrun,by simp,by decide +kernel⟩

end FpgaGpu.Umd
