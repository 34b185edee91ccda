import FpgaGpu.Driver.Dma
import FpgaGpu.Driver.Machine
import FpgaGpu.Library.CStruct

/-! `fpgagpu_ioctl` from the bytes on: the command words, the parameter blocks in user
memory, and the packed descriptor that the firmware reads. -/
namespace FpgaGpu.Driver
open Library

def u32 : CField := ⟨4,4⟩
def u64 : CField := ⟨8,8⟩

/-- The same in a `__packed` struct. -/
def packed32 : CField := ⟨4,1⟩
def packed64 : CField := ⟨8,1⟩

/-- `256 ^ 4` and `256 ^ 8` as simp writes them. -/
theorem toNat_fits32 (x : UInt32) : x.toNat < 4294967296 := x.toNat_lt
theorem toNat_fits64 (x : UInt64) : x.toNat < 18446744073709551616 := x.toNat_lt

/-- `struct fpgagpu_launch_cmd` with the fields that the driver copies and does not use. -/
structure LaunchBlock where
  cmd : LaunchCmd
  payloadSize : UInt32
  payloadVaddr : UInt64
  deriving DecidableEq, Repr

/-- `struct fpgagpu_kernel_binary` with its pointer. -/
structure KernelBlock where
  userInstrPtr : UInt64
  instrSize : UInt32
  kernelId : UInt32
  deriving DecidableEq, Repr

/-- `struct fpgagpu_version_info`. -/
structure VersionInfo where
  majorVersion : UInt32
  minorVersion : UInt32
  deriving DecidableEq, Repr

def dmaParamStruct : CStruct DmaParam where
  fields := [u32,u32,u64,u64]
  values p := [p.direction.toNat,p.size.toNat,p.ddr3Addr.toNat,p.hostVaddr.toNat]
  ofValues vs := ⟨UInt32.ofNat (vs.getD 0 0),UInt32.ofNat (vs.getD 1 0),UInt64.ofNat (vs.getD 2 0),
    UInt64.ofNat (vs.getD 3 0)⟩
  fit p := by simp [u32, u64, toNat_fits32, toNat_fits64]
  ofValues_values p := by simp
  values_ofValues vs h := by
    iterate 4 rcases h with _ | ⟨_,h⟩
    cases h
    simp_all [u32, u64]
  aligned := by decide

def launchCmdStruct : CStruct LaunchBlock where
  fields := [u32,u32,u32,u32,u32,u64,u64,u32,u32,u64]
  values b := [b.cmd.opcode.toNat,b.cmd.gridDimX.toNat,b.cmd.gridDimY.toNat,b.cmd.blockDimX.toNat,
    b.cmd.blockDimY.toNat,b.cmd.dmaSrcAddr.toNat,b.cmd.dmaDstAddr.toNat,b.cmd.numElements.toNat,
    b.payloadSize.toNat,b.payloadVaddr.toNat]
  ofValues vs := ⟨⟨UInt32.ofNat (vs.getD 0 0),UInt32.ofNat (vs.getD 1 0),UInt32.ofNat (vs.getD 2 0),
    UInt32.ofNat (vs.getD 3 0),UInt32.ofNat (vs.getD 4 0),UInt64.ofNat (vs.getD 5 0),
    UInt64.ofNat (vs.getD 6 0),UInt32.ofNat (vs.getD 7 0)⟩,UInt32.ofNat (vs.getD 8 0),
    UInt64.ofNat (vs.getD 9 0)⟩
  fit b := by simp [u32, u64, toNat_fits32, toNat_fits64]
  ofValues_values b := by simp
  values_ofValues vs h := by
    iterate 10 rcases h with _ | ⟨_,h⟩
    cases h
    simp_all [u32, u64]
  aligned := by decide

def kernelBinaryStruct : CStruct KernelBlock where
  fields := [u64,u32,u32]
  values b := [b.userInstrPtr.toNat,b.instrSize.toNat,b.kernelId.toNat]
  ofValues vs := ⟨UInt64.ofNat (vs.getD 0 0),UInt32.ofNat (vs.getD 1 0),UInt32.ofNat (vs.getD 2 0)⟩
  fit b := by simp [u32, u64, toNat_fits32, toNat_fits64]
  ofValues_values b := by simp
  values_ofValues vs h := by
    iterate 3 rcases h with _ | ⟨_,h⟩
    cases h
    simp_all [u32, u64]
  aligned := by decide

def versionInfoStruct : CStruct VersionInfo where
  fields := [u32,u32]
  values v := [v.majorVersion.toNat,v.minorVersion.toNat]
  ofValues vs := ⟨UInt32.ofNat (vs.getD 0 0),UInt32.ofNat (vs.getD 1 0)⟩
  fit v := by simp [u32, toNat_fits32]
  ofValues_values v := by simp
  values_ofValues vs h := by
    iterate 2 rcases h with _ | ⟨_,h⟩
    cases h
    simp_all [u32]
  aligned := by decide

/-- `struct fpgagpu_dispatch_packet`, `__packed`. -/
def dispatchPacketStruct : CStruct DispatchPacket where
  fields := [packed32,packed32,packed32,packed32,packed32,packed32,packed64,packed64,packed32,
    packed32,packed32,packed32,packed32,packed32]
  values p := [p.magic.toNat,p.opcode.toNat,p.gridDimX.toNat,p.gridDimY.toNat,p.blockDimX.toNat,
    p.blockDimY.toNat,p.srcDmaAddr.toNat,p.dstDmaAddr.toNat,p.numElements.toNat,p.taskId.toNat,
    p.kernelEntry.toNat,p.reserved.1.toNat,p.reserved.2.1.toNat,p.reserved.2.2.toNat]
  ofValues vs := ⟨UInt32.ofNat (vs.getD 0 0),UInt32.ofNat (vs.getD 1 0),UInt32.ofNat (vs.getD 2 0),
    UInt32.ofNat (vs.getD 3 0),UInt32.ofNat (vs.getD 4 0),UInt32.ofNat (vs.getD 5 0),
    UInt64.ofNat (vs.getD 6 0),UInt64.ofNat (vs.getD 7 0),UInt32.ofNat (vs.getD 8 0),
    UInt32.ofNat (vs.getD 9 0),UInt32.ofNat (vs.getD 10 0),UInt32.ofNat (vs.getD 11 0),
    UInt32.ofNat (vs.getD 12 0),UInt32.ofNat (vs.getD 13 0)⟩
  fit p := by simp [packed32, packed64, toNat_fits32, toNat_fits64]
  ofValues_values p := by simp
  values_ofValues vs h := by
    iterate 14 rcases h with _ | ⟨_,h⟩
    cases h
    simp_all [packed32, packed64]
  aligned := by decide

example : sizeof dmaParamStruct.fields = 24 ∧ sizeof launchCmdStruct.fields = 56 ∧
    sizeof kernelBinaryStruct.fields = 16 ∧ sizeof versionInfoStruct.fields = 8 ∧
    sizeof dispatchPacketStruct.fields = 64 := by decide

/-- `_IOC` for the magic 'F'. -/
def ioc (dir nr size : Nat) : UInt32 :=
  UInt32.ofNat (dir * 2 ^ 30 + size * 2 ^ 16 + 'F'.toNat * 2 ^ 8 + nr)

def iocType (cmd : UInt32) : UInt32 := (cmd >>> 8) &&& 0xFF
def iocNr (cmd : UInt32) : UInt32 := cmd &&& 0xFF

/-- `_IOC_WRITE` and `_IOC_READ`, as seen from user space. -/
def iocWrite : Nat := 1
def iocRead : Nat := 2

def iocSubmitCmd : UInt32 := ioc iocWrite 1 (sizeof launchCmdStruct.fields)
def iocDoorbell : UInt32 := ioc 0 2 0
def iocWaitForIrq : UInt32 := ioc 0 3 0
def iocDmaTransfer : UInt32 := ioc iocWrite 4 (sizeof dmaParamStruct.fields)
def iocGetVersion : UInt32 := ioc iocRead 5 (sizeof versionInfoStruct.fields)
def iocLoadKernel : UInt32 := ioc iocWrite 6 (sizeof kernelBinaryStruct.fields)
def iocMaxNr : UInt32 := 6

example : iocSubmitCmd = 0x40384601 ∧ iocDoorbell = 0x4602 ∧ iocDmaTransfer = 0x40184604 ∧
    iocGetVersion = 0x80084605 ∧ iocLoadKernel = 0x40104606 := by decide

/-- A process's memory; an access to `none` faults. -/
abbrev UserMemory := UInt64 → Option UInt8

/-- The bytes at `addr` are those of `image`. -/
def UserMemory.Holds (m : UserMemory) (addr : UInt64) (n : Nat) (image : Nat → UInt8) : Prop :=
  ∀ k < n, m (addr + UInt64.ofNat k) = some (image k)

/-- `none` for a copy that is not complete. -/
def copyFromUser (m : UserMemory) (addr : UInt64) (n : Nat) : Option (Nat → UInt8) :=
  if (List.range n).all fun k => (m (addr + UInt64.ofNat k)).isSome then
    some fun k => (m (addr + UInt64.ofNat k)).getD 0
  else none

/-- `get_user` of a `u32`. -/
def getUser (m : UserMemory) (addr : UInt64) : Option UInt32 :=
  (copyFromUser m addr 4).map fun bytes => UInt32.ofNat (leNat 4 bytes)

def copyToUser (m : UserMemory) (addr : UInt64) (n : Nat) (bytes : Nat → UInt8) :
    Option UserMemory :=
  if (List.range n).all fun k => (m (addr + UInt64.ofNat k)).isSome then
    some fun a => if (a - addr).toNat < n then some (bytes (a - addr).toNat) else m a
  else none

/-- `&u_code[i]`. -/
def KernelBlock.kbin (b : KernelBlock) (m : UserMemory) : KernelBinary where
  userInstr i := getUser m (b.userInstrPtr + UInt64.ofNat (4 * i))
  instrSize := b.instrSize
  kernelId := b.kernelId

/-- The `case` a call comes to, with what `copy_from_user` gave it. -/
inductive IoctlCase where
  | dmaTransfer (param : Option DmaParam)
  | ring (call : Call)
  | getVersion (arg : UInt64)

/-- `none` is `-ENOTTY`. -/
def fpgagpuIoctl (m : UserMemory) (cmd : UInt32) (arg : UInt64) : Option IoctlCase :=
  if iocType cmd ≠ 0x46 ∧ iocType cmd ≠ 0x56 then none
  else if iocMaxNr < iocNr cmd then none
  else if cmd = iocDmaTransfer then
    some (.dmaTransfer ((copyFromUser m arg (sizeof dmaParamStruct.fields)).map
      dmaParamStruct.read))
  else if cmd = iocSubmitCmd then
    some (.ring (.submitCmd ((copyFromUser m arg (sizeof launchCmdStruct.fields)).map
      fun bytes => (launchCmdStruct.read bytes).cmd)))
  else if cmd = iocDoorbell then some (.ring .doorbell)
  else if cmd = iocGetVersion then some (.getVersion arg)
  else if cmd = iocLoadKernel then
    some (.ring (.loadKernel ((copyFromUser m arg (sizeof kernelBinaryStruct.fields)).map
      fun bytes => (kernelBinaryStruct.read bytes).kbin m)))
  else none

/-- GET_VERSION with what the two registers hold. -/
def getVersion (m : UserMemory) (arg : UInt64) (info : VersionInfo) (stack : Nat → UInt8) :
    Except Errno UserMemory :=
  match copyToUser m arg (sizeof versionInfoStruct.fields) (versionInfoStruct.image info stack) with
  | some m => .ok m
  | none => .error .EFAULT

/-- What a process asks for. -/
inductive Request where
  | dmaTransfer (param : DmaParam)
  | submitCmd (block : LaunchBlock)
  | doorbell
  | getVersion
  | loadKernel (block : KernelBlock)

def Request.word : Request → UInt32
  | .dmaTransfer _ => iocDmaTransfer
  | .submitCmd _ => iocSubmitCmd
  | .doorbell => iocDoorbell
  | .getVersion => iocGetVersion
  | .loadKernel _ => iocLoadKernel

/-- The bytes that the driver copies in. -/
def Request.size : Request → Nat
  | .dmaTransfer _ => sizeof dmaParamStruct.fields
  | .submitCmd _ => sizeof launchCmdStruct.fields
  | .loadKernel _ => sizeof kernelBinaryStruct.fields
  | .doorbell | .getVersion => 0

/-- The process's variable, with the padding that its compiler left. -/
def Request.image (padding : Nat → UInt8) : Request → Nat → UInt8
  | .dmaTransfer param => dmaParamStruct.image param padding
  | .submitCmd block => launchCmdStruct.image block padding
  | .loadKernel block => kernelBinaryStruct.image block padding
  | .doorbell | .getVersion => padding

/-- The call that should come of it. -/
def Request.handler (m : UserMemory) (arg : UInt64) : Request → IoctlCase
  | .dmaTransfer param => .dmaTransfer (some param)
  | .submitCmd block => .ring (.submitCmd (some block.cmd))
  | .doorbell => .ring .doorbell
  | .getVersion => .getVersion arg
  | .loadKernel block => .ring (.loadKernel (some (block.kbin m)))

/-- What comes of it when the block cannot be read. -/
def Request.fault (arg : UInt64) : Request → IoctlCase
  | .dmaTransfer _ => .dmaTransfer none
  | .submitCmd _ => .ring (.submitCmd none)
  | .doorbell => .ring .doorbell
  | .getVersion => .getVersion arg
  | .loadKernel _ => .ring (.loadKernel none)

section Copies
variable {m : UserMemory} {addr : UInt64} {n : Nat} {image : Nat → UInt8}

theorem UserMemory.Holds.copy (h : m.Holds addr n image) :
    ∃ bytes, copyFromUser m addr n = some bytes ∧ ∀ k < n, bytes k = image k := by
  have hall : ((List.range n).all fun k => (m (addr + UInt64.ofNat k)).isSome) = true := by
    rw [List.all_eq_true]
    intro k hk
    rw [h k (List.mem_range.mp hk), Option.isSome_some]
  refine ⟨_,if_pos hall,fun k hk => ?_⟩
  rw [h k hk, Option.getD_some]

theorem copyFromUser_fault {k : Nat} (hk : k < n) (h : m (addr + UInt64.ofNat k) = none) :
    copyFromUser m addr n = none := by
  refine if_neg fun hall => ?_
  have hsome := List.all_eq_true.mp hall k (List.mem_range.mpr hk)
  rw [h] at hsome
  contradiction

/-- A variable in user memory reaches the driver, whatever its padding. -/
theorem UserMemory.Holds.read {τ : Type} {c : CStruct τ} {t : τ} {padding : Nat → UInt8}
    (h : m.Holds addr (sizeof c.fields) (c.image t padding)) :
    (copyFromUser m addr (sizeof c.fields)).map c.read = some t := by
  obtain ⟨bytes,hcopy,hbytes⟩ := h.copy
  rw [hcopy, Option.map_some, c.read_copy hbytes]

end Copies

section Words
variable (m : UserMemory) (arg : UInt64)

theorem fpgagpuIoctl_dma : fpgagpuIoctl m iocDmaTransfer arg =
    some (.dmaTransfer ((copyFromUser m arg (sizeof dmaParamStruct.fields)).map
      dmaParamStruct.read)) := by
  rw [fpgagpuIoctl, if_neg (by decide), if_neg (by decide), if_pos rfl]

theorem fpgagpuIoctl_submit : fpgagpuIoctl m iocSubmitCmd arg =
    some (.ring (.submitCmd ((copyFromUser m arg (sizeof launchCmdStruct.fields)).map
      fun bytes => (launchCmdStruct.read bytes).cmd))) := by
  rw [fpgagpuIoctl, if_neg (by decide), if_neg (by decide), if_neg (by decide), if_pos rfl]

theorem fpgagpuIoctl_doorbell : fpgagpuIoctl m iocDoorbell arg = some (.ring .doorbell) := by
  rw [fpgagpuIoctl, if_neg (by decide), if_neg (by decide), if_neg (by decide),
    if_neg (by decide), if_pos rfl]

theorem fpgagpuIoctl_version : fpgagpuIoctl m iocGetVersion arg = some (.getVersion arg) := by
  rw [fpgagpuIoctl, if_neg (by decide), if_neg (by decide), if_neg (by decide),
    if_neg (by decide), if_neg (by decide), if_pos rfl]

theorem fpgagpuIoctl_load : fpgagpuIoctl m iocLoadKernel arg =
    some (.ring (.loadKernel ((copyFromUser m arg (sizeof kernelBinaryStruct.fields)).map
      fun bytes => (kernelBinaryStruct.read bytes).kbin m))) := by
  rw [fpgagpuIoctl, if_neg (by decide), if_neg (by decide), if_neg (by decide),
    if_neg (by decide), if_neg (by decide), if_neg (by decide), if_pos rfl]

end Words

/-- A request comes to its own case with its own values. -/
theorem fpgagpuIoctl_request {m : UserMemory} {arg : UInt64} {r : Request}
    {padding : Nat → UInt8} (h : m.Holds arg r.size (r.image padding)) :
    fpgagpuIoctl m r.word arg = some (r.handler m arg) := by
  cases r with
  | dmaTransfer param =>
    have hread := UserMemory.Holds.read (c := dmaParamStruct) h
    rw [Request.word, fpgagpuIoctl_dma, hread, Request.handler]
  | submitCmd block =>
    have hread := UserMemory.Holds.read (c := launchCmdStruct) h
    have hcmd := congrArg (Option.map LaunchBlock.cmd) hread
    rw [Option.map_map, Option.map_some] at hcmd
    rw [Request.word, fpgagpuIoctl_submit, Request.handler, ← hcmd]
    rfl
  | doorbell => exact fpgagpuIoctl_doorbell m arg
  | getVersion => exact fpgagpuIoctl_version m arg
  | loadKernel block =>
    have hread := UserMemory.Holds.read (c := kernelBinaryStruct) h
    have hkbin := congrArg (Option.map fun b : KernelBlock => b.kbin m) hread
    rw [Option.map_map, Option.map_some] at hkbin
    rw [Request.word, fpgagpuIoctl_load, Request.handler, ← hkbin]
    rfl

/-- One unreadable byte of the block is enough. -/
theorem fpgagpuIoctl_fault {m : UserMemory} {arg : UInt64} {r : Request} {k : Nat}
    (hk : k < r.size) (h : m (arg + UInt64.ofNat k) = none) :
    fpgagpuIoctl m r.word arg = some (r.fault arg) := by
  cases r with
  | dmaTransfer param =>
    have hcopy : copyFromUser m arg (sizeof dmaParamStruct.fields) = none := copyFromUser_fault hk h
    rw [Request.word, fpgagpuIoctl_dma, hcopy, Option.map_none, Request.fault]
  | submitCmd block =>
    have hcopy : copyFromUser m arg (sizeof launchCmdStruct.fields) = none :=
      copyFromUser_fault hk h
    rw [Request.word, fpgagpuIoctl_submit, hcopy, Option.map_none, Request.fault]
  | doorbell => exact absurd hk (Nat.not_lt_zero k)
  | getVersion => exact absurd hk (Nat.not_lt_zero k)
  | loadKernel block =>
    have hcopy : copyFromUser m arg (sizeof kernelBinaryStruct.fields) = none :=
      copyFromUser_fault hk h
    rw [Request.word, fpgagpuIoctl_load, hcopy, Option.map_none, Request.fault]

/-- Any other word is refused. -/
theorem fpgagpuIoctl_other {m : UserMemory} {arg : UInt64} {cmd : UInt32}
    (h : ∀ r : Request, cmd ≠ r.word) : fpgagpuIoctl m cmd arg = none := by
  have hdma : cmd ≠ iocDmaTransfer := h (.dmaTransfer ⟨0,0,0,0⟩)
  have hsubmit : cmd ≠ iocSubmitCmd := h (.submitCmd ⟨⟨0,0,0,0,0,0,0,0⟩,0,0⟩)
  have hdoorbell : cmd ≠ iocDoorbell := h .doorbell
  have hversion : cmd ≠ iocGetVersion := h .getVersion
  have hload : cmd ≠ iocLoadKernel := h (.loadKernel ⟨0,0,0⟩)
  unfold fpgagpuIoctl
  split
  next => rfl
  next =>
    split
    next => rfl
    next => rfl

/-- GET_VERSION gives the process the two registers and no byte of the kernel's stack, and
leaves the rest of its memory as it was. -/
theorem getVersion_ok {m m' : UserMemory} {arg : UInt64} {info : VersionInfo}
    {stack : Nat → UInt8} (h : getVersion m arg info stack = .ok m') :
    (∀ padding, m'.Holds arg (sizeof versionInfoStruct.fields)
      (versionInfoStruct.image info padding)) ∧
      ∀ a, sizeof versionInfoStruct.fields ≤ (a - arg).toNat → m' a = m a := by
  unfold getVersion copyToUser at h
  split at h
  next hcopy =>
    obtain rfl := Except.ok.inj h
    split at hcopy
    next =>
      obtain rfl := Option.some.inj hcopy
      constructor
      · intro padding k hk
        have hoffset : (arg + UInt64.ofNat k - arg).toNat = k := by
          have hsize : sizeof versionInfoStruct.fields = 8 := by decide
          have harg := arg.toNat_lt
          rw [UInt64.toNat_sub, UInt64.toNat_add, UInt64.toNat_ofNat']
          omega
        simp only [hoffset, if_pos hk]
        exact congrArg some (versionInfoStruct.image_dense (by decide) info stack padding k hk)
      · exact fun a ha => if_neg (Nat.not_lt.mpr ha)
    next => contradiction
  next => contradiction

/-- Little-endian words as bytes. -/
def bytesOfWords (word : Nat → UInt32) (k : Nat) : UInt8 :=
  UInt8.ofNat ((word (k / 4)).toNat / 256 ^ (k % 4))

theorem leNat_bytesOfWords (word : Nat → UInt32) (i : Nat) :
    leNat 4 (fun j => bytesOfWords word (4 * i + j)) = (word i).toNat := by
  have hbytes : leNat 4 (fun j => bytesOfWords word (4 * i + j)) =
      leNat 4 fun j => UInt8.ofNat ((word i).toNat / 256 ^ j) := by
    refine leNat_congr fun j hj => ?_
    have hdiv : (4 * i + j) / 4 = i := by omega
    have hmod : (4 * i + j) % 4 = j := by omega
    rw [bytesOfWords, hdiv, hmod]
  rw [hbytes, leNat_digits]
  exact Nat.mod_eq_of_lt (toNat_fits32 (word i))

theorem lower_add_upper (x : UInt64) :
    (lowerWord x).toNat + (upperWord x).toNat * 256 ^ 4 = x.toNat := by
  have hlt := x.toNat_lt
  rw [lowerWord, upperWord, UInt64.toNat_toUInt32, UInt64.toNat_toUInt32, UInt64.toNat_shiftRight]
  simp only [UInt64.reduceToNat, Nat.reduceMod, Nat.shiftRight_eq_div_pow]
  omega

section Packed
variable (word : Nat → UInt32) (fs : List CField) (i : Nat)

theorem getAll_packed32 : getAll (packed32 :: fs) (4 * i) (bytesOfWords word) =
    (word i).toNat :: getAll fs (4 * (i + 1)) (bytesOfWords word) := by
  have hat : packed32.at (4 * i) = 4 * i := by
    simp [CField.at, packed32, alignUp]
  have hnext : packed32.next (4 * i) = 4 * (i + 1) := by
    rw [CField.next, hat]
    rfl
  rw [getAll, hnext, CField.get, hat]
  exact congrArg (· :: _) (leNat_bytesOfWords word i)

theorem getAll_packed64 : getAll (packed64 :: fs) (4 * i) (bytesOfWords word) =
    ((word i).toNat + (word (i + 1)).toNat * 256 ^ 4) ::
      getAll fs (4 * (i + 2)) (bytesOfWords word) := by
  have hat : packed64.at (4 * i) = 4 * i := by
    simp [CField.at, packed64, alignUp]
  have hnext : packed64.next (4 * i) = 4 * (i + 2) := by
    rw [CField.next, hat]
    rfl
  have hupper : leNat 4 (fun j => bytesOfWords word (4 * i + (4 + j))) = (word (i + 1)).toNat := by
    rw [← leNat_bytesOfWords word (i + 1)]
    exact leNat_congr fun j _ => by rw [Nat.mul_add, Nat.mul_one, Nat.add_assoc]
  rw [getAll, hnext, CField.get, hat]
  refine congrArg (· :: _) ?_
  calc leNat (4 + 4) (fun j => bytesOfWords word (4 * i + j))
      = leNat 4 (fun j => bytesOfWords word (4 * i + j)) +
          leNat 4 (fun j => bytesOfWords word (4 * i + (4 + j))) * 256 ^ 4 := leNat_add 4 4 _
    _ = (word i).toNat + (word (i + 1)).toNat * 256 ^ 4 := by
        rw [leNat_bytesOfWords, hupper]

end Packed

/-- The words written to the ring are the packed struct. -/
theorem getAll_words (p : DispatchPacket) :
    getAll dispatchPacketStruct.fields 0 (bytesOfWords p.word) = dispatchPacketStruct.values p := by
  have hstart : getAll dispatchPacketStruct.fields (4 * 0) (bytesOfWords p.word) =
      dispatchPacketStruct.values p := by
    unfold dispatchPacketStruct
    rw [getAll_packed32, getAll_packed32, getAll_packed32, getAll_packed32, getAll_packed32,
      getAll_packed32, getAll_packed64, getAll_packed64, getAll_packed32, getAll_packed32,
      getAll_packed32, getAll_packed32, getAll_packed32, getAll_packed32, getAll]
    change [p.magic.toNat,p.opcode.toNat,p.gridDimX.toNat,p.gridDimY.toNat,p.blockDimX.toNat,
      p.blockDimY.toNat,(lowerWord p.srcDmaAddr).toNat + (upperWord p.srcDmaAddr).toNat * 256 ^ 4,
      (lowerWord p.dstDmaAddr).toNat + (upperWord p.dstDmaAddr).toNat * 256 ^ 4,
      p.numElements.toNat,p.taskId.toNat,p.kernelEntry.toNat,p.reserved.1.toNat,
      p.reserved.2.1.toNat,p.reserved.2.2.toNat] = _
    rw [lower_add_upper, lower_add_upper]
  exact hstart

/-- `memcpy_toio` of the struct writes these words, and the firmware finds the struct in
them. -/
theorem dispatchPacket_words (p : DispatchPacket) (padding : Nat → UInt8) :
    (∀ k < 4 * packetWords, dispatchPacketStruct.image p padding k = bytesOfWords p.word k) ∧
      dispatchPacketStruct.read (bytesOfWords p.word) = p := by
  constructor
  · have hdense : dense dispatchPacketStruct.fields 0 = true := by decide
    have hsame : getAll dispatchPacketStruct.fields 0 (dispatchPacketStruct.image p padding) =
        getAll dispatchPacketStruct.fields 0 (bytesOfWords p.word) := by
      rw [getAll_words, CStruct.image,
        getAll_putAll dispatchPacketStruct.aligned (dispatchPacketStruct.fit p)]
    intro k hk
    exact eq_of_getAll_eq hdense hsame k (Nat.zero_le k) hk
  · rw [CStruct.read, getAll_words, dispatchPacketStruct.ofValues_values]

end FpgaGpu.Driver
