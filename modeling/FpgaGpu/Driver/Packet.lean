import Mathlib.Logic.Function.Basic

/-! What an application hands to the driver and what the driver hands to the
command processor: `fpgagpu_ioctl.h` and the packet half of `fpgagpu_core.h`. -/
namespace FpgaGpu.Driver

/-- Results of the ioctls, without the sign the kernel returns them with. -/
inductive Errno where
  | EFAULT | EINVAL | EBUSY | ENOMEM | ENOTSUPP | ETIMEDOUT | ERESTARTSYS
  deriving DecidableEq, Repr

inductive Ret where
  | ok
  | err (e : Errno)
  deriving DecidableEq, Repr

def opcodeLaunchKernel : UInt32 := 0x01
def opcodeLoadKernel : UInt32 := 0x10

/-- `FPGAGPU_MAGIC_OCL`, the ASCII bytes "OCL1". -/
def magicOcl : UInt32 := 0x4F434C31

/-- `struct fpgagpu_launch_cmd`; the driver never reads the payload fields. -/
structure LaunchCmd where
  opcode : UInt32
  gridDimX : UInt32
  gridDimY : UInt32
  blockDimX : UInt32
  blockDimY : UInt32
  dmaSrcAddr : UInt64
  dmaDstAddr : UInt64
  numElements : UInt32
  deriving DecidableEq, Repr

/-- `struct fpgagpu_kernel_binary`. The pointer `user_instr_ptr` is given by
what `get_user` finds behind it: `none` where the access faults. -/
structure KernelBinary where
  userInstr : Nat → Option UInt32
  instrSize : UInt32
  kernelId : UInt32

/-- `struct fpgagpu_dispatch_packet`. The defaults are those of `task = {}`. -/
structure DispatchPacket where
  magic : UInt32 := 0
  opcode : UInt32 := 0
  gridDimX : UInt32 := 0
  gridDimY : UInt32 := 0
  blockDimX : UInt32 := 0
  blockDimY : UInt32 := 0
  srcDmaAddr : UInt64 := 0
  dstDmaAddr : UInt64 := 0
  numElements : UInt32 := 0
  taskId : UInt32 := 0
  kernelEntry : UInt32 := 0
  reserved : UInt32 × UInt32 × UInt32 := (0,0,0)
  deriving DecidableEq, Repr

def lowerWord (x : UInt64) : UInt32 := x.toUInt32
def upperWord (x : UInt64) : UInt32 := (x >>> 32).toUInt32

/-- The packed struct as little-endian words, in the order of its fields. -/
def DispatchPacket.words (p : DispatchPacket) : List UInt32 :=
  [p.magic,p.opcode,p.gridDimX,p.gridDimY,p.blockDimX,p.blockDimY,
    lowerWord p.srcDmaAddr,upperWord p.srcDmaAddr,lowerWord p.dstDmaAddr,upperWord p.dstDmaAddr,
    p.numElements,p.taskId,p.kernelEntry,p.reserved.1,p.reserved.2.1,p.reserved.2.2]

/-- `sizeof(struct fpgagpu_dispatch_packet) / 4`. -/
def packetWords : Nat := 16

@[simp] theorem DispatchPacket.words_length (p : DispatchPacket) :
    p.words.length = packetWords := rfl

def DispatchPacket.word (p : DispatchPacket) (j : Nat) : UInt32 := p.words.getD j 0

/-- The fields the command processor looks at, read back from the words. -/
def wordsOpcode (desc : List UInt32) : UInt32 := desc.getD 1 0
def wordsNumElements (desc : List UInt32) : UInt32 := desc.getD 10 0

@[simp] theorem wordsOpcode_words (p : DispatchPacket) : wordsOpcode p.words = p.opcode := rfl

@[simp] theorem wordsNumElements_words (p : DispatchPacket) :
    wordsNumElements p.words = p.numElements := rfl

/-- The task SUBMIT_CMD builds: zero dimensions are replaced by defaults. -/
def submitTask (cmd : LaunchCmd) : DispatchPacket where
  magic := magicOcl
  opcode := cmd.opcode
  gridDimX := if cmd.gridDimX ≠ 0 then cmd.gridDimX else 32
  gridDimY := if cmd.gridDimY ≠ 0 then cmd.gridDimY else 1
  blockDimX := if cmd.blockDimX ≠ 0 then cmd.blockDimX else 32
  blockDimY := if cmd.blockDimY ≠ 0 then cmd.blockDimY else 1
  srcDmaAddr := cmd.dmaSrcAddr
  dstDmaAddr := cmd.dmaDstAddr
  numElements := cmd.numElements

/-- The task LOAD_KERNEL builds. -/
def loadTask (kbin : KernelBinary) : DispatchPacket where
  magic := magicOcl
  opcode := opcodeLoadKernel
  numElements := kbin.instrSize
  taskId := kbin.kernelId

end FpgaGpu.Driver
