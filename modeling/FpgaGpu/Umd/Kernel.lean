import FpgaGpu.Driver.Machine
import FpgaGpu.Umd.ClStatus

/-! The computations of `clEnqueueNDRangeKernel`: its checks, the marshalling of
the kernel arguments, and the launch command. -/
namespace FpgaGpu.Umd
open Driver

def maxArgs : Nat := 32

/-- `struct _cl_program`, as far as a launch reads it. -/
structure Program where
  isBuilt : Bool
  binaryWords : List UInt32
  numInstructions : UInt32
  fits : numInstructions.toNat ≤ binaryWords.length
  deriving DecidableEq

/-- `fpgagpu_kernel_arg_t`; a buffer argument has its DDR3 address in `scalarVal`. -/
structure KernelArg where
  isSet : Bool
  scalarVal : UInt32
  deriving DecidableEq, Repr

/-- `struct _cl_kernel`; `args` are the first `num_args` entries of its array. -/
structure Kernel where
  program : Option Program
  args : List KernelArg
  fits : args.length ≤ maxArgs
  deriving DecidableEq

/-- The parameters `clEnqueueNDRangeKernel` looks at. A null pointer is `false`
or `none`; a size array is read at 0, and at 1 when `workDim` is above 1. -/
structure NDRange where
  commandQueue : Bool
  kernel : Option Kernel
  workDim : UInt32
  globalWorkSize : Option (Nat → UInt64)
  localWorkSize : Option (Nat → UInt64)

/-- The marshalling loop from argument `i` on, over the buffer so far. An
argument that was never set ends it. -/
def marshal : List KernelArg → Nat → (Nat → UInt32) → Option (Nat → UInt32)
  | [], _, buf => some buf
  | arg :: rest, i, buf =>
      if arg.isSet then
        marshal rest (i + 1) (Function.update
          (Function.update buf (i * 2 + 0) arg.scalarVal) (i * 2 + 1) arg.scalarVal)
      else none

def NDRange.blockX (nd : NDRange) : UInt32 :=
  match nd.localWorkSize with
  | some size => if 0 < size 0 then (size 0).toUInt32 else 2
  | none => 2

def NDRange.blockY (nd : NDRange) : UInt32 :=
  match nd.localWorkSize with
  | some size => if 1 < nd.workDim ∧ 0 < size 1 then (size 1).toUInt32 else 1
  | none => 1

/-- `(uint32_t)((size + block - 1) / block)` in `size_t`. -/
def gridSize (size : UInt64) (block : UInt32) : UInt32 :=
  ((size + block.toUInt64 - 1) / block.toUInt64).toUInt32

/-- Steps 4 and 5: `none` where the division by the block size traps, which it
can because the block size is cut to 32 bits. -/
def launchCmd (nd : NDRange) (globalSize : Nat → UInt64) : Option LaunchCmd :=
  if nd.blockX = 0 ∨ 1 < nd.workDim ∧ nd.blockY = 0 then none
  else some {
    opcode := opcodeLaunchKernel
    gridDimX := gridSize (globalSize 0) nd.blockX
    gridDimY := if 1 < nd.workDim then gridSize (globalSize 1) nd.blockY else 1
    blockDimX := nd.blockX
    blockDimY := nd.blockY
    dmaSrcAddr := 0
    dmaDstAddr := 0
    numElements := (globalSize 0 * if 1 < nd.workDim then globalSize 1 else 1).toUInt32 }

theorem launchCmd_opcode {nd : NDRange} {globalSize : Nat → UInt64} {cmd : LaunchCmd}
    (h : launchCmd nd globalSize = some cmd) : cmd.opcode = opcodeLaunchKernel := by
  unfold launchCmd at h
  split at h
  · contradiction
  · obtain rfl := Option.some.inj h
    rfl

/-- What a call that passed its checks works with: the program, the arguments,
all of them set, and the launch command it is going to submit. -/
structure Launch where
  program : Program
  args : List KernelArg
  cmd : Option LaunchCmd
  argsSet : (marshal args 0 fun _ => 0).isSome
  isLaunch : ∀ c, cmd = some c → c.opcode = opcodeLaunchKernel
  deriving DecidableEq

/-- The kernel argument page: a cleared buffer, and the arguments over it. -/
def Launch.page (launch : Launch) : Nat → UInt32 :=
  (marshal launch.args 0 fun _ => 0).get launch.argsSet

/-- The argument of LOAD_KERNEL. -/
def Launch.kbin (launch : Launch) : KernelBinary where
  userInstr i := launch.program.binaryWords[i]?
  instrSize := launch.program.numInstructions
  kernelId := 1

/-- Everything up to the first ioctl. `memalign` is whether the page buffer
could be allocated. -/
def prepare (nd : NDRange) (memalign : Bool) : Except ClStatus Launch :=
  if !nd.commandQueue then .error .CL_INVALID_COMMAND_QUEUE
  else match nd.kernel with
  | none => .error .CL_INVALID_KERNEL
  | some kernel =>
    match kernel.program with
    | none => .error .CL_INVALID_PROGRAM_EXECUTABLE
    | some program =>
      if !program.isBuilt then .error .CL_INVALID_PROGRAM_EXECUTABLE
      else match nd.globalWorkSize with
      | none => .error .CL_INVALID_WORK_DIMENSION
      | some globalSize =>
        if nd.workDim = 0 ∨ 3 < nd.workDim then .error .CL_INVALID_WORK_DIMENSION
        else if !memalign then .error .CL_OUT_OF_HOST_MEMORY
        else if hset : (marshal kernel.args 0 fun _ => 0).isSome then
          .ok ⟨program,kernel.args,launchCmd nd globalSize,hset,fun _ => launchCmd_opcode⟩
        else .error .CL_INVALID_KERNEL_ARGS

/-- What the loop has written when it is through. -/
theorem marshal_eq {args : List KernelArg} {i : Nat} {buf page : Nat → UInt32}
    (h : marshal args i buf = some page) (j : Nat) :
    page j = if i * 2 ≤ j then (args[j / 2 - i]?.map KernelArg.scalarVal).getD (buf j)
      else buf j := by
  induction args generalizing i buf with
  | nil =>
    obtain rfl := Option.some.inj h
    simp
  | cons arg rest ih =>
    rw [marshal] at h
    split at h
    next =>
      rw [ih h]
      rcases Nat.lt_or_ge j (i * 2) with hlt | hge
      · rw [if_neg (by omega), if_neg (by omega), Function.update_of_ne (by omega),
          Function.update_of_ne (by omega)]
      · rw [if_pos hge]
        rcases Nat.lt_or_ge j ((i + 1) * 2) with hlt | hge'
        · -- the two lanes of this argument
          have hidx : j / 2 - i = 0 := by omega
          rw [if_neg (by omega), hidx]
          rcases (by omega : j = i * 2 ∨ j = i * 2 + 1) with rfl | rfl
          · rw [Function.update_of_ne (by omega)]
            simp
          · simp
        · have hidx : j / 2 - i = j / 2 - (i + 1) + 1 := by omega
          rw [if_pos hge', hidx, List.getElem?_cons_succ, Function.update_of_ne (by omega),
            Function.update_of_ne (by omega)]
    next => contradiction

/-- Both lanes of every argument hold its word, and the rest of the page is 0. -/
theorem Launch.page_eq (launch : Launch) (j : Nat) :
    launch.page j = (launch.args[j / 2]?.map KernelArg.scalarVal).getD 0 := by
  have hpage : marshal launch.args 0 (fun _ => 0) = some launch.page := by simp [Launch.page]
  rw [marshal_eq hpage]
  simp

/-- A launch that gets past the checks is that of the call's own parameters. -/
theorem prepare_ok {nd : NDRange} {memalign : Bool} {launch : Launch}
    (h : prepare nd memalign = .ok launch) :
    ∃ kernel globalSize, nd.kernel = some kernel ∧ kernel.program = some launch.program ∧
      launch.args = kernel.args ∧ nd.globalWorkSize = some globalSize ∧
      launch.cmd = launchCmd nd globalSize := by
  unfold prepare at h
  split at h
  · contradiction
  split at h
  · contradiction
  next kernel hkernel =>
  split at h
  · contradiction
  next program hprogram =>
  split at h
  · contradiction
  split at h
  · contradiction
  next globalSize hglobal =>
  split at h
  · contradiction
  split at h
  · contradiction
  split at h
  · obtain rfl := Except.ok.inj h
    exact ⟨kernel,globalSize,hkernel,hprogram,rfl,hglobal,rfl⟩
  · contradiction

theorem prepare_workDim {nd : NDRange} {memalign : Bool} {launch : Launch}
    (h : prepare nd memalign = .ok launch) : nd.workDim ≠ 0 ∧ ¬3 < nd.workDim := by
  unfold prepare at h
  split at h
  · contradiction
  split at h
  · contradiction
  split at h
  · contradiction
  split at h
  · contradiction
  split at h
  · contradiction
  split at h
  · contradiction
  next hdim => exact not_or.mp hdim

theorem prepare_error {nd : NDRange} {memalign : Bool} {status : ClStatus}
    (h : prepare nd memalign = .error status) : status ≠ .CL_SUCCESS := by
  unfold prepare at h
  repeat' split at h
  all_goals first
    | contradiction
    | (obtain rfl := Except.error.inj h; decide)

end FpgaGpu.Umd
