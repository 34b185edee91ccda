import FpgaGpu.Library.Bytes
import FpgaGpu.Umd.BuffersApart
import FpgaGpu.Umd.Clients

/-! `clCreateKernel` and `clSetKernelArg`, and the page that the arguments of a
kernel end up in. -/
namespace FpgaGpu.Umd
open Driver Library

/-- `fpgagpu_kernel_arg_t`. -/
structure ArgEntry where
  isSet : Bool
  isMem : Bool
  size : UInt64
  scalarVal : UInt32
  memObj : Option Nat
  deriving DecidableEq

/-- An entry of a kernel that was just cleared by `memset`. -/
def ArgEntry.zero : ArgEntry := ⟨false,false,0,0,none⟩

/-- `struct _cl_kernel` with its whole array of arguments. -/
structure KernelObject where
  program : Option Program
  args : Nat → ArgEntry
  numArgs : Nat
  fits : numArgs ≤ maxArgs

/-- `clCreateKernel`; `malloc` is whether the structure could be allocated. -/
def clCreateKernel (program : Option Program) (kernelName malloc : Bool) :
    Except ClStatus KernelObject :=
  match program with
  | none => .error .CL_INVALID_PROGRAM
  | some prog =>
      if !prog.isBuilt then .error .CL_INVALID_PROGRAM_EXECUTABLE
      else if !kernelName then .error .CL_INVALID_VALUE
      else if !malloc then .error .CL_OUT_OF_HOST_MEMORY
      else .ok ⟨some prog,fun _ => .zero,0,Nat.zero_le _⟩

/-- Stores an entry; `num_args` becomes at least one more than its index. -/
def KernelObject.store (k : KernelObject) (i : Nat) (e : ArgEntry) (h : i < maxArgs) :
    KernelObject where
  program := k.program
  args := Function.update k.args i e
  numArgs := if k.numArgs ≤ i then i + 1 else k.numArgs
  fits := by split; exacts [h,k.fits]

/-- The handle behind `arg_value`, when it is read as a `cl_mem`. -/
def argHandle (bytes : Nat → UInt8) : Nat := leNat 8 bytes

/-- The entry of an argument; `none` where a dangling handle is dereferenced. A
value of more than four bytes that is not a handle is not copied. -/
def argEntry (mems : Nat → Option Mem) (argSize : UInt64) (bytes : Nat → UInt8) :
    Option ArgEntry :=
  if argSize = 8 then
    (mems (argHandle bytes)).map fun mem =>
      ⟨true,true,argSize,mem.ddr3Addr.toUInt32,some (argHandle bytes)⟩
  else
    some ⟨true,false,argSize,
      if argSize ≤ 4 then UInt32.ofNat (leNat argSize.toNat bytes) else 0,none⟩

/-- `clSetKernelArg`, on what `arg_value` points to. -/
def clSetKernelArg (mems : Nat → Option Mem) (argIndex : UInt32) (argSize : UInt64)
    (argValue : Option (Nat → UInt8)) (kernel : KernelObject) :
    Option (KernelObject × ClStatus) :=
  if h : argIndex.toNat < maxArgs then
    match argValue with
    | none => some (kernel,.CL_INVALID_ARG_VALUE)
    | some bytes =>
        (argEntry mems argSize bytes).map fun e => (kernel.store argIndex.toNat e h,.CL_SUCCESS)
  else some (kernel,.CL_INVALID_ARG_INDEX)

/-- The part of a kernel that a launch reads. -/
def KernelObject.kernel (k : KernelObject) : Kernel where
  program := k.program
  args := (List.range k.numArgs).map fun i => ⟨(k.args i).isSet,(k.args i).scalarVal⟩
  fits := by simpa using k.fits

/-- A process, and one of its kernels. -/
structure ArgState where
  process : Process
  kernel : KernelObject

/-- `setArg` has whether the kernel is given, and the bytes of the value. -/
inductive ArgAction where
  | api (call : ApiCall)
  | setArg (kernel : Bool) (argIndex : UInt32) (argSize : UInt64)
      (argValue : Option (Nat → UInt8))

/-- `set` has the value as the application means it: the DDR3 address of the
buffer, or the number in the bytes of the scalar. -/
inductive ArgEvent where
  | api (e : ApiEvent)
  | set (index value : Nat)
  | setReturned (status : ClStatus)

/-- The value that an application passes. -/
def argValueOf (mems : Nat → Option Mem) (argSize : UInt64) (bytes : Nat → UInt8) :
    Option Nat :=
  if argSize = 8 then (mems (argHandle bytes)).map fun mem => mem.ddr3Addr.toNat
  else some (leNat argSize.toNat bytes)

def ArgState.setArg (s : ArgState) (argIndex : UInt32) (argSize : UInt64)
    (argValue : Option (Nat → UInt8)) : Option (ArgState × List ArgEvent) :=
  match clSetKernelArg s.process.mems argIndex argSize argValue s.kernel with
  | none => none
  | some (kernel,status) =>
      let value := if status = .CL_SUCCESS then
        argValue.bind (argValueOf s.process.mems argSize) else none
      some ({s with kernel},
        value.toList.map (.set argIndex.toNat) ++ [.setReturned status])

def ArgState.step (s : ArgState) : ArgAction → Option (ArgState × List ArgEvent)
  | .api call =>
      (s.process.step call).map fun r => ({s with process := r.1},r.2.map .api)
  | .setArg kernel argIndex argSize argValue =>
      if kernel then s.setArg argIndex argSize argValue
      else some (s,[.setReturned .CL_INVALID_KERNEL])

/-- A process at its start, and a kernel that was just created. -/
def argSystem : System ArgState ArgAction ArgEvent where
  init s := processSystem.init s.process ∧
    ∃ program, clCreateKernel program true true = .ok s.kernel
  step := ArgState.step

end FpgaGpu.Umd
