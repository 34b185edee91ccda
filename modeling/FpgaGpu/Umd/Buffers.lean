import FpgaGpu.Driver.Dma
import FpgaGpu.Library.Regions
import FpgaGpu.Library.System
import FpgaGpu.Umd.ClStatus
import FpgaGpu.Umd.Vram

/-! Contexts and buffers of one process. Handles are the addresses `malloc`
returns; a call with a handle that is not live is no step of the application. -/
namespace FpgaGpu.Umd
open Driver Library

/-- `struct _cl_context`. -/
structure Context where
  fd : Nat
  refCount : UInt32
  deriving DecidableEq, Repr

/-- `struct _cl_mem`. -/
structure Mem where
  context : Nat
  flags : UInt64
  size : UInt64
  hostPtr : UInt64
  ddr3Addr : UInt64
  refCount : UInt32
  deriving DecidableEq, Repr

structure Process where
  vram : Vram
  contexts : Nat → Option Context
  mems : Nat → Option Mem

/-- Calls, with NULL handles as `none` and, for the system calls they make, the
results: two tries of `open`, `malloc`, and the DMA_TRANSFER of the first upload. -/
inductive ApiCall where
  | clCreateContext (numDevices : UInt32) (devices : Bool) (opened reopened malloc : Option Nat)
  | clRetainContext (context : Option Nat)
  | clReleaseContext (context : Option Nat)
  | clCreateBuffer (context : Option Nat) (flags size hostPtr : UInt64) (malloc : Option Nat)
      (upload : Ret)
  | clReleaseMemObject (memobj : Option Nat)

inductive ApiEvent where
  | close (fd : Nat)
  | dmaTransfer (fd : Nat) (p : DmaParam) (ret : Ret)
  | returned (status : ClStatus) (handle : Option Nat)
  deriving DecidableEq

/-- `CL_MEM_COPY_HOST_PTR`, bit 5. -/
def clMemCopyHostPtr : UInt64 := 32

/-- A call that fails, whatever it has done so far. -/
def Process.fail (p : Process) (es : List ApiEvent) (status : ClStatus) :
    Option (Process × List ApiEvent) :=
  some (p,es ++ [.returned status none])

def clCreateContext (numDevices : UInt32) (devices : Bool) (opened reopened malloc : Option Nat)
    (p : Process) : Option (Process × List ApiEvent) :=
  if numDevices = 0 ∨ !devices then p.fail [] .CL_INVALID_VALUE
  else match opened.or reopened, malloc with
  | none, _ => p.fail [] .CL_DEVICE_NOT_AVAILABLE
  | some fd, none => p.fail [.close fd] .CL_OUT_OF_HOST_MEMORY
  | some fd, some h =>
      if p.contexts h = none then
        some ({p with
          vram := p.vram.init
          contexts := Function.update p.contexts h (some ⟨fd,1⟩)},[.returned .CL_SUCCESS (some h)])
      else none

def clRetainContext (context : Option Nat) (p : Process) : Option (Process × List ApiEvent) :=
  match context with
  | none => p.fail [] .CL_INVALID_CONTEXT
  | some h =>
    match p.contexts h with
    | none => none
    | some c =>
        let c := {c with refCount := c.refCount + 1}
        some ({p with contexts := Function.update p.contexts h (some c)},
          [.returned .CL_SUCCESS none])

def clReleaseContext (context : Option Nat) (p : Process) : Option (Process × List ApiEvent) :=
  match context with
  | none => p.fail [] .CL_INVALID_CONTEXT
  | some h =>
    match p.contexts h with
    | none => none
    | some c =>
        let c := {c with refCount := c.refCount - 1}
        if c.refCount = 0 then
          some ({p with contexts := Function.update p.contexts h none},
            [.close c.fd,.returned .CL_SUCCESS none])
        else
          some ({p with contexts := Function.update p.contexts h (some c)},
            [.returned .CL_SUCCESS none])

/-- The DMA_TRANSFER of CL_MEM_COPY_HOST_PTR. -/
def copyHostPtr (size hostPtr ddr3Addr : UInt64) : DmaParam where
  direction := 0
  size := size.toUInt32
  ddr3Addr
  hostVaddr := hostPtr

def clCreateBuffer (context : Option Nat) (flags size hostPtr : UInt64) (malloc : Option Nat)
    (upload : Ret) (p : Process) : Option (Process × List ApiEvent) :=
  match context with
  | none => p.fail [] .CL_INVALID_CONTEXT
  | some h =>
    match p.contexts h with
    | none => none
    | some c =>
      if size = 0 then p.fail [] .CL_INVALID_BUFFER_SIZE
      else
        let (ddr3Addr,vram) := p.vram.alloc size
        let p := {p with vram}
        if ddr3Addr = 0 then p.fail [] .CL_MEM_OBJECT_ALLOCATION_FAILURE
        else match malloc with
        | none => p.fail [] .CL_OUT_OF_HOST_MEMORY
        | some m =>
          if p.mems m ≠ none then none
          else
            let created := {p with
              mems := Function.update p.mems m (some ⟨h,flags,size,hostPtr,ddr3Addr,1⟩)}
            if flags &&& clMemCopyHostPtr ≠ 0 ∧ hostPtr ≠ 0 then
              let e := ApiEvent.dmaTransfer c.fd (copyHostPtr size hostPtr ddr3Addr) upload
              if ioctlFailed upload then p.fail [e] .CL_MEM_OBJECT_ALLOCATION_FAILURE
              else some (created,[e,.returned .CL_SUCCESS (some m)])
            else some (created,[.returned .CL_SUCCESS (some m)])

def clReleaseMemObject (memobj : Option Nat) (p : Process) : Option (Process × List ApiEvent) :=
  match memobj with
  | none => p.fail [] .CL_INVALID_MEM_OBJECT
  | some h =>
    match p.mems h with
    | none => none
    | some m =>
        let m := {m with refCount := m.refCount - 1}
        let p := if m.refCount = 0 then
            {p with
              vram := p.vram.free m.ddr3Addr m.size
              mems := Function.update p.mems h none}
          else {p with mems := Function.update p.mems h (some m)}
        some (p,[.returned .CL_SUCCESS none])

def Process.step (p : Process) : ApiCall → Option (Process × List ApiEvent)
  | .clCreateContext numDevices devices opened reopened malloc =>
      clCreateContext numDevices devices opened reopened malloc p
  | .clRetainContext context => clRetainContext context p
  | .clReleaseContext context => clReleaseContext context p
  | .clCreateBuffer context flags size hostPtr malloc upload =>
      clCreateBuffer context flags size hostPtr malloc upload p
  | .clReleaseMemObject memobj => clReleaseMemObject memobj p

def processSystem : System Process ApiCall ApiEvent where
  init p := p.vram = Vram.static ∧ (∀ h, p.contexts h = none) ∧ ∀ h, p.mems h = none
  step := Process.step

end FpgaGpu.Umd
