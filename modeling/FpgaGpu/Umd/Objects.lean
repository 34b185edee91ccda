import FpgaGpu.Library.History
import FpgaGpu.Library.RefGraph
import FpgaGpu.Umd.Build
import FpgaGpu.Umd.Buffers

/-! The OpenCL objects of one process: contexts, queues, buffers, programs and
kernels, the calls that create and release them, and the commands that follow the
pointers between them. -/
namespace FpgaGpu.Umd
open Driver Library

/-- `struct _cl_command_queue`. -/
structure CommandQueue where
  context : Nat
  refCount : UInt32
  deriving DecidableEq, Repr

/-- `struct _cl_kernel` without its arguments, which are values. -/
structure CreatedKernel where
  program : Nat
  refCount : UInt32
  deriving DecidableEq, Repr

/-- `counter` is the static of `clBuildProgram`. -/
structure Objects where
  process : Process
  counter : Nat
  queues : Nat → Option CommandQueue
  programs : Nat → Option ProgramObject
  kernels : Nat → Option CreatedKernel

/-- A handle, with the kind of its object. -/
inductive Object where
  | context (h : Nat)
  | queue (h : Nat)
  | mem (h : Nat)
  | program (h : Nat)
  | kernel (h : Nat)
  deriving DecidableEq, Repr

/-- Calls, with NULL handles as `none` and the results of their system calls. The
strings of a program are NULL or not; `rest` is what a launch returns once its
checks have passed. -/
inductive ObjectCall where
  | api (call : ApiCall)
  | clCreateCommandQueue (context malloc : Option Nat)
  | clReleaseCommandQueue (commandQueue : Option Nat)
  | clCreateProgramWithSource (context : Option Nat) (count : UInt32)
      (strings : Option (Nat → Bool)) (malloc : Option Nat) (source : Bool)
  | clReleaseProgram (program : Option Nat)
  | clBuildProgram (program : Option Nat) (calls : BuildCalls)
  | clCreateKernel (program : Option Nat) (kernelName : Bool) (malloc : Option Nat)
  | clReleaseKernel (kernel : Option Nat)
  | clFinish (commandQueue : Option Nat) (doorbell : Ret)
  | clEnqueueWriteBuffer (commandQueue buffer : Option Nat) (offset size ptr : UInt64) (dma : Ret)
  | clEnqueueReadBuffer (commandQueue buffer : Option Nat) (offset size ptr : UInt64) (dma : Ret)
  | clEnqueueCopyBuffer (commandQueue srcBuffer dstBuffer : Option Nat)
      (srcOffset dstOffset size : UInt64) (bounce : Bool) (dmaRead dmaWrite : Ret)
  | clEnqueueNDRangeKernel (commandQueue kernel : Option Nat) (workDim : UInt32)
      (globalWorkSize : Bool) (rest : ClStatus)

/-- A command reaches the object behind a pointer; a `fault` is when that is freed. -/
inductive ObjectEvent where
  | api (e : ApiEvent)
  | reached (o : Object)
  | fault (o : Object)
  deriving DecidableEq

/-- The live objects, and where they point to. -/
def Objects.graph (s : Objects) : RefGraph Object
  | .context h => (s.process.contexts h).map fun c => ⟨c.refCount.toNat,none⟩
  | .queue h => (s.queues h).map fun q => ⟨q.refCount.toNat,some (.context q.context)⟩
  | .mem h => (s.process.mems h).map fun m => ⟨m.refCount.toNat,some (.context m.context)⟩
  | .program h => (s.programs h).map fun p => ⟨p.refCount.toNat,some (.context p.context)⟩
  | .kernel h => (s.kernels h).map fun k => ⟨k.refCount.toNat,some (.program k.program)⟩

@[simp] theorem Objects.graph_context (s : Objects) (h : Nat) :
    s.graph (.context h) = (s.process.contexts h).map fun c => ⟨c.refCount.toNat,none⟩ := rfl

@[simp] theorem Objects.graph_queue (s : Objects) (h : Nat) :
    s.graph (.queue h) =
      (s.queues h).map fun q => ⟨q.refCount.toNat,some (.context q.context)⟩ := rfl

@[simp] theorem Objects.graph_mem (s : Objects) (h : Nat) :
    s.graph (.mem h) =
      (s.process.mems h).map fun m => ⟨m.refCount.toNat,some (.context m.context)⟩ := rfl

@[simp] theorem Objects.graph_program (s : Objects) (h : Nat) :
    s.graph (.program h) =
      (s.programs h).map fun p => ⟨p.refCount.toNat,some (.context p.context)⟩ := rfl

@[simp] theorem Objects.graph_kernel (s : Objects) (h : Nat) :
    s.graph (.kernel h) =
      (s.kernels h).map fun k => ⟨k.refCount.toNat,some (.program k.program)⟩ := rfl

def Objects.ret (s : Objects) (status : ClStatus) : Option (Objects × List ObjectEvent) :=
  some (s,[.api (.returned status none)])

def Objects.created (s : Objects) (h : Nat) : Option (Objects × List ObjectEvent) :=
  some (s,[.api (.returned .CL_SUCCESS (some h))])

/-- `ref_count--`, and `free` if it is 0 then. -/
def dropRef {β : Type} (refCount : UInt32) (keep : UInt32 → β) : Option β :=
  if refCount - 1 = 0 then none else some (keep (refCount - 1))

namespace Objects

def clCreateCommandQueue (context malloc : Option Nat) (s : Objects) :
    Option (Objects × List ObjectEvent) :=
  match context with
  | none => s.ret .CL_INVALID_CONTEXT
  | some c =>
    match s.process.contexts c, malloc with
    | none, _ => none
    | some _, none => s.ret .CL_OUT_OF_HOST_MEMORY
    | some _, some h =>
        if s.queues h = none then
          created {s with queues := Function.update s.queues h (some ⟨c,1⟩)} h
        else none

def clReleaseCommandQueue (commandQueue : Option Nat) (s : Objects) :
    Option (Objects × List ObjectEvent) :=
  match commandQueue with
  | none => s.ret .CL_INVALID_COMMAND_QUEUE
  | some h =>
    match s.queues h with
    | none => none
    | some q => ret {s with
        queues := Function.update s.queues h (dropRef q.refCount fun n => {q with refCount := n})}
        .CL_SUCCESS

def clCreateProgramWithSource (context : Option Nat) (count : UInt32)
    (strings : Option (Nat → Bool)) (malloc : Option Nat) (source : Bool) (s : Objects) :
    Option (Objects × List ObjectEvent) :=
  match context with
  | none => s.ret .CL_INVALID_CONTEXT
  | some c =>
    match s.process.contexts c, strings with
    | none, _ => none
    | some _, none => s.ret .CL_INVALID_VALUE
    | some _, some strings =>
      if count = 0 then s.ret .CL_INVALID_VALUE
      else if !(List.range count.toNat).all strings then s.ret .CL_INVALID_VALUE
      else match malloc with
      | none => s.ret .CL_OUT_OF_HOST_MEMORY
      | some h =>
        if !source then s.ret .CL_OUT_OF_HOST_MEMORY
        else if s.programs h = none then
          created {s with programs := Function.update s.programs h (some (.created c))} h
        else none

def clReleaseProgram (program : Option Nat) (s : Objects) :
    Option (Objects × List ObjectEvent) :=
  match program with
  | none => s.ret .CL_INVALID_PROGRAM
  | some h =>
    match s.programs h with
    | none => none
    | some p => ret {s with
        programs :=
          Function.update s.programs h (dropRef p.refCount fun n => {p with refCount := n})}
        .CL_SUCCESS

def clBuildProgram (program : Option Nat) (calls : BuildCalls) (s : Objects) :
    Option (Objects × List ObjectEvent) :=
  match program with
  | none => s.ret .CL_INVALID_PROGRAM
  | some h =>
    match s.programs h with
    | none => none
    | some p =>
        let r := Umd.clBuildProgram s.counter calls p
        ret {s with
          counter := s.counter + 1
          programs := Function.update s.programs h (some r.1)} r.2

def clCreateKernel (program : Option Nat) (kernelName : Bool) (malloc : Option Nat)
    (s : Objects) : Option (Objects × List ObjectEvent) :=
  match program with
  | none => s.ret .CL_INVALID_PROGRAM
  | some p =>
    match s.programs p with
    | none => none
    | some prog =>
      if !prog.isBuilt then s.ret .CL_INVALID_PROGRAM_EXECUTABLE
      else if !kernelName then s.ret .CL_INVALID_VALUE
      else match malloc with
      | none => s.ret .CL_OUT_OF_HOST_MEMORY
      | some h =>
        if s.kernels h = none then
          created {s with kernels := Function.update s.kernels h (some ⟨p,1⟩)} h
        else none

def clReleaseKernel (kernel : Option Nat) (s : Objects) :
    Option (Objects × List ObjectEvent) :=
  match kernel with
  | none => s.ret .CL_INVALID_KERNEL
  | some h =>
    match s.kernels h with
    | none => none
    | some k => ret {s with
        kernels := Function.update s.kernels h (dropRef k.refCount fun n => {k with refCount := n})}
        .CL_SUCCESS

/-- Follows the pointer to `o`, and goes on unless `o` is freed. -/
def reach (s : Objects) (o : Object) (next : List ObjectEvent) : List ObjectEvent :=
  if (s.graph o).isSome then .reached o :: next else [.fault o]

/-- The end of a command. -/
def finish (status : ClStatus) : List ObjectEvent := [.api (.returned status none)]

/-- `clFinish` goes to the file of the queue's context. -/
def clFinish (commandQueue : Option Nat) (doorbell : Ret) (s : Objects) :
    Option (Objects × List ObjectEvent) :=
  match commandQueue with
  | none => s.ret .CL_INVALID_COMMAND_QUEUE
  | some h => (s.queues h).map fun queue =>
      (s,s.reach (.context queue.context) (finish (Umd.clFinish true doorbell)))

/-- The common course of `clEnqueueWriteBuffer` and `clEnqueueReadBuffer`. -/
def enqueueBuffer (commandQueue buffer : Option Nat) (offset size ptr : UInt64) (dma : Ret)
    (s : Objects) : Option (Objects × List ObjectEvent) :=
  match commandQueue, buffer with
  | none, _ => s.ret .CL_INVALID_COMMAND_QUEUE
  | some _, none => s.ret .CL_INVALID_MEM_OBJECT
  | some q, some h =>
    match s.queues q, s.process.mems h with
    | some queue, some buffer =>
      if ptr = 0 then s.ret .CL_INVALID_VALUE
      else if offset + size > buffer.size then s.ret .CL_INVALID_VALUE
      else some (s,s.reach (.context queue.context)
        (finish (if ioctlFailed dma then .CL_OUT_OF_RESOURCES else .CL_SUCCESS)))
    | _, _ => none

def clEnqueueWriteBuffer (commandQueue buffer : Option Nat) (offset size ptr : UInt64) (dma : Ret)
    (s : Objects) : Option (Objects × List ObjectEvent) :=
  enqueueBuffer commandQueue buffer offset size ptr dma s

def clEnqueueReadBuffer (commandQueue buffer : Option Nat) (offset size ptr : UInt64) (dma : Ret)
    (s : Objects) : Option (Objects × List ObjectEvent) :=
  enqueueBuffer commandQueue buffer offset size ptr dma s

def clEnqueueCopyBuffer (commandQueue srcBuffer dstBuffer : Option Nat)
    (srcOffset dstOffset size : UInt64) (bounce : Bool) (dmaRead dmaWrite : Ret) (s : Objects) :
    Option (Objects × List ObjectEvent) :=
  match commandQueue, srcBuffer, dstBuffer with
  | none, _, _ => s.ret .CL_INVALID_COMMAND_QUEUE
  | some _, none, _ => s.ret .CL_INVALID_MEM_OBJECT
  | some _, some _, none => s.ret .CL_INVALID_MEM_OBJECT
  | some q, some h, some k =>
    match s.queues q, s.process.mems h, s.process.mems k with
    | some queue, some srcBuffer, some dstBuffer =>
      if srcOffset + size > srcBuffer.size then s.ret .CL_INVALID_VALUE
      else if dstOffset + size > dstBuffer.size then s.ret .CL_INVALID_VALUE
      else if !bounce then s.ret .CL_OUT_OF_HOST_MEMORY
      else some (s,s.reach (.context queue.context)
        (if ioctlFailed dmaRead then finish .CL_OUT_OF_RESOURCES
        else s.reach (.context queue.context)
          (finish (if ioctlFailed dmaWrite then .CL_OUT_OF_RESOURCES else .CL_SUCCESS))))
    | _, _, _ => none

/-- The program is looked at first, the context of the queue after the checks. -/
def clEnqueueNDRangeKernel (commandQueue kernel : Option Nat) (workDim : UInt32)
    (globalWorkSize : Bool) (rest : ClStatus) (s : Objects) :
    Option (Objects × List ObjectEvent) :=
  match commandQueue, kernel with
  | none, _ => s.ret .CL_INVALID_COMMAND_QUEUE
  | some _, none => s.ret .CL_INVALID_KERNEL
  | some q, some h =>
    match s.queues q, s.kernels h with
    | some queue, some kernel =>
      some (s,s.reach (.program kernel.program)
        (if !((s.programs kernel.program).any ProgramObject.isBuilt) then
          finish .CL_INVALID_PROGRAM_EXECUTABLE
        else if workDim = 0 ∨ 3 < workDim ∨ !globalWorkSize then finish .CL_INVALID_WORK_DIMENSION
        else s.reach (.context queue.context) (finish rest)))
    | _, _ => none

end Objects

def Objects.step (s : Objects) : ObjectCall → Option (Objects × List ObjectEvent)
  | .api call => (s.process.step call).map fun r => ({s with process := r.1},r.2.map .api)
  | .clCreateCommandQueue context malloc => s.clCreateCommandQueue context malloc
  | .clReleaseCommandQueue commandQueue => s.clReleaseCommandQueue commandQueue
  | .clCreateProgramWithSource context count strings malloc source =>
      s.clCreateProgramWithSource context count strings malloc source
  | .clReleaseProgram program => s.clReleaseProgram program
  | .clBuildProgram program calls => s.clBuildProgram program calls
  | .clCreateKernel program kernelName malloc => s.clCreateKernel program kernelName malloc
  | .clReleaseKernel kernel => s.clReleaseKernel kernel
  | .clFinish commandQueue doorbell => s.clFinish commandQueue doorbell
  | .clEnqueueWriteBuffer commandQueue buffer offset size ptr dma =>
      s.clEnqueueWriteBuffer commandQueue buffer offset size ptr dma
  | .clEnqueueReadBuffer commandQueue buffer offset size ptr dma =>
      s.clEnqueueReadBuffer commandQueue buffer offset size ptr dma
  | .clEnqueueCopyBuffer commandQueue srcBuffer dstBuffer srcOffset dstOffset size bounce dmaRead
      dmaWrite =>
      s.clEnqueueCopyBuffer commandQueue srcBuffer dstBuffer srcOffset dstOffset size bounce
        dmaRead dmaWrite
  | .clEnqueueNDRangeKernel commandQueue kernel workDim globalWorkSize rest =>
      s.clEnqueueNDRangeKernel commandQueue kernel workDim globalWorkSize rest

end FpgaGpu.Umd
