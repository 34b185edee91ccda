import FpgaGpu.Library.Cells
import FpgaGpu.Library.History
import FpgaGpu.Umd.BuffersApart

/-! The enqueue calls on buffers, with the VRAM and the memory of the process
they copy between. A DMA_TRANSFER fails and does nothing, or copies exactly. -/
namespace FpgaGpu.Umd
open Driver Library

structure Runtime where
  process : Process
  vram : UInt64 → UInt8
  host : UInt64 → UInt8

/-- A DMA_TRANSFER as the process sees it. -/
def Runtime.dma (p : DmaParam) (ret : Ret) (r : Runtime) : Runtime :=
  if ioctlFailed ret then r
  else match dmaDirection p.direction with
  | none => r
  | some .toDevice =>
      {r with vram :=
        copyAll r.host (pairUp (along p.hostVaddr) (along p.ddr3Addr) p.size.toNat) r.vram}
  | some .fromDevice =>
      {r with host :=
        copyAll r.vram (pairUp (along p.ddr3Addr) (along p.hostVaddr) p.size.toNat) r.host}

/-- Calls with a command queue have it as its context, the only field they read,
and the results of their DMA_TRANSFERs; `bounce` is what `posix_memalign` gives.
The process also stores to its own memory. -/
inductive BufferCall where
  | api (call : ApiCall)
  | store (addr : UInt64) (byte : UInt8)
  | clEnqueueWriteBuffer (commandQueue buffer : Option Nat) (offset size ptr : UInt64) (dma : Ret)
  | clEnqueueReadBuffer (commandQueue buffer : Option Nat) (offset size ptr : UInt64) (dma : Ret)
  | clEnqueueCopyBuffer (commandQueue srcBuffer dstBuffer : Option Nat)
      (srcOffset dstOffset size : UInt64) (bounce : Option UInt64) (dmaRead dmaWrite : Ret)

/-- What a call makes visible: `read` is what stands at the pointer of a
successful clEnqueueReadBuffer when it returns. -/
inductive BufferEvent where
  | api (e : ApiEvent)
  | read (bytes : List UInt8)
  deriving DecidableEq

/-- A call returns without a handle. -/
def Runtime.ret (r : Runtime) (es : List BufferEvent) (status : ClStatus) :
    Option (Runtime × List BufferEvent) :=
  some (r,es ++ [.api (.returned status none)])

/-- The memories after the transfers a call has made. -/
def Runtime.transfers (es : List ApiEvent) (r : Runtime) : Runtime :=
  es.foldl (fun r e => match e with
    | .dmaTransfer _ p ret => r.dma p ret
    | _ => r) r

def clEnqueueWriteBuffer (commandQueue buffer : Option Nat) (offset size ptr : UInt64) (dma : Ret)
    (r : Runtime) : Option (Runtime × List BufferEvent) :=
  match commandQueue, buffer with
  | none, _ => r.ret [] .CL_INVALID_COMMAND_QUEUE
  | some _, none => r.ret [] .CL_INVALID_MEM_OBJECT
  | some queue, some h =>
    match r.process.mems h, r.process.contexts queue with
    | some buffer, some context =>
      if ptr = 0 then r.ret [] .CL_INVALID_VALUE
      else if offset + size > buffer.size then r.ret [] .CL_INVALID_VALUE
      else
        let param : DmaParam := ⟨0,size.toUInt32,buffer.ddr3Addr + offset,ptr⟩
        let e := BufferEvent.api (.dmaTransfer context.fd param dma)
        if ioctlFailed dma then (r.dma param dma).ret [e] .CL_OUT_OF_RESOURCES
        else (r.dma param dma).ret [e] .CL_SUCCESS
    | _, _ => none

def clEnqueueReadBuffer (commandQueue buffer : Option Nat) (offset size ptr : UInt64) (dma : Ret)
    (r : Runtime) : Option (Runtime × List BufferEvent) :=
  match commandQueue, buffer with
  | none, _ => r.ret [] .CL_INVALID_COMMAND_QUEUE
  | some _, none => r.ret [] .CL_INVALID_MEM_OBJECT
  | some queue, some h =>
    match r.process.mems h, r.process.contexts queue with
    | some buffer, some context =>
      if ptr = 0 then r.ret [] .CL_INVALID_VALUE
      else if offset + size > buffer.size then r.ret [] .CL_INVALID_VALUE
      else
        let param : DmaParam := ⟨1,size.toUInt32,buffer.ddr3Addr + offset,ptr⟩
        let e := BufferEvent.api (.dmaTransfer context.fd param dma)
        let r := r.dma param dma
        if ioctlFailed dma then r.ret [e] .CL_OUT_OF_RESOURCES
        else r.ret [e,.read (cells r.host ptr size.toNat)] .CL_SUCCESS
    | _, _ => none

def clEnqueueCopyBuffer (commandQueue srcBuffer dstBuffer : Option Nat)
    (srcOffset dstOffset size : UInt64) (bounce : Option UInt64) (dmaRead dmaWrite : Ret)
    (r : Runtime) : Option (Runtime × List BufferEvent) :=
  match commandQueue, srcBuffer, dstBuffer with
  | none, _, _ => r.ret [] .CL_INVALID_COMMAND_QUEUE
  | some _, none, _ => r.ret [] .CL_INVALID_MEM_OBJECT
  | some _, some _, none => r.ret [] .CL_INVALID_MEM_OBJECT
  | some queue, some h, some k =>
    match r.process.mems h, r.process.mems k, r.process.contexts queue with
    | some srcBuffer, some dstBuffer, some context =>
      if srcOffset + size > srcBuffer.size then r.ret [] .CL_INVALID_VALUE
      else if dstOffset + size > dstBuffer.size then r.ret [] .CL_INVALID_VALUE
      else match bounce with
      | none => r.ret [] .CL_OUT_OF_HOST_MEMORY
      | some bounce =>
        let param : DmaParam := ⟨1,size.toUInt32,srcBuffer.ddr3Addr + srcOffset,bounce⟩
        let e := BufferEvent.api (.dmaTransfer context.fd param dmaRead)
        let r := r.dma param dmaRead
        if ioctlFailed dmaRead then r.ret [e] .CL_OUT_OF_RESOURCES
        else
          let param : DmaParam := ⟨0,size.toUInt32,dstBuffer.ddr3Addr + dstOffset,bounce⟩
          let e' := BufferEvent.api (.dmaTransfer context.fd param dmaWrite)
          let r := r.dma param dmaWrite
          if ioctlFailed dmaWrite then r.ret [e,e'] .CL_OUT_OF_RESOURCES
          else r.ret [e,e'] .CL_SUCCESS
    | _, _, _ => none

def Runtime.step (r : Runtime) : BufferCall → Option (Runtime × List BufferEvent)
  | .api call =>
      match r.process.step call with
      | none => none
      | some (p,es) => some ({r.transfers es with process := p},es.map .api)
  | .store addr byte => some ({r with host := Function.update r.host addr byte},[])
  | .clEnqueueWriteBuffer commandQueue buffer offset size ptr dma =>
      clEnqueueWriteBuffer commandQueue buffer offset size ptr dma r
  | .clEnqueueReadBuffer commandQueue buffer offset size ptr dma =>
      clEnqueueReadBuffer commandQueue buffer offset size ptr dma r
  | .clEnqueueCopyBuffer commandQueue srcBuffer dstBuffer srcOffset dstOffset size bounce dmaRead
      dmaWrite =>
      clEnqueueCopyBuffer commandQueue srcBuffer dstBuffer srcOffset dstOffset size bounce dmaRead
        dmaWrite r

/-- A process that starts on any VRAM, with anything in its own memory. -/
def runtimeSystem : System Runtime BufferCall BufferEvent where
  init r := processSystem.init r.process
  step := Runtime.step

/-- What a call returned. -/
def BufferEvent.status : BufferEvent → Option ClStatus
  | .api (.returned status _) => some status
  | _ => none

def statusOf (es : List BufferEvent) : Option ClStatus := lastOf BufferEvent.status es

/-- The results of the reads. -/
def readsIn (es : List BufferEvent) : List (List UInt8) :=
  es.filterMap fun e => match e with
    | .read bytes => some bytes
    | _ => none

end FpgaGpu.Umd
