import FpgaGpu.Driver.DmaBalance
import FpgaGpu.Library.Paging
import FpgaGpu.Umd.BufferArrays

/-! The buffer calls on the driver itself: each DMA_TRANSFER pins the pages of the
process, builds its chain and has the engine run it on physical memory, while the
kernel moves pages in and out between the calls. -/
namespace FpgaGpu.Umd
open Driver Library

/-- A process, its memory as the kernel keeps it, and the device. -/
structure Hosted where
  process : Process
  table : PageTable
  phys : Nat → UInt8
  swap : Nat → UInt8
  vram : UInt64 → UInt8
  dev : DmaDev

/-- The memory of the process as it sees it. -/
def Hosted.user (h : Hosted) (v : UInt64) : UInt8 :=
  h.table.view pageSize h.phys h.swap v.toNat

/-- How the functions that a DMA_TRANSFER calls come out: what is pinned, allocated
and mapped, the bus addresses, each poll of the status register, and the memories
that an engine leaves which is stopped while busy. -/
structure DmaAnswers where
  gup : Gup
  alloc : Option Nat
  mapped : List MappedSg
  bus : UInt64 → Nat
  busy : Nat → Bool
  left : Memory

/-- `get_user_pages_fast` gives the frames of the first pages of the range. -/
def pinsRange (T : PageTable) (t : Transfer) : Gup → Bool
  | .error _ => true
  | .got pages => decide (pages.length ≤ t.numPages ∧ pages.map some =
      (List.range pages.length).map fun i => T.frame (t.param.hostVaddr.toNat / pageSize + i))

/-- `dma_map_sg` fails, or maps the list it is given. -/
def mapsList (t : Transfer) (bus : UInt64 → Nat) (mapped : List MappedSg) : Gup → Bool
  | .error _ => true
  | .got pages => decide (mapped = [] ∨ MapsTo bus (sgFill t.param.size t.pageOffset pages) mapped)

/-- `timeout == 0` after the poll loop. -/
def DmaAnswers.timeout (o : DmaAnswers) : Bool := pollStatus o.busy 0 pollLimit = 0

/-- DMA_TRANSFER, with the engine at work while the status register is polled. -/
def Hosted.dmaTransfer (p : DmaParam) (o : DmaAnswers) (h : Hosted) : Option (Hosted × Ret) :=
  match dmaCheck p with
  | .error e => some (h,.err e)
  | .ok t =>
    if pinsRange h.table t o.gup && mapsList t o.bus o.mapped o.gup then
      let pinned := h.dev.pin t o.gup
      match pinned.2.2 with
      | some ret => some ({h with dev := pinned.1},ret)
      | none =>
        let listed := pinned.1.mapSgl t o.alloc o.mapped
        match listed.2.2 with
        | some ret => some ({h with dev := listed.1},ret)
        | none =>
          let started := (listed.1.start t).1
          let mem := if o.timeout then some o.left else started.runChain o.bus t.dir ⟨h.phys,h.vram⟩
          match mem with
          | none => none
          | some mem =>
            some ({h with
              dev := (started.teardown t o.timeout).1
              phys := mem.host
              vram := mem.vram},if o.timeout then .err .ETIMEDOUT else .ok)
    else none

/-- The ioctls of a call, one after the other, with the results that the call has seen. -/
def Hosted.serve (h : Hosted) : List BufferEvent → List DmaAnswers → Option Hosted
  | [], _ => some h
  | .api (.dmaTransfer _ p ret) :: es, answers =>
      match answers with
      | [] => none
      | o :: answers =>
        match h.dmaTransfer p o with
        | none => none
        | some (h,ret') => if ret' = ret then h.serve es answers else none
  | _ :: es, answers => h.serve es answers

/-- The part of a call that runs in the user-mode driver: it looks at no memory but
its own objects and at the results of its ioctls. -/
def BufferCall.userMode (call : BufferCall) (p : Process) : Option (Process × List BufferEvent) :=
  match (⟨p,fun _ => 0,fun _ => 0⟩ : Runtime).step call with
  | none => none
  | some (r,es) => some (r.process,es)

/-- What stands at the pointer of a read, in the memory it returns to. -/
def BufferCall.readBack (call : BufferCall) (user : UInt64 → UInt8) : BufferEvent → BufferEvent
  | .api e => .api e
  | .read bytes =>
      match call with
      | .clEnqueueReadBuffer _ _ _ size ptr _ => .read (cells user ptr size.toNat)
      | _ => .read bytes

/-- The process makes a call or stores to a page that is present; the kernel moves
pages; and everybody else stores to frames that are not those of the process. -/
inductive HostedAction where
  | call (call : BufferCall) (answers : List DmaAnswers)
  | store (addr : UInt64) (byte : UInt8)
  | pageIn (page frame : Nat)
  | pageOut (page : Nat)
  | other (addr : Nat) (byte : UInt8)

def Hosted.step (h : Hosted) : HostedAction → Option (Hosted × List BufferEvent)
  | .call (.store _ _) _ => none
  | .call call answers =>
      match call.userMode h.process with
      | none => none
      | some (p,es) =>
        match Hosted.serve {h with process := p} es answers with
        | none => none
        | some h => some (h,es.map (call.readBack h.user))
  | .store addr byte =>
      match h.table.translate pageSize addr.toNat with
      | none => none
      | some a => some ({h with phys := Function.update h.phys a byte},[])
  | .pageIn page frame =>
      if hfree : h.table.frame page = none ∧ h.table.page frame = none then
        some ({h with
          table := h.table.insert page frame hfree.1 hfree.2
          phys := readIn pageSize page frame h.swap h.phys},[])
      else none
  | .pageOut page =>
      match hframe : h.table.frame page with
      | none => none
      | some frame =>
        some ({h with
          table := h.table.remove page frame hframe
          swap := writeOut pageSize page frame h.phys h.swap},[])
  | .other addr byte =>
      if h.table.page (addr / pageSize) = none then
        some ({h with phys := Function.update h.phys addr byte},[])
      else none

/-- The buffer calls as the process sees them. -/
def Hosted.runtime (h : Hosted) : Runtime := ⟨h.process,h.vram,h.user⟩

end FpgaGpu.Umd
