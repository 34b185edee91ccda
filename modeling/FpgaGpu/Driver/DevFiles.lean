import FpgaGpu.Driver.DmaCalls
import FpgaGpu.Driver.Machine
import FpgaGpu.Driver.ProbeRules

/-! The open files of the driver next to probe and remove: `fpgagpu_open`, ioctl
calls, `fpgagpu_release` and the interrupt handler, and what each of their steps
reaches through the `dev` of its context. -/
namespace FpgaGpu.Driver
open Library

/-- What an entry point reaches through a `struct fpgagpu_dev *`. -/
inductive Touch where
  | struct
  | bar0
  | bar1
  deriving DecidableEq, Repr

def Touch.kind : Touch → Kind
  | .struct => .dev
  | .bar0 => .csrBase
  | .bar1 => .dmaBase

/-- An ioctl call on a device. The number of a call is used once. -/
inductive CallId (ι : Type) where
  | ring (c : ι)
  | dma (c : ι)
  | version (c : ι)
  deriving DecidableEq

/-- The ioctl calls made through one struct: SUBMIT_CMD, DOORBELL and LOAD_KERNEL,
DMA_TRANSFER, and of each GET_VERSION the registers it has read. -/
structure DevCalls (ι : Type) where
  ring : State ι
  dma : DmaCalls ι
  version : ι → Nat

/-- A step of a call, or of the FPGA. A call waits for `global_lock`, or for the
engine, with `spin` and `poll`. -/
inductive IoctlAction (ι : Type) where
  | ring (a : Action ι)
  | spin (c : ι)
  | dma (a : DmaAction ι)
  | poll (c : ι)
  | version (c : ι)

/-- The call that makes a step; the firmware and the engine make theirs by themselves. -/
def IoctlAction.call {ι : Type} : IoctlAction ι → Option (CallId ι)
  | .ring (.start c _) | .ring (.access c) | .ring (.expire c) | .ring (.interrupt c) | .spin c =>
      some (.ring c)
  | .dma (.pin c _ _) | .dma (.map c _ _ _) | .dma (.start c) | .dma (.teardown c) | .poll c =>
      some (.dma c)
  | .version c => some (.version c)
  | .ring .firmware | .ring (.upload _) | .dma (.engine _) | .dma (.others _) => none

/-- The next access of SUBMIT_CMD, DOORBELL or LOAD_KERNEL. The two loops have their
pointer into BAR0 from the first turn on; a wait queues up in `dev->wait_q`. -/
def Pc.touches : Pc → List Touch
  | .ready | .done _ => []
  | .stage kbin i =>
      (if i = 0 then [.struct] else []) ++ if (kbin.userInstr i).isSome then [.bar0] else []
  | .writeCmd _ _ j => if j = 0 then [.struct,.bar0] else [.bar0]
  | .lock _ | .unlock _ _ | .unlockBusy _ => [.struct]
  | .readHead _ | .readTail _ _ | .writeTail _ _ | .ringIrq _ _ | .snapshot | .wait _ =>
      [.struct,.bar0]

section Calls
variable {ι : Type}

def DevCalls.touches (d : DevCalls ι) : IoctlAction ι → List Touch
  | .ring (.access c) | .ring (.expire c) | .ring (.interrupt c) => (d.ring.pc c).touches
  | .spin _ => [.struct]
  | .dma (.pin _ (some param) _) =>
      match dmaCheck param with
      | .ok _ => [.struct]
      | .error _ => []
  | .dma (.map _ _ _ _) => [.struct]
  -- a NULL scatterlist is met before the registers are written
  | .dma (.start _) =>
      if d.dma.dev.sgl = none ∧ d.dma.dev.sglNents ≠ 0 then [.struct] else [.struct,.bar1]
  | .dma (.teardown _) | .poll _ => [.struct,.bar1]
  | .version _ => [.struct,.bar0]
  | .ring (.start _ _) | .ring .firmware | .ring (.upload _) | .dma (.pin _ none _)
  | .dma (.engine _) | .dma (.others _) => []

/-- The call has not begun. -/
def DevCalls.fresh (d : DevCalls ι) : CallId ι → Bool
  | .ring c => match d.ring.pc c with
      | .ready => true
      | _ => false
  | .dma c => match d.dma.phase c with
      | .idle => true
      | _ => false
  | .version c => d.version c == 0

/-- The call has returned, or has crashed. -/
def DevCalls.finished (d : DevCalls ι) : CallId ι → Bool
  | .ring c => match d.ring.pc c with
      | .done _ => true
      | _ => false
  | .dma c => match d.dma.phase c with
      | .done | .crashed => true
      | _ => false
  | .version c => d.version c == 2

variable [DecidableEq ι]

def DevCalls.step (queueMode : Int) (d : DevCalls ι) : IoctlAction ι → Option (DevCalls ι)
  | .ring a => (FpgaGpu.Driver.step queueMode d.ring a).map fun r => {d with ring := r.1}
  | .spin c => match d.ring.pc c with
      | .lock _ => some d
      | _ => none
  | .dma a => (d.dma.step a).map fun r => {d with dma := r.1}
  | .poll c => match d.dma.phase c with
      | .started _ => some d
      | _ => none
  | .version c =>
      if d.version c < 2 then
        some {d with version := Function.update d.version c (d.version c + 1)}
      else none

/-- The calls of a file that are going on, after a step of call `c`. -/
def DevCalls.ongoing (d : DevCalls ι) (calls : List (CallId ι)) (c : CallId ι) : List (CallId ι) :=
  if d.finished c then calls.erase c else if c ∈ calls then calls else c :: calls

end Calls

/-- A `struct file`. In `opening` and `releasing` the `pr_info` comes next, in
`linking` and `unlinking` the section under `ctx_lock`. -/
inductive DevFile (ι : Type) where
  | closed
  | opening (dev : Nat)
  | linking (dev : Nat)
  | opened (dev : Nat) (calls : List (CallId ι))
  | releasing (dev : Nat)
  | unlinking (dev : Nat)
  deriving DecidableEq

/-- The struct that open or the context of the file has a pointer to. -/
def DevFile.dev {ι : Type} : DevFile ι → Option Nat
  | .closed => none
  | .opening dev | .linking dev | .opened dev _ | .releasing dev | .unlinking dev => some dev

/-- The statements of `fpgagpu_irq_handler`; the last three are those of the
private queues. -/
inductive IrqStep where
  | log
  | setFired
  | wakeUp
  | lockContexts
  | wakeContexts
  | unlockContexts
  deriving DecidableEq, Repr

def IrqStep.next (queueMode : Int) : IrqStep → Option IrqStep
  | .log => if queueMode = 0 then some .setFired else some .lockContexts
  | .setFired => some .wakeUp
  | .lockContexts => some .wakeContexts
  | .wakeContexts => some .unlockContexts
  | .wakeUp | .unlockContexts => none

/-- The files are `φ`. `calls` and `handler` are told apart by the address of the
struct; a `handler` that runs has its next statement. -/
structure LifeState (δ φ ι : Type) where
  driver : DriverState δ
  file : φ → DevFile ι
  calls : Nat → DevCalls ι
  handler : Nat → Option IrqStep

/-- `fileStep` goes on with open or release, `alloc` says whether `kzalloc` succeeds.
`fpga` is a step of the firmware or of the engine, and in `bar0` the FPGA writes to
the ring what it likes. -/
inductive LifeAction (δ φ ι : Type) where
  | driver (a : DriverAction δ)
  | fpgagpuOpen (f : φ) (dev : Nat)
  | fpgagpuRelease (f : φ)
  | fileStep (f : φ) (alloc : Bool)
  | ioctl (f : φ) (a : IoctlAction ι)
  | irq (dev : Nat)
  | fpga (dev : Nat) (a : IoctlAction ι)
  | bar0 (dev : Nat) (ring : RingBuffer)

/-- A `fault` reaches something that is freed or not mapped. -/
inductive LifeEvent (δ : Type) where
  | driver (e : DriverEvent δ)
  | touched (dev : Nat) (t : Touch)
  | fault (dev : Nat) (t : Touch)
  deriving DecidableEq

variable {δ φ ι : Type} [DecidableEq δ] [DecidableEq φ] [DecidableEq ι]

instance Resource.lawfulBEq (δ : Type) [DecidableEq δ] : LawfulBEq (Resource δ) :=
  instLawfulBEq

omit [DecidableEq φ] [DecidableEq ι] in
def LifeState.touch (s : LifeState δ φ ι) (dev : Nat) (ts : List Touch) : List (LifeEvent δ) :=
  ts.map fun t => if ⟨t.kind,.dev dev⟩ ∈ s.driver.held then .touched dev t else .fault dev t

omit [DecidableEq δ] [DecidableEq ι] in
def LifeState.setFile (s : LifeState δ φ ι) (f : φ) (file : DevFile ι) : LifeState δ φ ι :=
  {s with file := Function.update s.file f file}

omit [DecidableEq δ] [DecidableEq φ] [DecidableEq ι] in
/-- `free_irq` waits for the handler. -/
def LifeState.freesIrq (s : LifeState δ φ ι) (a : DriverAction δ) : Bool :=
  match s.driver.statement a with
  | some (.release .freeIrq) | some (.release .freeIrqIfSet) =>
      (s.handler (s.driver.phase a.pdev).dev.addr).isSome
  | _ => false

omit [DecidableEq ι] in
/-- The next statement of `fpgagpu_open` or `fpgagpu_release`. -/
def LifeState.fileStep (s : LifeState δ φ ι) (f : φ) (alloc : Bool) :
    Option (LifeState δ φ ι × List (LifeEvent δ)) :=
  match s.file f with
  | .opening dev =>
      some (s.setFile f (if alloc then .linking dev else .closed),s.touch dev [.struct])
  | .linking dev => some (s.setFile f (.opened dev []),s.touch dev [.struct])
  | .releasing dev => some (s.setFile f (.unlinking dev),s.touch dev [.struct])
  | .unlinking dev => some (s.setFile f .closed,s.touch dev [.struct])
  | .closed | .opened _ _ => none

/-- A step of a call on an open file, which is new or one of those going on. -/
def LifeState.ioctl (queueMode : Int) (s : LifeState δ φ ι) (f : φ) (a : IoctlAction ι) :
    Option (LifeState δ φ ι × List (LifeEvent δ)) :=
  match s.file f, a.call with
  | .opened dev calls, some c =>
      if (s.calls dev).fresh c ∨ c ∈ calls then
        match (s.calls dev).step queueMode a with
        | none => none
        | some d => some ({s.setFile f (.opened dev (d.ongoing calls c)) with
            calls := Function.update s.calls dev d},s.touch dev ((s.calls dev).touches a))
      else none
  | _, _ => none

def LifeState.irq (queueMode : Int) (s : LifeState δ φ ι) (dev : Nat) :
    Option (LifeState δ φ ι × List (LifeEvent δ)) :=
  match s.handler dev with
  | none =>
      if ⟨.irqHandler,.dev dev⟩ ∈ s.driver.held then
        some ({s with handler := Function.update s.handler dev (some .log)},[])
      else none
  | some step =>
      some ({s with handler := Function.update s.handler dev (step.next queueMode)},
        s.touch dev [.struct])

/-- A file is opened while its cdev is registered, and released when no call on it
is going on. -/
def LifeState.step (P : Platform δ) (queueMode : Int) (s : LifeState δ φ ι) :
    LifeAction δ φ ι → Option (LifeState δ φ ι × List (LifeEvent δ))
  | .driver a =>
      if s.freesIrq a then none
      else
        match s.driver.step P a with
        | none => none
        | some (driver,es) => some ({s with driver},es.map .driver)
  | .fpgagpuOpen f dev =>
      match s.file f with
      | .closed =>
          if ⟨.cdev,.dev dev⟩ ∈ s.driver.held then some (s.setFile f (.opening dev),[]) else none
      | _ => none
  | .fpgagpuRelease f =>
      match s.file f with
      | .opened dev [] => some (s.setFile f (.releasing dev),[])
      | _ => none
  | .fileStep f alloc => s.fileStep f alloc
  | .ioctl f a => s.ioctl queueMode f a
  | .irq dev => s.irq queueMode dev
  | .fpga dev a =>
      match a.call, (s.calls dev).step queueMode a with
      | none, some d => some ({s with calls := Function.update s.calls dev d},[])
      | _, _ => none
  | .bar0 dev ring =>
      let d := s.calls dev
      some ({s with calls := Function.update s.calls dev {d with ring := {d.ring with ring}}},[])

/-- No call on a struct begins before the struct is there. -/
def lifeSystem (φ ι : Type) [DecidableEq φ] [DecidableEq ι] (P : Platform δ) (queueMode : Int) :
    System (LifeState δ φ ι) (LifeAction δ φ ι) (LifeEvent δ) where
  init s := s.driver = loaded δ ∧ (∀ f, s.file f = .closed) ∧ (∀ dev, s.handler dev = none) ∧
    ∀ dev, Probed (s.calls dev).ring ∧ (dmaCallSystem ι).init (s.calls dev).dma ∧
      ∀ c, (s.calls dev).version c = 0
  step := LifeState.step P queueMode

end FpgaGpu.Driver
