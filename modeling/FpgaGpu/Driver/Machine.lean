import FpgaGpu.Driver.Bar0
import FpgaGpu.Library.System

/-! `fpgagpu_ioctl` for SUBMIT_CMD, DOORBELL and LOAD_KERNEL, one MMIO access a
step, next to the firmware that consumes the ring. Calls are told apart by `ι`,
and a call runs at most once, so any number of threads making any number of
calls is some set of calls. The ring is its C struct. -/
namespace FpgaGpu.Driver
open Library

/-- `struct fpgagpu_ring_buffer`; `cmds i j` is word `j` of `cmds[i]`. -/
structure RingBuffer where
  head : UInt32
  tail : UInt32
  cmds : Nat → Nat → UInt32

def RingBuffer.writeCmd (r : RingBuffer) (i j : Nat) (value : UInt32) : RingBuffer :=
  {r with cmds := Function.update r.cmds i (Function.update (r.cmds i) j value)}

/-- The memories a task works on: the staging area in BRAM, the I-RAM of the
GPU, and the kernel argument page in DDR3, in words. -/
structure Device where
  staging : Nat → UInt32
  iram : Nat → UInt32
  kernarg : Nat → UInt32

/-- `FPGAGPU_KERNARG_SIZE / 4`. -/
def kernargWords : Nat := 1024

def Device.stage (d : Device) (i : Nat) (value : UInt32) : Device :=
  {d with staging := Function.update d.staging i value}

/-- DMA_TRANSFER of a page to `FPGAGPU_KERNARG_BASE`, taken as an exact copy. -/
def Device.upload (d : Device) (page : Nat → UInt32) : Device :=
  {d with kernarg := fun i => if i < kernargWords then page i else d.kernarg i}

/-- What the firmware does with a task. A launch reads I-RAM and the kernel
arguments and writes neither. -/
def Device.execute (d : Device) (desc : List UInt32) : Device :=
  if wordsOpcode desc = opcodeLoadKernel then
    {d with iram := fun i => if i < (wordsNumElements desc).toNat then d.staging i else d.iram i}
  else d

inductive Call where
  | submitCmd (arg : Option LaunchCmd)
  | loadKernel (arg : Option KernelBinary)
  | doorbell

/-- The two callers of the publishing section. -/
inductive Job where
  | submit (cmd : LaunchCmd)
  | load (kbin : KernelBinary)

def Job.task : Job → DispatchPacket
  | .submit cmd => submitTask cmd
  | .load kbin => loadTask kbin

/-- Where a call is, with its local variables. -/
inductive Pc where
  | ready
  | stage (kbin : KernelBinary) (i : Nat)
  | lock (job : Job)
  | readHead (job : Job)
  | readTail (job : Job) (head : UInt32)
  | writeCmd (job : Job) (tail : UInt32) (j : Nat)
  | writeTail (job : Job) (tail : UInt32)
  | ringIrq (job : Job) (tail : UInt32)
  | unlock (job : Job) (tail : UInt32)
  | unlockBusy (job : Job)
  | snapshot
  | wait (target : UInt32)
  | done (ret : Ret)

/-- The firmware reads both positions, then the words of one descriptor, runs
the task, and then stores the new head. -/
inductive Firmware where
  | idle
  | sawHead (head : UInt32)
  | fetch (head : UInt32) (got : List UInt32)
  | exec (head : UInt32) (desc : List UInt32)
  | commit (head : UInt32) (desc : List UInt32)

structure State (ι : Type) where
  ring : RingBuffer
  dev : Device
  globalLock : Option ι
  pc : ι → Pc
  fw : Firmware

inductive Action (ι : Type) where
  | start (c : ι) (call : Call)
  | access (c : ι)
  | expire (c : ι)
  | interrupt (c : ι)
  | firmware
  | upload (page : Nat → UInt32)

inductive Event (ι : Type) where
  | called (c : ι) (call : Call)
  | headRead (c : ι)
  | tailRead (c : ι)
  | wrote (c : ι) (reg : Reg) (value : UInt32)
  | published (c : ι) (job : Job)
  | tested (c : ι) (held : Bool)
  | executed (desc : List UInt32) (dev : Device)
  | consumed (desc : List UInt32)

variable {ι : Type} [DecidableEq ι]

def State.setPc (s : State ι) (c : ι) (p : Pc) : State ι :=
  {s with pc := Function.update s.pc c p}

/-- The loop head of `for (i = 0; i < kbin.instr_size; i++)`. -/
def stageFrom (kbin : KernelBinary) (i : Nat) : Pc :=
  if i < kbin.instrSize.toNat then .stage kbin i else .lock (.load kbin)

/-- The checks up to the first access to the device. An argument that
`copy_from_user` could not read is `none`. LOAD_KERNEL does not look at the
queue mode. -/
def entry (queueMode : Int) : Call → Pc
  | .submitCmd none => .done (.err .EFAULT)
  | .submitCmd (some cmd) =>
      if queueMode = 0 then .lock (.submit cmd) else .done (.err .ENOTSUPP)
  | .doorbell => if queueMode = 0 then .snapshot else .done (.err .ENOTSUPP)
  | .loadKernel none => .done (.err .EFAULT)
  | .loadKernel (some kbin) =>
      if kbin.instrSize = 0 ∨ 1024 < kbin.instrSize then .done (.err .EINVAL)
      else stageFrom kbin 0

def afterUnlock (job : Job) (tail : UInt32) : Pc :=
  match job with
  | .submit _ => .done .ok
  | .load _ => .wait (nextSlot tail)

/-- One evaluation of a wait condition. `wait_event_interruptible_timeout`
evaluates it before it looks at signals, and once more when time is up. -/
def State.test (s : State ι) (c : ι) (target : UInt32) (otherwise : Pc) :
    State ι × List (Event ι) :=
  (s.setPc c (if s.ring.head = target then .done .ok else otherwise),
    [.tested c (decide (s.ring.head = target))])

/-- The next access of a call that is neither finished nor blocked. -/
def State.access (s : State ι) (c : ι) : Option (State ι × List (Event ι)) :=
  match s.pc c with
  | .ready | .done _ => none
  | .stage kbin i =>
      match kbin.userInstr i with
      | none => some (s.setPc c (.done (.err .EFAULT)),[])
      | some w => some ({s with dev := s.dev.stage i w}.setPc c (stageFrom kbin (i + 1)),
          [.wrote c (.staging i) w])
  | .lock job =>
      match s.globalLock with
      | some _ => none
      | none => some ({s with globalLock := some c}.setPc c (.readHead job),[])
  | .readHead job => some (s.setPc c (.readTail job s.ring.head),[.headRead c])
  | .readTail job head =>
      some (s.setPc c (if nextSlot s.ring.tail = head then .unlockBusy job
        else .writeCmd job s.ring.tail 0),[])
  | .writeCmd job tail j =>
      some ({s with ring := s.ring.writeCmd tail.toNat j (job.task.word j)}.setPc c
        (if j + 1 < packetWords then .writeCmd job tail (j + 1) else .writeTail job tail),
        [.wrote c (.cmd tail.toNat j) (job.task.word j)])
  | .writeTail job tail =>
      some ({s with ring := {s.ring with tail := nextSlot tail}}.setPc c (.ringIrq job tail),
        [.wrote c .tail (nextSlot tail),.published c job])
  | .ringIrq job tail => some (s.setPc c (.unlock job tail),[.wrote c .irq 1])
  | .unlock job tail => some ({s with globalLock := none}.setPc c (afterUnlock job tail),[])
  | .unlockBusy _ => some ({s with globalLock := none}.setPc c (.done (.err .EBUSY)),[])
  | .snapshot => some (s.setPc c (.wait s.ring.tail),[.tailRead c])
  | .wait target => some (s.test c target (.wait target))

/-- A wait that ends without its condition reports this. -/
def State.giveUp (s : State ι) (c : ι) (e : Errno) : Option (State ι × List (Event ι)) :=
  match s.pc c with
  | .wait target => some (s.test c target (.done (.err e)))
  | _ => none

/-- The firmware is not in the repository. This is all that is assumed of it. -/
def State.firmware (s : State ι) : State ι × List (Event ι) :=
  match s.fw with
  | .idle => ({s with fw := .sawHead s.ring.head},[])
  | .sawHead head => ({s with fw := if head = s.ring.tail then .idle else .fetch head []},[])
  | .fetch head got =>
      let got := got ++ [s.ring.cmds head.toNat got.length]
      ({s with fw := if got.length < packetWords then .fetch head got else .exec head got},[])
  | .exec head desc =>
      ({s with dev := s.dev.execute desc, fw := .commit head desc},[.executed desc s.dev])
  | .commit head desc =>
      ({s with ring := {s.ring with head := nextSlot head}, fw := .idle},[.consumed desc])

def step (queueMode : Int) (s : State ι) : Action ι → Option (State ι × List (Event ι))
  | .start c call =>
      match s.pc c with
      | .ready => some (s.setPc c (entry queueMode call),[.called c call])
      | _ => none
  | .access c => s.access c
  | .expire c => s.giveUp c .ETIMEDOUT
  | .interrupt c => s.giveUp c .ERESTARTSYS
  | .firmware => some s.firmware
  | .upload page => some ({s with dev := s.dev.upload page},[])

/-- As `fpgagpu_probe` leaves the ring, with any contents in the slots and in
the device memories. -/
def Probed (s : State ι) : Prop :=
  s.ring.head = 0 ∧ s.ring.tail = 0 ∧ s.globalLock = none ∧ (∀ c, s.pc c = .ready) ∧ s.fw = .idle

def ringSystem (ι : Type) [DecidableEq ι] (queueMode : Int) :
    System (State ι) (Action ι) (Event ι) where
  init := Probed
  step := step queueMode

/-- A probed device whose memories happen to be cleared. -/
def probed (ι : Type) : State ι where
  ring := ⟨0,0,fun _ _ => 0⟩
  dev := ⟨fun _ => 0,fun _ => 0,fun _ => 0⟩
  globalLock := none
  pc _ := .ready
  fw := .idle

theorem probed_init (ι : Type) : Probed (probed ι) := ⟨rfl,rfl,rfl,fun _ => rfl,rfl⟩

/-- The accesses of a call that meets no contention, from `spin_lock` to
`spin_unlock` when there is room. -/
def sectionSteps (c : ι) : List (Action ι) := List.replicate 22 (.access c)

/-- One full turn of the firmware, from reading the head to storing it. -/
def firmwareTurn : List (Action ι) := List.replicate 20 .firmware

end FpgaGpu.Driver
