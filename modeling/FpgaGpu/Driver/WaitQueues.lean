import FpgaGpu.Driver.Histories
import FpgaGpu.Driver.Rules
import FpgaGpu.Library.WaitQueues

/-! `fpgagpu_irq_handler` and the wait queues of the ring's callers. The firmware
raises the MSI after each commit of the head; a call enqueues itself before it
tests its condition, and tests again when its queue is woken. -/
namespace FpgaGpu.Driver
open Library

/-- `dev->wait_q`, and the `wait_q` of each context. -/
inductive WaitQueue where
  | dev
  | ctx (ctx : Nat)
  deriving DecidableEq, Repr

/-- The handler: entered, going over `ctx_list` under `ctx_lock`, about to return. -/
inductive Handler where
  | idle
  | entered
  | waking (ctxs : List Nat)
  | leaving
  deriving DecidableEq, Repr

/-- The ring with its callers and the firmware, the wait loop of each call, the
MSI (owed by the firmware, pending), and the handler. `held` says of each call
whether its condition held at every moment since the handler was entered. -/
structure WaitState (ι : Type) where
  base : State ι
  waiter : ι → Waiter WaitQueue
  ctxList : List Nat
  owesMsi : Bool
  msi : Bool
  handler : Handler
  held : ι → Bool

inductive WakeAction (ι : Type) where
  | base (a : Action ι)
  | fpgagpuOpen (ctx : Nat)
  | fpgagpuRelease (ctx : Nat)
  | irq

/-- The queue of the wait that the next access of a call begins: DOORBELL after
its snapshot, LOAD_KERNEL after its section. -/
def Pc.waitQueue : Pc → Option WaitQueue
  | .snapshot => some .dev
  | .unlock (.load _) _ => some .dev
  | _ => none

variable {ι : Type}

def State.waitCondition (s : State ι) (c : ι) : Bool :=
  match s.pc c with
  | .wait target => decide (s.ring.head = target)
  | _ => false

/-- An ioctl that nobody has woken, and that nothing but a wake-up will get to
test its condition again. -/
def WaitState.Asleep (s : WaitState ι) (c : ι) : Prop :=
  (∃ target, s.base.pc c = .wait target) ∧ (s.waiter c).Asleep

/-- `ctx_lock` is held while the handler goes over the list. -/
def Handler.locksCtx : Handler → Bool
  | .waking _ => true
  | _ => false

/-- One step of `fpgagpu_irq_handler`, or its start. -/
def WaitState.irq (queueMode : Int) (s : WaitState ι) : Option (WaitState ι) :=
  match s.handler with
  | .idle => if s.msi then some {s with msi := false,handler := .entered} else none
  | .entered =>
      if queueMode = 0 then some {s with waiter := wake .dev s.waiter,handler := .leaving}
      else some {s with handler := .waking s.ctxList}
  | .waking [] => some {s with handler := .leaving}
  | .waking (ctx :: rest) =>
      some {s with waiter := wake (.ctx ctx) s.waiter,handler := .waking rest}
  | .leaving => some {s with handler := .idle}

variable [DecidableEq ι]

/-- The waiters once call `c` has made the access at `p`. -/
def WaitState.begins (s : WaitState ι) (c : ι) (p : Pc) : ι → Waiter WaitQueue :=
  match p.waitQueue with
  | some queue => Function.update s.waiter c (.begin queue)
  | none => s.waiter

/-- The next access of call `c`, which in its wait loop depends on the loop. -/
def WaitState.access (s : WaitState ι) (c : ι) : Option (WaitState ι × List (Event ι)) :=
  match s.base.pc c with
  | .wait _ =>
      match (s.waiter c).phase with
      | .prepare => some ({s with
          waiter := Function.update s.waiter c (s.waiter c).enqueue},[])
      | .test =>
          match s.base.access c with
          | none => none
          | some (base,es) => some ({s with
              base
              waiter := Function.update s.waiter c
                (if s.base.waitCondition c then (s.waiter c).again else (s.waiter c).doze)},es)
      | .sleep =>
          if (s.waiter c).roused then
            some ({s with waiter := Function.update s.waiter c (s.waiter c).again},[])
          else none
  | p =>
      match s.base.access c with
      | none => none
      | some (base,es) => some ({s with base,waiter := s.begins c p},es)

/-- A commit of the head is followed by an MSI. -/
def WaitState.firmware (s : WaitState ι) : WaitState ι × List (Event ι) :=
  if s.owesMsi then ({s with owesMsi := false,msi := true},[])
  else
    let (base,es) := s.base.firmware
    ({s with base,owesMsi := !(consumedIn es).isEmpty},es)

def WaitState.next (queueMode : Int) (s : WaitState ι) :
    WakeAction ι → Option (WaitState ι × List (Event ι))
  | .base (.access c) => s.access c
  | .base .firmware => some s.firmware
  | .base a =>
      match FpgaGpu.Driver.step queueMode s.base a with
      | none => none
      | some (base,es) => some ({s with base},es)
  | .fpgagpuOpen ctx =>
      if s.handler.locksCtx ∨ ctx ∈ s.ctxList then none
      else some ({s with ctxList := s.ctxList ++ [ctx]},[])
  | .fpgagpuRelease ctx =>
      if s.handler.locksCtx then none else some ({s with ctxList := s.ctxList.erase ctx},[])
  | .irq => (s.irq queueMode).map fun s => (s,[])

/-- Keeps the record of the conditions that hold. -/
def WaitState.record (s s' : WaitState ι) : WaitState ι :=
  {s' with held := fun c =>
    (decide (s.handler = .idle ∧ s'.handler = .entered) || s.held c) && s'.base.waitCondition c}

def WaitState.step (queueMode : Int) (s : WaitState ι) (a : WakeAction ι) :
    Option (WaitState ι × List (Event ι)) :=
  (s.next queueMode a).map fun r => (s.record r.1,r.2)

/-- A probed device: no MSI, no handler, no open file. -/
def waitSystem (ι : Type) [DecidableEq ι] (queueMode : Int) :
    System (WaitState ι) (WakeAction ι) (Event ι) where
  init s := Probed s.base ∧ s.ctxList = [] ∧ s.owesMsi = false ∧ s.msi = false ∧
    s.handler = .idle ∧ ∀ c, s.held c = false
  step := WaitState.step queueMode

end FpgaGpu.Driver
