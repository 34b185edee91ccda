import FpgaGpu.Driver.Execution
import FpgaGpu.Driver.CallHistory
import FpgaGpu.Umd.Kernel

/-! Clients that call `clEnqueueNDRangeKernel` on one device. A call is a
transaction of four ioctls: the upload of the kernel arguments, LOAD_KERNEL,
SUBMIT_CMD and DOORBELL. The last three run on the ring machine, access by
access; the upload, a DMA_TRANSFER, is one step. -/
namespace FpgaGpu.Umd
open Driver Library

inductive Ioctl where
  | load | submit | doorbell
  deriving DecidableEq, Repr

/-- An ioctl a client makes: a serial number, and what it is made for. -/
structure Ticket (κ : Type) where
  client : κ
  nth : Nat
  ioctl : Ioctl
  launch : Launch
  deriving DecidableEq

variable {κ : Type}

def Ticket.call (t : Ticket κ) : Call :=
  match t.ioctl with
  | .load => .loadKernel (some t.launch.kbin)
  | .submit => .submitCmd t.launch.cmd
  | .doorbell => .doorbell

/-- Where a client is in `clEnqueueNDRangeKernel`. -/
inductive Phase (κ : Type) where
  | idle
  | upload (launch : Launch)
  | issue (launch : Launch) (ioctl : Ioctl)
  | inside (t : Ticket κ)
  | crashed

/-- `calls k` is how many ioctls client `k` has made on the ring. -/
structure Clients (κ : Type) where
  ring : State (Ticket κ)
  phase : κ → Phase κ
  calls : κ → Nat

/-- What a DMA_TRANSFER did: a failed one may have changed the page. -/
inductive DmaResult where
  | ok
  | failed (left : Option (Nat → UInt32))

inductive ClientAction (κ : Type) where
  | enqueue (k : κ) (nd : NDRange) (memalign : Bool)
  | dma (k : κ) (result : DmaResult)
  | ioctl (k : κ)
  | ring (a : Action (Ticket κ))
  | result (k : κ) (restart : Bool)

inductive ClientEvent (κ : Type) where
  | entered (k : κ) (nd : NDRange)
  | uploaded (k : κ)
  | ring (e : Event (Ticket κ))
  | returned (k : κ) (status : ClStatus)

variable [DecidableEq κ]

def Clients.setPhase (u : Clients κ) (k : κ) (p : Phase κ) : Clients κ :=
  {u with phase := Function.update u.phase k p}

/-- A DMA_TRANSFER of a page to `FPGAGPU_KERNARG_BASE`. -/
def Clients.upload (u : Clients κ) (page : Nat → UInt32) : Clients κ :=
  {u with ring := {u.ring with dev := u.ring.dev.upload page}}

/-- The ring actions that belong to no client's own code. -/
def ringOnly : Action (Ticket κ) → Bool
  | .access _ | .expire _ | .interrupt _ | .firmware => true
  | .start _ _ | .upload _ => false

/-- A step of the driver or the firmware, seen from the clients. -/
def Clients.ringStep (queueMode : Int) (u : Clients κ) (a : Action (Ticket κ)) :
    Option (Clients κ × List (ClientEvent κ)) :=
  match step queueMode u.ring a with
  | none => none
  | some (ring,es) => some ({u with ring := ring},es.map .ring)

/-- Where the transaction goes after an ioctl returned, and the result if that
is where it ends. An interrupted ioctl fails, or the kernel restarts it. -/
def afterIoctl (t : Ticket κ) (ret : Ret) (restart : Bool) : Phase κ × Option ClStatus :=
  if ioctlFailed ret then
    if restart ∧ ret = .err .ERESTARTSYS then (.issue t.launch t.ioctl,none)
    else (.idle,some .CL_OUT_OF_RESOURCES)
  else match t.ioctl with
  | .load => if t.launch.cmd.isSome then (.issue t.launch .submit,none) else (.crashed,none)
  | .submit => (.issue t.launch .doorbell,none)
  | .doorbell => (.idle,some .CL_SUCCESS)

def Clients.step (queueMode : Int) (u : Clients κ) :
    ClientAction κ → Option (Clients κ × List (ClientEvent κ))
  | .enqueue k nd memalign =>
      match u.phase k with
      | .idle =>
          match prepare nd memalign with
          | .error status => some (u,[.entered k nd,.returned k status])
          | .ok launch => some (u.setPhase k (.upload launch),[.entered k nd])
      | _ => none
  | .dma k result =>
      match u.phase k, result with
      | .upload launch, .ok =>
          some ((u.upload launch.page).setPhase k (.issue launch .load),[.uploaded k])
      | .upload _, .failed none =>
          some (u.setPhase k .idle,[.returned k .CL_OUT_OF_RESOURCES])
      | .upload _, .failed (some left) =>
          some ((u.upload left).setPhase k .idle,[.uploaded k,.returned k .CL_OUT_OF_RESOURCES])
      | _, _ => none
  | .ioctl k =>
      match u.phase k with
      | .issue launch ioctl =>
          let t : Ticket κ := ⟨k,u.calls k,ioctl,launch⟩
          {u.setPhase k (.inside t) with
            calls := Function.update u.calls k (u.calls k + 1)}.ringStep queueMode (.start t t.call)
      | _ => none
  | .ring a => if ringOnly a then u.ringStep queueMode a else none
  | .result k restart =>
      match u.phase k with
      | .inside t =>
          match u.ring.pc t with
          | .done ret =>
              some (u.setPhase k (afterIoctl t ret restart).1,
                (afterIoctl t ret restart).2.toList.map (.returned k))
          | _ => none
      | _ => none

def clientSystem (κ : Type) [DecidableEq κ] (queueMode : Int) :
    System (Clients κ) (ClientAction κ) (ClientEvent κ) where
  init u := Probed u.ring ∧ (∀ k, u.phase k = .idle) ∧ ∀ k, u.calls k = 0
  step := Clients.step queueMode

end FpgaGpu.Umd
