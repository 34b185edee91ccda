import FpgaGpu.Umd.BufferMemory
import FpgaGpu.Umd.Capacity

/-! A host program on the ring machine: buffer calls and kernel launches on one VRAM,
with the driver, the firmware and the GPU beside the program. And the device that the
program is meant to see, which does every call at once. -/
namespace FpgaGpu.Umd
open Driver Library

/-- What the GPU makes of the VRAM when it runs a descriptor with this I-RAM. -/
abbrev Gpu := List UInt32 → (Nat → UInt32) → (UInt64 → UInt8) → UInt64 → UInt8

/-- The words of a page as bytes from `FPGAGPU_KERNARG_BASE` on. -/
def writePage (page : Nat → UInt32) (vram : UInt64 → UInt8) (addr : UInt64) : UInt8 :=
  if addr.toNat < 4 * kernargWords then
    (page (addr.toNat / 4) >>> UInt32.ofNat (8 * (addr.toNat % 4))).toUInt8
  else vram addr

/-- The device as the program is meant to see it. -/
structure Accelerator where
  iram : Nat → UInt32
  runtime : Runtime

def Accelerator.upload (page : Nat → UInt32) (m : Accelerator) : Accelerator :=
  {m with runtime := {m.runtime with vram := writePage page m.runtime.vram}}

def Accelerator.load (program : Program) (m : Accelerator) : Accelerator :=
  {m with iram := fun i =>
    if i < program.numInstructions.toNat then program.binaryWords.getD i 0 else m.iram i}

def Accelerator.run (gpu : Gpu) (cmd : LaunchCmd) (m : Accelerator) : Accelerator :=
  {m with runtime := {m.runtime with vram := gpu (submitTask cmd).words m.iram m.runtime.vram}}

inductive HostCall where
  | buffer (call : BufferCall)
  | launch (nd : NDRange) (memalign : Bool)

/-- What the program sees of its calls. -/
inductive HostOutcome where
  | buffer (call : BufferCall) (es : List BufferEvent)
  | entered (nd : NDRange)
  | returned (status : ClStatus)

/-- A whole call, with everything it stands for. -/
def Accelerator.step (gpu : Gpu) (m : Accelerator) :
    HostCall → Option (Accelerator × List HostOutcome)
  | .buffer call =>
      match m.runtime.step call with
      | none => none
      | some (runtime,es) => some ({m with runtime},[.buffer call es])
  | .launch nd memalign =>
      match prepare nd memalign with
      | .error status => some (m,[.entered nd,.returned status])
      | .ok launch =>
        match launch.cmd with
        | none => none
        | some cmd => some (((m.upload launch.page).load launch.program).run gpu cmd,
            [.entered nd,.returned .CL_SUCCESS])

def inOrderSystem (gpu : Gpu) (m₀ : Accelerator) : System Accelerator HostCall HostOutcome where
  init m := m = m₀
  step := Accelerator.step gpu

/-- The program, the driver and the firmware; the VRAM is in `runtime`. -/
structure HostState where
  clients : Clients Unit
  runtime : Runtime

inductive HostAction where
  | buffer (call : BufferCall)
  | client (a : ClientAction Unit)

inductive HostEvent where
  | buffer (call : BufferCall) (es : List BufferEvent)
  | client (e : ClientEvent Unit)

/-- What an event of the driver or the firmware does to the VRAM. -/
def ClientEvent.vram (gpu : Gpu) (page : Nat → UInt32) (vram : UInt64 → UInt8) :
    ClientEvent Unit → UInt64 → UInt8
  | .uploaded _ => writePage page vram
  | .ring (.executed desc dev) =>
      if wordsOpcode desc = opcodeLoadKernel then vram else gpu desc dev.iram vram
  | _ => vram

/-- The program makes one call at a time. -/
def HostState.step (gpu : Gpu) (s : HostState) :
    HostAction → Option (HostState × List HostEvent)
  | .buffer call =>
      match s.clients.phase () with
      | .idle =>
          match s.runtime.step call with
          | none => none
          | some (runtime,es) => some ({s with runtime},[.buffer call es])
      | _ => none
  | .client a =>
      match s.clients.step 0 a with
      | none => none
      | some (clients,es) =>
          let vram := es.foldl (ClientEvent.vram gpu clients.ring.dev.kernarg) s.runtime.vram
          some (⟨clients,{s.runtime with vram}⟩,es.map .client)

/-- The state that `m₀` describes, and the ring as probe leaves it. -/
def hostSystem (gpu : Gpu) (m₀ : Accelerator) : System HostState HostAction HostEvent where
  init s := (clientSystem Unit 0).init s.clients ∧ s.clients.ring.dev.iram = m₀.iram ∧
    s.runtime = m₀.runtime
  step := HostState.step gpu

def HostEvent.client? : HostEvent → Option (ClientEvent Unit)
  | .client e => some e
  | _ => none

def HostEvent.outcome? : HostEvent → Option HostOutcome
  | .buffer call es => some (.buffer call es)
  | .client (.entered _ nd) => some (.entered nd)
  | .client (.returned _ status) => some (.returned status)
  | _ => none

def clientLog (log : List HostEvent) : List (ClientEvent Unit) := log.filterMap HostEvent.client?

def outcomes (log : List HostEvent) : List HostOutcome := log.filterMap HostEvent.outcome?

/-- Launches with programs that fit, and no wait that is given up; the transfers of the
buffer calls may fail. -/
def HostUntroubled (log : List HostEvent) (s : HostState) : HostAction → Prop
  | .buffer _ => True
  | .client a => Untroubled (clientLog log) s.clients a

/-- What the device is at this moment. -/
def HostState.view (s : HostState) : Accelerator := ⟨s.clients.ring.dev.iram,s.runtime⟩

@[simp] theorem clientLog_append (log es : List HostEvent) :
    clientLog (log ++ es) = clientLog log ++ clientLog es := List.filterMap_append ..

@[simp] theorem clientLog_map (es : List (ClientEvent Unit)) :
    clientLog (es.map .client) = es := by
  rw [clientLog, List.filterMap_map]
  exact List.filterMap_some

@[simp] theorem outcomes_append (log es : List HostEvent) :
    outcomes (log ++ es) = outcomes log ++ outcomes es := List.filterMap_append ..

/-- The program sees nothing of the driver. -/
@[simp] theorem outcomes_ring (es : List (Event (Ticket Unit))) :
    outcomes ((es.map ClientEvent.ring).map .client) = [] := by
  simp [outcomes, HostEvent.outcome?]

variable {gpu : Gpu} {m₀ : Accelerator} {log : List HostEvent} {s : HostState}

/-- Under the buffer calls the clients run as before. -/
theorem client_run (h : (hostSystem gpu m₀).RunWith HostUntroubled log s) :
    (clientSystem Unit 0).RunWith Untroubled (clientLog log) s.clients := by
  refine System.RunWith.image HostState.clients HostEvent.client? ?_ ?_ h
  · exact fun s hs => hs.1
  intro log s a s' es hrun hok hstep
  cases a with
  | buffer call =>
    simp only [hostSystem, HostState.step] at hstep
    split at hstep
    next hphase =>
      split at hstep
      next => contradiction
      next => cases hstep; exact .inl ⟨rfl,rfl⟩
    next => contradiction
  | client a =>
    simp only [hostSystem, HostState.step] at hstep
    split at hstep
    next => contradiction
    next clients ces hclient =>
      cases hstep
      refine .inr ⟨a,hok,hclient.trans ?_⟩
      rw [← clientLog, clientLog_map]

end FpgaGpu.Umd
