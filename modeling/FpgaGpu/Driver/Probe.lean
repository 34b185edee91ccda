import FpgaGpu.Library.System

/-! `fpgagpu_probe` and `fpgagpu_remove` on any number of PCI devices, one call of
the kernel a step, and what the kernel has handed out to them. -/
namespace FpgaGpu.Driver
open Library

inductive Kind where
  | pciEnable
  | pciRegions
  | irqVectors
  | dev
  | csrBase
  | dmaBase
  | descRing
  | pinnedPages
  | irqHandler
  | cdev
  | deviceNode
  deriving DecidableEq, Repr

/-- A PCI device, a `struct fpgagpu_dev`, or a device number. -/
inductive Owner (δ : Type) where
  | pci (pdev : δ)
  | dev (addr : Nat)
  | number (devt : UInt32)
  deriving DecidableEq

structure Resource (δ : Type) where
  kind : Kind
  owner : Owner δ
  deriving DecidableEq

/-- The fields of `struct fpgagpu_dev` that probe and remove look at. `addr` names
the allocation; of a pointer it matters whether it is NULL. -/
structure FpgagpuDev where
  addr : Nat
  minor : Int32
  csrBase : Bool
  dmaBase : Bool
  irq : Nat
  descRing : Bool
  pinnedPages : Bool
  deriving DecidableEq, Repr

/-- As `kzalloc` returns it. -/
def FpgagpuDev.zeroed (addr : Nat) : FpgagpuDev := ⟨addr,0,false,false,0,false,false⟩

/-- The Linux interrupt number of the MSI of a PCI device, which is never 0, and
the major number of the driver. -/
structure Platform (δ : Type) where
  major : UInt32
  irqVector : δ → Nat
  irqVector_ne_zero : ∀ pdev, irqVector pdev ≠ 0

/-- `MKDEV`. -/
def mkdev (major : UInt32) (minor : Int32) : UInt32 := (major <<< 20) ||| minor.toUInt32

/-- `MAX_FPGAGPU_DEVICES`. -/
def maxDevices : Int32 := 4

inductive ProbeStep where
  | enableDevice
  | requestRegions
  | allocIrqVectors
  | kzallocDev
  | ioremapBar0
  | ioremapBar1
  | irqVector
  | takeMinor
  | allocDescRing
  | kzallocPinnedPages
  | resetHead
  | resetTail
  | requestIrq
  | cdevAdd
  | deviceCreate
  | readVersion
  deriving DecidableEq, Repr

/-- The statement after this one; after the last, probe returns 0. -/
def ProbeStep.next : ProbeStep → Option ProbeStep
  | .enableDevice => some .requestRegions
  | .requestRegions => some .allocIrqVectors
  | .allocIrqVectors => some .kzallocDev
  | .kzallocDev => some .ioremapBar0
  | .ioremapBar0 => some .ioremapBar1
  | .ioremapBar1 => some .irqVector
  | .irqVector => some .takeMinor
  | .takeMinor => some .allocDescRing
  | .allocDescRing => some .kzallocPinnedPages
  | .kzallocPinnedPages => some .resetHead
  | .resetHead => some .resetTail
  | .resetTail => some .requestIrq
  | .requestIrq => some .cdevAdd
  | .cdevAdd => some .deviceCreate
  | .deviceCreate => some .readVersion
  | .readVersion => none

def ProbeStep.takes : ProbeStep → Option Kind
  | .enableDevice => some .pciEnable
  | .requestRegions => some .pciRegions
  | .allocIrqVectors => some .irqVectors
  | .kzallocDev => some .dev
  | .ioremapBar0 => some .csrBase
  | .ioremapBar1 => some .dmaBase
  | .allocDescRing => some .descRing
  | .kzallocPinnedPages => some .pinnedPages
  | .requestIrq => some .irqHandler
  | .cdevAdd => some .cdev
  | .deviceCreate => some .deviceNode
  | .irqVector | .takeMinor | .resetHead | .resetTail | .readVersion => none

inductive ReleaseStep where
  | deviceDestroy
  | cdevDel
  | freeIrq
  | freeIrqIfSet
  | kfreePinnedPages
  | freeDescRing
  | iounmapBar1
  | iounmapBar0
  | kfreeDev
  | freeIrqVectors
  | releaseRegions
  | disableDevice
  deriving DecidableEq, Repr

/-- What a release gives back. `kfree` of NULL does nothing, the others are under
an `if` where they look at the struct. -/
def ReleaseStep.drops (d : FpgagpuDev) : ReleaseStep → Option Kind
  | .deviceDestroy => some .deviceNode
  | .cdevDel => some .cdev
  | .freeIrq => some .irqHandler
  | .freeIrqIfSet => if d.irq = 0 then none else some .irqHandler
  | .kfreePinnedPages => if d.pinnedPages then some .pinnedPages else none
  | .freeDescRing => if d.descRing then some .descRing else none
  | .iounmapBar1 => if d.dmaBase then some .dmaBase else none
  | .iounmapBar0 => if d.csrBase then some .csrBase else none
  | .kfreeDev => some .dev
  | .freeIrqVectors => some .irqVectors
  | .releaseRegions => some .pciRegions
  | .disableDevice => some .pciEnable

/-! The labels of probe. Each falls through to the next. -/

def errDisable : List ReleaseStep := [.disableDevice]
def errRegions : List ReleaseStep := .freeIrqVectors :: .releaseRegions :: errDisable
def errFree : List ReleaseStep := .kfreeDev :: errRegions
def errIounmapBar0 : List ReleaseStep := .iounmapBar0 :: errFree
def errIounmap : List ReleaseStep := .iounmapBar1 :: errIounmapBar0
def errMem : List ReleaseStep := errIounmap
def errMemPt : List ReleaseStep := .kfreePinnedPages :: .freeDescRing :: errMem
def errIrq : List ReleaseStep := .freeIrq :: errMemPt
def errCdev : List ReleaseStep := .cdevDel :: errIrq

/-- Where a statement that fails goes; the first one returns at once. -/
def ProbeStep.label : ProbeStep → List ReleaseStep
  | .enableDevice => []
  | .requestRegions => errDisable
  | .allocIrqVectors => errDisable
  | .kzallocDev => errRegions
  | .ioremapBar0 => errFree
  | .ioremapBar1 => errIounmapBar0
  | .takeMinor => errIounmap
  | .allocDescRing => errMemPt
  | .kzallocPinnedPages => errMemPt
  | .requestIrq => errIrq
  | .cdevAdd => errMem
  | .deviceCreate => errCdev
  | .irqVector | .resetHead | .resetTail | .readVersion => []

/-- Statements that fail where the kernel's function does. -/
def ProbeStep.fallible : ProbeStep → Bool
  | .irqVector | .takeMinor | .resetHead | .resetTail | .readVersion => false
  | _ => true

def enomem : Int := -12
def enospc : Int := -28

/-- What probe returns when this statement fails, the kernel having said `e`. -/
def ProbeStep.result (e : Int) : ProbeStep → Int
  | .kzallocDev | .ioremapBar0 | .ioremapBar1 | .allocDescRing | .kzallocPinnedPages => enomem
  | _ => e

/-- `fpgagpu_remove`. The PCI core calls it for a device that is bound, so that
`pci_get_drvdata` gives what probe stored. -/
def removeSteps : List ReleaseStep :=
  [.deviceDestroy,.cdevDel,.kfreePinnedPages,.freeDescRing,.iounmapBar1,.iounmapBar0,
    .freeIrqIfSet,.kfreeDev,.freeIrqVectors,.releaseRegions,.disableDevice]

/-- Where the driver is with a PCI device. Until `kzalloc` the pointer `dev` is
not set, and nothing looks at it. -/
inductive PciPhase where
  | unbound
  | probing (d : FpgagpuDev) (step : ProbeStep)
  | unwinding (d : FpgagpuDev) (rest : List ReleaseStep) (result : Int)
  | bound (d : FpgagpuDev)
  | removing (d : FpgagpuDev) (rest : List ReleaseStep)
  deriving DecidableEq, Repr

/-- `held` is what is handed out, `nextAddr` the next allocation. -/
structure DriverState (δ : Type) where
  phase : δ → PciPhase
  held : List (Resource δ)
  minorCounter : Int32
  nextAddr : Nat

/-- `step` has the error of the kernel's function, if it fails. -/
inductive DriverAction (δ : Type) where
  | probe (pdev : δ)
  | remove (pdev : δ)
  | step (pdev : δ) (fail : Option Int)

/-- `stray` is the release of something that is not handed out. -/
inductive DriverEvent (δ : Type) where
  | took (r : Resource δ)
  | gave (r : Resource δ)
  | stray (r : Resource δ)
  | probeReturned (pdev : δ) (result : Int)
  | removeReturned (pdev : δ)
  deriving DecidableEq

variable {δ : Type} [DecidableEq δ]

omit [DecidableEq δ] in
def Kind.owner (P : Platform δ) (pdev : δ) (d : FpgagpuDev) : Kind → Owner δ
  | .pciEnable | .pciRegions | .irqVectors => .pci pdev
  | .deviceNode => .number (mkdev P.major d.minor)
  | _ => .dev d.addr

omit [DecidableEq δ] in
def Kind.resource (P : Platform δ) (pdev : δ) (d : FpgagpuDev) (k : Kind) : Resource δ :=
  ⟨k,k.owner P pdev d⟩

def DriverState.goto (s : DriverState δ) (pdev : δ) (p : PciPhase) : DriverState δ :=
  {s with phase := Function.update s.phase pdev p}

/-- The pointer or the number that a statement stores when it succeeds. -/
def ProbeStep.store (P : Platform δ) (pdev : δ) (d : FpgagpuDev) : ProbeStep → FpgagpuDev
  | .ioremapBar0 => {d with csrBase := true}
  | .ioremapBar1 => {d with dmaBase := true}
  | .irqVector => {d with irq := P.irqVector pdev}
  | .allocDescRing => {d with descRing := true}
  | .kzallocPinnedPages => {d with pinnedPages := true}
  | _ => d

def PciPhase.after (d : FpgagpuDev) (step : ProbeStep) : PciPhase :=
  match step.next with
  | some step' => .probing d step'
  | none => .bound d

/-- A statement that succeeds. Device numbers in use are refused. -/
def DriverState.succeed (P : Platform δ) (s : DriverState δ) (pdev : δ) (d : FpgagpuDev)
    (step : ProbeStep) : Option (DriverState δ × List (DriverEvent δ)) :=
  match step with
  | .kzallocDev =>
      let r : Resource δ := ⟨.dev,.dev s.nextAddr⟩
      some ({s with held := r :: s.held,nextAddr := s.nextAddr + 1}.goto pdev
        (.after (.zeroed s.nextAddr) step),[.took r])
  | .takeMinor =>
      -- the counter goes up whether or not the number will do
      let minor := s.minorCounter
      let d := {d with minor}
      some ({s with minorCounter := minor + 1}.goto pdev
        (if maxDevices ≤ minor then .unwinding d step.label enospc else .after d step),[])
  | .readVersion => some (s.goto pdev (.after d step),[.probeReturned pdev 0])
  | step =>
      match step.takes with
      | none => some (s.goto pdev (.after (step.store P pdev d) step),[])
      | some kind =>
          let r := kind.resource P pdev d
          if kind = .deviceNode ∧ r ∈ s.held then none
          else some ({s with held := r :: s.held}.goto pdev (.after (step.store P pdev d) step),
            [.took r])

def DriverState.release (P : Platform δ) (s : DriverState δ) (pdev : δ) (d : FpgagpuDev)
    (step : ReleaseStep) : DriverState δ × List (DriverEvent δ) :=
  match step.drops d with
  | none => (s,[])
  | some kind =>
      let r := kind.resource P pdev d
      if r ∈ s.held then ({s with held := s.held.erase r},[.gave r]) else (s,[.stray r])

def DriverState.step (P : Platform δ) (s : DriverState δ) :
    DriverAction δ → Option (DriverState δ × List (DriverEvent δ))
  | .probe pdev =>
      match s.phase pdev with
      | .unbound => some (s.goto pdev (.probing (.zeroed 0) .enableDevice),[])
      | _ => none
  | .remove pdev =>
      match s.phase pdev with
      | .bound d => some (s.goto pdev (.removing d removeSteps),[])
      | _ => none
  | .step pdev fail =>
      match s.phase pdev, fail with
      | .probing d step, none => s.succeed P pdev d step
      | .probing d step, some e =>
          if step.fallible ∧ e < 0 then
            some (s.goto pdev (.unwinding d step.label (step.result e)),[])
          else none
      | .unwinding d (step :: rest) result, none =>
          let r := s.release P pdev d step
          some (r.1.goto pdev (.unwinding d rest result),r.2)
      | .unwinding _ [] result, none => some (s.goto pdev .unbound,[.probeReturned pdev result])
      | .removing d (step :: rest), none =>
          let r := s.release P pdev d step
          some (r.1.goto pdev (.removing d rest),r.2)
      | .removing _ [], none => some (s.goto pdev .unbound,[.removeReturned pdev])
      | _, _ => none

/-- What a step of the driver executes: a statement of probe that succeeds, or a
release. -/
inductive Statement where
  | probe (step : ProbeStep)
  | release (step : ReleaseStep)
  deriving DecidableEq, Repr

def PciPhase.statement : PciPhase → Option Statement
  | .probing _ step => some (.probe step)
  | .unwinding _ (step :: _) _ | .removing _ (step :: _) => some (.release step)
  | _ => none

omit [DecidableEq δ] in
def DriverState.statement (s : DriverState δ) : DriverAction δ → Option Statement
  | .step pdev none => (s.phase pdev).statement
  | _ => none

/-- The module as it is loaded: no device bound, nothing handed out. -/
def loaded (δ : Type) : DriverState δ := ⟨fun _ => .unbound,[],0,0⟩

def driverSystem (P : Platform δ) : System (DriverState δ) (DriverAction δ) (DriverEvent δ) where
  init s := s = loaded δ
  step := DriverState.step P

end FpgaGpu.Driver
