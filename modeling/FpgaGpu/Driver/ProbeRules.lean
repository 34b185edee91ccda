import FpgaGpu.Driver.Probe
import Mathlib.Data.List.Basic

/-! What probe holds before each of its statements and what each of its labels
gives back, and the ways a step of the driver can happen. -/
namespace FpgaGpu.Driver
open Library

/-- The statements of probe, in order. -/
def probeSteps : List ProbeStep :=
  [.enableDevice,.requestRegions,.allocIrqVectors,.kzallocDev,.ioremapBar0,.ioremapBar1,
    .irqVector,.takeMinor,.allocDescRing,.kzallocPinnedPages,.resetHead,.resetTail,
    .requestIrq,.cdevAdd,.deviceCreate,.readVersion]

/-- What probe has acquired when it comes to a statement, the last first. -/
def ProbeStep.before (step : ProbeStep) : List Kind :=
  ((probeSteps.takeWhile (· ≠ step)).filterMap takes).reverse

def allKinds : List Kind := (probeSteps.filterMap ProbeStep.takes).reverse

theorem mem_allKinds (k : Kind) : k ∈ allKinds := by
  cases k <;> decide

theorem before_next {step step' : ProbeStep} (h : step.next = some step') :
    step'.before = step.takes.toList ++ step.before := by
  cases step <;> cases h <;> decide

theorem takes_not_before {step : ProbeStep} {k : Kind} (h : step.takes = some k) :
    k ∉ step.before := by
  cases step <;> cases h <;> decide

/-- Kinds that belong to a `struct fpgagpu_dev`. -/
def Kind.ofDev : Kind → Bool
  | .pciEnable | .pciRegions | .irqVectors | .deviceNode => false
  | _ => true

/-- Of a list of releases: `b` is given back after all kinds that are in `f`. -/
def keeps (b : Kind) (f : Kind → Bool) : List Kind → Bool
  | [] => true
  | k :: rest => (!f k || (k :: rest).contains b) && keeps b f rest

theorem mem_of_keeps {b : Kind} {f : Kind → Bool} {kinds : List Kind}
    (h : keeps b f kinds = true) {k : Kind} (hk : k ∈ kinds) (hf : f k = true) : b ∈ kinds := by
  induction kinds with
  | nil => contradiction
  | cons k' rest ih =>
    unfold keeps at h
    rw [Bool.and_eq_true] at h
    rcases List.mem_cons.mp hk with rfl | hk
    · simpa [hf] using h.1
    · exact List.mem_cons_of_mem _ (ih h.2 hk)

theorem keeps_tail {b : Kind} {f : Kind → Bool} {k : Kind} {rest : List Kind}
    (h : keeps b f (k :: rest) = true) : keeps b f rest = true := by
  unfold keeps at h
  rw [Bool.and_eq_true] at h
  exact h.2

/-- The struct goes after everything that belongs to it, the BARs after the device file. -/
structure Ordered (kinds : List Kind) : Prop where
  dev : keeps .dev Kind.ofDev kinds = true
  csrBase : keeps .csrBase (· == .cdev) kinds = true
  dmaBase : keeps .dmaBase (· == .cdev) kinds = true

theorem Ordered.tail {k : Kind} {rest : List Kind} (h : Ordered (k :: rest)) : Ordered rest :=
  ⟨keeps_tail h.dev,keeps_tail h.csrBase,keeps_tail h.dmaBase⟩

theorem ordered_before (step : ProbeStep) : Ordered step.before := by
  cases step <;> exact ⟨by decide,by decide,by decide⟩

theorem ordered_allKinds : Ordered allKinds := ⟨by decide,by decide,by decide⟩

/-- The fields of the struct when probe comes to a statement. -/
structure FpgagpuDev.At (d : FpgagpuDev) (step : ProbeStep) : Prop where
  csrBase : d.csrBase = decide (.csrBase ∈ step.before)
  dmaBase : d.dmaBase = decide (.dmaBase ∈ step.before)
  descRing : d.descRing = decide (.descRing ∈ step.before)
  pinnedPages : d.pinnedPages = decide (.pinnedPages ∈ step.before)
  irq : .irqVector ∈ probeSteps.takeWhile (· ≠ step) → d.irq ≠ 0

/-- The fields of the struct of a bound device. -/
structure FpgagpuDev.Complete (d : FpgagpuDev) : Prop where
  csrBase : d.csrBase = true
  dmaBase : d.dmaBase = true
  descRing : d.descRing = true
  pinnedPages : d.pinnedPages = true
  irq : d.irq ≠ 0

/-- Failures whose label gives back something else than what is held. -/
def ProbeStep.leaks : ProbeStep → Bool
  | .allocIrqVectors | .requestIrq | .cdevAdd => true
  | _ => false

/-- What a label looks at in the struct depends on the statement that failed. -/
theorem label_drops_at {d : FpgagpuDev} {step : ProbeStep} (hd : d.At step) :
    step.label.filterMap (ReleaseStep.drops d) =
      step.label.filterMap (ReleaseStep.drops ⟨0,0,decide (.csrBase ∈ step.before),
        decide (.dmaBase ∈ step.before),0,decide (.descRing ∈ step.before),
        decide (.pinnedPages ∈ step.before)⟩) := by
  rw [← hd.csrBase, ← hd.dmaBase, ← hd.descRing, ← hd.pinnedPages]
  apply List.filterMap_congr
  intro r hr
  cases r with
  | freeIrqIfSet => exact absurd hr (by cases step <;> decide)
  | _ => rfl

/-- What a label gives back is what is held, but for three statements. -/
theorem label_drops_iff {d : FpgagpuDev} {step : ProbeStep} (hd : d.At step)
    (hfails : step.fallible = true ∨ step = .takeMinor) :
    step.label.filterMap (ReleaseStep.drops d) = step.before ↔ step.leaks = false := by
  rw [label_drops_at hd]
  cases step <;> revert hfails <;> decide

theorem ordered_label {d : FpgagpuDev} {step : ProbeStep} (hd : d.At step) :
    Ordered (step.label.filterMap (ReleaseStep.drops d)) := by
  rw [label_drops_at hd]
  cases step <;> exact ⟨by decide,by decide,by decide⟩

/-- `fpgagpu_remove` gives back everything. -/
theorem remove_drops {d : FpgagpuDev} (hd : d.Complete) :
    removeSteps.filterMap (ReleaseStep.drops d) =
      [.deviceNode,.cdev,.pinnedPages,.descRing,.dmaBase,.csrBase,.irqHandler,.dev,.irqVectors,
        .pciRegions,.pciEnable] := by
  obtain ⟨hcsr,hdma,hring,hpages,hirq⟩ := hd
  simp [removeSteps, ReleaseStep.drops, hcsr, hdma, hring, hpages, hirq]

theorem remove_drops_perm {d : FpgagpuDev} (hd : d.Complete) :
    (removeSteps.filterMap (ReleaseStep.drops d)).Perm allKinds := by
  rw [remove_drops hd]
  decide

theorem label_drops {d : FpgagpuDev} {step : ProbeStep} (hd : d.At step)
    (hfails : step.fallible = true ∨ step = .takeMinor) (hfits : step.leaks = false) :
    step.label.filterMap (ReleaseStep.drops d) = step.before :=
  (label_drops_iff hd hfails).mpr hfits

theorem FpgagpuDev.At.zeroed (addr : Nat) : (zeroed addr).At .enableDevice :=
  ⟨rfl,rfl,rfl,rfl,fun h => absurd h (by decide)⟩

/-- A statement stores what it acquires. -/
theorem FpgagpuDev.At.store {δ : Type} {P : Platform δ} {pdev : δ} {d : FpgagpuDev}
    {step step' : ProbeStep} (hd : d.At step) (hnext : step.next = some step') :
    (step.store P pdev d).At step' := by
  constructor
  · have hold := hd.csrBase
    cases step <;> cases hnext <;> first | exact hold | rfl
  · have hold := hd.dmaBase
    cases step <;> cases hnext <;> first | exact hold | rfl
  · have hold := hd.descRing
    cases step <;> cases hnext <;> first | exact hold | rfl
  · have hold := hd.pinnedPages
    cases step <;> cases hnext <;> first | exact hold | rfl
  · have hold := hd.irq
    have hirq := P.irqVector_ne_zero pdev
    cases step <;> cases hnext <;>
      first
        | exact fun h => absurd h (by decide)
        | exact fun _ => hold (by decide)
        | exact fun _ => hirq

theorem FpgagpuDev.At.complete {d : FpgagpuDev} (hd : d.At .readVersion) : d.Complete :=
  ⟨hd.csrBase,hd.dmaBase,hd.descRing,hd.pinnedPages,hd.irq (by decide)⟩

/-- What the driver has for a PCI device. -/
def PciPhase.kinds : PciPhase → List Kind
  | .unbound => []
  | .probing _ step => step.before
  | .unwinding d rest _ => rest.filterMap (ReleaseStep.drops d)
  | .bound _ => allKinds
  | .removing d rest => rest.filterMap (ReleaseStep.drops d)

def PciPhase.dev : PciPhase → FpgagpuDev
  | .unbound => .zeroed 0
  | .probing d _ | .unwinding d _ _ | .bound d | .removing d _ => d

def PciPhase.Sound : PciPhase → Prop
  | .unbound => True
  | .probing d step => d.At step
  | .unwinding d rest result =>
      result < 0 ∧ Ordered (rest.filterMap (ReleaseStep.drops d))
  | .bound d => d.Complete
  | .removing d rest => Ordered (rest.filterMap (ReleaseStep.drops d))

/-- The next release of a call that gives things back. -/
inductive Pops : PciPhase → FpgagpuDev → ReleaseStep → PciPhase → Prop where
  | unwinding (d : FpgagpuDev) (step : ReleaseStep) (rest : List ReleaseStep) (result : Int) :
      Pops (.unwinding d (step :: rest) result) d step (.unwinding d rest result)
  | removing (d : FpgagpuDev) (step : ReleaseStep) (rest : List ReleaseStep) :
      Pops (.removing d (step :: rest)) d step (.removing d rest)

theorem Pops.kinds {p p' : PciPhase} {d : FpgagpuDev} {step : ReleaseStep}
    (h : Pops p d step p') : p.kinds = (step.drops d).toList ++ p'.kinds := by
  cases h <;> cases hdrops : step.drops d <;> simp [PciPhase.kinds, hdrops]

theorem Pops.sound {p p' : PciPhase} {d : FpgagpuDev} {step : ReleaseStep}
    (h : Pops p d step p') (hp : p.Sound) : p'.Sound := by
  have htail : ∀ rest, Ordered ((step :: rest).filterMap (ReleaseStep.drops d)) →
      Ordered (rest.filterMap (ReleaseStep.drops d)) := by
    intro rest hordered
    rw [List.filterMap_cons] at hordered
    split at hordered
    next => exact hordered
    next => exact hordered.tail
  cases h with
  | unwinding rest result => exact ⟨hp.1,htail _ hp.2⟩
  | removing rest => exact htail _ hp

theorem PciPhase.Sound.ordered {p : PciPhase} (h : p.Sound) : Ordered p.kinds := by
  cases p with
  | unbound => exact ⟨rfl,rfl,rfl⟩
  | probing d step => exact ordered_before step
  | unwinding d rest result => exact h.2
  | bound d => exact ordered_allKinds
  | removing d rest => exact h

/-- Nothing that belongs to a struct is kept longer than the struct. -/
theorem PciPhase.Sound.dev_mem {p : PciPhase} (h : p.Sound) {k : Kind} (hk : k ∈ p.kinds)
    (hdev : k.ofDev = true) : .dev ∈ p.kinds :=
  mem_of_keeps h.ordered.dev hk hdev

variable {δ : Type} [DecidableEq δ]

/-- The ways a step can happen. -/
inductive DriverRule (P : Platform δ) (s : DriverState δ) :
    DriverAction δ → DriverState δ → List (DriverEvent δ) → Prop where
  | probe (pdev : δ) : s.phase pdev = .unbound →
      DriverRule P s (.probe pdev) (s.goto pdev (.probing (.zeroed 0) .enableDevice)) []
  | remove (pdev : δ) (d : FpgagpuDev) : s.phase pdev = .bound d →
      DriverRule P s (.remove pdev) (s.goto pdev (.removing d removeSteps)) []
  | kzalloc (pdev : δ) (d : FpgagpuDev) : s.phase pdev = .probing d .kzallocDev →
      DriverRule P s (.step pdev none)
        ({s with held := ⟨.dev,.dev s.nextAddr⟩ :: s.held,nextAddr := s.nextAddr + 1}.goto pdev
          (.probing (.zeroed s.nextAddr) .ioremapBar0)) [.took ⟨.dev,.dev s.nextAddr⟩]
  | minor (pdev : δ) (d : FpgagpuDev) : s.phase pdev = .probing d .takeMinor →
      DriverRule P s (.step pdev none)
        ({s with minorCounter := s.minorCounter + 1}.goto pdev
          (.probing {d with minor := s.minorCounter} .allocDescRing)) []
  | noMinor (pdev : δ) (d : FpgagpuDev) : s.phase pdev = .probing d .takeMinor →
      maxDevices ≤ s.minorCounter →
      DriverRule P s (.step pdev none)
        ({s with minorCounter := s.minorCounter + 1}.goto pdev
          (.unwinding {d with minor := s.minorCounter} errIounmap enospc)) []
  | silent (pdev : δ) (d : FpgagpuDev) (step step' : ProbeStep) :
      s.phase pdev = .probing d step → step.takes = none → step.next = some step' →
      DriverRule P s (.step pdev none) (s.goto pdev (.probing (step.store P pdev d) step')) []
  | acquire (pdev : δ) (d : FpgagpuDev) (step step' : ProbeStep) (kind : Kind) :
      s.phase pdev = .probing d step → step ≠ .kzallocDev → step.takes = some kind →
      step.next = some step' →
      (kind = .deviceNode → kind.resource P pdev d ∉ s.held) →
      DriverRule P s (.step pdev none)
        ({s with held := kind.resource P pdev d :: s.held}.goto pdev
          (.probing (step.store P pdev d) step')) [.took (kind.resource P pdev d)]
  | finish (pdev : δ) (d : FpgagpuDev) : s.phase pdev = .probing d .readVersion →
      DriverRule P s (.step pdev none) (s.goto pdev (.bound d)) [.probeReturned pdev 0]
  | failed (pdev : δ) (d : FpgagpuDev) (step : ProbeStep) (e : Int) :
      s.phase pdev = .probing d step → step.fallible = true → e < 0 →
      DriverRule P s (.step pdev (some e))
        (s.goto pdev (.unwinding d step.label (step.result e))) []
  | release (pdev : δ) (d : FpgagpuDev) (step : ReleaseStep) (p p' : PciPhase) :
      s.phase pdev = p → Pops p d step p' →
      DriverRule P s (.step pdev none) ((s.release P pdev d step).1.goto pdev p')
        (s.release P pdev d step).2
  | failedReturn (pdev : δ) (d : FpgagpuDev) (result : Int) :
      s.phase pdev = .unwinding d [] result →
      DriverRule P s (.step pdev none) (s.goto pdev .unbound) [.probeReturned pdev result]
  | removed (pdev : δ) (d : FpgagpuDev) : s.phase pdev = .removing d [] →
      DriverRule P s (.step pdev none) (s.goto pdev .unbound) [.removeReturned pdev]

theorem driverRule_of_succeed {P : Platform δ} {s s' : DriverState δ} {pdev : δ}
    {d : FpgagpuDev} {step : ProbeStep} {es : List (DriverEvent δ)}
    (hphase : s.phase pdev = .probing d step) (h : s.succeed P pdev d step = some (s',es)) :
    DriverRule P s (.step pdev none) s' es := by
  unfold DriverState.succeed at h
  split at h
  next => cases h; exact .kzalloc pdev d hphase
  next =>
    simp only at h
    by_cases hfull : maxDevices ≤ s.minorCounter
    · rw [if_pos hfull] at h
      cases h
      exact .noMinor pdev d hphase hfull
    · rw [if_neg hfull] at h
      cases h
      exact .minor pdev d hphase
  next => cases h; exact .finish pdev d hphase
  next _ hkzalloc hminor hlast =>
    have hnext : ∃ step', step.next = some step' := by
      cases step with
      | readVersion => exact (hlast rfl).elim
      | _ => exact ⟨_,rfl⟩
    obtain ⟨step',hnext⟩ := hnext
    have hafter : ∀ d, PciPhase.after d step = .probing d step' := by
      intro d
      simp [PciPhase.after, hnext]
    split at h
    next htakes =>
      rw [hafter] at h
      cases h
      exact .silent pdev d step step' hphase htakes hnext
    next kind htakes =>
      simp only at h
      split at h
      next => contradiction
      next hfree =>
        rw [hafter] at h
        cases h
        exact .acquire pdev d step step' kind hphase hkzalloc htakes hnext
          fun hkind hheld => hfree ⟨hkind,hheld⟩

theorem driverRule_of_step {P : Platform δ} {s s' : DriverState δ} {a : DriverAction δ}
    {es : List (DriverEvent δ)} (h : s.step P a = some (s',es)) : DriverRule P s a s' es := by
  unfold DriverState.step at h
  split at h
  next pdev =>
    split at h
    next hphase => cases h; exact .probe pdev hphase
    next => contradiction
  next pdev =>
    split at h
    next d hphase => cases h; exact .remove pdev d hphase
    next => contradiction
  next pdev fail =>
    split at h
    next d step hphase => exact driverRule_of_succeed hphase h
    next d step e hphase =>
      split at h
      next hfail => cases h; exact .failed pdev d step e hphase hfail.1 hfail.2
      next => contradiction
    next d step rest result hphase =>
      cases h
      exact .release pdev d step _ _ hphase (.unwinding d step rest result)
    next d result hphase => cases h; exact .failedReturn pdev d result hphase
    next d step rest hphase =>
      cases h
      exact .release pdev d step _ _ hphase (.removing d step rest)
    next d hphase => cases h; exact .removed pdev d hphase
    next => contradiction

def DriverAction.pdev : DriverAction δ → δ
  | .probe pdev | .remove pdev | .step pdev _ => pdev

/-- What a step does to the phase of its device. -/
inductive PhaseMove : PciPhase → Option Statement → PciPhase → Prop where
  | probe (d : FpgagpuDev) : PhaseMove .unbound none (.probing d .enableDevice)
  | remove (d : FpgagpuDev) : PhaseMove (.bound d) none (.removing d removeSteps)
  | next (d d' : FpgagpuDev) (step step' : ProbeStep) : step.next = some step' →
      PhaseMove (.probing d step) (some (.probe step)) (.probing d' step')
  | finish (d : FpgagpuDev) :
      PhaseMove (.probing d .readVersion) (some (.probe .readVersion)) (.bound d)
  | failed (d d' : FpgagpuDev) (step : ProbeStep) (statement : Option Statement) (result : Int) :
      statement = none ∨ statement = some (.probe .takeMinor) →
      step.fallible = true ∨ step = .takeMinor →
      PhaseMove (.probing d step) statement (.unwinding d' step.label result)
  | release (p p' : PciPhase) (d : FpgagpuDev) (step : ReleaseStep) : Pops p d step p' →
      PhaseMove p (some (.release step)) p'
  | failedReturn (d : FpgagpuDev) (result : Int) : PhaseMove (.unwinding d [] result) none .unbound
  | removed (d : FpgagpuDev) : PhaseMove (.removing d []) none .unbound

@[simp] theorem DriverState.goto_phase_self (s : DriverState δ) (pdev : δ) (p : PciPhase) :
    (s.goto pdev p).phase pdev = p := Function.update_self ..

theorem DriverState.goto_phase_other (s : DriverState δ) {pdev q : δ} (p : PciPhase)
    (h : q ≠ pdev) : (s.goto pdev p).phase q = s.phase q := Function.update_of_ne h ..

theorem release_phase (P : Platform δ) (s : DriverState δ) (pdev : δ) (d : FpgagpuDev)
    (step : ReleaseStep) : (s.release P pdev d step).1.phase = s.phase := by
  unfold DriverState.release
  split
  next => rfl
  next =>
    simp only
    split <;> rfl

omit [DecidableEq δ] in
theorem Pops.statement {p p' : PciPhase} {d : FpgagpuDev} {step : ReleaseStep}
    (h : Pops p d step p') : p.statement = some (.release step) := by
  cases h <;> rfl

theorem DriverRule.other {P : Platform δ} {s s' : DriverState δ} {a : DriverAction δ}
    {es : List (DriverEvent δ)} (h : DriverRule P s a s' es) {q : δ} (hq : q ≠ a.pdev) :
    s'.phase q = s.phase q := by
  cases h with
  | release pdev d step p p' =>
    have hother : q ≠ pdev := hq
    rw [DriverState.goto_phase_other _ p' hother, release_phase]
  | _ => exact DriverState.goto_phase_other _ _ hq

theorem DriverRule.moves {P : Platform δ} {s s' : DriverState δ} {a : DriverAction δ}
    {es : List (DriverEvent δ)} (h : DriverRule P s a s' es) :
    PhaseMove (s.phase a.pdev) (s.statement a) (s'.phase a.pdev) := by
  cases h with
  | probe pdev hphase =>
    simp only [DriverAction.pdev, DriverState.statement, DriverState.goto_phase_self, hphase]
    exact .probe _
  | remove pdev d hphase =>
    simp only [DriverAction.pdev, DriverState.statement, DriverState.goto_phase_self, hphase]
    exact .remove d
  | kzalloc pdev d hphase | minor pdev d hphase =>
    simp only [DriverAction.pdev, DriverState.statement, DriverState.goto_phase_self, hphase,
      PciPhase.statement]
    exact .next _ _ _ _ rfl
  | noMinor pdev d hphase =>
    simp only [DriverAction.pdev, DriverState.statement, DriverState.goto_phase_self, hphase,
      PciPhase.statement]
    exact .failed _ _ .takeMinor _ _ (.inr rfl) (.inr rfl)
  | silent pdev d step step' hphase _ hnext | acquire pdev d step step' kind hphase _ _ hnext =>
    simp only [DriverAction.pdev, DriverState.statement, DriverState.goto_phase_self, hphase,
      PciPhase.statement]
    exact .next _ _ _ _ hnext
  | finish pdev d hphase =>
    simp only [DriverAction.pdev, DriverState.statement, DriverState.goto_phase_self, hphase,
      PciPhase.statement]
    exact .finish d
  | failed pdev d step e hphase hfallible =>
    simp only [DriverAction.pdev, DriverState.statement, DriverState.goto_phase_self, hphase]
    exact .failed _ _ step _ _ (.inl rfl) (.inl hfallible)
  | release pdev d step p p' hphase hpops =>
    simp only [DriverAction.pdev, DriverState.statement, DriverState.goto_phase_self, hphase,
      hpops.statement]
    exact .release _ _ d step hpops
  | failedReturn pdev d result hphase =>
    simp only [DriverAction.pdev, DriverState.statement, DriverState.goto_phase_self, hphase,
      PciPhase.statement]
    exact .failedReturn d result
  | removed pdev d hphase =>
    simp only [DriverAction.pdev, DriverState.statement, DriverState.goto_phase_self, hphase,
      PciPhase.statement]
    exact .removed d

omit [DecidableEq δ] in
/-- Where a statement of probe is executed. -/
theorem statement_probe {s : DriverState δ} {a : DriverAction δ} {step : ProbeStep}
    (h : s.statement a = some (.probe step)) :
    ∃ pdev d, a = .step pdev none ∧ s.phase pdev = .probing d step := by
  cases a with
  | probe pdev | remove pdev => contradiction
  | step pdev fail =>
    cases fail with
    | some e => contradiction
    | none =>
      have hphase : (s.phase pdev).statement = some (.probe step) := h
      cases hp : s.phase pdev with
      | probing d step' =>
        rw [hp] at hphase
        obtain rfl := Statement.probe.inj (Option.some.inj hphase)
        exact ⟨pdev,d,rfl,hp⟩
      | unbound | bound d =>
        rw [hp] at hphase
        contradiction
      | unwinding d rest result | removing d rest =>
        rw [hp] at hphase
        cases rest <;> simp [PciPhase.statement] at hphase

/-- How probe comes to a statement. -/
theorem PhaseMove.to_probing {p : PciPhase} {statement : Option Statement} {d' : FpgagpuDev}
    {step' : ProbeStep} (h : PhaseMove p statement (.probing d' step')) :
    step' = .enableDevice ∨ ∃ d step, p = .probing d step ∧ statement = some (.probe step) ∧
      step.next = some step' := by
  cases h with
  | probe d => exact .inl rfl
  | next d _ step _ hnext => exact .inr ⟨d,step,rfl,rfl,hnext⟩
  | release p p' d step hpops => cases hpops

/-- What a statement of probe that cannot fail leads to. -/
theorem PhaseMove.of_probing {p' : PciPhase} {statement : Option Statement} {d : FpgagpuDev}
    {step : ProbeStep} (h : PhaseMove (.probing d step) statement p')
    (hstep : step.fallible = false) (hminor : step ≠ .takeMinor) :
    statement = some (.probe step) ∧ ((∃ d' step', p' = .probing d' step' ∧
      step.next = some step') ∨ step.next = none ∧ p' = .bound d) := by
  cases h with
  | next _ d' _ step' hnext => exact ⟨rfl,.inl ⟨d',step',rfl,hnext⟩⟩
  | finish => exact ⟨rfl,.inr ⟨rfl,rfl⟩⟩
  | failed _ d' _ _ result _ hfails =>
    rcases hfails with hfails | hfails
    · exact absurd (hfails.symm.trans hstep) (by decide)
    · exact absurd hfails hminor
  | release p p' d step hpops => cases hpops

end FpgaGpu.Driver
