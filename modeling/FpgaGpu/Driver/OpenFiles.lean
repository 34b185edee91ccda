import FpgaGpu.Driver.DmaCopy
import FpgaGpu.Driver.Lifetime
import FpgaGpu.Driver.Reload

/-! Open files, ioctl calls and the interrupt handler next to probe and remove: a
file keeps its struct as long as nothing is taken away under it. -/
namespace FpgaGpu.Driver
open Library

variable {δ φ ι : Type} [DecidableEq δ] [DecidableEq φ] [DecidableEq ι] {P : Platform δ}
  {queueMode : Int}

/-- The ways a step can happen, as far as it matters who has a pointer to what. -/
inductive LifeRule (P : Platform δ) (s : LifeState δ φ ι) :
    LifeAction δ φ ι → LifeState δ φ ι → List (LifeEvent δ) → Prop where
  | driver (a : DriverAction δ) (driver : DriverState δ) (es : List (DriverEvent δ)) :
      s.freesIrq a = false → s.driver.step P a = some (driver,es) →
      LifeRule P s (.driver a) {s with driver} (es.map .driver)
  | fpgagpuOpen (f : φ) (dev : Nat) : ⟨.cdev,.dev dev⟩ ∈ s.driver.held →
      LifeRule P s (.fpgagpuOpen f dev) (s.setFile f (.opening dev)) []
  | file (a : LifeAction δ φ ι) (f : φ) (dev : Nat) (file : DevFile ι)
      (calls : Nat → DevCalls ι) (ts : List Touch) : (∀ b, a ≠ .driver b) →
      (s.file f).dev = some dev → (∀ dev', file.dev = some dev' → dev' = dev) →
      LifeRule P s a {s.setFile f file with calls} (s.touch dev ts)
  | enter (dev : Nat) : ⟨.irqHandler,.dev dev⟩ ∈ s.driver.held →
      LifeRule P s (.irq dev) {s with handler := Function.update s.handler dev (some .log)} []
  | handle (dev : Nat) (step : IrqStep) (next : Option IrqStep) : s.handler dev = some step →
      LifeRule P s (.irq dev) {s with handler := Function.update s.handler dev next}
        (s.touch dev [.struct])
  | calls (a : LifeAction δ φ ι) (calls : Nat → DevCalls ι) : (∀ b, a ≠ .driver b) →
      LifeRule P s a {s with calls} []

theorem lifeRule_of_step {s s' : LifeState δ φ ι} {a : LifeAction δ φ ι}
    {es : List (LifeEvent δ)} (h : s.step P queueMode a = some (s',es)) : LifeRule P s a s' es := by
  have hdev : ∀ (dev dev' : Nat), some dev = some dev' → dev' = dev :=
    fun dev dev' heq => (Option.some.inj heq).symm
  have hnone : ∀ (dev dev' : Nat), none = some dev' → dev' = dev := fun _ _ heq => by contradiction
  cases a with
  | driver a =>
    simp only [LifeState.step] at h
    split at h
    next => contradiction
    next hfrees =>
      split at h
      next => contradiction
      next driver es hstep =>
        cases h
        exact .driver a driver es (Bool.eq_false_iff.mpr hfrees) hstep
  | fpgagpuOpen f dev =>
    simp only [LifeState.step] at h
    split at h
    next =>
      split at h
      next hcdev => cases h; exact .fpgagpuOpen f dev hcdev
      next => contradiction
    next => contradiction
  | fpgagpuRelease f =>
    simp only [LifeState.step] at h
    split at h
    next dev hfile =>
      cases h
      exact .file _ f dev _ s.calls [] (by simp) (by rw [hfile]; rfl) (hdev dev)
    next => contradiction
  | fileStep f alloc =>
    simp only [LifeState.step, LifeState.fileStep] at h
    split at h
    next dev hfile =>
      cases h
      refine .file _ f dev _ s.calls _ (by simp) (by rw [hfile]; rfl) ?_
      cases alloc with
      | true => exact hdev dev
      | false => exact hnone dev
    next dev hfile =>
      cases h
      exact .file _ f dev _ s.calls _ (by simp) (by rw [hfile]; rfl) (hdev dev)
    next dev hfile =>
      cases h
      exact .file _ f dev _ s.calls _ (by simp) (by rw [hfile]; rfl) (hdev dev)
    next dev hfile =>
      cases h
      exact .file _ f dev _ s.calls _ (by simp) (by rw [hfile]; rfl) (hnone dev)
    next => contradiction
    next => contradiction
  | ioctl f a =>
    simp only [LifeState.step, LifeState.ioctl] at h
    split at h
    next dev calls c hfile _ =>
      split at h
      next =>
        split at h
        next => contradiction
        next d _ =>
          cases h
          exact .file _ f dev _ _ _ (by simp) (by rw [hfile]; rfl) (hdev dev)
      next => contradiction
    next => contradiction
  | irq dev =>
    simp only [LifeState.step, LifeState.irq] at h
    split at h
    next =>
      split at h
      next hheld => cases h; exact .enter dev hheld
      next => contradiction
    next step hrunning => cases h; exact .handle dev step _ hrunning
  | fpga dev a =>
    simp only [LifeState.step] at h
    split at h
    next => cases h; exact .calls _ _ (by simp)
    next => contradiction
  | bar0 dev ring =>
    cases h
    exact .calls _ _ (by simp)

/-- Releases that take away what files reach. -/
def ReleaseStep.pulls : ReleaseStep → Bool
  | .iounmapBar1 | .iounmapBar0 | .kfreeDev => true
  | _ => false

theorem pulls_of_drops {step : ReleaseStep} {d : FpgagpuDev} {t : Touch}
    (h : step.drops d = some t.kind) : step.pulls = true := by
  unfold ReleaseStep.drops at h
  split at h <;> first | rfl | (cases t <;> simp [Touch.kind] at h)

/-- No file has a pointer to a struct that is freed or whose BAR is unmapped, and
no probe fails in `cdev_add`. -/
structure FilesClosed (_ : List (LifeEvent δ)) (s : LifeState δ φ ι) (a : LifeAction δ φ ι) :
    Prop where
  released : ∀ b step, a = .driver b → s.driver.statement b = some (.release step) →
    step.pulls = true → ∀ f, (s.file f).dev ≠ some (s.driver.phase b.pdev).dev.addr
  cdevAdded : ∀ b, a = .driver b → CdevAdded [] s.driver b

/-- Who has a pointer to a struct finds it. -/
structure LifeInv (P : Platform δ) (log : List (LifeEvent δ)) (s : LifeState δ φ ι) : Prop where
  driver : ∃ dlog, (driverSystem P).RunWith CdevAdded dlog s.driver
  files : ∀ f dev, (s.file f).dev = some dev → ∀ t : Touch, ⟨t.kind,.dev dev⟩ ∈ s.driver.held
  handler : ∀ dev, (s.handler dev).isSome → ⟨.irqHandler,.dev dev⟩ ∈ s.driver.held
  no_fault : ∀ dev t, .fault dev t ∉ log

variable {log : List (LifeEvent δ)} {s s' : LifeState δ φ ι}

omit [DecidableEq φ] [DecidableEq ι] in
theorem no_fault_touch {dev : Nat} {ts : List Touch}
    (hheld : ∀ t ∈ ts, ⟨t.kind,.dev dev⟩ ∈ s.driver.held) (dev' : Nat) (t : Touch) :
    .fault dev' t ∉ s.touch dev ts := by
  intro hmem
  obtain ⟨t',ht',heq⟩ := List.mem_map.mp hmem
  rw [if_pos (hheld t' ht')] at heq
  contradiction

omit [DecidableEq φ] [DecidableEq ι] in
theorem LifeInv.quiet (h : LifeInv P log s) {es : List (LifeEvent δ)}
    (hes : ∀ dev t, .fault dev t ∉ es) (dev : Nat) (t : Touch) : .fault dev t ∉ log ++ es := by
  intro hmem
  rcases List.mem_append.mp hmem with hmem | hmem
  · exact h.no_fault dev t hmem
  · exact hes dev t hmem

omit [DecidableEq δ] [DecidableEq φ] [DecidableEq ι] in
theorem freesIrq_of_drops {a : DriverAction δ} {step : ReleaseStep} {d : FpgagpuDev}
    (hstatement : s.driver.statement a = some (.release step))
    (hdrops : step.drops d = some .irqHandler) :
    s.freesIrq a = (s.handler (s.driver.phase a.pdev).dev.addr).isSome := by
  unfold LifeState.freesIrq
  rw [hstatement]
  cases step with
  | freeIrq | freeIrqIfSet => rfl
  | _ => simp [ReleaseStep.drops] at hdrops

omit [DecidableEq φ] [DecidableEq ι] in
/-- A step of probe or remove leaves what is pointed to. -/
theorem LifeInv.of_driver {a : DriverAction δ} {driver : DriverState δ}
    {es : List (DriverEvent δ)} (h : LifeInv P log s) (hok : FilesClosed log s (.driver a))
    (hfrees : s.freesIrq a = false) (hstep : s.driver.step P a = some (driver,es)) :
    LifeInv P (log ++ es.map .driver) ({s with driver} : LifeState δ φ ι) := by
  have hreleased := fun r => (driverRule_of_step hstep).released (r := r)
  constructor
  · obtain ⟨dlog,hrun⟩ := h.driver
    exact ⟨_,hrun.step (hok.cdevAdded a rfl) hstep⟩
  · intro f dev hdev t
    by_contra hgone
    obtain ⟨step,hstatement,hdrops,howner⟩ := hreleased _ (h.files f dev hdev t) hgone
    have haddr : dev = (s.driver.phase a.pdev).dev.addr := by
      cases t <;> exact Owner.dev.inj howner
    rw [haddr] at hdev
    exact hok.released a step rfl hstatement (pulls_of_drops hdrops) f hdev
  · intro dev hrunning
    by_contra hgone
    obtain ⟨step,hstatement,hdrops,howner⟩ := hreleased _ (h.handler dev hrunning) hgone
    have haddr : dev = (s.driver.phase a.pdev).dev.addr := Owner.dev.inj howner
    rw [haddr, ← freesIrq_of_drops hstatement hdrops, hfrees] at hrunning
    contradiction
  · exact h.quiet (by simp)

omit [DecidableEq ι] in
theorem LifeInv.files_set (h : LifeInv P log s) {f : φ} {file : DevFile ι}
    (hfile : ∀ dev, file.dev = some dev → ∀ t : Touch, ⟨t.kind,.dev dev⟩ ∈ s.driver.held) :
    ∀ g dev, (Function.update s.file f file g).dev = some dev →
      ∀ t : Touch, ⟨t.kind,.dev dev⟩ ∈ s.driver.held := by
  intro g dev hdev
  by_cases hg : g = f
  · subst hg
    rw [Function.update_self] at hdev
    exact hfile dev hdev
  · rw [Function.update_of_ne hg] at hdev
    exact h.files g dev hdev

omit [DecidableEq φ] [DecidableEq ι] in
theorem LifeInv.handler_set (h : LifeInv P log s) {dev : Nat} {next : Option IrqStep}
    (hnext : next.isSome → ⟨.irqHandler,.dev dev⟩ ∈ s.driver.held) :
    ∀ dev', (Function.update s.handler dev next dev').isSome →
      ⟨.irqHandler,.dev dev'⟩ ∈ s.driver.held := by
  intro dev' hrunning
  by_cases hdev : dev' = dev
  · subst hdev
    rw [Function.update_self] at hrunning
    exact hnext hrunning
  · rw [Function.update_of_ne hdev] at hrunning
    exact h.handler dev' hrunning

theorem life_run (h : (lifeSystem φ ι P queueMode).RunWith FilesClosed log s) :
    LifeInv P log s := by
  refine h.invariant (I := fun log s => LifeInv P log s) ?_ ?_
  · rintro s ⟨hdriver,hfiles,hhandler,-⟩
    constructor
    · exact ⟨[],.init hdriver⟩
    · intro f dev hdev
      rw [hfiles f] at hdev
      contradiction
    · intro dev hrunning
      rw [hhandler dev] at hrunning
      contradiction
    · intro dev t
      exact List.not_mem_nil
  · intro log s a s' es _ ih hok hstep
    obtain ⟨dlog,hrun⟩ := ih.driver
    cases lifeRule_of_step hstep with
    | driver a driver es hfrees hdriver => exact ih.of_driver hok hfrees hdriver
    | fpgagpuOpen f dev hcdev =>
      refine ⟨ih.driver,?_,ih.handler,ih.quiet (by simp)⟩
      apply ih.files_set
      intro dev' hdev
      cases hdev
      exact touch_of_cdev hrun.run hcdev
    | file a f dev file calls ts _ hdev hsame =>
      refine ⟨ih.driver,?_,ih.handler,ih.quiet ?_⟩
      · apply ih.files_set
        intro dev' hdev'
        rw [hsame dev' hdev']
        exact ih.files f dev hdev
      · exact no_fault_touch fun t _ => ih.files f dev hdev t
    | enter dev hheld =>
      exact ⟨ih.driver,ih.files,ih.handler_set fun _ => hheld,ih.quiet (by simp)⟩
    | handle dev step next hrunning =>
      have hheld := ih.handler dev (by rw [hrunning]; rfl)
      refine ⟨ih.driver,ih.files,ih.handler_set fun _ => hheld,ih.quiet ?_⟩
      apply no_fault_touch
      intro t ht
      rw [List.mem_singleton.mp ht]
      exact dev_of_handler hrun hheld
    | calls a calls => exact ⟨ih.driver,ih.files,ih.handler,ih.quiet (by simp)⟩

/-- Every file has a struct that is not freed, and no ioctl, wait, open, release or
interrupt reaches a freed struct or a BAR that is not mapped. -/
theorem open_file_keeps_dev (h : (lifeSystem φ ι P queueMode).RunWith FilesClosed log s) :
    (∀ f dev, (s.file f).dev = some dev → ⟨.dev,.dev dev⟩ ∈ s.driver.held) ∧
      ∀ dev t, .fault dev t ∉ log := by
  have hinv := life_run h
  exact ⟨fun f dev hdev => hinv.files f dev hdev .struct,hinv.no_fault⟩

/-- The driver loaded, one device, and one program that opens files. -/
def noFiles : LifeState Unit Unit Nat where
  driver := loaded Unit
  file _ := .closed
  calls _ := ⟨probed Nat,⟨probedDmaDev,⟨fun _ => 0,fun _ => 0⟩,UInt64.toNat,fun _ => .idle,0⟩,
    fun _ => 0⟩
  handler _ := none

theorem noFiles_init (queueMode : Int) :
    (lifeSystem Unit Nat oneDevice queueMode).init noFiles := by
  have hbusy : ∀ dir, probedDmaDev.busy dir = false := by
    intro dir
    cases dir <;> rfl
  refine ⟨rfl,fun _ => rfl,fun _ => rfl,fun dev => ⟨probed_init Nat,?_,fun _ => rfl⟩⟩
  exact ⟨rfl,hbusy,fun _ => rfl⟩

/-- The device is probed and a file opened on its struct. -/
def probeAndOpen (dev : Nat) : List (LifeAction Unit Unit Nat) :=
  .driver (.probe ()) :: (List.replicate 16 (.driver (.step () none)) ++
    [.fpgagpuOpen () dev,.fileStep () true,.fileStep () true])

/-- A launch is submitted. -/
def submitSteps : List (LifeAction Unit Unit Nat) :=
  .ioctl () (.ring (.start 0 (.submitCmd (some oneLaunch)))) ::
    (sectionSteps 0).map fun a => .ioctl () (.ring a)

/-- The device is unbound. -/
def unbindSteps : List (LifeAction Unit Unit Nat) :=
  .driver (.remove ()) :: List.replicate 12 (.driver (.step () none))

/-- The file is closed before its device is unbound. -/
def closeThenUnbind : List (LifeAction Unit Unit Nat) :=
  probeAndOpen 0 ++ submitSteps ++ List.replicate 4 (.irq 0) ++
    [.fpgagpuRelease (),.fileStep () true,.fileStep () true] ++ unbindSteps ++ probeAndOpen 1

def filesClosed (s : LifeState Unit Unit Nat) : LifeAction Unit Unit Nat → Bool
  | .driver (.step pdev (some _)) =>
      match s.driver.phase pdev with
      | .probing _ .cdevAdd => false
      | _ => true
  | .driver b =>
      match s.driver.statement b with
      | some (.release step) =>
          !step.pulls || decide ((s.file ()).dev ≠ some (s.driver.phase b.pdev).dev.addr)
      | _ => true
  | _ => true

theorem filesClosed_sound (log : List (LifeEvent Unit)) (s : LifeState Unit Unit Nat)
    (a : LifeAction Unit Unit Nat) (h : filesClosed s a = true) : FilesClosed log s a := by
  constructor
  · intro b step ha hstatement hpulls f
    subst ha
    cases b with
    | probe pdev | remove pdev => contradiction
    | step pdev fail =>
      cases fail with
      | some e => contradiction
      | none =>
        simp only [filesClosed, hstatement, hpulls, Bool.not_true, Bool.false_or] at h
        exact of_decide_eq_true h
  · intro b ha pdev e d hb hphase
    subst ha hb
    simp [filesClosed, hphase] at h

theorem closeThenUnbind_runs :
    (((lifeSystem Unit Nat oneDevice 0).guarded filesClosed).exec noFiles
      closeThenUnbind).isSome = true := by
  decide +kernel

theorem closeThenUnbind_ends :
    let r := (((lifeSystem Unit Nat oneDevice 0).guarded filesClosed).exec noFiles
      closeThenUnbind).get closeThenUnbind_runs
    r.1.file () = .opened 1 [] ∧ .touched 0 .bar0 ∈ r.2 := by
  decide +kernel

theorem open_file_keeps_dev_closed : ∃ log s,
    (lifeSystem Unit Nat oneDevice 0).RunWith FilesClosed log s ∧
      s.file () = .opened 1 [] ∧ .touched 0 .bar0 ∈ log ∧ ⟨.dev,.dev 1⟩ ∈ s.driver.held ∧
      ∀ dev t, .fault dev t ∉ log := by
  have hrun := System.RunWith.of_guarded_exec (noFiles_init 0) closeThenUnbind
    closeThenUnbind_runs filesClosed_sound
  have hends := closeThenUnbind_ends
  generalize (((lifeSystem Unit Nat oneDevice 0).guarded filesClosed).exec noFiles
    closeThenUnbind).get closeThenUnbind_runs = r at hrun hends
  have hkept := open_file_keeps_dev hrun
  refine ⟨_,_,hrun,hends.1,hends.2,hkept.1 () 1 ?_,hkept.2⟩
  rw [hends.1]
  rfl

/-- A launch is submitted and waited for, and the device unbound while the program
sleeps in DOORBELL; then its time is up. -/
def unbindWhileAsleep : List (LifeAction Unit Unit Nat) :=
  probeAndOpen 0 ++ submitSteps ++
    [.ioctl () (.ring (.start 1 .doorbell)),.ioctl () (.ring (.access 1)),
      .ioctl () (.ring (.access 1))] ++ unbindSteps ++ [.ioctl () (.ring (.expire 1))]

theorem unbindWhileAsleep_runs : ((lifeSystem Unit Nat oneDevice 0).exec noFiles
    unbindWhileAsleep).isSome = true := by
  decide +kernel

theorem unbindWhileAsleep_ends :
    let r := ((lifeSystem Unit Nat oneDevice 0).exec noFiles unbindWhileAsleep).get
      unbindWhileAsleep_runs
    r.1.file () = .opened 0 [] ∧ r.1.driver.held = [] ∧ .fault 0 .struct ∈ r.2 ∧
      .fault 0 .bar0 ∈ r.2 := by
  decide +kernel

/-- The file is still open on a struct that is freed, and the wait looks at the
struct and at the ring. -/
theorem unbound_file_faults : ∃ log s, (lifeSystem Unit Nat oneDevice 0).Run log s ∧
    (s.file ()).dev = some 0 ∧ ⟨.dev,.dev 0⟩ ∉ s.driver.held ∧ .fault 0 .struct ∈ log ∧
      .fault 0 .bar0 ∈ log := by
  have hrun := System.Run.of_exec (noFiles_init 0) unbindWhileAsleep unbindWhileAsleep_runs
  have hends := unbindWhileAsleep_ends
  generalize ((lifeSystem Unit Nat oneDevice 0).exec noFiles unbindWhileAsleep).get
    unbindWhileAsleep_runs = r at hrun hends
  obtain ⟨hfile,hheld,hstruct,hbar⟩ := hends
  refine ⟨_,_,hrun,?_,?_,hstruct,hbar⟩
  · rw [hfile]
    rfl
  · rw [hheld]
    exact List.not_mem_nil

/-- No file is ever opened; the device cannot add its cdev, and then its
interrupt comes. -/
def irqAfterFailure : List (LifeAction Unit Unit Nat) :=
  .driver (.probe ()) :: (List.replicate 13 (.driver (.step () none)) ++
    .driver (.step () (some enomem)) :: (List.replicate 7 (.driver (.step () none)) ++
      [.irq 0,.irq 0]))

theorem irqAfterFailure_runs : ((lifeSystem Unit Nat oneDevice 0).exec noFiles
    irqAfterFailure).isSome = true := by
  decide +kernel

theorem irqAfterFailure_ends : .fault 0 .struct ∈ (((lifeSystem Unit Nat oneDevice 0).exec noFiles
    irqAfterFailure).get irqAfterFailure_runs).2 := by
  decide +kernel

/-- The other half of the condition is needed as well. -/
theorem stray_handler_faults : ∃ log s, (lifeSystem Unit Nat oneDevice 0).Run log s ∧
    .fault 0 .struct ∈ log :=
  ⟨_,_,System.Run.of_exec (noFiles_init 0) irqAfterFailure irqAfterFailure_runs,
    irqAfterFailure_ends⟩

end FpgaGpu.Driver
