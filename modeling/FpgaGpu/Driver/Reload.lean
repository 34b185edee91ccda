import FpgaGpu.Driver.ProbeRules
import FpgaGpu.Driver.RingFifo
import FpgaGpu.Library.History

/-! The ring of one device over any number of probes and removes. The FPGA and its
firmware keep running throughout; the calls are those of the current struct. -/
namespace FpgaGpu.Driver
open Library

/-- `base` has the memories of the FPGA, the firmware and the calls on the current
`struct fpgagpu_dev`. `live` says that its device file has been there and that
BAR0 is still mapped, so that calls reach the ring. -/
structure ReloadState (ι : Type) where
  driver : DriverState Unit
  base : State ι
  live : Bool

inductive ReloadAction (ι : Type) where
  | driver (a : DriverAction Unit)
  | base (a : Action ι)

/-- `reset` is the second write of a reset. -/
inductive ReloadEvent (ι : Type) where
  | base (e : Event ι)
  | reset

variable {ι : Type} [DecidableEq ι]

/-- What a statement of the driver does to the ring and to the calls. A new struct
has a new lock and no calls yet. -/
def ReloadState.perform (s : ReloadState ι) :
    Option Statement → ReloadState ι × List (ReloadEvent ι)
  | some (.probe .kzallocDev) =>
      ({s with base := {s.base with globalLock := none,pc := fun _ => .ready}},[])
  | some (.probe .resetHead) =>
      ({s with base := {s.base with ring := {s.base.ring with head := 0}}},[])
  | some (.probe .resetTail) =>
      ({s with base := {s.base with ring := {s.base.ring with tail := 0}}},[.reset])
  | some (.probe .cdevAdd) => ({s with live := true},[])
  | some (.release .iounmapBar0) => ({s with live := false},[])
  | _ => (s,[])

def ReloadState.step (P : Platform Unit) (queueMode : Int) (s : ReloadState ι) :
    ReloadAction ι → Option (ReloadState ι × List (ReloadEvent ι))
  | .driver a =>
      match s.driver.step P a with
      | none => none
      | some (driver,_) => some ({s with driver}.perform (s.driver.statement a))
  | .base .firmware => some ({s with base := s.base.firmware.1},s.base.firmware.2.map .base)
  | .base a =>
      if s.live then
        match FpgaGpu.Driver.step queueMode s.base a with
        | none => none
        | some (base,es) => some ({s with base},es.map .base)
      else none

/-- A fresh boot: no driver, an empty ring, any contents of the memories. -/
def reloadSystem (ι : Type) [DecidableEq ι] (P : Platform Unit) (queueMode : Int) :
    System (ReloadState ι) (ReloadAction ι) (ReloadEvent ι) where
  init s := s.driver = loaded Unit ∧ Probed s.base ∧ s.live = false
  step := ReloadState.step P queueMode

/-- The ways a step can happen. -/
inductive ReloadRule (P : Platform Unit) (queueMode : Int) (s : ReloadState ι) :
    ReloadAction ι → ReloadState ι → List (ReloadEvent ι) → Prop where
  | driver (a : DriverAction Unit) (driver : DriverState Unit) :
      PhaseMove (s.driver.phase ()) (s.driver.statement a) (driver.phase ()) →
      ReloadRule P queueMode s (.driver a) ({s with driver}.perform (s.driver.statement a)).1
        ({s with driver}.perform (s.driver.statement a)).2
  | firmware : ReloadRule P queueMode s (.base .firmware) {s with base := s.base.firmware.1}
      (s.base.firmware.2.map .base)
  | base (a : Action ι) (base : State ι) (es : List (Event ι)) : a ≠ .firmware →
      s.live = true → FpgaGpu.Driver.step queueMode s.base a = some (base,es) →
      ReloadRule P queueMode s (.base a) {s with base} (es.map .base)

theorem reloadRule_of_step {P : Platform Unit} {queueMode : Int} {s s' : ReloadState ι}
    {a : ReloadAction ι} {es : List (ReloadEvent ι)} (h : s.step P queueMode a = some (s',es)) :
    ReloadRule P queueMode s a s' es := by
  unfold ReloadState.step at h
  split at h
  next a =>
    split at h
    next => contradiction
    next driver des hstep =>
      have hpair := Option.some.inj h
      have hs' : ({s with driver}.perform (s.driver.statement a)).1 = s' := congrArg Prod.fst hpair
      have hes : ({s with driver}.perform (s.driver.statement a)).2 = es := congrArg Prod.snd hpair
      rw [← hs', ← hes]
      exact .driver a driver (driverRule_of_step hstep).moves
  next => cases h; exact .firmware
  next a hfirmware =>
    split at h
    next hlive =>
      split at h
      next => contradiction
      next base es hbase => cases h; exact .base a base es hfirmware hlive hbase
    next => contradiction

omit [DecidableEq ι] in
theorem perform_driver (s : ReloadState ι) (statement : Option Statement) :
    (s.perform statement).1.driver = s.driver := by
  unfold ReloadState.perform
  split <;> rfl

omit [DecidableEq ι] in
/-- The firmware does not look at the calls, nor change them. -/
theorem firmware_calls (b : State ι) (lock : Option ι) (pc : ι → Pc) :
    ({b with globalLock := lock,pc} : State ι).firmware =
      ({b.firmware.1 with globalLock := lock,pc},b.firmware.2) := by
  unfold State.firmware
  cases b.fw <;> rfl

omit [DecidableEq ι] in
theorem firmware_lock (b : State ι) :
    b.firmware.1.globalLock = b.globalLock ∧ b.firmware.1.pc = b.pc := by
  unfold State.firmware
  cases b.fw <;> exact ⟨rfl,rfl⟩

/-- Where the driver can be while calls reach the ring. -/
def PciPhase.Serves : PciPhase → Prop
  | .probing _ .deviceCreate | .probing _ .readVersion | .bound _ => True
  | .unwinding _ rest _ | .removing _ rest => .iounmapBar0 ∈ rest
  | _ => False

theorem serves_move {p p' : PciPhase} {statement : Option Statement}
    (h : PhaseMove p statement p') (hp : p.Serves)
    (hmapped : statement ≠ some (.release .iounmapBar0)) : p'.Serves := by
  cases h with
  | probe d => exact hp.elim
  | remove d => exact (by decide : ReleaseStep.iounmapBar0 ∈ removeSteps)
  | next d d' step step' hnext =>
    cases step <;> first | exact hp.elim | (cases hnext <;> trivial)
  | finish d => trivial
  | failed d d' step statement result hst hfails =>
    cases step with
    | deviceCreate =>
      exact (by decide : ReleaseStep.iounmapBar0 ∈ ProbeStep.deviceCreate.label)
    | readVersion => exact absurd hfails (by decide)
    | _ => exact hp.elim
  | release p p' d step hpops =>
    have hne : step ≠ .iounmapBar0 := fun heq => hmapped (by rw [heq])
    have hrest : ∀ rest, .iounmapBar0 ∈ step :: rest → ReleaseStep.iounmapBar0 ∈ rest := by
      intro rest hmem
      exact (List.mem_cons.mp hmem).resolve_left hne.symm
    cases hpops with
    | unwinding => exact hrest _ hp
    | removing => exact hrest _ hp
  | failedReturn d result => exact absurd hp List.not_mem_nil
  | removed d => exact absurd hp List.not_mem_nil

theorem serves_run {P : Platform Unit} {queueMode : Int} {log : List (ReloadEvent ι)}
    {s : ReloadState ι} (h : (reloadSystem ι P queueMode).Run log s) :
    s.live = true → (s.driver.phase ()).Serves := by
  refine h.invariant (I := fun _ s => s.live = true → (s.driver.phase ()).Serves) ?_ ?_
  · intro s hs hlive
    rw [hs.2.2] at hlive
    contradiction
  · intro log s a s' es _ ih _ hstep hlive
    cases reloadRule_of_step hstep with
    | firmware => exact ih hlive
    | base a base es => exact ih hlive
    | driver a driver hmove =>
      rw [perform_driver]
      by_cases hcdev : s.driver.statement a = some (.probe .cdevAdd)
      · rw [hcdev] at hmove
        generalize s.driver.phase () = p at hmove
        generalize driver.phase () = p' at hmove ⊢
        cases hmove with
        | next d d' step step' hnext => cases hnext; trivial
        | failed d d' step statement result hst => simp at hst
      · by_cases hunmap : s.driver.statement a = some (.release .iounmapBar0)
        · rw [hunmap] at hlive
          contradiction
        · refine serves_move hmove (ih ?_) hunmap
          unfold ReloadState.perform at hlive
          split at hlive <;> first | exact hlive | contradiction

/-- The struct is there and its device file is not. -/
def ReloadState.Blank (s : ReloadState ι) : Prop :=
  s.live = false ∧ ∃ d step, s.driver.phase () = .probing d step ∧ .dev ∈ step.before

/-- Nobody calls a struct that has had no device file. -/
theorem blank_run {P : Platform Unit} {queueMode : Int} {log : List (ReloadEvent ι)}
    {s : ReloadState ι} (h : (reloadSystem ι P queueMode).Run log s) :
    s.Blank → s.base.globalLock = none ∧ ∀ c, s.base.pc c = .ready := by
  refine h.invariant (I := fun _ s => s.Blank →
    s.base.globalLock = none ∧ ∀ c, s.base.pc c = .ready) ?_ ?_
  · intro s hs _
    exact ⟨hs.2.1.2.2.1,hs.2.1.2.2.2.1⟩
  · intro log s a s' es _ ih _ hstep
    cases reloadRule_of_step hstep with
    | firmware =>
      rintro ⟨hlive,hphase⟩
      rw [(firmware_lock s.base).1, (firmware_lock s.base).2]
      exact ih ⟨hlive,hphase⟩
    | base a base es _ hlive =>
      rintro ⟨hdead,-⟩
      exact absurd (hlive.symm.trans hdead) (by decide)
    | driver a driver hmove =>
      rintro ⟨hlive,d',step',hphase,hdev⟩
      rw [perform_driver] at hphase
      change driver.phase () = _ at hphase
      rw [hphase] at hmove
      generalize hst : s.driver.statement a = statement at hmove hlive ⊢
      generalize hp : s.driver.phase () = p at hmove
      cases hmove with
      | probe d => exact absurd hdev (by decide)
      | release p p' d step hpops => cases hpops
      | next d d' step step' hnext =>
        have hblank : s.live = false → .dev ∈ step.before →
            s.base.globalLock = none ∧ ∀ c, s.base.pc c = .ready :=
          fun hdead hmem => ih ⟨hdead,d,step,hp,hmem⟩
        cases step with
        | kzallocDev => exact ⟨rfl,fun _ => rfl⟩
        | cdevAdd => contradiction
        | readVersion => contradiction
        | enableDevice | requestRegions | allocIrqVectors =>
          cases hnext
          exact absurd hdev (by decide)
        | _ => exact hblank hlive (by decide)

/-- The statements of probe that find the ring as the reset left it. -/
def ProbeStep.afterReset : ProbeStep → Bool
  | .requestIrq | .cdevAdd | .deviceCreate | .readVersion => true
  | _ => false

/-- Between the two writes of a reset. -/
def ReloadState.MidReset (s : ReloadState ι) : Prop :=
  ∃ d, s.driver.phase () = .probing d .resetTail

theorem PhaseMove.to_resetTail {p : PciPhase} {statement : Option Statement} {d' : FpgagpuDev}
    (h : PhaseMove p statement (.probing d' .resetTail)) :
    statement = some (.probe .resetHead) := by
  rcases h.to_probing with hstep | ⟨d,step,-,hst,hnext⟩
  · contradiction
  · cases step <;> first | exact hst | contradiction

/-- The ring and its calls are those of the run since the last reset. -/
def ReloadState.Settled (s : ReloadState ι) : Prop :=
  s.live = true ∨ ∃ d step, s.driver.phase () = .probing d step ∧ step.afterReset = true

/-- `b` is what is left of the run since the last reset. -/
structure Agrees (b : State ι) (s : ReloadState ι) : Prop where
  ring : b.ring = s.base.ring
  dev : b.dev = s.base.dev
  fw : b.fw = s.base.fw
  settled : s.Settled → b = s.base

/-- The firmware holds no descriptor, and the head it may have read is the tail. -/
def ReloadState.Quiet (s : ReloadState ι) : Prop :=
  s.base.fw = .idle ∨ s.base.fw = .sawHead s.base.ring.tail

@[simp] def ReloadEvent.base? : ReloadEvent ι → Option (Event ι)
  | .base e => some e
  | .reset => none

/-- The firmware took the published tasks in order, each once. -/
def InOrder (log : List (Event ι)) : Prop :=
  consumedIn log <+: (publishedIn log).map fun x => x.2.task.words

/-- The histories between two resets, the last first. -/
def epochs (log : List (ReloadEvent ι)) : List (List (Event ι)) :=
  piecesOf ReloadEvent.base? log

/-- A reset meets no turn of the firmware: none holds a descriptor when the head is
written, none begins before the tail is written, unless it was 0 already, and none
that began before goes on afterwards. -/
def ResetApart (_ : List (ReloadEvent ι)) (s : ReloadState ι) : ReloadAction ι → Prop
  | .driver a =>
      (s.driver.statement a = some (.probe .resetHead) → s.Quiet) ∧
        (s.driver.statement a = some (.probe .resetTail) →
          s.base.fw = .idle ∨ s.base.ring.tail = 0)
  | .base a => a = .firmware → s.MidReset →
      s.base.fw = .sawHead s.base.ring.tail ∨ s.base.ring.tail = 0

/-- A reset finds the tail at 0 and the firmware without a descriptor. -/
def ResetEmpty (_ : List (ReloadEvent ι)) (s : ReloadState ι) : ReloadAction ι → Prop
  | .driver a => s.driver.statement a = some (.probe .resetHead) →
      s.base.ring.tail = 0 ∧ s.Quiet
  | .base _ => True

/-- The history since the last reset is one of the ring, whose state is `b`. -/
structure ReloadInv (queueMode : Int) (log : List (ReloadEvent ι)) (s : ReloadState ι)
    (last : List (Event ι)) (rest : List (List (Event ι))) (b : State ι) : Prop where
  epochs : epochs log = last :: rest
  earlier : ∀ epoch ∈ rest, InOrder epoch
  run : (ringSystem ι queueMode).Run last b
  agrees : ¬s.MidReset → Agrees b s
  reset : s.MidReset → s.base.ring.head = 0 ∧ s.base.ring.tail = b.ring.tail ∧ s.Quiet

omit [DecidableEq ι] in
theorem epochs_base {log : List (ReloadEvent ι)} {last : List (Event ι)}
    {rest : List (List (Event ι))} (h : epochs log = last :: rest) (es : List (Event ι)) :
    epochs (log ++ es.map .base) = (last ++ es) :: rest :=
  piecesOf_extend (g := ReloadEvent.base) (fun _ => rfl) h es

omit [DecidableEq ι] in
theorem epochs_reset (log : List (ReloadEvent ι)) :
    epochs (log ++ [.reset]) = [] :: epochs log := by
  unfold epochs
  exact piecesOf_cut rfl log

omit [DecidableEq ι] in
/-- Only three statements change the ring or the calls. -/
theorem perform_base (s : ReloadState ι) {statement : Option Statement}
    (hkzalloc : statement ≠ some (.probe .kzallocDev))
    (hhead : statement ≠ some (.probe .resetHead))
    (htail : statement ≠ some (.probe .resetTail)) :
    (s.perform statement).1.base = s.base ∧ (s.perform statement).2 = [] := by
  unfold ReloadState.perform
  split <;> first | exact ⟨rfl,rfl⟩ | contradiction

omit [DecidableEq ι] in
theorem perform_live (s : ReloadState ι) {statement : Option Statement}
    (hcdev : statement ≠ some (.probe .cdevAdd)) (h : (s.perform statement).1.live = true) :
    s.live = true := by
  unfold ReloadState.perform at h
  split at h <;> first | exact h | contradiction

section Steps
variable {queueMode : Int} {log : List (ReloadEvent ι)} {s s' : ReloadState ι}
  {last : List (Event ι)} {rest : List (List (Event ι))} {b : State ι}

theorem ReloadInv.inOrder (h : ReloadInv queueMode log s last rest b) :
    ∀ epoch ∈ last :: rest, InOrder epoch := by
  intro epoch hepoch
  rcases List.mem_cons.mp hepoch with rfl | hepoch
  · exact consumed_initial h.run
  · exact h.earlier epoch hepoch

/-- A step of the driver that leaves the ring as it is. -/
theorem ReloadInv.keep (h : ReloadInv queueMode log s last rest b) (hmid : ¬s.MidReset)
    (hmid' : ¬s'.MidReset) (hring : s'.base.ring = s.base.ring)
    (hdev : s'.base.dev = s.base.dev) (hfw : s'.base.fw = s.base.fw)
    (hsettled : s'.Settled → s.Settled ∧ s'.base = s.base) :
    ReloadInv queueMode (log ++ []) s' last rest b := by
  have hold := h.agrees hmid
  constructor
  · rw [List.append_nil]
    exact h.epochs
  · exact h.earlier
  · exact h.run
  · intro _
    constructor
    · rw [hring, hold.ring]
    · rw [hdev, hold.dev]
    · rw [hfw, hold.fw]
    · intro hs'
      rw [(hsettled hs').2]
      exact hold.settled (hsettled hs').1
  · intro hmid''
    exact absurd hmid'' hmid'

/-- The firmware between two resets. -/
theorem ReloadInv.firmware (h : ReloadInv queueMode log s last rest b) (hmid : ¬s.MidReset) :
    ReloadInv queueMode (log ++ s.base.firmware.2.map .base) {s with base := s.base.firmware.1}
      (last ++ s.base.firmware.2) rest b.firmware.1 := by
  have hold := h.agrees hmid
  have hsame : b = {s.base with globalLock := b.globalLock,pc := b.pc} := by
    change b = ⟨s.base.ring,s.base.dev,b.globalLock,b.pc,s.base.fw⟩
    rw [← hold.ring, ← hold.dev, ← hold.fw]
  have hfirmware : b.firmware =
      ({s.base.firmware.1 with globalLock := b.globalLock,pc := b.pc},s.base.firmware.2) := by
    rw [← firmware_calls, ← hsame]
  have hstep : (ringSystem ι queueMode).step b .firmware =
      some (b.firmware.1,s.base.firmware.2) := by
    rw [← congrArg Prod.snd hfirmware]
    rfl
  constructor
  · exact epochs_base h.epochs _
  · exact h.earlier
  · exact h.run.next hstep
  · intro _
    constructor
    · rw [hfirmware]
    · rw [hfirmware]
    · rw [hfirmware]
    · intro hs'
      rw [hold.settled hs']
  · intro hmid'
    exact absurd hmid' hmid

/-- The firmware in the middle of a reset. -/
theorem ReloadInv.firmware_mid (h : ReloadInv queueMode log s last rest b) (hmid : s.MidReset)
    (hapart : s.base.fw = .sawHead s.base.ring.tail ∨ s.base.ring.tail = 0) :
    ReloadInv queueMode (log ++ s.base.firmware.2.map .base) {s with base := s.base.firmware.1}
      last rest b := by
  obtain ⟨hhead,htail,hquiet⟩ := h.reset hmid
  have hstep : s.base.firmware.2 = [] ∧ s.base.firmware.1.ring = s.base.ring ∧
      (s.base.firmware.1.fw = .idle ∨ s.base.firmware.1.fw = .sawHead s.base.ring.tail) := by
    unfold State.firmware
    rcases hquiet with hidle | hsaw
    · have hzero : s.base.ring.tail = 0 := by
        rcases hapart with hsaw | hzero
        · rw [hidle] at hsaw
          contradiction
        · exact hzero
      rw [hidle]
      exact ⟨rfl,rfl,.inr (by simp [hhead, hzero])⟩
    · rw [hsaw]
      exact ⟨rfl,rfl,.inl (by simp)⟩
  constructor
  · rw [hstep.1, List.map_nil, List.append_nil]
    exact h.epochs
  · exact h.earlier
  · exact h.run
  · intro hmid'
    exact absurd hmid hmid'
  · intro _
    refine ⟨?_,?_,?_⟩
    · rw [hstep.2.1]
      exact hhead
    · rw [hstep.2.1]
      exact htail
    · unfold ReloadState.Quiet
      rw [hstep.2.1]
      exact hstep.2.2

/-- The second write of a reset begins a new history of the ring. -/
theorem ReloadInv.tail (h : ReloadInv queueMode log s last rest b) (hmid : s.MidReset)
    (hblank : s.base.globalLock = none ∧ ∀ c, s.base.pc c = .ready)
    (hapart : s.base.fw = .idle ∨ s.base.ring.tail = 0)
    (hbase : s'.base = {s.base with ring := {s.base.ring with tail := 0}})
    (hmid' : ¬s'.MidReset) :
    ∃ b', ReloadInv queueMode (log ++ [.reset]) s' [] (last :: rest) b' := by
  obtain ⟨hhead,-,hquiet⟩ := h.reset hmid
  have hrun : (ringSystem ι queueMode).Run [] s'.base := by
    rw [hbase]
    rcases hquiet with hidle | hsaw
    · exact .init ⟨hhead,rfl,hblank.1,hblank.2,hidle⟩
    · have htail : s.base.ring.tail = 0 := by
        rcases hapart with hidle | htail
        · rw [hidle] at hsaw
          contradiction
        · exact htail
      -- the firmware has read the head of the empty ring
      have hprobed : Probed
          ({s.base with ring := {s.base.ring with tail := 0},fw := .idle} : State ι) :=
        ⟨hhead,rfl,hblank.1,hblank.2,rfl⟩
      have hfw : s.base.fw = .sawHead s.base.ring.head := by
        rw [hhead, hsaw, htail]
      have hstep : (ringSystem ι queueMode).step
          ({s.base with ring := {s.base.ring with tail := 0},fw := .idle} : State ι) .firmware =
            some ({s.base with ring := {s.base.ring with tail := 0}},[]) := by
        simp [ringSystem, step, State.firmware, ← hfw]
      have hinit : (ringSystem ι queueMode).Run [] _ := .init hprobed
      exact hinit.next hstep
  refine ⟨s'.base,?_,h.inOrder,hrun,?_,?_⟩
  · rw [epochs_reset, h.epochs]
  · intro _
    exact ⟨rfl,rfl,rfl,fun _ => rfl⟩
  · intro hmid''
    exact absurd hmid'' hmid'

/-- The first write of a reset. -/
theorem ReloadInv.head (h : ReloadInv queueMode log s last rest b) (hmid : ¬s.MidReset)
    (hquiet : s.Quiet)
    (hbase : s'.base = {s.base with ring := {s.base.ring with head := 0}})
    (hmid' : s'.MidReset) : ReloadInv queueMode (log ++ []) s' last rest b := by
  constructor
  · rw [List.append_nil]
    exact h.epochs
  · exact h.earlier
  · exact h.run
  · intro hmid''
    exact absurd hmid' hmid''
  · intro _
    have htail := congrArg RingBuffer.tail (h.agrees hmid).ring
    unfold ReloadState.Quiet
    rw [hbase]
    exact ⟨rfl,htail.symm,hquiet⟩

variable {a : DriverAction Unit} {driver : DriverState Unit}

/-- A statement of the driver that is not one of the two writes of a reset. -/
theorem ReloadInv.other (h : ReloadInv queueMode log s last rest b)
    (hserves : s.live = true → (s.driver.phase ()).Serves)
    (hmove : PhaseMove (s.driver.phase ()) (s.driver.statement a) (driver.phase ()))
    (hhead : s.driver.statement a ≠ some (.probe .resetHead))
    (htail : s.driver.statement a ≠ some (.probe .resetTail)) :
    ReloadInv queueMode (log ++ ({s with driver}.perform (s.driver.statement a)).2)
      ({s with driver}.perform (s.driver.statement a)).1 last rest b := by
  have hphase' : ∀ statement, ({s with driver}.perform statement).1.driver.phase () =
      driver.phase () := by
    intro statement
    rw [perform_driver]
  have hmid : ¬s.MidReset := by
    rintro ⟨d,hp⟩
    rw [hp] at hmove
    exact htail (hmove.of_probing rfl (by decide)).1
  have hmid' : ¬∃ d', driver.phase () = .probing d' .resetTail := by
    rintro ⟨d',hp'⟩
    rw [hp'] at hmove
    exact hhead hmove.to_resetTail
  by_cases hkzalloc : s.driver.statement a = some (.probe .kzallocDev)
  · obtain ⟨⟨⟩,d,-,hp⟩ := statement_probe hkzalloc
    rw [hkzalloc] at hmove ⊢
    refine h.keep hmid hmid' rfl rfl rfl ?_
    rintro (hlive | ⟨d',step',hp',hafter⟩)
    · have hserve := hserves hlive
      rw [hp] at hserve
      exact hserve.elim
    · have hto : driver.phase () = .probing d' step' := hp'
      rw [hto] at hmove
      rcases hmove.to_probing with rfl | ⟨d₀,step,-,hst,hnext⟩
      · contradiction
      · cases hst
        cases hnext
        contradiction
  · obtain ⟨hbase,hes⟩ := perform_base {s with driver} hkzalloc hhead htail
    rw [hes]
    refine h.keep hmid ?_ (by rw [hbase]) (by rw [hbase]) (by rw [hbase]) ?_
    · rintro ⟨d',hp'⟩
      rw [hphase'] at hp'
      exact hmid' ⟨d',hp'⟩
    · intro hsettled
      refine ⟨?_,hbase⟩
      rcases hsettled with hlive | ⟨d',step',hp',hafter⟩
      · by_cases hcdev : s.driver.statement a = some (.probe .cdevAdd)
        · obtain ⟨⟨⟩,d,-,hp⟩ := statement_probe hcdev
          exact .inr ⟨d,_,hp,rfl⟩
        · exact .inl (perform_live {s with driver} hcdev hlive)
      · rw [hphase'] at hp'
        rw [hp'] at hmove
        rcases hmove.to_probing with rfl | ⟨d,step,hp,hst,hnext⟩
        · contradiction
        · refine .inr ⟨d,step,hp,?_⟩
          cases step <;> first | rfl | contradiction | (cases hnext; contradiction)

/-- Any statement of the driver. -/
theorem ReloadInv.statement (h : ReloadInv queueMode log s last rest b)
    (hserves : s.live = true → (s.driver.phase ()).Serves)
    (hblank : s.Blank → s.base.globalLock = none ∧ ∀ c, s.base.pc c = .ready)
    (hmove : PhaseMove (s.driver.phase ()) (s.driver.statement a) (driver.phase ()))
    (hapart : ResetApart log s (.driver a)) :
    ∃ last' rest' b',
      ReloadInv queueMode (log ++ ({s with driver}.perform (s.driver.statement a)).2)
        ({s with driver}.perform (s.driver.statement a)).1 last' rest' b' := by
  by_cases hhead : s.driver.statement a = some (.probe .resetHead)
  · have hquiet := hapart.1 hhead
    obtain ⟨⟨⟩,d,-,hp⟩ := statement_probe hhead
    rw [hhead] at hmove ⊢
    rw [hp] at hmove
    obtain ⟨-,⟨d',step',hp',hnext⟩ | ⟨hlast,-⟩⟩ := hmove.of_probing rfl (by decide)
    · cases hnext
      have hmid : ¬s.MidReset := by
        rintro ⟨d₀,hp₀⟩
        simp [hp] at hp₀
      exact ⟨last,rest,b,h.head hmid hquiet rfl ⟨d',hp'⟩⟩
    · contradiction
  · by_cases htail : s.driver.statement a = some (.probe .resetTail)
    · have hquiet := hapart.2 htail
      obtain ⟨⟨⟩,d,-,hp⟩ := statement_probe htail
      have hmid' : ¬∃ d', driver.phase () = .probing d' .resetTail := by
        rintro ⟨d',hp'⟩
        rw [hp'] at hmove
        exact hhead hmove.to_resetTail
      have hdead : s.live = false := by
        by_contra hlive
        have hserve := hserves (by simpa using hlive)
        rw [hp] at hserve
        exact hserve
      have hcalls := hblank ⟨hdead,d,_,hp,by decide⟩
      rw [htail]
      have hnew : ∃ b', ReloadInv queueMode (log ++ [.reset])
          ({s with driver}.perform (some (.probe .resetTail))).1 [] (last :: rest) b' :=
        h.tail ⟨d,hp⟩ hcalls hquiet rfl hmid'
      exact ⟨_,_,hnew⟩
    · exact ⟨last,rest,b,h.other hserves hmove hhead htail⟩

end Steps

/-- Calls reach no ring that is being reset. -/
theorem live_not_midReset {P : Platform Unit} {queueMode : Int} {log : List (ReloadEvent ι)}
    {s : ReloadState ι} (h : (reloadSystem ι P queueMode).Run log s) (hlive : s.live = true) :
    ¬s.MidReset := by
  rintro ⟨d,hd⟩
  have hserve := serves_run h hlive
  rw [hd] at hserve
  exact hserve

theorem reloadInv_run {P : Platform Unit} {queueMode : Int} {log : List (ReloadEvent ι)}
    {s : ReloadState ι} (h : (reloadSystem ι P queueMode).RunWith ResetApart log s) :
    ∃ last rest b, ReloadInv queueMode log s last rest b := by
  refine h.invariant (I := fun log s => ∃ last rest b, ReloadInv queueMode log s last rest b) ?_ ?_
  · intro s hs
    have hphase : s.driver.phase () = .unbound := by
      rw [hs.1]
      rfl
    refine ⟨[],[],s.base,rfl,by simp,.init hs.2.1,fun _ => ⟨rfl,rfl,rfl,fun _ => rfl⟩,?_⟩
    rintro ⟨d,hd⟩
    rw [hphase] at hd
    contradiction
  · rintro log s a s' es hrun ⟨last,rest,b,ih⟩ hapart hstep
    have hserves := serves_run hrun.run
    have hblank := blank_run hrun.run
    cases reloadRule_of_step hstep with
    | firmware =>
      by_cases hmid : s.MidReset
      · exact ⟨last,rest,b,ih.firmware_mid hmid (hapart rfl hmid)⟩
      · exact ⟨_,rest,_,ih.firmware hmid⟩
    | base a base es _ hlive hbase =>
      have hmid := live_not_midReset hrun.run hlive
      have hsame : b = s.base := (ih.agrees hmid).settled (.inl hlive)
      subst hsame
      exact ⟨_,rest,base,epochs_base ih.epochs es,ih.earlier,ih.run.next hbase,
        fun _ => ⟨rfl,rfl,rfl,fun _ => rfl⟩,fun hmid' => absurd hmid' hmid⟩
    | driver a driver hmove => exact ih.statement hserves hblank hmove hapart

/-- A tail that a reset finds at 0 is 0 until the reset has written it. -/
theorem resetEmpty_tail {P : Platform Unit} {queueMode : Int} {log : List (ReloadEvent ι)}
    {s : ReloadState ι} (h : (reloadSystem ι P queueMode).RunWith ResetEmpty log s) :
    s.MidReset → s.base.ring.tail = 0 := by
  refine h.invariant (I := fun _ s => s.MidReset → s.base.ring.tail = 0) ?_ ?_
  · rintro s hs ⟨d,hd⟩
    rw [hs.1] at hd
    contradiction
  · intro log s a s' es hrun ih hempty hstep hmid
    cases reloadRule_of_step hstep with
    | firmware =>
      have htail : s.base.firmware.1.ring.tail = s.base.ring.tail := by
        unfold State.firmware
        cases s.base.fw <;> rfl
      exact htail.trans (ih hmid)
    | base a base es _ hlive =>
      have hmid₀ : s.MidReset := hmid
      exact absurd hmid₀ (live_not_midReset hrun.run hlive)
    | driver a driver hmove =>
      obtain ⟨d',hp'⟩ := hmid
      rw [perform_driver] at hp'
      change driver.phase () = _ at hp'
      rw [hp'] at hmove
      have hst := hmove.to_resetTail
      have hzero := (hempty hst).1
      rw [hst]
      exact hzero

theorem resetEmpty_apart {P : Platform Unit} {queueMode : Int} {log : List (ReloadEvent ι)}
    {s : ReloadState ι} (h : (reloadSystem ι P queueMode).RunWith ResetEmpty log s) :
    (reloadSystem ι P queueMode).RunWith ResetApart log s := by
  refine h.mono fun log s a hrun hempty => ?_
  have hzero := resetEmpty_tail hrun
  cases a with
  | driver a =>
    refine ⟨fun hst => (hempty hst).2,fun hst => ?_⟩
    obtain ⟨⟨⟩,d,-,hphase⟩ := statement_probe hst
    exact .inr (hzero ⟨d,hphase⟩)
  | base a => exact fun _ hmid => .inr (hzero hmid)

/-- What is left on the ring between the two writes of a reset: the positions up to the
tail. It looks empty just when the tail was 0, so that a multiple of `queueSize` had been
published since the reset before. -/
theorem ReloadInv.left {queueMode : Int} {log : List (ReloadEvent ι)} {s : ReloadState ι}
    {last : List (Event ι)} {rest : List (List (Event ι))} {b : State ι}
    (h : ReloadInv queueMode log s last rest b) (hmid : s.MidReset) :
    s.base.ring.head = 0 ∧ s.base.ring.tail = slot (publishedCount last) ∧
      (s.base.ring.head = s.base.ring.tail ↔ publishedCount last % queueSize = 0) := by
  obtain ⟨hhead,htail,-⟩ := h.reset hmid
  obtain ⟨q,hrep,hpub,-⟩ := ring_represents h.run
  have hleft : s.base.ring.tail = slot (publishedCount last) := by
    rw [htail, hrep.tail, hpub]
    rfl
  refine ⟨hhead,hleft,?_⟩
  rw [hhead, hleft, ← slot_zero, slot_eq_iff, Nat.zero_mod]
  exact eq_comm

/-- Between two resets the firmware takes what was published between them, each
descriptor once, and a reset that finds the tail at 0 keeps the ring empty throughout. For
the first part it is enough that resets and turns of the firmware do not meet. -/
theorem reload_replays_nothing {P : Platform Unit} {queueMode : Int}
    {log : List (ReloadEvent ι)} {s : ReloadState ι} :
    ((reloadSystem ι P queueMode).RunWith ResetEmpty log s →
      (∀ epoch ∈ epochs log, InOrder epoch) ∧
        (s.MidReset → s.base.ring.head = s.base.ring.tail)) ∧
    ((reloadSystem ι P queueMode).RunWith ResetApart log s →
      (∀ epoch ∈ epochs log, InOrder epoch) ∧
        ∃ last rest, epochs log = last :: rest ∧ (s.MidReset →
          s.base.ring.head = 0 ∧ s.base.ring.tail = slot (publishedCount last) ∧
            (s.base.ring.head = s.base.ring.tail ↔ publishedCount last % queueSize = 0))) := by
  constructor
  · intro h
    obtain ⟨last,rest,b,hinv⟩ := reloadInv_run (resetEmpty_apart h)
    refine ⟨?_,fun hmid => ?_⟩
    · rw [hinv.epochs]
      exact hinv.inOrder
    · rw [(hinv.left hmid).1, resetEmpty_tail h hmid]
  · intro h
    obtain ⟨last,rest,b,hinv⟩ := reloadInv_run h
    refine ⟨?_,last,rest,hinv.epochs,hinv.left⟩
    rw [hinv.epochs]
    exact hinv.inOrder

def oneDevice : Platform Unit := ⟨240,fun _ => 40,fun _ => by decide⟩

/-- A booted FPGA without its driver. -/
def booted : ReloadState Nat := ⟨loaded Unit,probed Nat,false⟩

theorem booted_init (queueMode : Int) : (reloadSystem Nat oneDevice queueMode).init booted :=
  ⟨rfl,probed_init Nat,rfl⟩

def driverSteps (n : Nat) : List (ReloadAction Nat) := List.replicate n (.driver (.step () none))

/-- The driver is loaded, and one launch is published and consumed. -/
def launchOnce : List (ReloadAction Nat) :=
  .driver (.probe ()) :: (driverSteps 16 ++ oneLaunchSteps.map .base)

/-- Two such turns, with a remove in between, and a third probe up to the middle of the
reset. -/
def launchTwice : List (ReloadAction Nat) :=
  launchOnce ++ .driver (.remove ()) :: (driverSteps 12 ++ launchOnce) ++
    .driver (.remove ()) :: (driverSteps 12 ++ .driver (.probe ()) :: driverSteps 11)

def resetApart (s : ReloadState Nat) : ReloadAction Nat → Bool
  | .driver a =>
      match s.base.fw with
      | .idle => true
      | _ => decide (s.driver.statement a ≠ some (.probe .resetHead) ∧
          s.driver.statement a ≠ some (.probe .resetTail))
  | .base _ => decide ((s.driver.phase ()).statement ≠ some (.probe .resetTail))

theorem launchTwice_runs : (((reloadSystem Nat oneDevice 0).guarded resetApart).exec booted
    launchTwice).isSome = true := by
  decide +kernel

theorem launchTwice_consumes : (epochs ((((reloadSystem Nat oneDevice 0).guarded resetApart).exec
    booted launchTwice).get launchTwice_runs).2).map (fun epoch => (consumedIn epoch).length) =
      [1,1,0] := by
  decide +kernel

theorem launchTwice_ends :
    let r := (((reloadSystem Nat oneDevice 0).guarded resetApart).exec booted launchTwice).get
      launchTwice_runs
    r.1.driver.phase () = .probing ⟨2,2,true,true,40,true,true⟩ .resetTail ∧
      (epochs r.2).map publishedCount = [1,1,0] := by
  decide +kernel

theorem resetApart_sound (log : List (ReloadEvent Nat)) (s : ReloadState Nat)
    (a : ReloadAction Nat) (h : resetApart s a = true) : ResetApart log s a := by
  cases a with
  | driver a =>
    unfold resetApart at h
    simp only at h
    split at h
    next hfw => exact ⟨fun _ => .inl hfw,fun _ => .inl hfw⟩
    next =>
      obtain ⟨hhead,htail⟩ := of_decide_eq_true h
      exact ⟨fun hst => absurd hst hhead,fun hst => absurd hst htail⟩
  | base a =>
    rintro - ⟨d,hp⟩
    simp [resetApart, hp, PciPhase.statement] at h

/-- Two probes of a ring that nobody uses, the second up to the middle of the reset, with
the firmware looking before and in it. -/
def probeTwice : List (ReloadAction Nat) :=
  .driver (.probe ()) :: (driverSteps 16 ++ .base .firmware :: .driver (.remove ()) ::
    (driverSteps 12 ++ .driver (.probe ()) :: (driverSteps 11 ++ [.base .firmware])))

def resetEmpty (s : ReloadState Nat) : ReloadAction Nat → Bool
  | .driver a =>
      decide (s.driver.statement a = some (.probe .resetHead) → s.base.ring.tail = 0) &&
        match s.base.fw with
        | .idle => true
        | .sawHead head => decide (head = s.base.ring.tail)
        | _ => decide (s.driver.statement a ≠ some (.probe .resetHead))
  | .base _ => true

theorem probeTwice_runs : (((reloadSystem Nat oneDevice 0).guarded resetEmpty).exec booted
    probeTwice).isSome = true := by
  decide +kernel

theorem probeTwice_ends :
    let r := (((reloadSystem Nat oneDevice 0).guarded resetEmpty).exec booted probeTwice).get
      probeTwice_runs
    r.1.driver.phase () = .probing ⟨1,1,true,true,40,true,true⟩ .resetTail ∧
      (epochs r.2).length = 2 := by
  decide +kernel

theorem resetEmpty_sound (log : List (ReloadEvent Nat)) (s : ReloadState Nat)
    (a : ReloadAction Nat) (h : resetEmpty s a = true) : ResetEmpty log s a := by
  cases a with
  | driver a =>
    intro hst
    obtain ⟨htail,hfw⟩ := Bool.and_eq_true_iff.mp h
    refine ⟨of_decide_eq_true htail hst,?_⟩
    split at hfw
    next hidle => exact .inl hidle
    next head hsaw =>
      rw [of_decide_eq_true hfw] at hsaw
      exact .inr hsaw
    next => exact absurd hst (of_decide_eq_true hfw)
  | base a => trivial

theorem reload_replays_nothing_twice :
    (∃ log s, (reloadSystem Nat oneDevice 0).RunWith ResetEmpty log s ∧
      (epochs log).length = 2 ∧ s.MidReset ∧ s.base.ring.head = s.base.ring.tail) ∧
    ∃ log s, (reloadSystem Nat oneDevice 0).RunWith ResetApart log s ∧
      (epochs log).map (fun epoch => (consumedIn epoch).length) = [1,1,0] ∧
      (∀ epoch ∈ epochs log, InOrder epoch) ∧
      s.MidReset ∧ s.base.ring.tail = 1 ∧ s.base.ring.head ≠ s.base.ring.tail := by
  constructor
  · have hrun := System.RunWith.of_guarded_exec (booted_init 0) probeTwice probeTwice_runs
      resetEmpty_sound
    have hends := probeTwice_ends
    generalize (((reloadSystem Nat oneDevice 0).guarded resetEmpty).exec booted probeTwice).get
      probeTwice_runs = r at hrun hends
    have hmid : r.1.MidReset := ⟨_,hends.1⟩
    exact ⟨_,_,hrun,hends.2,hmid,(reload_replays_nothing.1 hrun).2 hmid⟩
  · have hrun := System.RunWith.of_guarded_exec (booted_init 0) launchTwice launchTwice_runs
      resetApart_sound
    have hconsumes := launchTwice_consumes
    have hends := launchTwice_ends
    generalize (((reloadSystem Nat oneDevice 0).guarded resetApart).exec booted launchTwice).get
      launchTwice_runs = r at hrun hconsumes hends
    obtain ⟨hphase,hpublished⟩ := hends
    have hmid : r.1.MidReset := ⟨_,hphase⟩
    obtain ⟨horder,last,rest,hepochs,hreset⟩ := reload_replays_nothing.2 hrun
    obtain ⟨-,htail,hempty⟩ := hreset hmid
    -- one descriptor has been published since the reset before
    have hone : publishedCount last = 1 := by
      rw [hepochs] at hpublished
      exact (List.cons.inj hpublished).1
    refine ⟨_,_,hrun,hconsumes,horder,hmid,?_,?_⟩
    · rw [htail, hone]
      rfl
    · rw [ne_eq, hempty, hone]
      decide

/-- The driver is loaded again, and the firmware looks between the two writes. -/
def replayedLaunch : List (ReloadAction Nat) :=
  launchOnce ++ .driver (.remove ()) :: (driverSteps 12 ++ .driver (.probe ()) ::
    (driverSteps 11 ++ firmwareTurn.map .base))

theorem replayedLaunch_runs :
    ((reloadSystem Nat oneDevice 0).exec booted replayedLaunch).isSome = true := by
  decide +kernel

theorem replayedLaunch_consumes :
    (epochs (((reloadSystem Nat oneDevice 0).exec booted replayedLaunch).get
      replayedLaunch_runs).2).map
        (fun epoch => ((publishedIn epoch).length,(consumedIn epoch).length)) = [(1,2),(0,0)] := by
  decide +kernel

theorem reload_replays_launch : ∃ log s, (reloadSystem Nat oneDevice 0).Run log s ∧
    ∃ epoch ∈ epochs log, (publishedIn epoch).length = 1 ∧ (consumedIn epoch).length = 2 ∧
      ¬InOrder epoch := by
  have hrun := System.Run.of_exec (booted_init 0) replayedLaunch replayedLaunch_runs
  have hconsumes := replayedLaunch_consumes
  generalize ((reloadSystem Nat oneDevice 0).exec booted replayedLaunch).get
    replayedLaunch_runs = r at hrun hconsumes
  have hmem : (1,2) ∈ (epochs r.2).map
      (fun epoch => ((publishedIn epoch).length,(consumedIn epoch).length)) := by
    rw [hconsumes]
    exact List.mem_cons_self
  obtain ⟨epoch,hepoch,hcounts⟩ := List.mem_map.mp hmem
  obtain ⟨hpublished,hconsumed⟩ := Prod.mk.inj hcounts
  refine ⟨_,_,hrun,epoch,hepoch,hpublished,hconsumed,fun horder => ?_⟩
  have hle := horder.length_le
  rw [List.length_map, hpublished, hconsumed] at hle
  contradiction

end FpgaGpu.Driver
