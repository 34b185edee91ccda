import FpgaGpu.Driver.RingFifo

/-! The BAR0 windows of the ring, the staging area and the command-IRQ register.
The ring structure is a 64-byte header followed by 512 slots of 64 bytes, one
slot more than the 32 KB below the IRQ register hold, so the last slot lies on
the register. -/
namespace FpgaGpu.Driver
open Library

variable {ι : Type}

/-- Some byte of the command-IRQ register is written. -/
def Event.hitsIrq : Event ι → Bool
  | .wrote _ reg _ => decide (reg.offset < cpIrqOffset + 4 ∧ cpIrqOffset < reg.offset + 4)
  | _ => false

/-- The writes that change the command-IRQ register. -/
def irqWrites (log : List (Event ι)) : List (Event ι) := log.filter Event.hitsIrq

/-- The tail is stored and the IRQ register is not yet written. -/
def Pc.AtIrq : Pc → Prop
  | .ringIrq _ _ => True
  | _ => False

theorem Pc.AtIrq.inSection {p : Pc} (h : p.AtIrq) : p.InSection := by
  cases p <;> first | exact h | trivial

/-- The three windows of BAR0 are kept apart in a history. The `k`-th write to
the IRQ register stores 1 and comes after exactly `k` tail updates; at most the
call that published last still owes its write. -/
structure WindowsApart (log : List (Event ι)) (s : State ι) : Prop where
  cmds : ∀ c i j v, .wrote c (.cmd i j) v ∈ log →
    ∀ b, (Reg.cmd i j).Touches b → ringOffset ≤ b ∧ b < cpIrqOffset
  staging : ∀ c i v, .wrote c (.staging i) v ∈ log →
    ∀ b, (Reg.staging i).Touches b → b < ringOffset
  irq : ∀ pre c reg v post, log = pre ++ .wrote c reg v :: post → reg.Hits cpIrqOffset →
    reg.offset = cpIrqOffset ∧ v = 1 ∧ (irqWrites pre).length + 1 = publishedCount pre
  rung : (irqWrites log).length = publishedCount log ∨
    (irqWrites log).length + 1 = publishedCount log ∧ ∃ c, (s.pc c).AtIrq
  version : ∀ c reg v, .wrote c reg v ∈ log →
    ¬reg.Hits majorVersionOffset ∧ ¬reg.Hits minorVersionOffset

/-- The step does not write a descriptor while the tail stands at the last slot. -/
def BelowLastSlot (_ : List (Event ι)) (s : State ι) (a : Action ι) : Prop :=
  ∀ c job tail j, a = .access c → s.pc c = .writeCmd job tail j → s.ring.tail ≠ 511

def NoLastSlot (log : List (Event ι)) : Prop := ∀ c j v, .wrote c (.cmd 511 j) v ∉ log

theorem NoLastSlot.left {log es : List (Event ι)} (h : NoLastSlot (log ++ es)) :
    NoLastSlot log :=
  fun c j v hmem => h c j v (List.mem_append_left _ hmem)

theorem hitsIrq_wrote (c : ι) (reg : Reg) (v : UInt32) :
    Event.hitsIrq (.wrote c reg v) = true ↔ reg.Hits cpIrqOffset := by
  rw [Reg.hits_iff]
  exact decide_eq_true_iff

theorem irqWrites_append (log log' : List (Event ι)) :
    irqWrites (log ++ log') = irqWrites log ++ irqWrites log' := List.filter_append ..

/-- Every publication has had its IRQ write, except that of a call about to make it. -/
def IrqInv (log : List (Event ι)) (s : State ι) : Prop :=
  (∀ c, ¬(s.pc c).AtIrq) ∧ (irqWrites log).length = publishedCount log ∨
    (∃ c, (s.pc c).AtIrq) ∧ (irqWrites log).length + 1 = publishedCount log

/-- A step that neither publishes nor writes the register, nor moves a call to
or from that point. -/
private theorem irqInv_quiet {log es : List (Event ι)} {s s' : State ι} (h : IrqInv log s)
    (hpc : ∀ c, (s'.pc c).AtIrq ↔ (s.pc c).AtIrq) (hirq : irqWrites es = [])
    (hpub : publishedIn es = []) : IrqInv (log ++ es) s' := by
  simp only [IrqInv, hpc, irqWrites_append, hirq, publishedCount, publishedIn_append, hpub,
    List.append_nil]
  exact h

variable [DecidableEq ι]

/-- A run without writes to the last slot took only steps below it. -/
theorem belowLastSlot_of_noLastSlot {queueMode : Int} {log : List (Event ι)} {s : State ι}
    (h : (ringSystem ι queueMode).Run log s) (hno : NoLastSlot log) :
    (ringSystem ι queueMode).RunWith BelowLastSlot log s := by
  induction h with
  | init hs => exact .init hs
  | @step log s a s' es hrun _ hstep ih =>
    refine .step (ih hno.left) ?_ hstep
    rintro c job tail j rfl hpc htail
    have hwrites := (writeCmd_tail hrun hpc).1
    have hes : [.wrote c (.cmd tail.toNat j) (job.task.word j)] = es := by
      simp only [ringSystem, step, State.access, hpc] at hstep
      exact (Prod.mk.inj (Option.some.inj hstep)).2
    subst hes
    refine hno c j (job.task.word j) (List.mem_append_right _ ?_)
    simp [hwrites, htail]

theorem noLastSlot_of_belowLastSlot {queueMode : Int} {log : List (Event ι)} {s : State ι}
    (h : (ringSystem ι queueMode).RunWith BelowLastSlot log s) : NoLastSlot log := by
  refine ring_invariant (I := fun log _ => NoLastSlot log) ?_ ?_ h
  · intro s _ c j v hmem
    simp at hmem
  · intro log s a s' es hrun ih hok hrule c j v hmem
    rcases List.mem_append.mp hmem with hold | hnew
    · exact ih c j v hold
    · cases hrule with
      | writeCmd c' job tail j' hpc =>
        have htail := (writeCmd_tail hrun.run hpc).1
        simp only [List.mem_singleton, Event.wrote.injEq, Reg.cmd.injEq] at hnew
        refine hok c' job tail j' rfl hpc (UInt32.toNat_inj.mp ?_)
        rw [← htail]
        exact hnew.2.1.1.symm
      | _ => simp at hnew

/-- Every write goes to a slot or a staging word that exists. -/
def Reg.Placed : Reg → Prop
  | .cmd i j => i < queueSize ∧ j < packetWords
  | .staging i => i < 1024
  | _ => True

theorem writes_placed {queueMode : Int} {log : List (Event ι)} {s : State ι}
    (h : (ringSystem ι queueMode).Run log s) :
    ∀ c reg v, .wrote c reg v ∈ log → reg.Placed := by
  refine ring_invariant (I := fun log _ => ∀ c reg v, .wrote c reg v ∈ log → reg.Placed) ?_ ?_ h
  · intro s _ c reg v hmem
    simp at hmem
  · intro log s a s' es hrun ih _ hrule c reg v hmem
    have hrun : (ringSystem ι queueMode).Run log s := hrun
    rcases List.mem_append.mp hmem with hold | hnew
    · exact ih c reg v hold
    · cases hrule with
      | stageWord c' kbin i w hpc hw =>
        have hsize := stageInv_run hrun c' kbin i hpc
        simp only [List.mem_singleton, Event.wrote.injEq] at hnew
        obtain ⟨-,rfl,-⟩ := hnew
        exact lt_of_lt_of_le hsize.1 hsize.2
      | writeCmd c' job tail j hpc =>
        simp only [List.mem_singleton, Event.wrote.injEq] at hnew
        obtain ⟨-,rfl,-⟩ := hnew
        exact (writeCmd_tail hrun hpc).2
      | writeTail c' job tail hpc =>
        simp only [List.mem_cons, Event.wrote.injEq, reduceCtorEq, List.not_mem_nil,
          or_false] at hnew
        obtain ⟨-,rfl,-⟩ := hnew
        trivial
      | ringIrq c' job tail hpc =>
        simp only [List.mem_singleton, Event.wrote.injEq] at hnew
        obtain ⟨-,rfl,-⟩ := hnew
        trivial
      | _ => simp at hnew

/-- Away from the last slot only the driver's own IRQ write reaches the register. -/
theorem Reg.Placed.hits_irq {reg : Reg} (h : reg.Placed) (hlast : ∀ j, reg ≠ .cmd 511 j) :
    reg.Hits cpIrqOffset ↔ reg = .irq := by
  rw [Reg.hits_iff]
  cases reg with
  | tail => simp [Reg.offset, ringOffset, cpIrqOffset]
  | irq => simp [Reg.offset]
  | staging i =>
    simp only [Reg.Placed] at h
    simp only [Reg.offset, kernelStagingOffset, cpIrqOffset, reduceCtorEq, iff_false]
    omega
  | cmd i j =>
    have hi : i ≠ 511 := fun hi => hlast j (hi ▸ rfl)
    simp only [Reg.Placed, queueSize, packetWords] at h
    simp only [Reg.offset, ringOffset, cmdsOffset, cpIrqOffset, reduceCtorEq, iff_false]
    omega

theorem Reg.Placed.not_hits_version {reg : Reg} (h : reg.Placed)
    (hlast : ∀ j, reg ≠ .cmd 511 j) :
    ¬reg.Hits majorVersionOffset ∧ ¬reg.Hits minorVersionOffset := by
  rw [Reg.hits_iff, Reg.hits_iff]
  cases reg with
  | tail => simp [Reg.offset, ringOffset, majorVersionOffset, minorVersionOffset]
  | irq => simp [Reg.offset, cpIrqOffset, majorVersionOffset, minorVersionOffset]
  | staging i =>
    simp only [Reg.Placed] at h
    simp only [Reg.offset, kernelStagingOffset, majorVersionOffset, minorVersionOffset]
    omega
  | cmd i j =>
    have hi : i ≠ 511 := fun hi => hlast j (hi ▸ rfl)
    simp only [Reg.Placed, queueSize, packetWords] at h
    simp only [Reg.offset, ringOffset, cmdsOffset, majorVersionOffset, minorVersionOffset]
    omega

private theorem atIrq_setPc {s : State ι} {c : ι} {p : Pc} (hold : ¬(s.pc c).AtIrq)
    (hnew : ¬p.AtIrq) (c' : ι) : ((s.setPc c p).pc c').AtIrq ↔ (s.pc c').AtIrq := by
  by_cases hcc : c' = c
  · simp [hcc, hold, hnew]
  · simp [hcc]

/-- Below the last slot a step that does not write `.irq` leaves the register alone. -/
private theorem irqWrites_nil {queueMode : Int} {log es : List (Event ι)} {s : State ι}
    (h : (ringSystem ι queueMode).RunWith BelowLastSlot (log ++ es) s)
    (hno : ∀ c v, .wrote c .irq v ∉ es) : irqWrites es = [] := by
  apply List.filter_eq_nil_iff.mpr
  intro e he hhits
  cases e with
  | wrote c reg v =>
    have hmem := List.mem_append_right log he
    have hlast : ∀ j, reg ≠ .cmd 511 j := by
      rintro j rfl
      exact noLastSlot_of_belowLastSlot h c j v hmem
    have hirq := (writes_placed h.run c reg v hmem).hits_irq hlast
    exact hno c v (hirq.mp ((hitsIrq_wrote c reg v).mp hhits) ▸ he)
  | _ => simp [Event.hitsIrq] at hhits

theorem irqInv_run {queueMode : Int} {log : List (Event ι)} {s : State ι}
    (h : (ringSystem ι queueMode).RunWith BelowLastSlot log s) : IrqInv log s := by
  apply h.invariant (I := IrqInv)
  · intro s hs
    exact .inl ⟨fun c => by simp [hs.2.2.2.1 c, Pc.AtIrq],rfl⟩
  · intro log s a s' es hrun ih hok hstep
    have hnext := System.RunWith.step hrun hok hstep
    cases rule_of_step hstep with
    | start c call hpc =>
      refine irqInv_quiet ih (atIrq_setPc (by simp [hpc, Pc.AtIrq]) ?_) rfl rfl
      exact fun hp => entry_not_inSection queueMode call hp.inSection
    | stageWord c kbin i w hpc hw =>
      refine irqInv_quiet ih (atIrq_setPc (s := {s with dev := _}) (by simp [hpc, Pc.AtIrq]) ?_)
        (irqWrites_nil hnext (by simp)) rfl
      exact fun hp => stageFrom_not_inSection kbin (i + 1) hp.inSection
    | lock c job hpc hfree =>
      exact irqInv_quiet ih (atIrq_setPc (s := {s with globalLock := _})
        (by simp [hpc, Pc.AtIrq]) id) rfl rfl
    | writeCmd c job tail j hpc =>
      refine irqInv_quiet ih (atIrq_setPc (s := {s with ring := _})
        (by simp [hpc, Pc.AtIrq]) ?_) (irqWrites_nil hnext (by simp)) rfl
      split <;> exact id
    | writeTail c job tail hpc =>
      have hnone : ∀ c', ¬(s.pc c').AtIrq := by
        intro c' hc'
        have hin : (s.pc c).InSection := by simp [hpc, Pc.InSection]
        obtain rfl := section_unique hrun.run hc'.inSection hin
        simp [hpc, Pc.AtIrq] at hc'
      have hirq := irqWrites_nil hnext (by simp)
      refine .inr ⟨⟨c,by simp [Pc.AtIrq]⟩,?_⟩
      rcases ih with ⟨-,hcount⟩ | ⟨⟨c',hc'⟩,-⟩
      · have hpub : publishedIn [.wrote c .tail (nextSlot tail),.published c job] = [(c,job)] := rfl
        simp only [irqWrites_append, hirq, publishedCount, publishedIn_append, hpub] at hcount ⊢
        simpa using hcount
      · exact absurd hc' (hnone c')
    | ringIrq c job tail hpc =>
      have hat : (s.pc c).AtIrq := by simp [hpc, Pc.AtIrq]
      refine .inl ⟨?_,?_⟩
      · intro c' hc'
        by_cases hcc : c' = c
        · simp [hcc, Pc.AtIrq] at hc'
        · rw [State.setPc_pc_other _ _ _ hcc] at hc'
          exact hcc (section_unique hrun.run hc'.inSection hat.inSection)
      · rcases ih with ⟨hnone,-⟩ | ⟨-,hcount⟩
        · exact absurd hat (hnone c)
        · have hirq : irqWrites [.wrote c .irq 1] = [.wrote c .irq 1] := by
            simp [irqWrites, Event.hitsIrq, Reg.offset]
          have hpub : publishedIn [.wrote c .irq 1] = [] := rfl
          simpa [irqWrites_append, hirq, publishedCount, hpub] using hcount
    | unlock c job tail hpc =>
      refine irqInv_quiet ih (atIrq_setPc (s := {s with globalLock := _})
        (by simp [hpc, Pc.AtIrq]) ?_) rfl rfl
      exact fun hp => afterUnlock_not_inSection job tail hp.inSection
    | unlockBusy c job hpc =>
      exact irqInv_quiet ih (atIrq_setPc (s := {s with globalLock := _})
        (by simp [hpc, Pc.AtIrq]) id) rfl rfl
    | testFalse c target a otherwise hpc ha hheld =>
      exact irqInv_quiet ih (atIrq_setPc (by simp [hpc, Pc.AtIrq])
        fun hp => ha.not_inSection hp.inSection) rfl rfl
    | stageFault _ _ _ hpc | readHead _ _ hpc | readTailFull _ _ _ hpc | readTailRoom _ _ _ hpc
    | snapshot _ hpc | testTrue _ _ _ _ hpc =>
      exact irqInv_quiet ih (atIrq_setPc (by simp [hpc, Pc.AtIrq]) id) rfl rfl
    | _ => exact irqInv_quiet ih (fun _ => Iff.rfl) rfl rfl

/-- The register is written by the call that has just stored the tail, with 1. -/
theorem irq_write_after_tail {queueMode : Int} {log : List (Event ι)} {s : State ι}
    (h : (ringSystem ι queueMode).RunWith BelowLastSlot log s) :
    ∀ pre e post, log = pre ++ e :: post → ∀ c reg v, e = .wrote c reg v →
      reg.Hits cpIrqOffset →
      reg.offset = cpIrqOffset ∧ v = 1 ∧ (irqWrites pre).length + 1 = publishedCount pre := by
  refine h.event_of_step (P := fun pre e => ∀ c reg v, e = .wrote c reg v →
    reg.Hits cpIrqOffset →
    reg.offset = cpIrqOffset ∧ v = 1 ∧ (irqWrites pre).length + 1 = publishedCount pre) ?_
  rintro log s a s' es hrun hok hstep pre e post hes c reg v rfl hhits
  have hnext := System.RunWith.step hrun hok hstep
  have hnew : .wrote c reg v ∈ es := by simp [hes]
  have hmem := List.mem_append_right log hnew
  have hirq : reg = .irq := by
    refine ((writes_placed hnext.run c reg v hmem).hits_irq ?_).mp hhits
    rintro j rfl
    exact noLastSlot_of_belowLastSlot hnext c j v hmem
  subst hirq
  cases rule_of_step hstep with
  | ringIrq c' job tail hpc =>
    obtain ⟨rfl,-,-⟩ : pre = [] ∧ _ ∧ _ := by
      simpa [List.singleton_eq_append_iff] using hes
    obtain ⟨-,-,rfl⟩ : c = c' ∧ Reg.irq = Reg.irq ∧ v = 1 := by simpa using hnew
    refine ⟨rfl,rfl,?_⟩
    rw [List.append_nil]
    rcases irqInv_run hrun with ⟨hnone,-⟩ | ⟨-,hcount⟩
    · exact absurd (by simp [hpc, Pc.AtIrq]) (hnone c')
    · exact hcount
  | _ => simp at hnew

theorem windowsApart_of_belowLastSlot {queueMode : Int} {log : List (Event ι)} {s : State ι}
    (h : (ringSystem ι queueMode).RunWith BelowLastSlot log s) : WindowsApart log s := by
  have hplaced := writes_placed h.run
  have hno := noLastSlot_of_belowLastSlot h
  have hlast : ∀ c reg v, .wrote c reg v ∈ log → ∀ j, reg ≠ .cmd 511 j := by
    rintro c reg v hmem j rfl
    exact hno c j v hmem
  constructor
  case cmds =>
    rintro c i j v hmem b ⟨hlo,hhi⟩
    have hi : i ≠ 511 := fun hi => hlast c _ v hmem j (hi ▸ rfl)
    have hbounds := hplaced c _ v hmem
    simp only [Reg.Placed, queueSize, packetWords] at hbounds
    simp only [Reg.offset, ringOffset, cmdsOffset, cpIrqOffset] at hlo hhi ⊢
    omega
  case staging =>
    rintro c i v hmem b ⟨hlo,hhi⟩
    have hbounds := hplaced c _ v hmem
    simp only [Reg.Placed] at hbounds
    simp only [Reg.offset, kernelStagingOffset, ringOffset] at hhi ⊢
    omega
  case irq =>
    intro pre c reg v post heq hhits
    exact irq_write_after_tail h pre _ post heq c reg v rfl hhits
  case rung =>
    rcases irqInv_run h with ⟨-,hcount⟩ | ⟨hat,hcount⟩
    · exact .inl hcount
    · exact .inr ⟨hcount,hat⟩
  case version =>
    intro c reg v hmem
    exact (hplaced c reg v hmem).not_hits_version (hlast c reg v hmem)

/-- The windows are apart in exactly the runs that never write a descriptor to
the last slot. -/
theorem windows_apart_iff {queueMode : Int} {log : List (Event ι)} {s : State ι}
    (h : (ringSystem ι queueMode).Run log s) :
    WindowsApart log s ↔ (ringSystem ι queueMode).RunWith BelowLastSlot log s := by
  refine ⟨fun hapart => belowLastSlot_of_noLastSlot h ?_,windowsApart_of_belowLastSlot⟩
  intro c j v hmem
  have hend := (hapart.cmds c 511 j v hmem (Reg.offset (.cmd 511 j)) ⟨le_rfl,by omega⟩).2
  simp only [Reg.offset, ringOffset, cmdsOffset, cpIrqOffset] at hend
  omega

/-- The first 511 publications keep clear of the last slot. -/
theorem belowLastSlot_of_published {queueMode : Int} {log : List (Event ι)} {s : State ι}
    (h : (ringSystem ι queueMode).Run log s) (hfew : publishedCount log < 511) :
    (ringSystem ι queueMode).RunWith BelowLastSlot log s := by
  induction h with
  | init hs => exact .init hs
  | @step log s a s' es hrun _ hstep ih =>
    have hlog : publishedCount log < 511 := by
      simp only [publishedCount, publishedIn_append, List.length_append] at hfew ⊢
      omega
    refine .step (ih hlog) ?_ hstep
    intro c job tail j _ _ htail
    obtain ⟨q,hrep,hpub,-⟩ := ring_represents hrun
    have hslot := congrArg UInt32.toNat (hrep.tail.symm.trans htail)
    rw [slot_toNat, hpub, ← publishedCount,
      Nat.mod_eq_of_lt (by simp only [queueSize]; omega)] at hslot
    exact hlog.ne hslot

theorem windows_apart_one_launch : ∃ log s, (ringSystem Nat 0).Run log s ∧
    publishedCount log = 1 ∧ WindowsApart log s := by
  have hrun := System.Run.of_exec (S := ringSystem Nat 0) (probed_init Nat) oneLaunchSteps
    oneLaunch_runs
  have hcount : publishedCount (((ringSystem Nat 0).exec (probed Nat) oneLaunchSteps).get
    oneLaunch_runs).2 = 1 := by decide
  exact ⟨_,_,hrun,hcount,(windows_apart_iff hrun).mpr
    (belowLastSlot_of_published hrun (by rw [hcount]; decide))⟩

/-- A SUBMIT_CMD that finds the lock free and room in the ring runs to its end. -/
theorem submit_uncontended {s : State ι} {c : ι} (cmd : LaunchCmd) (hpc : s.pc c = .ready)
    (hlock : s.globalLock = none) (hroom : nextSlot s.ring.tail ≠ s.ring.head) :
    ∃ s' es, (ringSystem ι 0).exec s (.start c (.submitCmd (some cmd)) :: sectionSteps c) =
        some (s',es) ∧
      s'.ring.head = s.ring.head ∧ s'.ring.tail = nextSlot s.ring.tail ∧ s'.globalLock = none ∧
      s'.fw = s.fw ∧ (∀ c', c' ≠ c → s'.pc c' = s.pc c') ∧
      .wrote c (.cmd s.ring.tail.toNat 0) magicOcl ∈ es := by
  simp +contextual [sectionSteps, List.replicate, System.exec, ringSystem, step, State.access,
    hpc, hlock, entry, hroom, packetWords, RingBuffer.writeCmd, afterUnlock, State.setPc,
    DispatchPacket.word, DispatchPacket.words, Job.task, submitTask]

/-- An idle firmware with a descriptor pending consumes it. -/
theorem firmware_turn {s : State ι} (hfw : s.fw = .idle) (hne : s.ring.head ≠ s.ring.tail) :
    ∃ s' es, (ringSystem ι 0).exec s firmwareTurn = some (s',es) ∧
      s'.ring.head = nextSlot s.ring.head ∧ s'.ring.tail = s.ring.tail ∧
      s'.globalLock = s.globalLock ∧ s'.pc = s.pc := by
  simp [firmwareTurn, List.replicate, System.exec, ringSystem, step, State.firmware, hfw, hne,
    packetWords]

/-- Launch after launch, with only the first one consumed, the tail reaches the last slot. -/
theorem launches_reach_last_slot (n : Nat) (h1 : 1 ≤ n) (h511 : n ≤ 511) :
    ∃ log s, (ringSystem Nat 0).Run log s ∧ s.ring.head = slot 1 ∧ s.ring.tail = slot n ∧
      s.globalLock = none ∧ ∀ c, n ≤ c → s.pc c = .ready := by
  induction n, h1 using Nat.le_induction with
  | base =>
    have hprobed : (ringSystem Nat 0).Run [] (probed Nat) := .init (probed_init Nat)
    obtain ⟨s,es,hexec,hhead,htail,hlock,hfw,hother,-⟩ :=
      submit_uncontended (s := probed Nat) (c := 0) oneLaunch rfl rfl (by decide)
    obtain ⟨s',es',hexec',hhead',htail',hlock',hpc'⟩ :=
      firmware_turn (s := s) hfw (by rw [hhead, htail]; decide)
    refine ⟨_,s',(hprobed.exec _ hexec).exec _ hexec',?_,?_,hlock'.trans hlock,?_⟩
    · rw [hhead', hhead]
      rfl
    · rw [htail', htail]
      rfl
    · intro c hc
      rw [hpc', hother c (by omega)]
      rfl
  | succ n hn ih =>
    obtain ⟨log,s,hrun,hhead,htail,hlock,hready⟩ := ih (by omega)
    have hroom : nextSlot s.ring.tail ≠ s.ring.head := by
      rw [htail, hhead, nextSlot_slot, ne_eq, slot_eq_iff]
      simp only [queueSize]
      omega
    obtain ⟨s',es,hexec,hhead',htail',hlock',-,hother,-⟩ :=
      submit_uncontended oneLaunch (hready n le_rfl) hlock hroom
    refine ⟨_,s',hrun.exec _ hexec,hhead'.trans hhead,?_,hlock',?_⟩
    · rw [htail', htail, nextSlot_slot]
    · intro c hc
      rw [hother c (by omega)]
      exact hready c (by omega)

/-- The 512th launch writes the first word of its descriptor, the magic number,
over the command-IRQ register. -/
theorem last_slot_overwrites_irq : ∃ log s c, (ringSystem Nat 0).Run log s ∧
    .wrote c (.cmd 511 0) magicOcl ∈ log ∧ (Reg.cmd 511 0).offset = cpIrqOffset ∧
    (Reg.cmd 511 2).offset = majorVersionOffset ∧ magicOcl ≠ 1 ∧ ¬WindowsApart log s := by
  obtain ⟨log,s,hrun,hhead,htail,hlock,hready⟩ :=
    launches_reach_last_slot 511 (by decide) le_rfl
  obtain ⟨s',es,hexec,-,-,-,-,-,hwrote⟩ :=
    submit_uncontended oneLaunch (hready 511 le_rfl) hlock (by rw [htail, hhead]; decide)
  rw [htail] at hwrote
  have hmem : .wrote 511 (.cmd 511 0) magicOcl ∈ log ++ es := List.mem_append_right log hwrote
  refine ⟨_,s',511,hrun.exec _ hexec,hmem,rfl,rfl,by decide,fun hapart => ?_⟩
  have hend := (hapart.cmds 511 511 0 magicOcl hmem cpIrqOffset ⟨by decide,by decide⟩).2
  exact lt_irrefl _ hend

end FpgaGpu.Driver
