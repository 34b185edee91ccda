import FpgaGpu.Driver.RingRefinement
import FpgaGpu.Library.History

/-! The tasks the firmware runs are the published ones, in order; a task is run
between the last read of its descriptor and the store of the new head. -/
namespace FpgaGpu.Driver
open Library

variable {ι : Type}

/-- How many tasks have been run whose head update is still to come. -/
def Firmware.ahead : Firmware → Nat
  | .commit _ _ => 1
  | _ => 0

def ExecInv (log : List (Event ι)) (s : State ι) : Prop :=
  executedCount log = consumedCount log + s.fw.ahead ∧
    ∀ (p : Nat) (desc : List UInt32) (dev : Device), (executedIn log)[p]? = some (desc,dev) →
      ∃ c, ∃ job : Job, (publishedIn log)[p]? = some (c,job) ∧ desc = job.task.words

/-- Steps that neither run a task nor take one. -/
private theorem execInv_quiet {log es : List (Event ι)} {s s' : State ι} (h : ExecInv log s)
    (hfw : s'.fw.ahead = s.fw.ahead) (hexec : executedIn es = []) (hcon : consumedIn es = []) :
    ExecInv (log ++ es) s' := by
  refine ⟨?_,?_⟩
  · simpa [executedCount, consumedCount, hexec, hcon, hfw] using h.1
  · intro p desc dev hget
    rw [executedIn_append, hexec, List.append_nil] at hget
    obtain ⟨c,job,hpub,hdesc⟩ := h.2 p desc dev hget
    refine ⟨c,job,?_,hdesc⟩
    rw [publishedIn_append, List.getElem?_append_left (List.getElem?_eq_some_iff.mp hpub).1, hpub]

variable [DecidableEq ι]

theorem execInv_run {queueMode : Int} {log : List (Event ι)} {s : State ι}
    (h : (ringSystem ι queueMode).Run log s) : ExecInv log s := by
  refine ring_invariant (I := ExecInv) ?_ ?_ h
  · intro s hs
    refine ⟨by simp [hs.2.2.2.2, executedCount, executedIn, consumedCount, consumedIn,
      Firmware.ahead],?_⟩
    intro p desc dev hget
    simp [executedIn] at hget
  · intro log s a s' es hrun ih _ hrule
    have hrun : (ringSystem ι queueMode).Run log s := hrun
    obtain ⟨hcount,hdesc⟩ := ih
    cases hrule with
    | fwExec head desc hfw =>
      obtain ⟨q,hrep,hpub,htaken,-⟩ := ring_represents hrun
      have hrepFw := hrep.fw
      rw [hfw] at hrepFw hcount
      obtain ⟨-,task,⟨c,job,hget,htask⟩,hwords⟩ := hrepFw
      rw [hpub, htaken] at hget
      refine ⟨?_,?_⟩
      · simp only [executedCount, consumedCount, Firmware.ahead] at hcount ⊢
        simp [hcount]
      · intro p desc' dev' hnew
        rw [executedIn_append] at hnew
        rcases getElem?_concat_eq_some.mp hnew with hold | ⟨rfl,hpair⟩
        · simpa using hdesc p desc' dev' hold
        · obtain ⟨rfl,rfl⟩ := Prod.mk.inj hpair
          refine ⟨c,job,?_,by rw [hwords, htask]⟩
          rw [← executedCount, hcount]
          simpa [Firmware.ahead] using hget
    | fwCommit head desc hfw =>
      rw [hfw] at hcount
      refine ⟨?_,?_⟩
      · simp only [executedCount, consumedCount, Firmware.ahead] at hcount ⊢
        simp [hcount]
      · simpa using hdesc
    | fwHead hfw | fwEmpty head hfw | fwTask head hfw | fwFetch head got hfw
    | fwFetchLast head got hfw =>
      exact execInv_quiet ⟨hcount,hdesc⟩ (by simp [hfw, Firmware.ahead]) rfl rfl
    | _ => exact execInv_quiet ⟨hcount,hdesc⟩ rfl rfl rfl

/-- What was run at a position is what was published there. -/
theorem executed_published {queueMode : Int} {log : List (Event ι)} {s : State ι}
    (h : (ringSystem ι queueMode).Run log s) {p : Nat} {desc : List UInt32} {dev : Device}
    (hget : (executedIn log)[p]? = some (desc,dev)) :
    ∃ c, ∃ job : Job, (publishedIn log)[p]? = some (c,job) ∧ desc = job.task.words :=
  (execInv_run h).2 p desc dev hget

theorem executed_le_published {queueMode : Int} {log : List (Event ι)} {s : State ι}
    (h : (ringSystem ι queueMode).Run log s) : executedCount log ≤ publishedCount log := by
  by_contra hlt
  have hp : publishedCount log < (executedIn log).length := not_le.mp hlt
  obtain ⟨c,job,hget,-⟩ := executed_published h (List.getElem?_eq_getElem hp)
  exact lt_irrefl _ (List.getElem?_eq_some_iff.mp hget).1

/-- A descriptor is run before it is taken out of the ring. -/
theorem consumed_le_executed {queueMode : Int} {log : List (Event ι)} {s : State ι}
    (h : (ringSystem ι queueMode).Run log s) : consumedCount log ≤ executedCount log := by
  have := (execInv_run h).1
  omega

/-- A bound on the firmware steps to the next head update, while a task is pending. -/
def Firmware.left : Firmware → Nat
  | .idle => packetWords + 4
  | .sawHead _ => packetWords + 3
  | .fetch _ got => packetWords - got.length + 2
  | .exec _ _ => 2
  | .commit _ _ => 1

/-- While a task is pending, a firmware step takes it or comes closer to that. -/
theorem firmware_progress {queueMode : Int} {log : List (Event ι)} {s : State ι}
    (h : (ringSystem ι queueMode).Run log s) (hpending : consumedCount log < publishedCount log) :
    consumedCount s.firmware.2 = 1 ∧ s.firmware.1.fw = .idle ∨
      consumedCount s.firmware.2 = 0 ∧ s.firmware.1.fw.left < s.fw.left := by
  obtain ⟨q,hrep,hpub,htaken,-⟩ := ring_represents h
  have hfwRep := hrep.fw
  have hroom := lt_room q
  rw [hpub, htaken, ← publishedCount] at hroom
  cases hfw : s.fw with
  | idle => simp [State.firmware, hfw, consumedCount, Firmware.left]
  | sawHead head =>
    rw [hfw] at hfwRep
    have hne : head ≠ s.ring.tail := by
      rw [hfwRep, hrep.tail, hpub, htaken, ← publishedCount, Ne, slot_eq_iff]
      simp only [queueSize] at hroom ⊢
      omega
    simp [State.firmware, hfw, hne, consumedCount, Firmware.left]
  | fetch head got =>
    rw [hfw] at hfwRep
    have hgot := hfwRep.2.1
    by_cases hmore : got.length + 1 < packetWords
    · simp [State.firmware, hfw, hmore, consumedCount, Firmware.left]
      omega
    · simp [State.firmware, hfw, hmore, consumedCount, Firmware.left]
      omega
  | exec head desc => simp [State.firmware, hfw, consumedCount, Firmware.left]
  | commit head desc => simp [State.firmware, hfw, consumedCount]

/-- Nothing but the firmware is needed for a published task to be taken. -/
theorem firmware_reaches {queueMode : Int} {log : List (Event ι)} {s : State ι}
    (h : (ringSystem ι queueMode).Run log s) {p : Nat} (hp : p < publishedCount log) :
    ∃ n s' es, (ringSystem ι queueMode).exec s (List.replicate n .firmware) = some (s',es) ∧
      p < consumedCount (log ++ es) := by
  -- the tasks before `p` first, then the steps of the next one
  induction hm : (p + 1 - consumedCount log) * (packetWords + 5) + s.fw.left
    using Nat.strong_induction_on generalizing log s with
  | _ m ih =>
    by_cases hdone : p < consumedCount log
    · exact ⟨0,s,[],rfl,by simpa using hdone⟩
    · have hstep : (ringSystem ι queueMode).step s .firmware =
          some (s.firmware.1,s.firmware.2) := rfl
      have hcount : consumedCount (log ++ s.firmware.2) =
          consumedCount log + consumedCount s.firmware.2 := by
        simp [consumedCount]
      have hp' : p < publishedCount (log ++ s.firmware.2) := by
        simp only [publishedCount, publishedIn_append, List.length_append] at hp ⊢
        omega
      have hless : (p + 1 - consumedCount (log ++ s.firmware.2)) * (packetWords + 5) +
          s.firmware.1.fw.left < m := by
        rcases firmware_progress h (by omega) with ⟨hone,hidle⟩ | ⟨hnone,hless⟩
        · rw [hcount, hone, hidle, ← hm]
          obtain ⟨k,hk⟩ : ∃ k, p + 1 - consumedCount log = k + 1 :=
            ⟨p - consumedCount log,by omega⟩
          rw [hk, show p + 1 - (consumedCount log + 1) = k by omega]
          simp only [Firmware.left, Nat.succ_mul]
          omega
        · rw [hcount, hnone, ← hm]
          simpa using hless
      obtain ⟨n,s',es,hexec,hreached⟩ := ih _ hless (h.next hstep) hp' rfl
      refine ⟨n + 1,s',s.firmware.2 ++ es,?_,by rwa [← List.append_assoc]⟩
      simp [List.replicate_succ, System.exec, hstep, hexec]

/-- What a step of the driver or the firmware does to the memories. -/
theorem Rule.device {queueMode : Int} {log : List (Event ι)} {s s' : State ι} {a : Action ι}
    {es : List (Event ι)} (hrun : (ringSystem ι queueMode).Run log s)
    (h : Rule queueMode s a s' es) (ha : ∀ page, a ≠ .upload page) :
    executedIn es = [] ∧ s'.dev = s.dev ∨
    (∃ c kbin i w, s.pc c = .stage kbin i ∧ kbin.userInstr i = some w ∧
      s' = {s with dev := s.dev.stage i w}.setPc c (stageFrom kbin (i + 1)) ∧
      es = [.wrote c (.staging i) w]) ∨
    ∃ c job, (publishedIn log)[executedCount log]? = some (c,job) ∧
      es = [.executed job.task.words s.dev] ∧ s'.pc = s.pc ∧
      s'.dev = s.dev.execute job.task.words := by
  cases h with
  | stageWord c kbin i w hpc hw => exact .inr (.inl ⟨c,kbin,i,w,hpc,hw,rfl,rfl⟩)
  | fwExec head desc hfw =>
    obtain ⟨q,hrep,hpub,htaken,-⟩ := ring_represents hrun
    have hrepFw := hrep.fw
    have hcount := (execInv_run hrun).1
    rw [hfw] at hrepFw hcount
    obtain ⟨-,task,⟨c,job,hget,rfl⟩,rfl⟩ := hrepFw
    refine .inr (.inr ⟨c,job,?_,rfl,rfl,rfl⟩)
    simp only [Firmware.ahead, Nat.add_zero] at hcount
    rw [hcount, ← hpub, ← htaken]
    exact hget
  | upload page => exact absurd rfl (ha page)
  | _ => exact .inl ⟨rfl,rfl⟩

/-- LOAD copies the staging area; a launch changes neither memory. -/
theorem execute_load (dev : Device) (kbin : KernelBinary) :
    dev.execute (Job.load kbin).task.words = {dev with
      iram := fun i => if i < kbin.instrSize.toNat then dev.staging i else dev.iram i} := by
  rw [Device.execute, if_pos (by simp [Job.task, loadTask])]
  rfl

theorem execute_launch (dev : Device) {cmd : LaunchCmd} (h : cmd.opcode = opcodeLaunchKernel) :
    dev.execute (Job.submit cmd).task.words = dev := by
  rw [Device.execute, if_neg (by simp [Job.task, submitTask, h]; decide)]

end FpgaGpu.Driver
