import FpgaGpu.Driver.Refused

/-! Calls with sound arguments whose waits are never given up. The one thing that
can be answered to them is that the ring is full. -/
namespace FpgaGpu.Driver
open Library

variable {ι : Type}

/-- No wait runs into its timeout or is interrupted. -/
def Patient (_ : List (Event ι)) (_ : State ι) : Action ι → Prop
  | .expire _ | .interrupt _ => False
  | _ => True

/-- The argument can be read, and LOAD_KERNEL can take the program. -/
def Call.Sound : Call → Prop
  | .submitCmd arg => arg.isSome = true
  | .doorbell => True
  | .loadKernel none => False
  | .loadKernel (some kbin) =>
      ¬kbin.BadSize ∧ ∀ i < kbin.instrSize.toNat, (kbin.userInstr i).isSome = true

theorem entry_sound {call : Call} (h : call.Sound) (e : Errno) :
    entry 0 call ≠ .done (.err e) := by
  cases call with
  | submitCmd arg =>
    obtain ⟨cmd,rfl⟩ := Option.isSome_iff_exists.mp h
    simp [entry]
  | doorbell => simp [entry]
  | loadKernel arg =>
    cases arg with
    | none => exact h.elim
    | some kbin =>
      have hsize : ¬(kbin.instrSize = 0 ∨ 1024 < kbin.instrSize) := h.1
      simp only [entry, hsize, if_false, stageFrom]
      split <;> simp

variable [DecidableEq ι]

theorem Fresh.not_published {log : List (Event ι)} {c : ι} (h : Fresh log c) (job : Job) :
    (c,job) ∉ publishedIn log :=
  not_mem_publishedIn h.1 job

/-- A sound call that fails had something to publish, found the ring full, and has
published nothing. -/
theorem patient_run {log : List (Event ι)} {s : State ι}
    (h : (ringSystem ι 0).RunWith Patient log s) : ∀ c call, CalledAs log c call → call.Sound →
      ∀ e, s.pc c = .done (.err e) → e = .EBUSY ∧ call ≠ .doorbell ∧ Fresh log c := by
  refine ring_invariant (I := fun log s => ∀ c call, CalledAs log c call → call.Sound →
    ∀ e, s.pc c = .done (.err e) → e = .EBUSY ∧ call ≠ .doorbell ∧ Fresh log c) ?_ ?_ h
  · intro s hs c call _ _ e hpc
    simp [hs.2.2.2.1 c] at hpc
  · intro log s a s' es hrun ih hpatient hrule c call hcalled hsound e hpc
    have hinv := callInv_run hrun.run c
    by_cases hact : a.actor = some c
    case neg =>
      have hes : QuietFor c es :=
        quietFor_of_actor fun e he => hrule.events_actor e he ▸ hact
      rw [hrule.pc_other hact] at hpc
      obtain ⟨rfl,hcall,hfresh⟩ := ih c call (hcalled.of_append hes) hsound e hpc
      exact ⟨rfl,hcall,hfresh.append hes⟩
    cases hrule with
    | start c' call' hready =>
      obtain rfl := Option.some.inj hact
      rw [State.setPc_pc_self] at hpc
      obtain rfl : call' = call := (hcalled call').mp (by simp)
      exact absurd hpc (entry_sound hsound e)
    | stageFault c' kbin i hstage hw =>
      obtain rfl := Option.some.inj hact
      rw [hstage] at hinv
      rw [List.append_nil] at hcalled
      obtain rfl : .loadKernel (some kbin) = call := (hcalled _).mp ((hinv.2 _).mpr rfl)
      have hread := hsound.2 i (stageInv_run hrun.run c' kbin i hstage).1
      simp [hw] at hread
    | stageWord c' kbin i w hstage hw =>
      obtain rfl := Option.some.inj hact
      rw [State.setPc_pc_self, stageFrom] at hpc
      split at hpc <;> contradiction
    | writeCmd c' job tail j hwrite =>
      obtain rfl := Option.some.inj hact
      rw [State.setPc_pc_self] at hpc
      split at hpc <;> contradiction
    | unlock c' job tail hunlock =>
      obtain rfl := Option.some.inj hact
      rw [State.setPc_pc_self] at hpc
      cases job <;> simp [afterUnlock] at hpc
    | unlockBusy c' job hbusy =>
      obtain rfl := Option.some.inj hact
      rw [hbusy] at hinv
      rw [State.setPc_pc_self] at hpc
      rw [List.append_nil] at hcalled ⊢
      obtain rfl : job.call = call := (hcalled _).mp ((hinv.2 _).mpr rfl)
      exact ⟨(Ret.err.inj (Pc.done.inj hpc)).symm,by cases job <;> simp [Job.call],hinv.1⟩
    | testFalse c' target a otherwise hwait ha hheld =>
      obtain rfl := Option.some.inj (ha.actor.symm.trans hact)
      rw [State.setPc_pc_self] at hpc
      cases ha with
      | retry => contradiction
      | expire | interrupt => exact hpatient.elim
    | testTrue c' target a otherwise hwait ha hheld =>
      obtain rfl := Option.some.inj (ha.actor.symm.trans hact)
      simp at hpc
    | fwHead | fwEmpty | fwTask | fwFetch | fwFetchLast | fwExec | fwCommit | upload =>
      cases hact
    | _ =>
      obtain rfl := Option.some.inj hact
      simp at hpc

/-- The ring was found full. -/
def Pc.Busy : Pc → Prop
  | .unlockBusy _ | .done (.err .EBUSY) => True
  | _ => False

theorem entry_not_busy (queueMode : Int) (call : Call) : ¬(entry queueMode call).Busy := by
  unfold entry stageFrom
  repeat' split
  all_goals simp [Pc.Busy]

/-- A call gets there by one comparison. -/
theorem Rule.busy {queueMode : Int} {s s' : State ι} {a : Action ι} {es : List (Event ι)}
    (h : Rule queueMode s a s' es) {c : ι} (hbusy : (s'.pc c).Busy) :
    (s.pc c).Busy ∨ ∃ job, s.pc c = .readTail job (nextSlot s.ring.tail) := by
  by_cases hact : a.actor = some c
  case neg => exact .inl (h.pc_other hact ▸ hbusy)
  cases h with
  | start c' call hpc =>
    obtain rfl := Option.some.inj hact
    exact absurd (by simpa using hbusy) (entry_not_busy queueMode call)
  | readTailFull c' job head hpc hfull =>
    obtain rfl := Option.some.inj hact
    exact .inr ⟨job,hfull ▸ hpc⟩
  | unlockBusy c' job hpc =>
    obtain rfl := Option.some.inj hact
    exact .inl (by simp [hpc, Pc.Busy])
  | stageWord c' kbin i w hpc hw =>
    obtain rfl := Option.some.inj hact
    rw [State.setPc_pc_self, stageFrom] at hbusy
    split at hbusy <;> exact hbusy.elim
  | writeCmd c' job tail j hpc =>
    obtain rfl := Option.some.inj hact
    rw [State.setPc_pc_self] at hbusy
    split at hbusy <;> exact hbusy.elim
  | unlock c' job tail hpc =>
    obtain rfl := Option.some.inj hact
    rw [State.setPc_pc_self] at hbusy
    cases job <;> exact hbusy.elim
  | testTrue c' target a otherwise hpc ha hheld =>
    obtain rfl := Option.some.inj (ha.actor.symm.trans hact)
    simp [Pc.Busy] at hbusy
  | testFalse c' target a otherwise hpc ha hheld =>
    obtain rfl := Option.some.inj (ha.actor.symm.trans hact)
    rw [State.setPc_pc_self] at hbusy
    cases ha <;> exact hbusy.elim
  | fwHead | fwEmpty | fwTask | fwFetch | fwFetchLast | fwExec | fwCommit | upload =>
    nomatch hact
  | _ =>
    obtain rfl := Option.some.inj hact
    simp [Pc.Busy] at hbusy

/-- A head that is kept for the comparison was kept before, or has just been read. -/
theorem Rule.readTail {queueMode : Int} {s s' : State ι} {a : Action ι} {es : List (Event ι)}
    (h : Rule queueMode s a s' es) {c : ι} {job : Job} {head : UInt32}
    (hpc : s'.pc c = .readTail job head) :
    s.pc c = .readTail job head ∨
      s.pc c = .readHead job ∧ head = s.ring.head ∧ es = [.headRead c] := by
  by_cases hact : a.actor = some c
  case neg => exact .inl (h.pc_other hact ▸ hpc)
  cases h with
  | start c' call hready =>
    obtain rfl := Option.some.inj hact
    rw [State.setPc_pc_self] at hpc
    unfold entry stageFrom at hpc
    repeat' split at hpc
    all_goals contradiction
  | readHead c' job' hread =>
    obtain rfl := Option.some.inj hact
    obtain ⟨rfl,rfl⟩ := Pc.readTail.inj (by simpa using hpc)
    exact .inr ⟨hread,rfl,rfl⟩
  | stageWord c' kbin i w hstage hw =>
    obtain rfl := Option.some.inj hact
    rw [State.setPc_pc_self, stageFrom] at hpc
    split at hpc <;> contradiction
  | writeCmd c' job' tail j hwrite =>
    obtain rfl := Option.some.inj hact
    rw [State.setPc_pc_self] at hpc
    split at hpc <;> contradiction
  | unlock c' job' tail hunlock =>
    obtain rfl := Option.some.inj hact
    rw [State.setPc_pc_self] at hpc
    cases job' <;> contradiction
  | testTrue c' target a otherwise hwait ha hheld =>
    obtain rfl := Option.some.inj (ha.actor.symm.trans hact)
    simp at hpc
  | testFalse c' target a otherwise hwait ha hheld =>
    obtain rfl := Option.some.inj (ha.actor.symm.trans hact)
    rw [State.setPc_pc_self] at hpc
    cases ha <;> contradiction
  | fwHead | fwEmpty | fwTask | fwFetch | fwFetchLast | fwExec | fwCommit | upload =>
    nomatch hact
  | _ =>
    obtain rfl := Option.some.inj hact
    simp at hpc

/-- A LOAD_KERNEL of one word that finds the lock free and room in the ring waits in the end. -/
theorem load_uncontended {s : State ι} {c : ι} {kbin : KernelBinary} {w : UInt32}
    (hsize : kbin.instrSize = 1) (hw : kbin.userInstr 0 = some w) (hpc : s.pc c = .stage kbin 0)
    (hlock : s.globalLock = none) (hroom : nextSlot s.ring.tail ≠ s.ring.head) :
    ∃ s' es, (ringSystem ι 0).exec s (.access c :: sectionSteps c) = some (s',es) ∧
      s'.ring.head = s.ring.head ∧ s'.ring.tail = nextSlot s.ring.tail ∧ s'.globalLock = none ∧
      ∀ c', c' ≠ c → s'.pc c' = s.pc c' := by
  have hstage : stageFrom kbin 1 = .lock (.load kbin) := by simp [stageFrom, hsize]
  simp +contextual [sectionSteps, List.replicate, System.exec, ringSystem, step, State.access,
    hpc, hlock, hw, hstage, hroom, packetWords, RingBuffer.writeCmd, afterUnlock, State.setPc,
    Device.stage]

/-- And one that finds the ring full is refused. -/
theorem load_full {s : State ι} {c : ι} {kbin : KernelBinary} {w : UInt32}
    (hsize : kbin.instrSize = 1) (hw : kbin.userInstr 0 = some w) (hpc : s.pc c = .stage kbin 0)
    (hlock : s.globalLock = none) (hfull : nextSlot s.ring.tail = s.ring.head) :
    ∃ s' es, (ringSystem ι 0).exec s (List.replicate 5 (.access c)) = some (s',es) ∧
      s'.pc c = .done (.err .EBUSY) := by
  have hstage : stageFrom kbin 1 = .lock (.load kbin) := by simp [stageFrom, hsize]
  simp [List.replicate, System.exec, ringSystem, step, State.access,
    hpc, hlock, hw, hstage, hfull, State.setPc, Device.stage]

end FpgaGpu.Driver
