import FpgaGpu.Driver.Histories
import FpgaGpu.Driver.Rules

/-! The section between `spin_lock` and `spin_unlock`, common to SUBMIT_CMD and
LOAD_KERNEL, is entered by one call at a time; the copy loop before it stays
within the words LOAD_KERNEL was given. -/
namespace FpgaGpu.Driver
open Library

variable {ι : Type}

/-- Between `spin_lock` and `spin_unlock`. -/
def Pc.InSection : Pc → Prop
  | .readHead _ | .readTail _ _ | .writeCmd _ _ _ | .writeTail _ _ | .ringIrq _ _
  | .unlock _ _ | .unlockBusy _ => True
  | _ => False

@[simp] theorem stageFrom_not_inSection (kbin : KernelBinary) (i : Nat) :
    ¬(stageFrom kbin i).InSection := by
  unfold stageFrom
  split <;> simp [Pc.InSection]

@[simp] theorem entry_not_inSection (queueMode : Int) (call : Call) :
    ¬(entry queueMode call).InSection := by
  unfold entry
  split
  next => simp [Pc.InSection]
  next => split <;> simp [Pc.InSection]
  next => split <;> simp [Pc.InSection]
  next => simp [Pc.InSection]
  next =>
    split
    · simp [Pc.InSection]
    · exact stageFrom_not_inSection _ _

@[simp] theorem afterUnlock_not_inSection (job : Job) (tail : UInt32) :
    ¬(afterUnlock job tail).InSection := by
  cases job <;> simp [afterUnlock, Pc.InSection]

theorem WaitAction.not_inSection {c : ι} {target : UInt32} {a : Action ι} {otherwise : Pc}
    (h : WaitAction c target a otherwise) : ¬otherwise.InSection := by
  cases h <;> simp [Pc.InSection]

variable [DecidableEq ι]

/-- A step of call `c` from outside the section keeps the lock discipline. -/
private theorem holder_setPc {s : State ι} {c : ι} {p : Pc}
    (h : ∀ c, (s.pc c).InSection → s.globalLock = some c)
    (hp : p.InSection → s.globalLock = some c) :
    ∀ c', ((s.setPc c p).pc c').InSection → (s.setPc c p).globalLock = some c' := by
  intro c' hc'
  by_cases hcc : c' = c
  · subst hcc
    exact hp (by simpa using hc')
  · exact h c' (by simpa [hcc] using hc')

/-- Only the holder of the lock is inside the section. -/
theorem section_holds_lock {queueMode : Int} {log : List (Event ι)} {s : State ι}
    (h : (ringSystem ι queueMode).Run log s) :
    ∀ c, (s.pc c).InSection → s.globalLock = some c := by
  refine ring_invariant (I := fun _ s => ∀ c, (s.pc c).InSection → s.globalLock = some c) ?_ ?_ h
  · intro s hs c hc
    simp [hs.2.2.2.1 c, Pc.InSection] at hc
  · intro log s a s' es _ ih _ hrule
    have hlock : ∀ (c : ι) (p : Pc), (s.pc c).InSection → p.InSection → s.globalLock = some c :=
      fun c _ hc _ => ih c hc
    cases hrule with
    | start c call => exact holder_setPc ih (by simp)
    | stageFault => exact holder_setPc ih (by simp [Pc.InSection])
    | stageWord => exact holder_setPc (s := {s with dev := _}) ih (by simp)
    | lock c job hpc hfree =>
      refine holder_setPc (s := {s with globalLock := some c}) ?_ (by simp)
      intro c' hc'
      simp [hfree] at ih
      exact absurd hc' (ih c')
    | readHead c job hpc => exact holder_setPc ih (hlock c _ (by simp [hpc, Pc.InSection]))
    | readTailFull c job head hpc => exact holder_setPc ih (hlock c _ (by simp [hpc, Pc.InSection]))
    | readTailRoom c job head hpc => exact holder_setPc ih (hlock c _ (by simp [hpc, Pc.InSection]))
    | writeCmd c job tail j hpc =>
      exact holder_setPc (s := {s with ring := _}) ih (hlock c _ (by simp [hpc, Pc.InSection]))
    | writeTail c job tail hpc =>
      exact holder_setPc (s := {s with ring := _}) ih (hlock c _ (by simp [hpc, Pc.InSection]))
    | ringIrq c job tail hpc => exact holder_setPc ih (hlock c _ (by simp [hpc, Pc.InSection]))
    | unlock c job tail hpc =>
      -- the call that unlocks is the only one inside
      intro c' hc'
      by_cases hcc : c' = c
      · simp [hcc] at hc'
      · have h₁ := ih c (by simp [hpc, Pc.InSection])
        have h₂ := ih c' (by simpa [hcc] using hc')
        exact absurd (Option.some.inj (h₂.symm.trans h₁)) hcc
    | unlockBusy c job hpc =>
      intro c' hc'
      by_cases hcc : c' = c
      · simp [hcc, Pc.InSection] at hc'
      · have h₁ := ih c (by simp [hpc, Pc.InSection])
        have h₂ := ih c' (by simpa [hcc] using hc')
        exact absurd (Option.some.inj (h₂.symm.trans h₁)) hcc
    | snapshot => exact holder_setPc ih (by simp [Pc.InSection])
    | testTrue => exact holder_setPc ih (by simp [Pc.InSection])
    | testFalse c target a otherwise hpc ha =>
      exact holder_setPc ih fun hp => absurd hp ha.not_inSection
    | _ => exact ih

theorem section_unique {queueMode : Int} {log : List (Event ι)} {s : State ι}
    (h : (ringSystem ι queueMode).Run log s) {c c' : ι} (hc : (s.pc c).InSection)
    (hc' : (s.pc c').InSection) : c = c' :=
  Option.some.inj ((section_holds_lock h c hc).symm.trans (section_holds_lock h c' hc'))

/-- A step publishes nothing or what the call in the section has to publish. -/
theorem Rule.publishes {queueMode : Int} {s s' : State ι} {a : Action ι} {es : List (Event ι)}
    (h : Rule queueMode s a s' es) : publishedIn es = [] ∨
      ∃ c job tail, s.pc c = .writeTail job tail ∧ publishedIn es = [(c,job)] := by
  cases h with
  | writeTail c job tail hpc => exact .inr ⟨c,job,tail,hpc,by simp⟩
  | _ => exact .inl rfl

/-- A word that goes to a slot is one of the task that its call has to publish. -/
theorem Rule.writes_cmd {queueMode : Int} {s s' : State ι} {a : Action ι} {es : List (Event ι)}
    (h : Rule queueMode s a s' es) {c : ι} {i j : Nat} {value : UInt32}
    (hmem : .wrote c (.cmd i j) value ∈ es) :
    ∃ job tail, s.pc c = .writeCmd job tail j ∧ value = job.task.word j := by
  cases h with
  | writeCmd c' job tail j' hpc =>
    simp only [List.mem_singleton, Event.wrote.injEq, Reg.cmd.injEq] at hmem
    obtain ⟨rfl,⟨-,rfl⟩,rfl⟩ := hmem
    exact ⟨job,tail,hpc,rfl⟩
  | _ => simp at hmem

/-- A step runs nothing or the task the firmware has fetched. -/
theorem Rule.executes {queueMode : Int} {s s' : State ι} {a : Action ι} {es : List (Event ι)}
    (h : Rule queueMode s a s' es) : executedIn es = [] ∨
      ∃ head desc, s.fw = .exec head desc ∧ es = [.executed desc s.dev] ∧
        s'.dev = s.dev.execute desc := by
  cases h with
  | fwExec head desc hfw => exact .inr ⟨head,desc,hfw,rfl,rfl⟩
  | _ => exact .inl rfl

/-- LOAD_KERNEL stages at most 1024 words. -/
def StageInv (p : Pc) : Prop :=
  ∀ kbin i, p = .stage kbin i → i < kbin.instrSize.toNat ∧ kbin.instrSize.toNat ≤ 1024

theorem stageInv_stageFrom {kbin : KernelBinary} (hsize : kbin.instrSize.toNat ≤ 1024)
    (i : Nat) : StageInv (stageFrom kbin i) := by
  intro kbin' i' heq
  unfold stageFrom at heq
  split at heq
  next hlt =>
    obtain ⟨rfl,rfl⟩ := Pc.stage.inj heq
    exact ⟨hlt,hsize⟩
  next => contradiction

theorem stageInv_entry (queueMode : Int) (call : Call) : StageInv (entry queueMode call) := by
  unfold entry
  split
  next => exact fun _ _ h => nomatch h
  next => split <;> exact fun _ _ h => nomatch h
  next => split <;> exact fun _ _ h => nomatch h
  next => exact fun _ _ h => nomatch h
  next kbin =>
    split
    next => exact fun _ _ h => nomatch h
    next hcheck =>
      have hle : kbin.instrSize ≤ 1024 := UInt32.not_lt.mp fun h => hcheck (.inr h)
      exact stageInv_stageFrom (UInt32.le_iff_toNat_le.mp hle) 0

theorem stageInv_run {queueMode : Int} {log : List (Event ι)} {s : State ι}
    (h : (ringSystem ι queueMode).Run log s) : ∀ c, StageInv (s.pc c) := by
  have hset : ∀ (s : State ι) c p, (∀ c, StageInv (s.pc c)) → StageInv p →
      ∀ c', StageInv ((s.setPc c p).pc c') := by
    intro s c p ih hp c'
    by_cases hcc : c' = c
    · simpa [hcc] using hp
    · simpa [hcc] using ih c'
  refine ring_invariant (I := fun _ s => ∀ c, StageInv (s.pc c)) ?_ ?_ h
  · intro s hs c kbin i hpc
    simp [hs.2.2.2.1 c] at hpc
  · intro log s a s' es _ ih _ hrule
    cases hrule with
    | start c call hpc => exact hset _ _ _ ih (stageInv_entry queueMode call)
    | stageWord c kbin i w hpc hw =>
      exact hset {s with dev := _} _ _ ih (stageInv_stageFrom (ih c kbin i hpc).2 _)
    | lock => exact hset {s with globalLock := _} _ _ ih fun _ _ h => nomatch h
    | writeCmd c job tail j hpc =>
      apply hset {s with ring := _} _ _ ih
      split <;> exact fun _ _ h => nomatch h
    | writeTail => exact hset {s with ring := _} _ _ ih fun _ _ h => nomatch h
    | unlock c job tail hpc =>
      apply hset {s with globalLock := _} _ _ ih
      cases job <;> exact fun _ _ h => nomatch h
    | unlockBusy => exact hset {s with globalLock := _} _ _ ih fun _ _ h => nomatch h
    | testFalse c target a otherwise hpc ha hheld =>
      apply hset _ _ _ ih
      cases ha <;> exact fun _ _ h => nomatch h
    | stageFault | readHead | readTailFull | readTailRoom | ringIrq | snapshot | testTrue =>
      exact hset _ _ _ ih fun _ _ h => nomatch h
    | _ => exact ih

end FpgaGpu.Driver
