import FpgaGpu.Driver.CallHistory
import FpgaGpu.Driver.RingFifo
import FpgaGpu.Umd.ClStatus

/-! What a finished wait means, and when a wait misses that it is over. Both
wait conditions compare ring positions for equality. The firmware is never 512
behind a waiter's target, so equality is never reached too early; but the
firmware may be past the target when the condition is looked at. -/
namespace FpgaGpu.Driver
open Library Umd

variable {ι : Type}

/-- The `p`-th published descriptor has been consumed. -/
def ConsumedAt (log : List (Event ι)) (p : Nat) : Prop :=
  ∃ c job, (publishedIn log)[p]? = some (c,job) ∧ (consumedIn log)[p]? = some job.task.words

variable [DecidableEq ι]

theorem consumedAt_of_lt {queueMode : Int} {log : List (Event ι)} {s : State ι}
    (h : (ringSystem ι queueMode).Run log s) {p : Nat} (hp : p < consumedCount log) :
    ConsumedAt log p := by
  have hprefix := consumed_initial h
  have hlt : p < (publishedIn log).length := by
    have hle := hprefix.length_le
    rw [List.length_map] at hle
    exact lt_of_lt_of_le hp hle
  refine ⟨_,_,List.getElem?_eq_getElem hlt,?_⟩
  rw [List.getElem?_eq_getElem hp, hprefix.getElem hp, List.getElem_map]
  rfl

/-- What a call that returned 0 can rely on. -/
theorem awaited_of_done {queueMode : Int} {log : List (Event ι)} {s : State ι}
    (h : (ringSystem ι queueMode).Run log s) {c : ι} (hpc : s.pc c = .done .ok) :
    Awaiting log c ∧ awaited log c ≤ consumedCount log ∨
      ∃ cmd, CalledAs log c (.submitCmd (some cmd)) ∧ PublishedAs log c (.submit cmd) := by
  have hinv := callInv_run h c
  rwa [hpc] at hinv

theorem doorbell_sound {queueMode : Int} {log : List (Event ι)} {s : State ι}
    (h : (ringSystem ι queueMode).Run log s) {c : ι} (hcalled : .called c .doorbell ∈ log)
    (hpc : s.pc c = .done .ok) :
    log.any (Event.tailReadBy c) = true ∧
      ∀ p < publishedCount (before (Event.tailReadBy c) log), ConsumedAt log p := by
  rcases awaited_of_done h hpc with ⟨⟨-,hany⟩ | ⟨kbin,hload,-⟩,hpassed⟩ | ⟨cmd,hsubmit,-⟩
  · refine ⟨hany,fun p hp => consumedAt_of_lt h (lt_of_lt_of_le ?_ hpassed)⟩
    rwa [awaited, if_pos hany]
  · cases (hload _).mp hcalled
  · cases (hsubmit _).mp hcalled

theorem load_sound {queueMode : Int} {log : List (Event ι)} {s : State ι}
    (h : (ringSystem ι queueMode).Run log s) {c : ι} {kbin : KernelBinary}
    (hcalled : .called c (.loadKernel (some kbin)) ∈ log) (hpc : s.pc c = .done .ok) :
    ∃ p, (∀ p' job, (publishedIn log)[p']? = some (c,job) ↔ p' = p ∧ job = .load kbin) ∧
      ConsumedAt log p := by
  rcases awaited_of_done h hpc with ⟨⟨hbell,-⟩ | ⟨kbin',hload,hpub⟩,hpassed⟩ | ⟨cmd,hsubmit,-⟩
  · cases (hbell _).mp hcalled
  · obtain rfl : kbin = kbin' := by simpa using (hload _).mp hcalled
    obtain ⟨-,p,hp,hget⟩ := hpub
    exact ⟨p,hget,consumedAt_of_lt h (by omega)⟩
  · cases (hsubmit _).mp hcalled

/-- A wait that ends well has not ended early: DOORBELL, and `clFinish` by it,
return success only after everything published before the tail was read has been
consumed, LOAD_KERNEL only after its own descriptor has been. -/
theorem completion_sound {queueMode : Int} {log : List (Event ι)} {s : State ι}
    (h : (ringSystem ι queueMode).Run log s) (c : ι) :
    (.called c .doorbell ∈ log → ∀ ret, s.pc c = .done ret →
      (ret = .ok ∨ ∃ commandQueue, clFinish commandQueue ret = .CL_SUCCESS) →
      log.any (Event.tailReadBy c) = true ∧
        ∀ p < publishedCount (before (Event.tailReadBy c) log), ConsumedAt log p) ∧
    ∀ kbin, .called c (.loadKernel (some kbin)) ∈ log → s.pc c = .done .ok →
      ∃ p, (∀ p' job, (publishedIn log)[p']? = some (c,job) ↔ p' = p ∧ job = .load kbin) ∧
        ConsumedAt log p := by
  constructor
  · intro hcalled ret hpc hret
    have hok : ret = .ok := by
      rcases hret with hok | ⟨commandQueue,hfinish⟩
      · exact hok
      · exact clFinish_success hfinish
    subst hok
    exact doorbell_sound h hcalled hpc
  · intro kbin hcalled hpc
    exact load_sound h hcalled hpc

/-- A LOAD_KERNEL of one word by call 1, and then a DOORBELL by call 2. -/
def loadThenFinish : List (Action Nat) :=
  [Action.start 1 (.loadKernel (some ⟨fun _ => some 7,1,1⟩)),.access 1] ++ sectionSteps 1 ++
    firmwareTurn ++ [Action.access 1,.start 2 .doorbell,.access 2,.access 2]

theorem loadThenFinish_runs :
    ((ringSystem Nat 0).exec (probed Nat) loadThenFinish).isSome = true := by
  decide

theorem completion_sound_load : ∃ log s, (ringSystem Nat 0).Run log s ∧
    s.pc 1 = .done .ok ∧ s.pc 2 = .done .ok ∧
    publishedCount (before (Event.tailReadBy 2) log) = 1 ∧ ConsumedAt log 0 := by
  have hrun := System.Run.of_exec (S := ringSystem Nat 0) (probed_init Nat) loadThenFinish
    loadThenFinish_runs
  have hsound := (completion_sound hrun 2).1 (List.mem_of_getElem? (i := 25) rfl) _ rfl (.inl rfl)
  exact ⟨_,_,hrun,rfl,rfl,by decide,hsound.2 0 (by decide)⟩

/-! Missed completions. -/

/-- Every evaluation made once the firmware has reached the waiter's target holds. -/
def NotMissed (log : List (Event ι)) : Prop :=
  ∀ pre c held post, log = pre ++ .tested c held :: post →
    awaited pre c ≤ consumedCount pre → held = true

theorem NotMissed.at {log : List (Event ι)} (h : NotMissed log) {i : Nat} {c : ι} {held : Bool}
    (hi : log[i]? = some (.tested c held))
    (hpassed : awaited (log.take i) c ≤ consumedCount (log.take i)) : held = true := by
  refine h (log.take i) c held (log.drop (i + 1)) ?_ hpassed
  obtain ⟨hlt,hget⟩ := List.getElem?_eq_some_iff.mp hi
  rw [← hget, List.getElem_cons_drop, List.take_append_drop]

/-- A wait condition is evaluated only while what the firmware has consumed
beyond the waiter's target is nothing, or whole turns of the ring. -/
def OnTarget (log : List (Event ι)) (s : State ι) (a : Action ι) : Prop :=
  ∀ c target otherwise, s.pc c = .wait target → WaitAction c target a otherwise →
    awaited log c ≤ consumedCount log →
    (consumedCount log - awaited log c) % queueSize = 0

/-- A wait compares the wrapped positions of the firmware and of its target. -/
theorem tested_iff {queueMode : Int} {log : List (Event ι)} {s s' : State ι} {a : Action ι}
    {es : List (Event ι)} (h : (ringSystem ι queueMode).Run log s)
    (hrule : Rule queueMode s a s' es) {c : ι} {held : Bool} (hmem : .tested c held ∈ es) :
    es = [.tested c held] ∧ (∃ target otherwise, s.pc c = .wait target ∧
      WaitAction c target a otherwise) ∧
    (held = true ↔ consumedCount log % queueSize = awaited log c % queueSize) := by
  obtain ⟨q,hrep,-,htaken,-⟩ := ring_represents h
  have hinv := callInv_run h c
  cases hrule with
  | testTrue c' target a otherwise hpc ha hheld =>
    obtain ⟨rfl,rfl⟩ : c = c' ∧ held = true := by simpa using hmem
    rw [hpc] at hinv
    refine ⟨rfl,⟨target,otherwise,hpc,ha⟩,iff_of_true rfl ?_⟩
    rw [← slot_eq_iff, ← hinv.2.1, ← hheld, hrep.head, htaken]
  | testFalse c' target a otherwise hpc ha hheld =>
    obtain ⟨rfl,rfl⟩ : c = c' ∧ held = false := by simpa using hmem
    rw [hpc] at hinv
    refine ⟨rfl,⟨target,otherwise,hpc,ha⟩,iff_of_false (by simp) ?_⟩
    rwa [← slot_eq_iff, ← hinv.2.1, ← htaken, ← hrep.head]
  | _ => simp at hmem

theorem notMissed_of_onTarget {queueMode : Int} {log : List (Event ι)} {s : State ι}
    (h : (ringSystem ι queueMode).RunWith OnTarget log s) : NotMissed log := by
  suffices hevents : ∀ pre e post, log = pre ++ e :: post → ∀ c held, e = .tested c held →
      awaited pre c ≤ consumedCount pre → held = true from
    fun pre c held post heq => hevents pre _ post heq c held rfl
  refine h.event_of_step (P := fun pre e => ∀ c held, e = .tested c held →
    awaited pre c ≤ consumedCount pre → held = true) ?_
  rintro log s a s' es hrun hok hstep pre e post hes c held rfl hpassed
  obtain ⟨rfl,⟨target,otherwise,hpc,ha⟩,hheld⟩ :=
    tested_iff hrun.run (rule_of_step hstep) (by simp [hes] : .tested c held ∈ es)
  obtain ⟨rfl,-⟩ : pre = [] ∧ _ := by simpa [List.singleton_eq_append_iff] using hes
  rw [List.append_nil] at hpassed
  exact hheld.mpr ((mod_eq_iff_turns hpassed).mpr (hok c target otherwise hpc ha hpassed))

theorem onTarget_of_notMissed {queueMode : Int} {log : List (Event ι)} {s : State ι}
    (h : (ringSystem ι queueMode).Run log s) (hnot : NotMissed log) :
    (ringSystem ι queueMode).RunWith OnTarget log s := by
  induction h with
  | init hs => exact .init hs
  | @step log s a s' es hrun _ hstep ih =>
    have hlog : NotMissed log := by
      intro pre c held post heq
      exact hnot pre c held (post ++ es) (by simp [heq])
    refine .step (ih hlog) ?_ hstep
    intro c target otherwise hpc ha hpassed
    -- whatever the outcome, the evaluation is the one event of this step
    obtain ⟨held,hmem⟩ : ∃ held, .tested c held ∈ es := by
      cases ha <;>
        simp only [ringSystem, step, State.access, State.giveUp, hpc, State.test] at hstep <;>
        obtain ⟨-,rfl⟩ := Prod.mk.inj (Option.some.inj hstep) <;>
        exact ⟨_,List.mem_singleton_self _⟩
    obtain ⟨rfl,-,hheld⟩ := tested_iff hrun (rule_of_step hstep) hmem
    exact (mod_eq_iff_turns hpassed).mp (hheld.mp (hnot log c held [] rfl hpassed))

/-- The runs in which no completion is missed are those whose waits are looked
at before the firmware goes beyond the target, whole turns apart. -/
theorem completion_not_missed_iff {queueMode : Int} {log : List (Event ι)} {s : State ι}
    (h : (ringSystem ι queueMode).Run log s) :
    NotMissed log ↔ (ringSystem ι queueMode).RunWith OnTarget log s :=
  ⟨onTarget_of_notMissed h,notMissed_of_onTarget⟩

def Event.missed : Event ι → Bool
  | .tested _ held => !held
  | _ => false

theorem completion_not_missed_load : ∃ log s, (ringSystem Nat 0).Run log s ∧
    s.pc 1 = .done .ok ∧ s.pc 2 = .done .ok ∧ (ringSystem Nat 0).RunWith OnTarget log s := by
  have hrun := System.Run.of_exec (S := ringSystem Nat 0) (probed_init Nat) loadThenFinish
    loadThenFinish_runs
  refine ⟨_,_,hrun,rfl,rfl,(completion_not_missed_iff hrun).mp ?_⟩
  have hnone : (((ringSystem Nat 0).exec (probed Nat) loadThenFinish).get
    loadThenFinish_runs).2.any Event.missed = false := by decide
  intro pre c held post heq _
  have hmem := List.any_eq_false.mp hnone (.tested c held) (by simp [heq])
  simpa [Event.missed] using hmem

/-- Call 1 waits for the launch of call 0. Before it is scheduled again, the
firmware has also finished the launch of call 2. -/
def overtaken : List (Action Nat) :=
  Action.start 0 (.submitCmd (some oneLaunch)) :: sectionSteps 0 ++
    [Action.start 1 .doorbell,.access 1] ++
    Action.start 2 (.submitCmd (some oneLaunch)) :: sectionSteps 2 ++
    firmwareTurn ++ firmwareTurn ++ [Action.access 1,.expire 1]

theorem overtaken_runs : ((ringSystem Nat 0).exec (probed Nat) overtaken).isSome = true := by
  decide

/-- The waiter goes back to sleep and reports -ETIMEDOUT, its work being done. -/
theorem overtaken_doorbell_times_out : ∃ log s, (ringSystem Nat 0).Run log s ∧
    s.pc 1 = .done (.err .ETIMEDOUT) ∧ awaited log 1 = 1 ∧ consumedCount log = 2 ∧
    ¬NotMissed log := by
  have hrun := System.Run.of_exec (S := ringSystem Nat 0) (probed_init Nat) overtaken
    overtaken_runs
  refine ⟨_,_,hrun,rfl,by decide,by decide,fun hnot => ?_⟩
  exact absurd (hnot.at (i := 48) (c := 1) rfl (by decide)) (by decide)

end FpgaGpu.Driver
