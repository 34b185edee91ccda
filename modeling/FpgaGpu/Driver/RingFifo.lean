import FpgaGpu.Driver.RingRefinement
import FpgaGpu.Library.History

/-! First in, first out, exactly once: what the queue gives the callers and the
firmware, and when a call is told that the ring is full. -/
namespace FpgaGpu.Driver
open Library

variable {ι : Type} [DecidableEq ι]

/-- The call found 511 descriptors pending when it read the head. -/
def SawFull (log : List (Event ι)) (c : ι) : Prop :=
  log.any (Event.headReadBy c) = true ∧
    pendingCount (before (Event.headReadBy c) log) = queueSize - 1

/-- A head once read is the head of that moment; the tail stays put while the
call holds the lock. -/
def HeadSeen (log : List (Event ι)) (c : ι) (head : UInt32) : Prop :=
  log.any (Event.headReadBy c) = true ∧
    head = slot (consumedCount (before (Event.headReadBy c) log)) ∧
    publishedCount (before (Event.headReadBy c) log) = publishedCount log ∧
    consumedCount (before (Event.headReadBy c) log) ≤ publishedCount log ∧
    publishedCount log < consumedCount (before (Event.headReadBy c) log) + queueSize

def BusyInv (log : List (Event ι)) (c : ι) : Pc → Prop
  | .ready | .stage _ _ | .lock _ | .readHead _ | .snapshot =>
      log.any (Event.headReadBy c) = false
  | .readTail _ head => HeadSeen log c head
  | .unlockBusy _ => SawFull log c
  | .done ret => ret = .err .EBUSY ↔ SawFull log c
  | _ => ¬SawFull log c

theorem sawFull_append {log es : List (Event ι)} {c : ι}
    (hes : es.any (Event.headReadBy c) = false) : SawFull (log ++ es) c ↔ SawFull log c := by
  by_cases hlog : log.any (Event.headReadBy c)
  · rw [SawFull, SawFull, before_append_of_any hlog, List.any_append, hes, Bool.or_false]
  · have hnone : log.any (Event.headReadBy c) = false := by simpa using hlog
    simp [SawFull, List.any_append, hes, hnone]

theorem not_sawFull_of_unread {log : List (Event ι)} {c : ι}
    (h : log.any (Event.headReadBy c) = false) : ¬SawFull log c := by
  simp [SawFull, h]

theorem headSeen_append {log es : List (Event ι)} {c : ι} {head : UInt32}
    (hpub : publishedIn es = []) (h : HeadSeen log c head) : HeadSeen (log ++ es) c head := by
  obtain ⟨hany,hrest⟩ := h
  rw [HeadSeen, before_append_of_any hany, List.any_append, hany, Bool.true_or]
  simpa [publishedCount, hpub] using hrest

/-- The events of another call, or of the firmware, change nothing here unless
they publish. -/
theorem busyInv_append {log es : List (Event ι)} {c : ι} {p : Pc}
    (hes : es.any (Event.headReadBy c) = false)
    (hpub : publishedIn es = [] ∨ ¬p.InSection) (h : BusyInv log c p) :
    BusyInv (log ++ es) c p := by
  have hany : log.any (Event.headReadBy c) = false →
      (log ++ es).any (Event.headReadBy c) = false := by
    intro hlog
    rw [List.any_append, hlog, hes, Bool.or_false]
  cases p with
  | ready | stage | lock | readHead | snapshot => exact hany h
  | readTail job head =>
    rcases hpub with hpub | hpub
    · exact headSeen_append hpub h
    · exact absurd trivial hpub
  | writeCmd | writeTail | ringIrq | unlock | unlockBusy | wait | done =>
    simpa only [BusyInv, sawFull_append hes] using h

theorem busyInv_stageFrom {log : List (Event ι)} {c : ι} (kbin : KernelBinary) (i : Nat)
    (h : log.any (Event.headReadBy c) = false) : BusyInv log c (stageFrom kbin i) := by
  unfold stageFrom
  split <;> exact h

theorem busyInv_error {log : List (Event ι)} {c : ι} {e : Errno} (he : e ≠ .EBUSY)
    (h : ¬SawFull log c) : BusyInv log c (.done (.err e)) := by
  simp [BusyInv, he, h]

theorem busyInv_entry {log : List (Event ι)} {c : ι} (queueMode : Int) (call : Call)
    (h : log.any (Event.headReadBy c) = false) : BusyInv log c (entry queueMode call) := by
  have hnot := not_sawFull_of_unread h
  unfold entry
  split
  next => exact busyInv_error (by decide) hnot
  next =>
    split
    · exact h
    · exact busyInv_error (by decide) hnot
  next =>
    split
    · exact h
    · exact busyInv_error (by decide) hnot
  next => exact busyInv_error (by decide) hnot
  next =>
    split
    · exact busyInv_error (by decide) hnot
    · exact busyInv_stageFrom _ _ h

/-- A step of call `c` carries the invariant of every other call along. -/
private theorem busyInv_setPc {log es : List (Event ι)} {s : State ι} {c : ι} {p : Pc}
    (ih : ∀ c', BusyInv log c' (s.pc c')) (hown : BusyInv (log ++ es) c p)
    (hread : ∀ c', c' ≠ c → es.any (Event.headReadBy c') = false)
    (hpub : publishedIn es = [] ∨ ∀ c', (s.pc c').InSection → c' = c) :
    ∀ c', BusyInv (log ++ es) c' ((s.setPc c p).pc c') := by
  intro c'
  by_cases hcc : c' = c
  · subst hcc
    simpa using hown
  · rw [State.setPc_pc_other _ _ _ hcc]
    exact busyInv_append (hread c' hcc) (hpub.imp_right fun h hin => hcc (h c' hin)) (ih c')

private theorem busyInv_quiet {log es : List (Event ι)} {s : State ι} {c : ι} {p : Pc}
    (ih : ∀ c', BusyInv log c' (s.pc c')) (hread : ∀ c', es.any (Event.headReadBy c') = false)
    (hpub : publishedIn es = []) (hown : BusyInv (log ++ es) c p) :
    ∀ c', BusyInv (log ++ es) c' ((s.setPc c p).pc c') :=
  busyInv_setPc ih hown (fun c' _ => hread c') (.inl hpub)

theorem busyInv_run {queueMode : Int} {log : List (Event ι)} {s : State ι}
    (h : (ringSystem ι queueMode).Run log s) : ∀ c, BusyInv log c (s.pc c) := by
  refine ring_invariant (I := fun log s => ∀ c, BusyInv log c (s.pc c)) ?_ ?_ h
  · intro s hs c
    rw [hs.2.2.2.1 c]
    rfl
  · intro log s a s' es hrun ih _ hrule
    have hrun : (ringSystem ι queueMode).Run log s := hrun
    obtain ⟨q,hrep,hpub,htaken,-⟩ := ring_represents hrun
    have hT : q.published.length = publishedCount log := by rw [hpub, publishedCount]
    -- events that are neither a head read nor a publication leave a call's facts alone
    have hkeep : ∀ c es, (∀ c' : ι, es.any (Event.headReadBy c') = false) → publishedIn es = [] →
        BusyInv (log ++ es) c (s.pc c) := fun c es h₁ h₂ => busyInv_append (h₁ c) (.inl h₂) (ih c)
    cases hrule with
    | start c call hpc =>
      have hown := hkeep c [.called c call] (fun _ => rfl) rfl
      rw [hpc] at hown
      exact busyInv_quiet ih (fun _ => rfl) rfl (busyInv_entry queueMode call hown)
    | stageFault c kbin i hpc hw =>
      have hown := hkeep c [] (fun _ => rfl) rfl
      rw [hpc] at hown
      exact busyInv_quiet ih (fun _ => rfl) rfl
        (busyInv_error (by decide) (not_sawFull_of_unread hown))
    | stageWord c kbin i w hpc hw =>
      have hown := hkeep c [.wrote c (.staging i) w] (fun _ => rfl) rfl
      rw [hpc] at hown
      exact busyInv_quiet (s := {s with dev := _}) ih (fun _ => rfl) rfl
        (busyInv_stageFrom kbin (i + 1) hown)
    | lock c job hpc hfree =>
      have hown := hkeep c [] (fun _ => rfl) rfl
      rw [hpc] at hown
      exact busyInv_quiet (s := {s with globalLock := _}) ih (fun _ => rfl) rfl hown
    | readHead c job hpc =>
      have hown := ih c
      rw [hpc] at hown
      have hbefore := before_append_first hown (e := .headRead c)
        (by simp [Event.headReadBy]) []
      have hle := q.taken_le
      have hlt := lt_room q
      refine busyInv_setPc ih ?_ (fun c' hcc => by simp [Event.headReadBy, Ne.symm hcc]) (.inl rfl)
      have hcount : publishedCount (log ++ [.headRead c]) = publishedCount log := by
        simp [publishedCount, publishedIn, Event.published?]
      refine ⟨by simp [Event.headReadBy],?_,?_,?_,?_⟩
      · rw [hbefore, hrep.head, htaken]
      · rw [hbefore, hcount]
      · rw [hbefore, hcount]
        omega
      · rw [hbefore, hcount]
        omega
    | readTailFull c job head hpc hfull =>
      have hown := ih c
      rw [hpc] at hown
      obtain ⟨hany,hhead,htail,hle,hlt⟩ := hown
      refine busyInv_quiet ih (fun _ => rfl) rfl ?_
      rw [hrep.tail, hT, nextSlot_slot, hhead, slot_eq_iff, next_mod_eq_iff hle hlt] at hfull
      rw [List.append_nil]
      refine ⟨hany,?_⟩
      rw [pendingCount, htail]
      omega
    | readTailRoom c job head hpc hroom =>
      have hown := ih c
      rw [hpc] at hown
      obtain ⟨hany,hhead,htail,hle,hlt⟩ := hown
      refine busyInv_quiet ih (fun _ => rfl) rfl ?_
      rw [hrep.tail, hT, nextSlot_slot, hhead, ne_eq, slot_eq_iff, next_mod_eq_iff hle hlt] at hroom
      rw [List.append_nil]
      rintro ⟨-,hfull⟩
      rw [pendingCount, htail] at hfull
      exact hroom (by simp only [queueSize] at hfull hlt ⊢; omega)
    | writeCmd c job tail j hpc =>
      have hown := hkeep c [.wrote c (.cmd tail.toNat j) (job.task.word j)] (fun _ => rfl) rfl
      rw [hpc] at hown
      refine busyInv_quiet (s := {s with ring := _}) ih (fun _ => rfl) rfl ?_
      split <;> exact hown
    | writeTail c job tail hpc =>
      have hown := ih c
      rw [hpc] at hown
      refine busyInv_setPc (s := {s with ring := _}) ih ?_ (fun _ _ => rfl)
        (.inr fun c' hc' => section_unique hrun hc' (by simp [hpc, Pc.InSection]))
      exact fun hfull => hown ((sawFull_append rfl).mp hfull)
    | ringIrq c job tail hpc =>
      have hown := hkeep c [.wrote c .irq 1] (fun _ => rfl) rfl
      rw [hpc] at hown
      exact busyInv_quiet ih (fun _ => rfl) rfl hown
    | unlock c job tail hpc =>
      have hown := hkeep c [] (fun _ => rfl) rfl
      rw [hpc] at hown
      refine busyInv_quiet (s := {s with globalLock := _}) ih (fun _ => rfl) rfl ?_
      cases job with
      | submit cmd => simpa [afterUnlock, BusyInv] using hown
      | load kbin => exact hown
    | unlockBusy c job hpc =>
      have hown := hkeep c [] (fun _ => rfl) rfl
      rw [hpc] at hown
      refine busyInv_quiet (s := {s with globalLock := _}) ih (fun _ => rfl) rfl ?_
      simpa [BusyInv] using hown
    | snapshot c hpc =>
      have hown := hkeep c [.tailRead c] (fun _ => rfl) rfl
      rw [hpc] at hown
      exact busyInv_quiet ih (fun _ => rfl) rfl (not_sawFull_of_unread hown)
    | testTrue c target a otherwise hpc ha hheld =>
      have hown := hkeep c [.tested c true] (fun _ => rfl) rfl
      rw [hpc] at hown
      refine busyInv_quiet ih (fun _ => rfl) rfl ?_
      simpa [BusyInv] using hown
    | testFalse c target a otherwise hpc ha hheld =>
      have hown := hkeep c [.tested c false] (fun _ => rfl) rfl
      rw [hpc] at hown
      refine busyInv_quiet ih (fun _ => rfl) rfl ?_
      cases ha with
      | retry => exact hown
      | expire => exact busyInv_error (by decide) hown
      | interrupt => exact busyInv_error (by decide) hown
    | fwExec | fwCommit => exact fun c => hkeep c _ (fun _ => rfl) rfl
    | _ => exact fun c => hkeep c [] (fun _ => rfl) rfl

/-- Descriptor words only ever go to slots and words that exist. -/
theorem cmd_writes_in_bounds {queueMode : Int} {log : List (Event ι)} {s : State ι}
    (h : (ringSystem ι queueMode).Run log s) :
    ∀ c i j value, .wrote c (.cmd i j) value ∈ log → i < queueSize ∧ j < packetWords := by
  refine ring_invariant (I := fun log _ => ∀ c i j value,
    .wrote c (.cmd i j) value ∈ log → i < queueSize ∧ j < packetWords) ?_ ?_ h
  · intro s _ c i j value hmem
    simp at hmem
  · intro log s a s' es hrun ih _ hrule c i j value hmem
    rcases List.mem_append.mp hmem with hold | hnew
    · exact ih c i j value hold
    · cases hrule with
      | writeCmd c' job tail j' hpc =>
        simp only [List.mem_singleton, Event.wrote.injEq, Reg.cmd.injEq] at hnew
        obtain ⟨-,⟨rfl,rfl⟩,-⟩ := hnew
        exact (writeCmd_tail hrun hpc).2
      | _ => simp at hnew

/-- Every interleaving of any number of callers with the firmware delivers the
published descriptors in order, each once and complete. Pending descriptors are
intact, the ring is never overrun, and -EBUSY means exactly that it was full
when the call looked. -/
theorem ring_fifo_exactly_once {queueMode : Int} {log : List (Event ι)} {s : State ι}
    (h : (ringSystem ι queueMode).Run log s) :
    consumedIn log <+: (publishedIn log).map (fun x => x.2.task.words) ∧
      (∀ p c job, consumedCount log ≤ p → (publishedIn log)[p]? = some (c,job) →
        ∀ j < packetWords, s.ring.cmds (p % queueSize) j = job.task.word j) ∧
      s.ring.head.toNat < 512 ∧ s.ring.tail.toNat < 512 ∧
      (∀ c i j value, .wrote c (.cmd i j) value ∈ log → i < 512 ∧ j < packetWords) ∧
      pendingCount log ≤ 511 ∧
      ∀ c ret, s.pc c = .done ret → (ret = .err .EBUSY ↔
        log.any (Event.headReadBy c) = true ∧
          pendingCount (before (Event.headReadBy c) log) = 511) := by
  obtain ⟨q,hrep,hpub,htaken,-⟩ := ring_represents h
  have hpending := q.pending_le
  refine ⟨consumed_initial h,?_,?_,?_,cmd_writes_in_bounds h,?_,?_⟩
  · intro p c job hp hget
    exact hrep.pending p job.task (htaken ▸ hp) ⟨c,job,hpub ▸ hget,rfl⟩
  · rw [hrep.head, slot_toNat]
    exact Nat.mod_lt _ (by decide)
  · rw [hrep.tail, slot_toNat]
    exact Nat.mod_lt _ (by decide)
  · rw [hpub, htaken] at hpending
    simp only [pendingCount, publishedCount, queueSize] at hpending ⊢
    omega
  · intro c ret hpc
    have hbusy := busyInv_run h c
    rw [hpc] at hbusy
    exact hbusy

def oneLaunch : LaunchCmd := ⟨opcodeLaunchKernel,4,1,8,1,0,0,32⟩
def halfLaunch : LaunchCmd := ⟨opcodeLaunchKernel,2,1,8,1,0,0,16⟩

/-- One launch, published and consumed. -/
def oneLaunchSteps : List (Action Nat) :=
  .start 0 (.submitCmd (some oneLaunch)) :: (sectionSteps 0 ++ firmwareTurn)

theorem oneLaunch_runs : ((ringSystem Nat 0).exec (probed Nat) oneLaunchSteps).isSome = true := by
  decide

/-- Call 0 comes first and call 1 gets the lock first. The firmware has seen an empty
ring before, and takes the first descriptor while the second is being written. -/
def twoLaunches : List (Action Nat) :=
  [.start 0 (.submitCmd (some oneLaunch)),.firmware,.start 1 (.submitCmd (some halfLaunch)),
    .firmware] ++ sectionSteps 1 ++ List.replicate 11 (.access 0) ++ firmwareTurn ++
    List.replicate 11 (.access 0) ++ firmwareTurn

theorem twoLaunches_runs :
    ((ringSystem Nat 0).exec (probed Nat) twoLaunches).isSome = true := by
  decide

theorem ring_fifo_two_launches : ∃ log s, (ringSystem Nat 0).Run log s ∧
    (publishedIn log).map Prod.fst = [1,0] ∧
    consumedIn log = [(submitTask halfLaunch).words,(submitTask oneLaunch).words] ∧
    consumedIn log <+: (publishedIn log).map (fun x => x.2.task.words) ∧
    s.pc 0 = .done .ok ∧ s.pc 1 = .done .ok ∧ ¬SawFull log 0 ∧ ¬SawFull log 1 := by
  have hrun := System.Run.of_exec (S := ringSystem Nat 0) (probed_init Nat) twoLaunches
    twoLaunches_runs
  obtain ⟨horder,-,-,-,-,-,hbusy⟩ := ring_fifo_exactly_once hrun
  have hroom : ∀ c, (((ringSystem Nat 0).exec (probed Nat) twoLaunches).get
      twoLaunches_runs).1.pc c = .done .ok → ¬SawFull (((ringSystem Nat 0).exec (probed Nat)
        twoLaunches).get twoLaunches_runs).2 c := by
    intro c hpc hfull
    exact absurd ((hbusy c _ hpc).mpr hfull) (by decide)
  exact ⟨_,_,hrun,by decide,by decide,horder,rfl,rfl,hroom 0 rfl,hroom 1 rfl⟩

end FpgaGpu.Driver
