import FpgaGpu.Driver.Completion
import FpgaGpu.Driver.Execution

/-! Who owns the staging area. LOAD_KERNEL fills it before it takes the lock and
waits after it has released it, so the area is a call's own only as long as no
other LOAD_KERNEL comes along. -/
namespace FpgaGpu.Driver
open Library

def Job.staged : Job → Option (KernelBinary × Nat)
  | .submit _ => none
  | .load kbin => some (kbin,kbin.instrSize.toNat)

/-- The program a call has staged and not yet published, and how many words. -/
def Pc.staged : Pc → Option (KernelBinary × Nat)
  | .stage kbin i => some (kbin,i)
  | .lock job | .readHead job | .readTail job _ | .writeCmd job _ _ | .writeTail job _ =>
      job.staged
  | _ => none

/-- The first `n` words of the staging area are those of the caller. -/
def Staged (dev : Device) (kbin : KernelBinary) (n : Nat) : Prop :=
  ∀ i < n, kbin.userInstr i = some (dev.staging i)

theorem staged_zero (dev : Device) (kbin : KernelBinary) : Staged dev kbin 0 := by
  intro i hi
  omega

theorem Staged.congr {dev dev' : Device} {kbin : KernelBinary} {n : Nat}
    (h : Staged dev kbin n) (hdev : dev'.staging = dev.staging) : Staged dev' kbin n := by
  rwa [Staged, hdev]

theorem Staged.succ {dev : Device} {kbin : KernelBinary} {i : Nat} {w : UInt32}
    (h : Staged dev kbin i) (hw : kbin.userInstr i = some w) :
    Staged (dev.stage i w) kbin (i + 1) := by
  intro j hj
  by_cases hji : j = i
  · simp [hji, hw, Device.stage]
  · simpa [Device.stage, hji] using h j (by omega)

/-- Overwriting a word with itself, or a word not yet staged, does no harm. -/
theorem Staged.overwrite {dev : Device} {kbin : KernelBinary} {n i : Nat} {w : UInt32}
    (h : Staged dev kbin n) (hw : i < n → kbin.userInstr i = some w) :
    Staged (dev.stage i w) kbin n := by
  intro j hj
  by_cases hji : j = i
  · subst hji
    simp [hw hj, Device.stage]
  · simpa [Device.stage, hji] using h j hj

@[simp] theorem execute_staging (dev : Device) (desc : List UInt32) :
    (dev.execute desc).staging = dev.staging := by
  unfold Device.execute
  split <;> rfl

theorem staged_stageFrom {kbin : KernelBinary} {i : Nat} (hi : i ≤ kbin.instrSize.toNat) :
    (stageFrom kbin i).staged = some (kbin,i) := by
  unfold stageFrom
  split
  next => rfl
  next hge =>
    have heq : kbin.instrSize.toNat = i := by omega
    simp [Pc.staged, Job.staged, heq]

theorem staged_entry {queueMode : Int} {call : Call} {kbin : KernelBinary} {n : Nat}
    (h : (entry queueMode call).staged = some (kbin,n)) : n = 0 := by
  unfold entry at h
  split at h
  next => contradiction
  next => split at h <;> contradiction
  next => split at h <;> contradiction
  next => contradiction
  next =>
    split at h
    next => contradiction
    next =>
      rw [staged_stageFrom (Nat.zero_le _)] at h
      exact (Prod.mk.inj (Option.some.inj h)).2.symm

variable {ι : Type}

/-- A LOAD descriptor published and not yet run by the firmware. -/
def PendingLoad (log : List (Event ι)) (c : ι) (kbin : KernelBinary) : Prop :=
  ∃ p, executedCount log ≤ p ∧ (publishedIn log)[p]? = some (c,.load kbin)

/-- Every LOAD descriptor is run on the words of the call that published it. -/
def StagingOwned (log : List (Event ι)) : Prop :=
  ∀ (p : Nat) (desc : List UInt32) (dev : Device) (c : ι) (kbin : KernelBinary),
    (executedIn log)[p]? = some (desc,dev) → (publishedIn log)[p]? = some (c,.load kbin) →
    Staged dev kbin kbin.instrSize.toNat

/-- A call writes a staging word only where it changes no word that another
call has staged and has yet to publish, or whose LOAD descriptor is pending. -/
def SparesStaged (log : List (Event ι)) (s : State ι) (a : Action ι) : Prop :=
  ∀ c kbin i w, a = .access c → s.pc c = .stage kbin i → kbin.userInstr i = some w →
    (∀ c' kbin' n, c' ≠ c → (s.pc c').staged = some (kbin',n) → i < n →
      kbin'.userInstr i = some w) ∧
    ∀ c' kbin', PendingLoad log c' kbin' → i < kbin'.instrSize.toNat →
      kbin'.userInstr i = some w

structure StagingInv (log : List (Event ι)) (s : State ι) : Prop where
  calls : ∀ c kbin n, (s.pc c).staged = some (kbin,n) → Staged s.dev kbin n
  pending : ∀ c kbin, PendingLoad log c kbin → Staged s.dev kbin kbin.instrSize.toNat
  owned : StagingOwned log

variable [DecidableEq ι]

/-- Every step but the write of a staging word leaves the area alone and gives
no call more staged words than it had. -/
theorem Rule.staging_frame {queueMode : Int} {s s' : State ι} {a : Action ι}
    {es : List (Event ι)} (h : Rule queueMode s a s' es) :
    (∃ c kbin i w, a = .access c ∧ s.pc c = .stage kbin i ∧ kbin.userInstr i = some w ∧
      s' = {s with dev := s.dev.stage i w}.setPc c (stageFrom kbin (i + 1)) ∧
      es = [.wrote c (.staging i) w]) ∨
    s'.dev.staging = s.dev.staging ∧ ∀ c kbin n, (s'.pc c).staged = some (kbin,n) →
      (s.pc c).staged = some (kbin,n) ∨ n = 0 := by
  have hset : ∀ (s : State ι) c (p : Pc), (∀ kbin n, p.staged = some (kbin,n) →
      (s.pc c).staged = some (kbin,n) ∨ n = 0) → ∀ c' kbin n,
      ((s.setPc c p).pc c').staged = some (kbin,n) → (s.pc c').staged = some (kbin,n) ∨ n = 0 := by
    intro s c p hp c' kbin n hstaged
    by_cases hcc : c' = c
    · subst hcc
      exact hp kbin n (by simpa using hstaged)
    · exact .inl (by simpa [hcc] using hstaged)
  cases h with
  | stageWord c kbin i w hpc hw => exact .inl ⟨c,kbin,i,w,rfl,hpc,hw,rfl,rfl⟩
  | start c call hpc =>
    exact .inr ⟨rfl,hset _ _ _ fun kbin n hstaged => .inr (staged_entry hstaged)⟩
  | lock c job hpc hfree =>
    exact .inr ⟨rfl,hset {s with globalLock := _} _ _ fun _ _ h => .inl (by rw [hpc]; exact h)⟩
  | readHead c job hpc => exact .inr ⟨rfl,hset _ _ _ fun _ _ h => .inl (by rw [hpc]; exact h)⟩
  | readTailRoom c job head hpc hroom =>
    exact .inr ⟨rfl,hset _ _ _ fun _ _ h => .inl (by rw [hpc]; exact h)⟩
  | writeCmd c job tail j hpc =>
    refine .inr ⟨rfl,hset {s with ring := _} _ _ fun kbin n h => .inl ?_⟩
    rw [hpc]
    split at h <;> exact h
  | writeTail => exact .inr ⟨rfl,hset {s with ring := _} _ _ nofun⟩
  | unlock c job tail hpc =>
    refine .inr ⟨rfl,hset {s with globalLock := _} _ _ ?_⟩
    cases job <;> exact nofun
  | unlockBusy => exact .inr ⟨rfl,hset {s with globalLock := _} _ _ nofun⟩
  | testFalse c target a otherwise hpc ha hheld =>
    refine .inr ⟨rfl,hset _ _ _ ?_⟩
    cases ha <;> exact nofun
  | stageFault | readTailFull | ringIrq | snapshot | testTrue =>
    exact .inr ⟨rfl,hset _ _ _ nofun⟩
  | fwExec head desc hfw => exact .inr ⟨execute_staging s.dev desc,fun _ _ _ => .inl⟩
  | fwHead | fwEmpty | fwTask | fwFetch | fwFetchLast | fwCommit | upload =>
    exact .inr ⟨rfl,fun _ _ _ => .inl⟩

theorem stagingInv_run {queueMode : Int} {log : List (Event ι)} {s : State ι}
    (h : (ringSystem ι queueMode).RunWith SparesStaged log s) : StagingInv log s := by
  refine ring_invariant (I := StagingInv) ?_ ?_ h
  · intro s hs
    refine ⟨?_,?_,?_⟩
    · intro c kbin n hstaged
      simp [hs.2.2.2.1 c, Pc.staged] at hstaged
    · rintro c kbin ⟨p,-,hget⟩
      simp at hget
    · intro p desc dev c kbin hget
      simp at hget
  · intro log s a s' es hrun ih hok hrule
    rcases hrule.staging_frame with ⟨c,kbin,i,w,rfl,hpc,hw,rfl,rfl⟩ | ⟨hdev,hstaged⟩
    · obtain ⟨hcalls,hpending⟩ := hok c kbin i w rfl hpc hw
      refine ⟨?_,?_,?_⟩
      · intro c' kbin' n hc'
        by_cases hcc : c' = c
        · subst hcc
          have hlt := (stageInv_run hrun.run c' kbin i hpc).1
          rw [State.setPc_pc_self, staged_stageFrom (by omega)] at hc'
          obtain ⟨rfl,rfl⟩ := Prod.mk.inj (Option.some.inj hc')
          exact (ih.calls c' kbin i (by rw [hpc]; rfl)).succ hw
        · rw [State.setPc_pc_other _ _ _ hcc] at hc'
          exact (ih.calls c' kbin' n hc').overwrite (hcalls c' kbin' n hcc hc')
      · rintro c' kbin' ⟨p,hp,hget⟩
        have hload : PendingLoad log c' kbin' :=
          ⟨p,by simpa [executedCount] using hp,by simpa using hget⟩
        exact (ih.pending c' kbin' hload).overwrite (hpending c' kbin' hload)
      · intro p desc dev c' kbin' hexec hpub
        exact ih.owned p desc dev c' kbin' (by simpa using hexec) (by simpa using hpub)
    · refine ⟨?_,?_,?_⟩
      · intro c kbin n hc
        rcases hstaged c kbin n hc with hold | rfl
        · exact (ih.calls c kbin n hold).congr hdev
        · exact staged_zero _ _
      · rintro c kbin ⟨p,hp,hget⟩
        have hp : executedCount log ≤ p := by
          simp only [executedCount, executedIn_append, List.length_append] at hp ⊢
          omega
        refine Staged.congr ?_ hdev
        rw [publishedIn_append] at hget
        rcases hrule.publishes with hnone | ⟨c',job,tail,hpc,hone⟩
        · rw [hnone, List.append_nil] at hget
          exact ih.pending c kbin ⟨p,hp,hget⟩
        · rw [hone] at hget
          rcases getElem?_concat_eq_some.mp hget with hold | ⟨-,hnew⟩
          · exact ih.pending c kbin ⟨p,hp,hold⟩
          · obtain ⟨rfl,rfl⟩ := Prod.mk.inj hnew
            exact ih.calls c' kbin _ (by rw [hpc]; rfl)
      · intro p desc dev c kbin hexec hpub
        have hold : (executedIn log)[p]? = some (desc,dev) →
            Staged dev kbin kbin.instrSize.toNat := by
          intro hexec
          obtain ⟨c',job,hget,-⟩ := executed_published hrun.run hexec
          have hlt := (List.getElem?_eq_some_iff.mp hget).1
          rw [publishedIn_append, List.getElem?_append_left hlt] at hpub
          exact ih.owned p desc dev c kbin hexec hpub
        rw [executedIn_append] at hexec
        rcases hrule.executes with hnone | ⟨head,desc',hfw,rfl,-⟩
        · rw [hnone, List.append_nil] at hexec
          exact hold hexec
        · rcases getElem?_concat_eq_some.mp hexec with hexec | ⟨rfl,hnew⟩
          · exact hold hexec
          · obtain ⟨rfl,rfl⟩ := Prod.mk.inj hnew
            exact ih.pending c kbin ⟨_,le_rfl,by simpa [executedCount] using hpub⟩

/-- As long as no call overwrites what another has staged and still needs, each
LOAD descriptor finds the words of its own caller in the staging area. -/
theorem staging_owned {queueMode : Int} {log : List (Event ι)} {s : State ι}
    (h : (ringSystem ι queueMode).RunWith SparesStaged log s) : StagingOwned log :=
  (stagingInv_run h).owned

/-- A word is staged only while no other call has anything staged and the ring is run empty. -/
def stagesWait {n : Nat} (s : List (Event (Fin n)) × State (Fin n)) : Action (Fin n) → Bool
  | .access c =>
      match s.2.pc c with
      | .stage _ _ => decide ((∀ c', c' ≠ c → (s.2.pc c').staged.isNone = true) ∧
          (publishedIn s.1).length ≤ executedCount s.1)
      | _ => true
  | _ => true

theorem sparesStaged_of_stagesWait {n : Nat} {log : List (Event (Fin n))} {s : State (Fin n)}
    {a : Action (Fin n)} (h : stagesWait (log,s) a = true) : SparesStaged log s a := by
  rintro c kbin i w rfl hpc -
  simp only [stagesWait, hpc, decide_eq_true_eq] at h
  obtain ⟨hothers,hempty⟩ := h
  refine ⟨fun c' kbin' n hc' hstaged => ?_,?_⟩
  · simpa [hstaged] using hothers c' hc'
  · rintro c' kbin' ⟨p,hp,hget⟩
    have hlt : p < (publishedIn log).length := (List.getElem?_eq_some_iff.mp hget).1
    exact absurd (hlt.trans_le hempty) (Nat.not_lt.mpr hp)

/-- Call `c'` stages its word when the firmware has run the descriptor of call `c`. -/
def loadsInTurn (c c' : ι) : List (Action ι) :=
  [.start c (.loadKernel (some ⟨fun _ => some 1,1,1⟩)),.access c] ++ sectionSteps c ++
    firmwareTurn ++ [.start c' (.loadKernel (some ⟨fun _ => some 2,1,1⟩)),.access c',.access c] ++
    sectionSteps c' ++ firmwareTurn ++ [.access c']

theorem loadsInTurn_run : (((ringSystem (Fin 2) 0).recorded.guarded stagesWait).exec
    ([],probed (Fin 2)) (loadsInTurn 0 1)).isSome = true := by
  decide +kernel

theorem staging_owned_in_turn : ∃ log s, (ringSystem (Fin 2) 0).RunWith SparesStaged log s ∧
    (publishedIn log).map Prod.fst = [0,1] ∧
    (executedIn log).map (fun x => x.2.staging 0) = [1,2] ∧ StagingOwned log := by
  have hrun : (ringSystem (Fin 2) 0).RunWith SparesStaged _ _ :=
    .of_recorded_exec (probed_init (Fin 2)) (loadsInTurn 0 1) loadsInTurn_run
      fun log s a => sparesStaged_of_stagesWait
  exact ⟨_,_,hrun,by decide +kernel,by decide +kernel,staging_owned hrun⟩

/-- Calls 0 and 1 load a word each; call 1 stages its word before the firmware
has run the descriptor of call 0. -/
def racingLoads : List (Action Nat) :=
  [.start 0 (.loadKernel (some ⟨fun _ => some 1,1,1⟩)),.access 0] ++ sectionSteps 0 ++
    [.start 1 (.loadKernel (some ⟨fun _ => some 2,1,1⟩)),.access 1] ++ firmwareTurn ++ [.access 0]

theorem racingLoads_runs : ((ringSystem Nat 0).exec (probed Nat) racingLoads).isSome = true := by
  decide

/-- Call 0 returns 0 and the firmware has loaded the word of call 1 for it. -/
theorem racing_load_runs_foreign_word : ∃ log s dev desc, (ringSystem Nat 0).Run log s ∧
    s.pc 0 = .done .ok ∧ (executedIn log)[0]? = some (desc,dev) ∧ dev.staging 0 = 2 ∧
    (publishedIn log)[0]? = some (0,.load ⟨fun _ => some 1,1,1⟩) ∧ ¬StagingOwned log := by
  have hrun := System.Run.of_exec (S := ringSystem Nat 0) (probed_init Nat) racingLoads
    racingLoads_runs
  refine ⟨_,_,_,_,hrun,rfl,rfl,by decide,rfl,fun howned => ?_⟩
  have hword := howned 0 _ _ 0 ⟨fun _ => some 1,1,1⟩ rfl rfl 0 (by decide)
  exact absurd hword (by decide)

end FpgaGpu.Driver
