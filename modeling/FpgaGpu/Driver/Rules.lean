import FpgaGpu.Driver.Machine

/-! Everything one step of the ring system can do, one rule a branch. -/
namespace FpgaGpu.Driver
open Library

variable {ι : Type}

/-- When a wait condition is evaluated, and where the call goes if it does not hold. -/
inductive WaitAction (c : ι) (target : UInt32) : Action ι → Pc → Prop where
  | retry : WaitAction c target (.access c) (.wait target)
  | expire : WaitAction c target (.expire c) (.done (.err .ETIMEDOUT))
  | interrupt : WaitAction c target (.interrupt c) (.done (.err .ERESTARTSYS))

/-! A step is one call's, the firmware's or an upload's. -/

def Action.actor : Action ι → Option ι
  | .start c _ | .access c | .expire c | .interrupt c => some c
  | .firmware | .upload _ => none

def Event.actor : Event ι → Option ι
  | .called c _ | .headRead c | .tailRead c | .wrote c _ _ | .published c _ | .tested c _ => some c
  | .executed _ _ | .consumed _ => none

theorem WaitAction.actor {c : ι} {target : UInt32} {a : Action ι} {otherwise : Pc}
    (h : WaitAction c target a otherwise) : a.actor = some c := by
  cases h <;> rfl

variable [DecidableEq ι]

section setPc
variable (s : State ι) (c : ι) (p : Pc)

@[simp] theorem State.setPc_ring : (s.setPc c p).ring = s.ring := rfl
@[simp] theorem State.setPc_dev : (s.setPc c p).dev = s.dev := rfl
@[simp] theorem State.setPc_globalLock : (s.setPc c p).globalLock = s.globalLock := rfl
@[simp] theorem State.setPc_fw : (s.setPc c p).fw = s.fw := rfl
@[simp] theorem State.setPc_pc_self : (s.setPc c p).pc c = p := by simp [State.setPc]

@[simp] theorem State.setPc_pc_other {c' : ι} (h : c' ≠ c) : (s.setPc c p).pc c' = s.pc c' := by
  simp [State.setPc, h]

end setPc

inductive Rule (queueMode : Int) (s : State ι) :
    Action ι → State ι → List (Event ι) → Prop where
  | start (c : ι) (call : Call) (hpc : s.pc c = .ready) :
      Rule queueMode s (.start c call) (s.setPc c (entry queueMode call)) [.called c call]
  | stageFault (c : ι) (kbin : KernelBinary) (i : Nat) (hpc : s.pc c = .stage kbin i)
      (hw : kbin.userInstr i = none) :
      Rule queueMode s (.access c) (s.setPc c (.done (.err .EFAULT))) []
  | stageWord (c : ι) (kbin : KernelBinary) (i : Nat) (w : UInt32)
      (hpc : s.pc c = .stage kbin i) (hw : kbin.userInstr i = some w) :
      Rule queueMode s (.access c)
        ({s with dev := s.dev.stage i w}.setPc c (stageFrom kbin (i + 1)))
        [.wrote c (.staging i) w]
  | lock (c : ι) (job : Job) (hpc : s.pc c = .lock job) (hfree : s.globalLock = none) :
      Rule queueMode s (.access c) ({s with globalLock := some c}.setPc c (.readHead job)) []
  | readHead (c : ι) (job : Job) (hpc : s.pc c = .readHead job) :
      Rule queueMode s (.access c) (s.setPc c (.readTail job s.ring.head)) [.headRead c]
  | readTailFull (c : ι) (job : Job) (head : UInt32) (hpc : s.pc c = .readTail job head)
      (hfull : nextSlot s.ring.tail = head) :
      Rule queueMode s (.access c) (s.setPc c (.unlockBusy job)) []
  | readTailRoom (c : ι) (job : Job) (head : UInt32) (hpc : s.pc c = .readTail job head)
      (hroom : nextSlot s.ring.tail ≠ head) :
      Rule queueMode s (.access c) (s.setPc c (.writeCmd job s.ring.tail 0)) []
  | writeCmd (c : ι) (job : Job) (tail : UInt32) (j : Nat)
      (hpc : s.pc c = .writeCmd job tail j) :
      Rule queueMode s (.access c)
        ({s with ring := s.ring.writeCmd tail.toNat j (job.task.word j)}.setPc c
          (if j + 1 < packetWords then .writeCmd job tail (j + 1) else .writeTail job tail))
        [.wrote c (.cmd tail.toNat j) (job.task.word j)]
  | writeTail (c : ι) (job : Job) (tail : UInt32) (hpc : s.pc c = .writeTail job tail) :
      Rule queueMode s (.access c)
        ({s with ring := {s.ring with tail := nextSlot tail}}.setPc c (.ringIrq job tail))
        [.wrote c .tail (nextSlot tail),.published c job]
  | ringIrq (c : ι) (job : Job) (tail : UInt32) (hpc : s.pc c = .ringIrq job tail) :
      Rule queueMode s (.access c) (s.setPc c (.unlock job tail)) [.wrote c .irq 1]
  | unlock (c : ι) (job : Job) (tail : UInt32) (hpc : s.pc c = .unlock job tail) :
      Rule queueMode s (.access c)
        ({s with globalLock := none}.setPc c (afterUnlock job tail)) []
  | unlockBusy (c : ι) (job : Job) (hpc : s.pc c = .unlockBusy job) :
      Rule queueMode s (.access c)
        ({s with globalLock := none}.setPc c (.done (.err .EBUSY))) []
  | snapshot (c : ι) (hpc : s.pc c = .snapshot) :
      Rule queueMode s (.access c) (s.setPc c (.wait s.ring.tail)) [.tailRead c]
  | testTrue (c : ι) (target : UInt32) (a : Action ι) (otherwise : Pc)
      (hpc : s.pc c = .wait target) (ha : WaitAction c target a otherwise)
      (hheld : s.ring.head = target) :
      Rule queueMode s a (s.setPc c (.done .ok)) [.tested c true]
  | testFalse (c : ι) (target : UInt32) (a : Action ι) (otherwise : Pc)
      (hpc : s.pc c = .wait target) (ha : WaitAction c target a otherwise)
      (hheld : s.ring.head ≠ target) :
      Rule queueMode s a (s.setPc c otherwise) [.tested c false]
  | fwHead (hfw : s.fw = .idle) :
      Rule queueMode s .firmware {s with fw := .sawHead s.ring.head} []
  | fwEmpty (head : UInt32) (hfw : s.fw = .sawHead head) (hempty : head = s.ring.tail) :
      Rule queueMode s .firmware {s with fw := .idle} []
  | fwTask (head : UInt32) (hfw : s.fw = .sawHead head) (hne : head ≠ s.ring.tail) :
      Rule queueMode s .firmware {s with fw := .fetch head []} []
  | fwFetch (head : UInt32) (got : List UInt32) (hfw : s.fw = .fetch head got)
      (hmore : got.length + 1 < packetWords) :
      Rule queueMode s .firmware
        {s with fw := .fetch head (got ++ [s.ring.cmds head.toNat got.length])} []
  | fwFetchLast (head : UInt32) (got : List UInt32) (hfw : s.fw = .fetch head got)
      (hlast : packetWords ≤ got.length + 1) :
      Rule queueMode s .firmware
        {s with fw := .exec head (got ++ [s.ring.cmds head.toNat got.length])} []
  | fwExec (head : UInt32) (desc : List UInt32) (hfw : s.fw = .exec head desc) :
      Rule queueMode s .firmware {s with dev := s.dev.execute desc, fw := .commit head desc}
        [.executed desc s.dev]
  | fwCommit (head : UInt32) (desc : List UInt32) (hfw : s.fw = .commit head desc) :
      Rule queueMode s .firmware
        {s with ring := {s.ring with head := nextSlot head}, fw := .idle} [.consumed desc]
  | upload (page : Nat → UInt32) :
      Rule queueMode s (.upload page) {s with dev := s.dev.upload page} []

private theorem rule_of_test {queueMode : Int} {s s' : State ι} {es : List (Event ι)} {c : ι}
    {target : UInt32} {a : Action ι} {otherwise : Pc} (hpc : s.pc c = .wait target)
    (ha : WaitAction c target a otherwise) (h : s.test c target otherwise = (s',es)) :
    Rule queueMode s a s' es := by
  unfold State.test at h
  obtain ⟨rfl,rfl⟩ := Prod.mk.inj h
  by_cases hheld : s.ring.head = target
  · simpa [hheld] using Rule.testTrue c target a otherwise hpc ha hheld
  · simpa [hheld] using Rule.testFalse c target a otherwise hpc ha hheld

private theorem rule_of_access {queueMode : Int} {s s' : State ι} {es : List (Event ι)} {c : ι}
    (h : s.access c = some (s',es)) : Rule queueMode s (.access c) s' es := by
  unfold State.access at h
  split at h
  next => contradiction
  next => contradiction
  next kbin i hpc =>
    split at h
    next hw => cases h; exact .stageFault c kbin i hpc hw
    next w hw => cases h; exact .stageWord c kbin i w hpc hw
  next job hpc =>
    split at h
    next => contradiction
    next hfree => cases h; exact .lock c job hpc hfree
  next job hpc => cases h; exact .readHead c job hpc
  next job head hpc =>
    by_cases hfull : nextSlot s.ring.tail = head
    · simp only [hfull, ↓reduceIte] at h
      cases h
      exact .readTailFull c job head hpc hfull
    · simp only [hfull, ↓reduceIte] at h
      cases h
      exact .readTailRoom c job head hpc hfull
  next job tail j hpc => cases h; exact .writeCmd c job tail j hpc
  next job tail hpc => cases h; exact .writeTail c job tail hpc
  next job tail hpc => cases h; exact .ringIrq c job tail hpc
  next job tail hpc => cases h; exact .unlock c job tail hpc
  next job hpc => cases h; exact .unlockBusy c job hpc
  next hpc => cases h; exact .snapshot c hpc
  next target hpc => exact rule_of_test hpc .retry (Option.some.inj h)

private theorem rule_of_firmware {queueMode : Int} {s s' : State ι} {es : List (Event ι)}
    (h : s.firmware = (s',es)) : Rule queueMode s .firmware s' es := by
  unfold State.firmware at h
  split at h
  next hfw => cases h; exact .fwHead hfw
  next head hfw =>
    by_cases hempty : head = s.ring.tail
    · simp only [hempty, ↓reduceIte] at h
      cases h
      exact .fwEmpty head hfw hempty
    · simp only [hempty, ↓reduceIte] at h
      cases h
      exact .fwTask head hfw hempty
  next head got hfw =>
    by_cases hmore : got.length + 1 < packetWords
    · simp only [List.length_append, List.length_singleton, hmore, ↓reduceIte] at h
      cases h
      exact .fwFetch head got hfw hmore
    · simp only [List.length_append, List.length_singleton, hmore, ↓reduceIte] at h
      cases h
      exact .fwFetchLast head got hfw (Nat.le_of_not_lt hmore)
  next head desc hfw => cases h; exact .fwExec head desc hfw
  next head desc hfw => cases h; exact .fwCommit head desc hfw

private theorem rule_of_giveUp {queueMode : Int} {s s' : State ι} {es : List (Event ι)} {c : ι}
    {e : Errno} {a : Action ι} (ha : ∀ target, WaitAction c target a (.done (.err e)))
    (h : s.giveUp c e = some (s',es)) : Rule queueMode s a s' es := by
  unfold State.giveUp at h
  split at h
  next target hpc => exact rule_of_test hpc (ha target) (Option.some.inj h)
  next => contradiction

/-- A step follows one of the rules. -/
theorem rule_of_step {queueMode : Int} {s s' : State ι} {a : Action ι} {es : List (Event ι)}
    (h : step queueMode s a = some (s',es)) : Rule queueMode s a s' es := by
  cases a with
  | start c call =>
    simp only [step] at h
    split at h
    next hpc => cases h; exact .start c call hpc
    next => contradiction
  | access c => exact rule_of_access h
  | expire c => exact rule_of_giveUp (fun _ => .expire) h
  | interrupt c => exact rule_of_giveUp (fun _ => .interrupt) h
  | firmware => exact rule_of_firmware (Option.some.inj h)
  | upload page => cases h; exact .upload page

/-- The invariant rule of the ring system, one case for each rule. -/
theorem ring_invariant {queueMode : Int} {ok : List (Event ι) → State ι → Action ι → Prop}
    {I : List (Event ι) → State ι → Prop} {log : List (Event ι)} {s : State ι}
    (hinit : ∀ s, Probed s → I [] s)
    (hrule : ∀ log s a s' es, (ringSystem ι queueMode).RunWith ok log s → I log s →
      ok log s a → Rule queueMode s a s' es → I (log ++ es) s')
    (h : (ringSystem ι queueMode).RunWith ok log s) : I log s :=
  h.invariant hinit fun log s a s' es hrun hI hok hstep =>
    hrule log s a s' es hrun hI hok (rule_of_step hstep)

theorem Rule.events_actor {queueMode : Int} {s s' : State ι} {a : Action ι} {es : List (Event ι)}
    (h : Rule queueMode s a s' es) : ∀ e ∈ es, e.actor = a.actor := by
  cases h with
  | testTrue _ _ _ _ _ ha | testFalse _ _ _ _ _ ha => simp [Event.actor, ha.actor]
  | _ => simp [Event.actor, Action.actor]

theorem Rule.pc_other {queueMode : Int} {s s' : State ι} {a : Action ι} {es : List (Event ι)}
    (h : Rule queueMode s a s' es) {c : ι} (hc : a.actor ≠ some c) : s'.pc c = s.pc c := by
  have hne : ∀ {c'}, a.actor = some c' → c ≠ c' := by
    rintro c' ha rfl
    exact hc ha
  cases h with
  | testTrue _ _ _ _ _ ha | testFalse _ _ _ _ _ ha =>
    exact State.setPc_pc_other _ _ _ (hne ha.actor)
  | fwHead | fwEmpty | fwTask | fwFetch | fwFetchLast | fwExec | fwCommit | upload => rfl
  | _ => exact State.setPc_pc_other _ _ _ (hne rfl)

end FpgaGpu.Driver
