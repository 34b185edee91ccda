import FpgaGpu.Driver.RingFifo

/-! The command interrupt. Firmware no longer polls the tail: it sleeps until the
register is latched, clears the latch and drains the ring. -/
namespace FpgaGpu.Driver
open Library

inductive Power where
  | asleep
  | clear
  | drain
  deriving DecidableEq, Repr

structure IrqState (ι : Type) where
  base : State ι
  latch : Bool
  power : Power

variable {ι : Type}

/-- A write of an odd value to the command-IRQ register latches it. -/
def Event.latches : Event ι → Bool
  | .wrote _ reg value => decide (reg.offset = cpIrqOffset) && value &&& 1 != 0
  | _ => false

/-- The firmware is about to see that the ring is empty. -/
def State.drained (s : State ι) : Bool :=
  match s.fw with
  | .sawHead head => decide (head = s.ring.tail)
  | _ => false

/-- Somebody has moved the tail and not yet written the command-IRQ register. -/
def State.BetweenTailAndIrq (s : State ι) : Prop := ∃ c job tail, s.pc c = .ringIrq job tail

variable [DecidableEq ι]

def IrqState.step (queueMode : Int) (s : IrqState ι) :
    Action ι → Option (IrqState ι × List (Event ι))
  | .firmware =>
      match s.power with
      | .asleep => if s.latch then some ({s with power := .clear},[]) else none
      | .clear => some ({s with latch := false,power := .drain},[])
      | .drain =>
          some ({s with
            base := s.base.firmware.1
            power := if s.base.drained then .asleep else .drain},s.base.firmware.2)
  | a =>
      match FpgaGpu.Driver.step queueMode s.base a with
      | none => none
      | some (base,es) => some ({s with base,latch := s.latch || es.any Event.latches},es)

/-- After `fpgagpu_probe`, with the register and the firmware in whatever state. -/
def irqSystem (ι : Type) [DecidableEq ι] (queueMode : Int) :
    System (IrqState ι) (Action ι) (Event ι) where
  init s := Probed s.base
  step := IrqState.step queueMode

/-- A step is one of the ring system, or the firmware's way from sleeping to draining. -/
inductive IrqRule (queueMode : Int) (s : IrqState ι) :
    Action ι → IrqState ι → List (Event ι) → Prop where
  | wake : s.power = .asleep → s.latch = true →
      IrqRule queueMode s .firmware {s with power := .clear} []
  | clear : s.power = .clear →
      IrqRule queueMode s .firmware {s with latch := false,power := .drain} []
  | drain (base : State ι) (es : List (Event ι)) : s.power = .drain →
      Rule queueMode s.base .firmware base es →
      IrqRule queueMode s .firmware
        {s with base,power := if s.base.drained then .asleep else .drain} es
  | caller (a : Action ι) (base : State ι) (es : List (Event ι)) : a ≠ .firmware →
      Rule queueMode s.base a base es →
      IrqRule queueMode s a {s with base,latch := s.latch || es.any Event.latches} es

theorem irqRule_of_step {queueMode : Int} {s s' : IrqState ι} {a : Action ι}
    {es : List (Event ι)} (h : s.step queueMode a = some (s',es)) :
    IrqRule queueMode s a s' es := by
  unfold IrqState.step at h
  split at h
  next =>
    split at h
    next hpower =>
      split at h
      next hlatch => cases h; exact .wake hpower hlatch
      next => contradiction
    next hpower => cases h; exact .clear hpower
    next hpower => cases h; exact .drain _ _ hpower (rule_of_step rfl)
  next ha =>
    split at h
    next => contradiction
    next base es hstep => cases h; exact .caller _ _ _ ha (rule_of_step hstep)

/-- The ring, the callers and the histories are those of the ring system. -/
theorem irq_base_run {queueMode : Int} {log : List (Event ι)} {s : IrqState ι}
    (h : (irqSystem ι queueMode).Run log s) : (ringSystem ι queueMode).Run log s.base := by
  refine h.invariant (I := fun log s => (ringSystem ι queueMode).Run log s.base) ?_ ?_
  · intro s hs
    exact .init hs
  · intro log s a s' es _ ih _ hstep
    unfold irqSystem IrqState.step at hstep
    dsimp only at hstep
    split at hstep
    next =>
      split at hstep
      next =>
        split at hstep
        next => cases hstep; simpa using ih
        next => contradiction
      next => cases hstep; simpa using ih
      next => cases hstep; exact ih.next (a := .firmware) rfl
    next =>
      split at hstep
      next => contradiction
      next base es hbase => cases hstep; exact ih.next hbase

/-- A call between its tail update and its IRQ write can only do the latter. -/
theorem Rule.rings {queueMode : Int} {s s' : State ι} {a : Action ι} {es : List (Event ι)}
    (h : Rule queueMode s a s' es) {c : ι} {job : Job} {tail : UInt32}
    (hpc : s.pc c = .ringIrq job tail) (ha : a.actor = some c) : es = [.wrote c .irq 1] := by
  cases h with
  | ringIrq c' job' tail' hpc' =>
    obtain rfl := Option.some.inj ha
    rfl
  | testTrue c' target a otherwise hpc' hwait | testFalse c' target a otherwise hpc' hwait =>
    obtain rfl := Option.some.inj (hwait.actor.symm.trans ha)
    rw [hpc] at hpc'
    contradiction
  | fwHead | fwEmpty | fwTask | fwFetch | fwFetchLast | fwExec | fwCommit | upload =>
    contradiction
  | _ =>
    obtain rfl := Option.some.inj ha
    simp_all

/-- Only a tail update fills the ring, and it leaves its call before the IRQ write. -/
theorem Rule.fills {queueMode : Int} {s s' : State ι} {a : Action ι} {es : List (Event ι)}
    (h : Rule queueMode s a s' es) (ha : a ≠ .firmware) :
    s'.fw = s.fw ∧ s'.ring.head = s.ring.head ∧
      (s'.ring.tail = s.ring.tail ∨ s'.BetweenTailAndIrq) := by
  cases h with
  | writeTail c job tail hpc => exact ⟨rfl,rfl,.inr ⟨c,job,tail,State.setPc_pc_self _ _ _⟩⟩
  | fwHead | fwEmpty | fwTask | fwFetch | fwFetchLast | fwExec | fwCommit => exact absurd rfl ha
  | _ => exact ⟨rfl,rfl,.inl rfl⟩

/-- Where the firmware sleeps with the latch clear, the ring is empty or somebody
is about to latch the register. -/
structure LatchInv (s : IrqState ι) : Prop where
  sawHead : ∀ head, s.base.fw = .sawHead head → head = s.base.ring.head
  idle : s.power ≠ .drain → s.base.fw = .idle
  armed : s.power = .asleep → s.latch = false →
    s.base.ring.head = s.base.ring.tail ∨ s.base.BetweenTailAndIrq

theorem Rule.sawHead {queueMode : Int} {s s' : State ι} {a : Action ι} {es : List (Event ι)}
    (h : Rule queueMode s a s' es) (ih : ∀ head, s.fw = .sawHead head → head = s.ring.head) :
    ∀ head, s'.fw = .sawHead head → head = s'.ring.head := by
  intro head hfw
  cases h with
  | fwHead => cases hfw; rfl
  | fwEmpty | fwTask | fwFetch | fwFetchLast | fwExec | fwCommit => contradiction
  | _ => exact ih head hfw

/-- The firmware goes to sleep on an empty ring. -/
theorem Rule.drained {queueMode : Int} {s s' : State ι} {es : List (Event ι)}
    (h : Rule queueMode s .firmware s' es) (ih : ∀ head, s.fw = .sawHead head → head = s.ring.head)
    (hdrained : s.drained = true) :
    s'.fw = .idle ∧ s'.ring = s.ring ∧ s.ring.head = s.ring.tail := by
  unfold State.drained at hdrained
  split at hdrained
  next head hfw =>
    have hempty : head = s.ring.tail := of_decide_eq_true hdrained
    have hhead := ih head hfw
    cases h with
    | fwEmpty => exact ⟨rfl,rfl,hhead.symm.trans hempty⟩
    | fwTask head' hfw' hne =>
      cases hfw.symm.trans hfw'
      exact absurd hempty hne
    | fwHead hfw' | fwFetch _ _ hfw' | fwFetchLast _ _ hfw' | fwExec _ _ hfw'
    | fwCommit _ _ hfw' =>
      rw [hfw] at hfw'
      contradiction
    | testTrue _ _ _ _ _ hwait | testFalse _ _ _ _ _ hwait => cases hwait
  next => contradiction

theorem latchInv_run {queueMode : Int} {log : List (Event ι)} {s : IrqState ι}
    (h : (irqSystem ι queueMode).Run log s) : LatchInv s := by
  refine h.invariant (I := fun _ s => LatchInv s) ?_ ?_
  · rintro s ⟨hhead,htail,-,-,hfw⟩
    refine ⟨?_,fun _ => hfw,fun _ _ => .inl (hhead.trans htail.symm)⟩
    intro head hsaw
    rw [hfw] at hsaw
    contradiction
  · intro log s a s' es _ ih _ hstep
    cases irqRule_of_step hstep with
    | wake hpower hlatch =>
      refine ⟨ih.sawHead,fun _ => ih.idle (by simp [hpower]),?_⟩
      intro hasleep
      contradiction
    | clear hpower =>
      refine ⟨ih.sawHead,fun hdrain => absurd rfl hdrain,?_⟩
      intro hasleep
      contradiction
    | drain base es hpower hrule =>
      by_cases hdrained : s.base.drained = true
      · obtain ⟨hidle,hring,hempty⟩ := hrule.drained ih.sawHead hdrained
        refine ⟨hrule.sawHead ih.sawHead,fun _ => hidle,fun _ _ => .inl ?_⟩
        rw [hring]
        exact hempty
      · refine ⟨hrule.sawHead ih.sawHead,fun hdrain => absurd (if_neg hdrained) hdrain,?_⟩
        intro hasleep
        simp [hdrained] at hasleep
    | caller a base es ha hrule =>
      obtain ⟨hfw,hhead,htail⟩ := hrule.fills ha
      refine ⟨hrule.sawHead ih.sawHead,fun hdrain => hfw.trans (ih.idle hdrain),?_⟩
      intro hasleep hlatch
      obtain ⟨hclear,hnone⟩ : s.latch = false ∧ es.any Event.latches = false := by
        simpa using hlatch
      rcases htail with htail | hbetween
      · rcases ih.armed hasleep hclear with hempty | ⟨c,job,tail,hpc⟩
        · left
          exact (hhead.trans hempty).trans htail.symm
        · right
          refine ⟨c,job,tail,?_⟩
          by_cases hactor : a.actor = some c
          · rw [hrule.rings hpc hactor] at hnone
            contradiction
          · rw [← hpc]
            exact hrule.pc_other hactor
      · exact .inr hbetween

/-- A ring whose positions agree holds nothing: fewer than 512 are pending. -/
theorem consumed_all {queueMode : Int} {log : List (Event ι)} {s : State ι}
    (h : (ringSystem ι queueMode).Run log s) (hempty : s.ring.head = s.ring.tail) :
    consumedIn log = (publishedIn log).map fun x => x.2.task.words := by
  obtain ⟨q,hrep,hpub,htaken,hcon⟩ := ring_represents h
  have hslot : slot q.taken = slot q.published.length :=
    (hrep.head.symm.trans hempty).trans hrep.tail
  have hmod := (slot_eq_iff _ _).mp hslot
  have hle := q.taken_le
  have hroom := lt_room q
  have hsame : q.taken = (publishedIn log).length := by
    rw [hpub] at hmod hle hroom
    simp only [queueSize] at hmod hroom
    omega
  rw [hcon, hsame, List.take_length]

/-- Steps of the firmware until it stores the head or sleeps, at most. -/
def Firmware.rest : Firmware → Nat
  | .idle => 21
  | .sawHead _ => 20
  | .fetch _ got => 19 - got.length
  | .exec _ _ => 3
  | .commit _ _ => 2

/-- Steps of the firmware until it sleeps for good, at most, if nobody publishes. -/
def IrqState.effort (s : IrqState ι) (pending : Nat) : Nat :=
  match s.power with
  | .asleep => if s.latch then 23 + 30 * pending else 0
  | .clear => 22 + 30 * pending
  | .drain => s.base.fw.rest + 30 * pending + if s.latch then 30 else 0

/-- A turn of the firmware gets it closer to the next head, or to sleep. -/
theorem Rule.firmware_effort {queueMode : Int} {log : List (Event ι)} {s s' : State ι}
    {es : List (Event ι)} (hrun : (ringSystem ι queueMode).Run log s)
    (h : Rule queueMode s .firmware s' es) :
    s.drained = false ∧
        s'.fw.rest + 30 * pendingCount (log ++ es) < s.fw.rest + 30 * pendingCount log ∨
      s.drained = true ∧ s.fw.rest = 20 ∧ pendingCount (log ++ es) = pendingCount log := by
  obtain ⟨q,hrep,hpub,htaken,-⟩ := ring_represents hrun
  have hfwRep := hrep.fw
  cases h with
  | fwHead hfw =>
    left
    simp [State.drained, hfw, Firmware.rest]
  | fwEmpty head hfw hempty =>
    right
    simp [State.drained, hfw, hempty, Firmware.rest]
  | fwTask head hfw hne =>
    left
    simp [State.drained, hfw, hne, Firmware.rest]
  | fwFetch head got hfw hmore =>
    left
    simp only [packetWords] at hmore
    simp only [State.drained, hfw, Firmware.rest, List.append_nil, List.length_append,
      List.length_singleton, true_and]
    omega
  | fwFetchLast head got hfw hlast =>
    left
    rw [hfw] at hfwRep
    have hlt : got.length < packetWords := hfwRep.2.1
    simp only [packetWords] at hlt
    simp only [State.drained, hfw, Firmware.rest, List.append_nil, true_and]
    omega
  | fwExec head desc hfw =>
    left
    simp [State.drained, hfw, Firmware.rest, pendingCount, publishedCount, consumedCount]
  | fwCommit head desc hfw =>
    left
    rw [hfw] at hfwRep
    obtain ⟨-,task,htask,-⟩ := hfwRep
    have hlt := htask.lt
    rw [hpub, htaken] at hlt
    have hpublished : publishedCount (log ++ [.consumed desc]) = publishedCount log := by
      simp [publishedCount]
    have hconsumed : consumedCount (log ++ [.consumed desc]) = consumedCount log + 1 := by
      simp [consumedCount]
    simp only [State.drained, hfw, Firmware.rest, pendingCount, hpublished, hconsumed, true_and]
    unfold publishedCount
    omega
  | testTrue _ _ _ _ _ hwait | testFalse _ _ _ _ _ hwait => cases hwait

/-- A step of the firmware that is not asleep for good brings it closer to that. -/
theorem IrqState.firmware_step {queueMode : Int} {log : List (Event ι)} {s : IrqState ι}
    (hrun : (irqSystem ι queueMode).Run log s) (hawake : s.power = .asleep → s.latch = true) :
    ∃ s' es, s.step queueMode .firmware = some (s',es) ∧
      s'.effort (pendingCount (log ++ es)) < s.effort (pendingCount log) := by
  have hinv := latchInv_run hrun
  cases hpower : s.power with
  | asleep =>
    have hlatch := hawake hpower
    refine ⟨{s with power := .clear},[],by simp [step, hpower, hlatch],?_⟩
    simp [effort, hpower, hlatch]
  | clear =>
    refine ⟨{s with latch := false,power := .drain},[],by simp [step, hpower],?_⟩
    have hidle := hinv.idle (by simp [hpower])
    simp [effort, hpower, hidle, Firmware.rest]
  | drain =>
    have hrule : Rule queueMode s.base .firmware s.base.firmware.1 s.base.firmware.2 :=
      rule_of_step rfl
    refine ⟨{s with
      base := s.base.firmware.1
      power := if s.base.drained then .asleep else .drain},s.base.firmware.2,
      by simp only [step, hpower],?_⟩
    rcases hrule.firmware_effort (irq_base_run hrun) with ⟨hmore,hless⟩ | ⟨hdrained,hrest,hsame⟩
    · simp only [effort, hpower, hmore, Bool.false_eq_true, ↓reduceIte]
      exact Nat.add_lt_add_right hless _
    · simp only [effort, hpower, hdrained, ↓reduceIte, hrest, hsame]
      split <;> omega

/-- Left to itself, the firmware takes all that was published. -/
theorem firmware_drains {queueMode : Int} {log : List (Event ι)} {s : IrqState ι}
    (hrun : (irqSystem ι queueMode).Run log s) (hout : ∀ c, ¬(s.base.pc c).InSection) :
    ∃ n s' es, (irqSystem ι queueMode).exec s (List.replicate n .firmware) = some (s',es) ∧
      consumedIn (log ++ es) = (publishedIn (log ++ es)).map fun x => x.2.task.words := by
  induction heffort : s.effort (pendingCount log) using Nat.strong_induction_on
    generalizing log s with
  | _ k ih =>
    by_cases hdone : s.power = .asleep ∧ s.latch = false
    · have hempty : s.base.ring.head = s.base.ring.tail := by
        rcases (latchInv_run hrun).armed hdone.1 hdone.2 with hempty | ⟨c,job,tail,hpc⟩
        · exact hempty
        · exact absurd (by rw [hpc]; trivial) (hout c)
      refine ⟨0,s,[],rfl,?_⟩
      rw [List.append_nil]
      exact consumed_all (irq_base_run hrun) hempty
    · have hawake : s.power = .asleep → s.latch = true := by
        intro hasleep
        by_contra hclear
        exact hdone ⟨hasleep,by simpa using hclear⟩
      obtain ⟨s₁,es₁,hstep,hless⟩ := IrqState.firmware_step hrun hawake
      have hout₁ : ∀ c, ¬(s₁.base.pc c).InSection := by
        intro c
        have hpc : s₁.base.pc c = s.base.pc c := by
          cases irqRule_of_step hstep with
          | wake | clear => rfl
          | drain base es hpower hrule => exact hrule.pc_other (by simp [Action.actor])
          | caller a base es ha => exact absurd rfl ha
        rw [hpc]
        exact hout c
      have hsystem : (irqSystem ι queueMode).step s .firmware = some (s₁,es₁) := hstep
      obtain ⟨n,s₂,es₂,hexec,hall⟩ := ih _ (heffort ▸ hless) (hrun.next hsystem) hout₁ rfl
      refine ⟨n + 1,s₂,es₁ ++ es₂,?_,?_⟩
      · rw [List.replicate_succ, System.exec]
        simp only [hsystem, hexec]
      · rw [← List.append_assoc]
        exact hall

/-- No command interrupt is lost: firmware that sleeps with the latch clear has
an empty ring, or a caller that is about to latch the register. Once no call is
in its section, it has taken all that was published, or will. -/
theorem command_irq_not_lost {queueMode : Int} {log : List (Event ι)} {s : IrqState ι}
    (h : (irqSystem ι queueMode).Run log s) :
    (s.power = .asleep → s.latch = false →
      s.base.ring.head = s.base.ring.tail ∨ s.base.BetweenTailAndIrq) ∧
    ((∀ c, ¬(s.base.pc c).InSection) →
      (s.power = .asleep → s.latch = false →
        consumedIn log = (publishedIn log).map fun x => x.2.task.words) ∧
      ∃ n s' es, (irqSystem ι queueMode).exec s (List.replicate n .firmware) = some (s',es) ∧
        consumedIn (log ++ es) = (publishedIn (log ++ es)).map fun x => x.2.task.words) := by
  refine ⟨(latchInv_run h).armed,fun hout => ⟨fun hasleep hclear => ?_,firmware_drains h hout⟩⟩
  rcases (latchInv_run h).armed hasleep hclear with hempty | ⟨c,job,tail,hpc⟩
  · exact consumed_all (irq_base_run h) hempty
  · exact absurd (by rw [hpc]; trivial) (hout c)

/-- One launch; the firmware wakes, takes it and sleeps again. -/
def wokenByLaunch : List (Action Nat) :=
  .start 0 (.submitCmd (some oneLaunch)) :: (sectionSteps 0 ++ List.replicate 24 .firmware)

/-- The firmware sleeps on a cleared latch. -/
def asleepProbed : IrqState Nat := ⟨probed Nat,false,.asleep⟩

theorem wokenByLaunch_runs :
    ((irqSystem Nat 0).exec asleepProbed wokenByLaunch).isSome = true := by
  decide

theorem command_irq_one_launch : ∃ log s, (irqSystem Nat 0).Run log s ∧
    s.power = .asleep ∧ s.latch = false ∧
    publishedIn log = [(0,.submit oneLaunch)] ∧
    (s.base.ring.head = s.base.ring.tail ∨ s.base.BetweenTailAndIrq) := by
  have hrun := System.Run.of_exec (S := irqSystem Nat 0) (s := asleepProbed) (probed_init Nat)
    wokenByLaunch wokenByLaunch_runs
  have hpower : ((irqSystem Nat 0).exec asleepProbed wokenByLaunch |>.get
    wokenByLaunch_runs).1.power = .asleep := by decide
  have hlatch : ((irqSystem Nat 0).exec asleepProbed wokenByLaunch |>.get
    wokenByLaunch_runs).1.latch = false := by decide
  exact ⟨_,_,hrun,hpower,hlatch,rfl,(command_irq_not_lost hrun).1 hpower hlatch⟩

end FpgaGpu.Driver
