import FpgaGpu.Driver.WaitQueues

/-! Who the handler wakes. In the shared mode it wakes the queue that both waits
use; in the private mode it wakes the queues of the contexts, which none uses. -/
namespace FpgaGpu.Driver
open Library

variable {ι : Type} [DecidableEq ι]

/-- What a step does before the record is kept. -/
inductive WakeRule (queueMode : Int) (s : WaitState ι) :
    WakeAction ι → WaitState ι → List (Event ι) → Prop where
  | enqueue (c : ι) (target : UInt32) : s.base.pc c = .wait target →
      WakeRule queueMode s (.base (.access c))
        {s with waiter := Function.update s.waiter c (s.waiter c).enqueue} []
  | test (c : ι) (target : UInt32) (base : State ι) (es : List (Event ι)) :
      s.base.pc c = .wait target → Rule queueMode s.base (.access c) base es →
      WakeRule queueMode s (.base (.access c))
        {s with
          base
          waiter := Function.update s.waiter c
            (if s.base.waitCondition c then (s.waiter c).again else (s.waiter c).doze)} es
  | again (c : ι) (target : UInt32) : s.base.pc c = .wait target →
      WakeRule queueMode s (.base (.access c))
        {s with waiter := Function.update s.waiter c (s.waiter c).again} []
  | access (c : ι) (base : State ι) (es : List (Event ι)) :
      (∀ target, s.base.pc c ≠ .wait target) → Rule queueMode s.base (.access c) base es →
      WakeRule queueMode s (.base (.access c))
        {s with base,waiter := s.begins c (s.base.pc c)} es
  | msi : s.owesMsi = true →
      WakeRule queueMode s (.base .firmware) {s with owesMsi := false,msi := true} []
  | firmware (base : State ι) (es : List (Event ι)) : s.owesMsi = false →
      Rule queueMode s.base .firmware base es →
      WakeRule queueMode s (.base .firmware)
        {s with base,owesMsi := !(consumedIn es).isEmpty} es
  | other (a : Action ι) (base : State ι) (es : List (Event ι)) : (∀ c, a ≠ .access c) →
      a ≠ .firmware → Rule queueMode s.base a base es →
      WakeRule queueMode s (.base a) {s with base} es
  | files (a : WakeAction ι) (ctxList : List Nat) : a ≠ .irq →
      WakeRule queueMode s a {s with ctxList} []
  | irqEnter : s.handler = .idle → s.msi = true →
      WakeRule queueMode s .irq {s with msi := false,handler := .entered} []
  | irqShared : s.handler = .entered → queueMode = 0 →
      WakeRule queueMode s .irq {s with waiter := wake .dev s.waiter,handler := .leaving} []
  | irqPrivate : s.handler = .entered → queueMode ≠ 0 →
      WakeRule queueMode s .irq {s with handler := .waking s.ctxList} []
  | irqCtx (ctx : Nat) (rest : List Nat) : s.handler = .waking (ctx :: rest) →
      WakeRule queueMode s .irq
        {s with waiter := wake (.ctx ctx) s.waiter,handler := .waking rest} []
  | irqUnlock : s.handler = .waking [] → WakeRule queueMode s .irq {s with handler := .leaving} []
  | irqReturn : s.handler = .leaving → WakeRule queueMode s .irq {s with handler := .idle} []

theorem wakeRule_of_access {queueMode : Int} {s s' : WaitState ι} {c : ι} {es : List (Event ι)}
    (h : s.access c = some (s',es)) : WakeRule queueMode s (.base (.access c)) s' es := by
  have hrule : ∀ base es, s.base.access c = some (base,es) →
      Rule queueMode s.base (.access c) base es := fun _ _ hbase => rule_of_step hbase
  unfold WaitState.access at h
  split at h
  next target hpc =>
    split at h
    next => cases h; exact .enqueue c target hpc
    next =>
      split at h
      next => contradiction
      next base es hbase => cases h; exact .test c target _ _ hpc (hrule _ _ hbase)
    next =>
      split at h
      next => cases h; exact .again c target hpc
      next => contradiction
  next p hpc =>
    split at h
    next => contradiction
    next base es hbase => cases h; exact .access c _ _ hpc (hrule _ _ hbase)

theorem wakeRule_of_irq {queueMode : Int} {s s' : WaitState ι} (h : s.irq queueMode = some s') :
    WakeRule queueMode s .irq s' [] := by
  unfold WaitState.irq at h
  split at h
  next hhandler =>
    split at h
    next hmsi => cases h; exact .irqEnter hhandler hmsi
    next => contradiction
  next hhandler =>
    split at h
    next hmode => cases h; exact .irqShared hhandler hmode
    next hmode => cases h; exact .irqPrivate hhandler hmode
  next hhandler => cases h; exact .irqUnlock hhandler
  next ctx rest hhandler => cases h; exact .irqCtx ctx rest hhandler
  next hhandler => cases h; exact .irqReturn hhandler

theorem wakeRule_of_next {queueMode : Int} {s s' : WaitState ι} {a : WakeAction ι}
    {es : List (Event ι)} (h : s.next queueMode a = some (s',es)) :
    WakeRule queueMode s a s' es := by
  unfold WaitState.next at h
  split at h
  next c => exact wakeRule_of_access h
  next =>
    unfold WaitState.firmware at h
    split at h
    next howes => cases h; exact .msi howes
    next howes => cases h; exact .firmware _ _ (by simpa using howes) (rule_of_step rfl)
  next a haccess hfirmware =>
    split at h
    next => contradiction
    next base es hbase =>
      cases h
      exact .other a _ _ (fun c hc => haccess c hc) hfirmware (rule_of_step hbase)
  next ctx =>
    split at h
    next => contradiction
    next => cases h; exact .files _ _ (by simp)
  next ctx =>
    split at h
    next => contradiction
    next => cases h; exact .files _ _ (by simp)
  next =>
    obtain ⟨s₁,hirq,heq⟩ := Option.map_eq_some_iff.mp h
    cases heq
    exact wakeRule_of_irq hirq

omit [DecidableEq ι] in
theorem stageFrom_ne_wait (kbin : KernelBinary) (i : Nat) (target : UInt32) :
    stageFrom kbin i ≠ .wait target := by
  unfold stageFrom
  split <;> simp

theorem entry_ne_wait (queueMode : Int) (call : Call) (target : UInt32) :
    entry queueMode call ≠ .wait target := by
  unfold entry
  split
  next => simp
  next => split <;> simp
  next => split <;> simp
  next => simp
  next =>
    split
    · simp
    · exact stageFrom_ne_wait _ _ _

/-- A call gets to its wait from the two places that name a queue. -/
theorem Rule.wait_begins {queueMode : Int} {s s' : State ι} {a : Action ι} {es : List (Event ι)}
    (h : Rule queueMode s a s' es) {c : ι} {target : UInt32} (hpc : s'.pc c = .wait target) :
    s.pc c = .wait target ∨ a = .access c ∧ (s.pc c).waitQueue = some .dev := by
  by_cases hactor : a.actor = some c
  · cases h with
    | start c' call =>
      obtain rfl := Option.some.inj hactor
      rw [State.setPc_pc_self] at hpc
      exact absurd hpc (entry_ne_wait _ _ _)
    | stageWord c' kbin i w =>
      obtain rfl := Option.some.inj hactor
      rw [State.setPc_pc_self] at hpc
      exact absurd hpc (stageFrom_ne_wait _ _ _)
    | unlock c' job tail hpc' =>
      obtain rfl := Option.some.inj hactor
      rw [State.setPc_pc_self] at hpc
      cases job with
      | submit cmd => contradiction
      | load kbin => exact .inr ⟨rfl,by rw [hpc']; rfl⟩
    | snapshot c' hpc' =>
      obtain rfl := Option.some.inj hactor
      exact .inr ⟨rfl,by rw [hpc']; rfl⟩
    | testTrue c' target' a otherwise hpc' hwait =>
      obtain rfl := Option.some.inj (hwait.actor.symm.trans hactor)
      rw [State.setPc_pc_self] at hpc
      contradiction
    | testFalse c' target' a otherwise hpc' hwait =>
      obtain rfl := Option.some.inj (hwait.actor.symm.trans hactor)
      rw [State.setPc_pc_self] at hpc
      subst hpc
      cases hwait
      exact .inl hpc'
    | writeCmd c' job tail j =>
      obtain rfl := Option.some.inj hactor
      rw [State.setPc_pc_self] at hpc
      split at hpc <;> contradiction
    | fwHead | fwEmpty | fwTask | fwFetch | fwFetchLast | fwExec | fwCommit | upload =>
      contradiction
    | _ =>
      obtain rfl := Option.some.inj hactor
      rw [State.setPc_pc_self] at hpc
      contradiction
  · rw [h.pc_other hactor] at hpc
    exact .inl hpc

theorem WaitState.begins_other (s : WaitState ι) {c d : ι} (p : Pc) (h : c ≠ d) :
    s.begins d p c = s.waiter c := by
  unfold begins
  cases p.waitQueue with
  | none => rfl
  | some queue => exact Function.update_of_ne h _ _

theorem WaitState.begins_self {s : WaitState ι} {c : ι} {p : Pc} {queue : WaitQueue}
    (h : p.waitQueue = some queue) : s.begins c p c = .begin queue := by
  unfold begins
  rw [h]
  exact Function.update_self _ _ _

/-- Every wait is on `dev->wait_q`. -/
def WaitState.OnDevQueue (s : WaitState ι) : Prop :=
  ∀ c target, s.base.pc c = .wait target → (s.waiter c).queue = .dev

theorem onDevQueue_of_rule {queueMode : Int} {s s' : WaitState ι} {a : WakeAction ι}
    {es : List (Event ι)} (h : WakeRule queueMode s a s' es) (ih : s.OnDevQueue) :
    s'.OnDevQueue := by
  intro c target hpc
  have hupdate : ∀ (d : ι) (w : Waiter WaitQueue), (s.waiter c).queue = .dev →
      (c = d → w.queue = .dev) → (Function.update s.waiter d w c).queue = .dev := by
    intro d w hold hnew
    by_cases hd : c = d
    · rw [hd, Function.update_self]
      exact hnew hd
    · rw [Function.update_of_ne hd]
      exact hold
  cases h with
  | enqueue d target' hd | again d target' hd =>
    have hold := ih c target hpc
    exact hupdate d _ hold fun heq => heq ▸ hold
  | test d target' base es hd hrule =>
    have hold : (s.waiter c).queue = .dev := by
      rcases hrule.wait_begins hpc with hsame | ⟨ha,hqueue⟩
      · exact ih c target hsame
      · cases ha
        rw [hd] at hqueue
        contradiction
    apply hupdate d _ hold
    intro heq
    subst heq
    split <;> exact hold
  | access d base es hd hrule =>
    rcases hrule.wait_begins hpc with hsame | ⟨ha,hqueue⟩
    · have hold := ih c target hsame
      have hne : c ≠ d := by
        rintro rfl
        exact hd target hsame
      exact (congrArg Waiter.queue (WaitState.begins_other s _ hne)).trans hold
    · cases ha
      exact congrArg Waiter.queue (WaitState.begins_self hqueue)
  | firmware base es _ hrule =>
    rcases hrule.wait_begins hpc with hsame | ⟨ha,-⟩
    · exact ih c target hsame
    · contradiction
  | other a base es hnot hfirmware hrule =>
    rcases hrule.wait_begins hpc with hsame | ⟨ha,-⟩
    · exact ih c target hsame
    · exact absurd ha (hnot c)
  | irqShared | irqCtx =>
    exact (wake_queue _ _ _).trans (ih c target hpc)
  | msi | files | irqEnter | irqPrivate | irqUnlock | irqReturn => exact ih c target hpc

omit [DecidableEq ι] in
theorem waitCondition_eq {s : State ι} {c : ι} {target : UInt32} (h : s.pc c = .wait target) :
    s.waitCondition c = decide (s.ring.head = target) := by
  unfold State.waitCondition
  rw [h]

omit [DecidableEq ι] in
theorem wait_of_condition {s : State ι} {c : ι} (h : s.waitCondition c = true) :
    ∃ target, s.pc c = .wait target := by
  unfold State.waitCondition at h
  split at h
  next target hpc => exact ⟨target,hpc⟩
  next => contradiction

/-- A test that fails leaves the condition false. -/
theorem Rule.test_in_vain {queueMode : Int} {s s' : State ι} {c : ι} {es : List (Event ι)}
    (h : Rule queueMode s (.access c) s' es) {target : UInt32} (hpc : s.pc c = .wait target)
    (hheld : s.waitCondition c = false) : s'.waitCondition c = false := by
  rw [waitCondition_eq hpc, decide_eq_false_iff_not] at hheld
  cases h with
  | testTrue _ target' _ otherwise hpc' hwait hheld' =>
    cases hwait
    cases hpc.symm.trans hpc'
    exact absurd hheld' hheld
  | testFalse _ target' _ otherwise hpc' hwait =>
    cases hwait
    rw [waitCondition_eq (State.setPc_pc_self _ _ _)]
    cases hpc.symm.trans hpc'
    exact decide_eq_false hheld
  | stageFault _ _ _ hpc' | stageWord _ _ _ _ hpc' | lock _ _ hpc' | readHead _ _ hpc'
  | readTailFull _ _ _ hpc' | readTailRoom _ _ _ hpc' | writeCmd _ _ _ _ hpc'
  | writeTail _ _ _ hpc' | ringIrq _ _ _ hpc' | unlock _ _ _ hpc' | unlockBusy _ _ hpc'
  | snapshot _ hpc' =>
    rw [hpc] at hpc'
    contradiction

/-- A call is asleep as before, or tested its condition in vain. -/
theorem asleep_of_rule {queueMode : Int} {s s' : WaitState ι} {a : WakeAction ι}
    {es : List (Event ι)} (h : WakeRule queueMode s a s' es) {c : ι} (hasleep : s'.Asleep c) :
    s.Asleep c ∨ s'.base.waitCondition c = false := by
  obtain ⟨⟨target,hpc⟩,hwaiter⟩ := hasleep
  cases h with
  | enqueue d target' hd =>
    by_cases hcd : c = d
    · subst hcd
      simp [Waiter.Asleep, Waiter.enqueue] at hwaiter
    · exact .inl ⟨⟨target,hpc⟩,by simpa [hcd] using hwaiter⟩
  | again d target' hd =>
    by_cases hcd : c = d
    · subst hcd
      simp [Waiter.Asleep, Waiter.again] at hwaiter
    · exact .inl ⟨⟨target,hpc⟩,by simpa [hcd] using hwaiter⟩
  | test d target' base es hd hrule =>
    by_cases hcd : c = d
    · subst hcd
      by_cases hheld : s.base.waitCondition c = true
      · simp [Waiter.Asleep, Waiter.again, hheld] at hwaiter
      · exact .inr (hrule.test_in_vain hd (by simpa using hheld))
    · rcases hrule.wait_begins hpc with hsame | ⟨ha,-⟩
      · exact .inl ⟨⟨target,hsame⟩,by simpa [hcd] using hwaiter⟩
      · cases ha
        exact absurd rfl hcd
  | access d base es hd hrule =>
    rcases hrule.wait_begins hpc with hsame | ⟨ha,hqueue⟩
    · have hne : c ≠ d := by
        rintro rfl
        exact hd target hsame
      have hsleep : (s.begins d (s.base.pc d) c).Asleep := hwaiter
      rw [WaitState.begins_other s _ hne] at hsleep
      exact .inl ⟨⟨target,hsame⟩,hsleep⟩
    · cases ha
      have hsleep : (s.begins c (s.base.pc c) c).Asleep := hwaiter
      rw [WaitState.begins_self hqueue] at hsleep
      simp [Waiter.Asleep, Waiter.begin] at hsleep
  | firmware base es _ hrule =>
    rcases hrule.wait_begins hpc with hsame | ⟨ha,-⟩
    · exact .inl ⟨⟨target,hsame⟩,hwaiter⟩
    · contradiction
  | other a base es hnot hfirmware hrule =>
    rcases hrule.wait_begins hpc with hsame | ⟨ha,-⟩
    · exact .inl ⟨⟨target,hsame⟩,hwaiter⟩
    · exact absurd ha (hnot c)
  | irqShared | irqCtx => exact .inl ⟨⟨target,hpc⟩,asleep_of_wake hwaiter⟩
  | msi | files | irqEnter | irqPrivate | irqUnlock | irqReturn =>
    exact .inl ⟨⟨target,hpc⟩,hwaiter⟩

theorem wakeRule_of_step {queueMode : Int} {s s' : WaitState ι} {a : WakeAction ι}
    {es : List (Event ι)} (h : s.step queueMode a = some (s',es)) :
    ∃ s₁, WakeRule queueMode s a s₁ es ∧ s' = s.record s₁ := by
  obtain ⟨⟨s₁,es₁⟩,hnext,heq⟩ := Option.map_eq_some_iff.mp h
  cases heq
  exact ⟨s₁,wakeRule_of_next hnext,rfl⟩

/-- The handler has woken what it wakes, or wakes nothing that any call waits on. -/
def WaitState.Covered (queueMode : Int) (s : WaitState ι) : Prop :=
  match s.handler with
  | .idle => False
  | .entered => queueMode ≠ 0
  | .waking _ | .leaving => True

/-- In the private mode, the handler is entered only while no call is asleep that
its condition would let go. -/
def NoneToWake (queueMode : Int) (_ : List (Event ι)) (s : WaitState ι) (a : WakeAction ι) : Prop :=
  a = .irq → s.handler = .idle → queueMode = 0 ∨
    ∀ c, s.Asleep c → s.base.waitCondition c = false

structure WakeInv (queueMode : Int) (s : WaitState ι) : Prop where
  queues : s.OnDevQueue
  covered : s.Covered queueMode → ∀ c, s.held c = true → ¬s.Asleep c

/-- A step that neither enters the handler nor wakes anybody. -/
theorem WakeInv.keep {queueMode : Int} {s s' : WaitState ι} {a : WakeAction ι}
    {es : List (Event ι)} (ih : WakeInv queueMode s) (hrule : WakeRule queueMode s a s' es)
    (henter : ¬(s.handler = .idle ∧ s'.handler = .entered))
    (hcovered : s'.Covered queueMode → s.Covered queueMode) :
    WakeInv queueMode (s.record s') := by
  have hqueues := onDevQueue_of_rule hrule ih.queues
  refine ⟨hqueues,fun hcov c hheld hasleep => ?_⟩
  obtain ⟨hold,hcondition⟩ : s.held c = true ∧ s'.base.waitCondition c = true := by
    simpa [WaitState.record, henter] using hheld
  rcases asleep_of_rule hrule hasleep with hbefore | hfalse
  · exact ih.covered (hcovered hcov) c hold hbefore
  · rw [hcondition] at hfalse
    contradiction

theorem wakeInv_run {queueMode : Int} {log : List (Event ι)} {s : WaitState ι}
    (h : (waitSystem ι queueMode).RunWith (NoneToWake queueMode) log s) :
    WakeInv queueMode s := by
  refine h.invariant (I := fun _ s => WakeInv queueMode s) ?_ ?_
  · rintro s ⟨hprobed,-,-,-,hidle,-⟩
    refine ⟨?_,?_⟩
    · intro c target hpc
      rw [hprobed.2.2.2.1 c] at hpc
      contradiction
    · intro hcov
      unfold WaitState.Covered at hcov
      rw [hidle] at hcov
      exact hcov.elim
  · intro log s a s' es _ ih hok hstep
    obtain ⟨s₁,hrule,rfl⟩ := wakeRule_of_step hstep
    have hqueues := onDevQueue_of_rule hrule ih.queues
    cases hrule with
    | irqEnter hidle hmsi =>
      refine ⟨hqueues,fun hcov c hheld hasleep => ?_⟩
      have hfalse := (hok rfl hidle).resolve_left hcov c hasleep
      have htrue : s.base.waitCondition c = true := by
        simp only [WaitState.record, Bool.and_eq_true] at hheld
        exact hheld.2
      rw [hfalse] at htrue
      contradiction
    | irqShared hentered hmode =>
      refine ⟨hqueues,fun _ c _ hasleep => ?_⟩
      obtain ⟨⟨target,hpc⟩,hwaiter⟩ := hasleep
      exact not_asleep_wake (ih.queues c target hpc) hwaiter
    | irqPrivate hentered hmode =>
      exact ih.keep (.irqPrivate hentered hmode) (by simp)
        fun _ => by simpa [WaitState.Covered, hentered] using hmode
    | irqCtx ctx rest hwaking =>
      exact ih.keep (.irqCtx ctx rest hwaking) (by simp)
        fun _ => by simp [WaitState.Covered, hwaking]
    | irqUnlock hwaking =>
      exact ih.keep (.irqUnlock hwaking) (by simp) fun _ => by simp [WaitState.Covered, hwaking]
    | irqReturn hleaving => exact ih.keep (.irqReturn hleaving) (by simp) fun hcov => hcov.elim
    | enqueue c target hpc =>
      exact ih.keep (.enqueue c target hpc) (by simp_all) id
    | again c target hpc => exact ih.keep (.again c target hpc) (by simp_all) id
    | test c target base es hpc hbase =>
      exact ih.keep (.test c target base es hpc hbase) (by simp_all) id
    | access c base es hpc hbase => exact ih.keep (.access c base es hpc hbase) (by simp_all) id
    | msi howes => exact ih.keep (.msi howes) (by simp_all) id
    | firmware base es howes hbase =>
      exact ih.keep (.firmware base es howes hbase) (by simp_all) id
    | other a base es hnot hfirmware hbase =>
      exact ih.keep (.other a base es hnot hfirmware hbase) (by simp_all) id
    | files a ctxList ha => exact ih.keep (.files a ctxList ha) (by simp_all) id

/-- When the handler returns, no ioctl is left asleep whose condition held all the
while the handler ran. -/
theorem no_lost_wakeup {queueMode : Int} {log : List (Event ι)} {s s' : WaitState ι}
    {es : List (Event ι)} (h : (waitSystem ι queueMode).RunWith (NoneToWake queueMode) log s)
    (hleaving : s.handler = .leaving) (hreturn : s.step queueMode .irq = some (s',es)) :
    ∀ c, s'.held c = true → ¬s'.Asleep c := by
  intro c hheld hasleep
  obtain ⟨s₁,hrule,rfl⟩ := wakeRule_of_step hreturn
  have hcovered : s.Covered queueMode := by
    unfold WaitState.Covered
    rw [hleaving]
    trivial
  cases hrule with
  | irqReturn =>
    have hold : s.held c = true := by
      simp only [WaitState.record, hleaving, Bool.and_eq_true] at hheld
      simpa using hheld.1
    exact (wakeInv_run h).covered hcovered c hold hasleep
  | irqEnter hidle | irqShared hidle | irqPrivate hidle | irqCtx _ _ hidle | irqUnlock hidle =>
    rw [hleaving] at hidle
    contradiction
  | files _ _ ha => exact absurd rfl ha

/-- The condition of a call that stays in its wait begins to hold with a commit. -/
theorem Rule.condition {queueMode : Int} {s s' : State ι} {a : Action ι} {es : List (Event ι)}
    (h : Rule queueMode s a s' es) {c : ι} {target : UInt32} (hpc : s.pc c = .wait target)
    {target' : UInt32} (hpc' : s'.pc c = .wait target') (hheld : s'.waitCondition c = true) :
    s.waitCondition c = true ∨ a = .firmware ∧ consumedIn es ≠ [] := by
  have hhead : s'.ring.head = s.ring.head ∨ a = .firmware ∧ consumedIn es ≠ [] := by
    cases h with
    | fwCommit => exact .inr ⟨rfl,by simp⟩
    | _ => exact .inl rfl
  apply hhead.imp_left
  intro hhead
  rcases h.wait_begins hpc' with hsame | ⟨-,hqueue⟩
  · unfold State.waitCondition at hheld ⊢
    rw [hpc', hhead] at hheld
    rw [hsame]
    exact hheld
  · rw [hpc] at hqueue
    contradiction

/-- The handler is still going to wake the shared queue. -/
def WaitState.IrqComing (s : WaitState ι) : Prop :=
  s.owesMsi = true ∨ s.msi = true ∨ s.handler = .entered

/-- In the shared mode no call sleeps on, once its condition holds, without an
interrupt to come. -/
theorem asleep_expects_irq {log : List (Event ι)} {s : WaitState ι}
    (h : (waitSystem ι 0).Run log s) :
    ∀ c, s.Asleep c → s.base.waitCondition c = true → s.IrqComing := by
  have hqueues : s.OnDevQueue ∧
      ∀ c, s.Asleep c → s.base.waitCondition c = true → s.IrqComing := by
    refine h.invariant (I := fun _ s => s.OnDevQueue ∧
      ∀ c, s.Asleep c → s.base.waitCondition c = true → s.IrqComing) ?_ ?_
    · rintro s ⟨hprobed,-⟩
      have hready : ∀ c target, s.base.pc c ≠ .wait target := by
        intro c target hpc
        rw [hprobed.2.2.2.1 c] at hpc
        contradiction
      exact ⟨fun c target hpc => absurd hpc (hready c target),
        fun c hasleep => absurd hasleep.1.choose_spec (hready c _)⟩
    · intro log s a s' es _ ih _ hstep
      obtain ⟨s₁,hrule,rfl⟩ := wakeRule_of_step hstep
      have hqueues := onDevQueue_of_rule hrule ih.1
      refine ⟨hqueues,fun c hasleep hheld => ?_⟩
      have hbefore : s.Asleep c := by
        rcases asleep_of_rule hrule hasleep with hbefore | hfalse
        · exact hbefore
        · exact absurd (hfalse.symm.trans hheld) (by decide)
      obtain ⟨target,hpc⟩ := hbefore.1
      obtain ⟨target',hpc'⟩ := hasleep.1
      have hcoming := ih.2 c hbefore
      cases hrule with
      | enqueue | again | files => exact hcoming hheld
      | test d _ base es _ hbase | access d base es _ hbase =>
        rcases hbase.condition hpc hpc' hheld with hold | ⟨ha,-⟩
        · exact hcoming hold
        · contradiction
      | other a base es _ hfirmware hbase =>
        rcases hbase.condition hpc hpc' hheld with hold | ⟨ha,-⟩
        · exact hcoming hold
        · exact absurd ha hfirmware
      | firmware base es howes hbase =>
        rcases hbase.condition hpc hpc' hheld with hold | ⟨-,hcommit⟩
        · rcases hcoming hold with howes' | hlater
          · rw [howes] at howes'
            contradiction
          · exact .inr hlater
        · exact .inl (by simpa [WaitState.record, List.isEmpty_iff] using hcommit)
      | msi => exact .inr (.inl rfl)
      | irqEnter => exact .inr (.inr rfl)
      | irqShared => exact absurd hasleep.2 (not_asleep_wake (ih.1 c target hpc))
      | irqPrivate _ hmode => exact absurd rfl hmode
      | irqCtx _ _ hhandler | irqUnlock hhandler | irqReturn hhandler =>
        rcases hcoming hheld with howes | hmsi | hentered
        · exact .inl howes
        · exact .inr (.inl hmsi)
        · rw [hhandler] at hentered
          contradiction
  exact hqueues.2

/-- A kernel of one word, loaded while the firmware is slow. -/
def oneWord : KernelBinary := ⟨fun _ => some 0x13,1,7⟩

/-- LOAD_KERNEL is asleep when the head reaches its target and the MSI is raised. -/
def sleepingLoad : List (WakeAction Nat) :=
  [.fpgagpuOpen 3,.base (.start 0 (.loadKernel (some oneWord)))] ++
    List.replicate 25 (.base (.access 0)) ++ List.replicate 21 (.base .firmware)

/-- A probed device with nothing going on. -/
def quietDevice : WaitState Nat :=
  ⟨probed Nat,fun _ => .begin .dev,[],false,false,.idle,fun _ => false⟩

theorem quietDevice_init (queueMode : Int) : (waitSystem Nat queueMode).init quietDevice :=
  ⟨probed_init Nat,rfl,rfl,rfl,rfl,fun _ => rfl⟩

/-- The handler wakes the sleeper and is about to return. -/
def sharedIrq : List (WakeAction Nat) := sleepingLoad ++ List.replicate 2 .irq

theorem sharedIrq_runs : ((waitSystem Nat 0).exec quietDevice sharedIrq).isSome = true := by
  decide +kernel

/-- The handler returns. -/
theorem irq_return {queueMode : Int} {s : WaitState ι} {c : ι} (h : s.handler = .leaving)
    (hheld : s.held c = true) (hcondition : s.base.waitCondition c = true) :
    ∃ s', s.step queueMode .irq = some (s',[]) ∧ s'.held c = true ∧
      (s.Asleep c → s'.Asleep c) := by
  refine ⟨s.record {s with handler := .idle},?_,?_,?_⟩
  · simp [WaitState.step, WaitState.next, WaitState.irq, h]
  · simp [WaitState.record, h, hheld, hcondition]
  · intro hasleep
    exact hasleep

theorem sharedIrq_leaving :
    let s := (((waitSystem Nat 0).exec quietDevice sharedIrq).get sharedIrq_runs).1
    s.handler = .leaving ∧ s.held 0 = true ∧ s.base.waitCondition 0 = true := by
  decide +kernel

theorem no_lost_wakeup_shared : ∃ log s s', (waitSystem Nat 0).RunWith (NoneToWake 0) log s ∧
    s.step 0 .irq = some (s',[]) ∧ s'.held 0 = true ∧ ¬s'.Asleep 0 := by
  have hinit : (waitSystem Nat 0).RunWith (NoneToWake 0) [] quietDevice :=
    .init (quietDevice_init 0)
  have hrun := hinit.continue sharedIrq (fun _ _ _ _ _ _ => .inl rfl) sharedIrq_runs
  have hleaving := sharedIrq_leaving
  generalize ((waitSystem Nat 0).exec quietDevice sharedIrq).get sharedIrq_runs = r at hrun hleaving
  obtain ⟨hleaving,hheld,hcondition⟩ := hleaving
  obtain ⟨s',hreturn,hheld',-⟩ := irq_return hleaving hheld hcondition
  exact ⟨_,r.1,s',hrun,hreturn,hheld',no_lost_wakeup hrun hleaving hreturn 0 hheld'⟩

/-- In the private mode the handler wakes the context's queue, and leaves the
ioctl asleep on the device's. -/
def privateIrq : List (WakeAction Nat) := sleepingLoad ++ List.replicate 4 .irq

theorem privateIrq_runs : ((waitSystem Nat 1).exec quietDevice privateIrq).isSome = true := by
  decide +kernel

theorem privateIrq_leaving :
    let s := (((waitSystem Nat 1).exec quietDevice privateIrq).get privateIrq_runs).1
    s.handler = .leaving ∧ s.held 0 = true ∧ s.base.waitCondition 0 = true ∧
      (s.waiter 0).phase = .sleep ∧ (s.waiter 0).roused = false := by
  decide +kernel

theorem private_irq_leaves_sleeper : ∃ log s s', (waitSystem Nat 1).Run log s ∧
    s.handler = .leaving ∧ s.step 1 .irq = some (s',[]) ∧ s'.held 0 = true ∧ s'.Asleep 0 := by
  have hrun := System.Run.of_exec (quietDevice_init 1) privateIrq privateIrq_runs
  have hleaving := privateIrq_leaving
  generalize ((waitSystem Nat 1).exec quietDevice privateIrq).get privateIrq_runs = r
    at hrun hleaving
  obtain ⟨hleaving,hheld,hcondition,hwaiter⟩ := hleaving
  obtain ⟨s',hreturn,hheld',hasleep⟩ := irq_return hleaving hheld hcondition
  exact ⟨_,r.1,s',hrun,hleaving,hreturn,hheld',hasleep ⟨wait_of_condition hcondition,hwaiter⟩⟩

end FpgaGpu.Driver
