import FpgaGpu.Driver.Section
import FpgaGpu.Driver.WaitQueues
import FpgaGpu.Library.SpinLocks

/-! One CPU, with `fpgagpu_irq_handler` between any two steps of open, release and the
ioctls. The sections under a spin lock leave interrupts on. -/
namespace FpgaGpu.Driver
open Library

/-- The next statement of the open or the release of a file. -/
inductive FilePc where
  | closed
  | kzalloc
  | lockAdd
  | addTail
  | unlockAdd
  | opened
  | lockDel
  | del
  | unlockDel
  deriving DecidableEq, Repr

/-- The thread that executes a call; a file has one for its open and its release. -/
inductive Thread (ι : Type) where
  | ioctl (c : ι)
  | file (ctx : Nat)
  deriving DecidableEq, Repr

inductive SpinLock where
  | globalLock
  | ctxLock
  deriving DecidableEq, Repr

inductive CtxHolder where
  | file (ctx : Nat)
  | handler
  deriving DecidableEq, Repr

/-- `running` has the CPU, or had it when the handler came. -/
structure CpuState (ι : Type) where
  base : State ι
  file : Nat → FilePc
  ctxList : List Nat
  ctxLock : Option CtxHolder
  running : Option (Thread ι)
  handler : Handler

/-- `alloc` says whether `kzalloc` succeeds. The ring also moves without the CPU. -/
inductive CpuStep (ι : Type) where
  | schedule (t : Option (Thread ι))
  | ring (a : Action ι)
  | file (ctx : Nat) (alloc : Bool)
  | irq

variable {ι : Type}

def CpuState.setFile (s : CpuState ι) (ctx : Nat) (pc : FilePc) : CpuState ι :=
  {s with file := Function.update s.file ctx pc}

/-- `spin_lock(&dev->ctx_lock)`, for its holder. -/
def CpuState.lockCtx (s : CpuState ι) (holder : CtxHolder) : Option (CpuState ι) :=
  match s.ctxLock with
  | none => some {s with ctxLock := some holder}
  | some _ => none

/-- The next statement of `fpgagpu_open` or `fpgagpu_release`. -/
def CpuState.fileStep (s : CpuState ι) (ctx : Nat) (alloc : Bool) : Option (CpuState ι) :=
  match s.file ctx with
  | .closed => some (s.setFile ctx .kzalloc)
  | .kzalloc => some (s.setFile ctx (if alloc then .lockAdd else .closed))
  | .lockAdd => (s.lockCtx (.file ctx)).map (·.setFile ctx .addTail)
  | .addTail => some ({s with ctxList := s.ctxList ++ [ctx]}.setFile ctx .unlockAdd)
  | .unlockAdd => some ({s with ctxLock := none}.setFile ctx .opened)
  | .opened => some (s.setFile ctx .lockDel)
  | .lockDel => (s.lockCtx (.file ctx)).map (·.setFile ctx .del)
  | .del => some ({s with ctxList := s.ctxList.erase ctx}.setFile ctx .unlockDel)
  | .unlockDel => some ({s with ctxLock := none}.setFile ctx .closed)

/-- The next statement of the handler, or its entry. -/
def CpuState.irq (queueMode : Int) (s : CpuState ι) : Option (CpuState ι) :=
  match s.handler with
  | .idle => some {s with handler := .entered}
  | .entered =>
      if queueMode = 0 then some {s with handler := .leaving}
      else (s.lockCtx .handler).map fun s => {s with handler := .waking s.ctxList}
  | .waking [] => some {s with ctxLock := none, handler := .leaving}
  | .waking (_ :: rest) => some {s with handler := .waking rest}
  | .leaving => some {s with handler := .idle}

variable [DecidableEq ι]

/-- The spin locks of a thread. -/
def CpuState.locksOf (s : CpuState ι) : Thread ι → List SpinLock
  | .ioctl c => if s.base.globalLock = some c then [.globalLock] else []
  | .file ctx => if s.ctxLock = some (.file ctx) then [.ctxLock] else []

/-- The spin locks of the thread that runs or is interrupted. -/
def CpuState.held (s : CpuState ι) : List SpinLock := s.running.elim [] s.locksOf

/-- A thread that holds a spin lock is not preempted. -/
def CpuState.step (queueMode : Int) (s : CpuState ι) :
    CpuStep ι → Option (CpuState ι × List (Event ι))
  | .schedule t =>
      if s.handler = .idle ∧ s.held = [] then some ({s with running := t},[]) else none
  | .ring a =>
      if ∀ c ∈ a.actor, s.handler = .idle ∧ s.running = some (.ioctl c) then
        (FpgaGpu.Driver.step queueMode s.base a).map fun r => ({s with base := r.1},r.2)
      else none
  | .file ctx alloc =>
      if s.handler = .idle ∧ s.running = some (.file ctx) then
        (s.fileStep ctx alloc).map fun s => (s,[])
      else none
  | .irq => (s.irq queueMode).map fun s => (s,[])

/-- A probed device, no file open and the CPU idle. -/
def cpuSystem (ι : Type) [DecidableEq ι] (queueMode : Int) :
    System (CpuState ι) (CpuStep ι) (Event ι) where
  init s := Probed s.base ∧ (∀ ctx, s.file ctx = .closed) ∧ s.ctxList = [] ∧ s.ctxLock = none ∧
    s.running = none ∧ s.handler = .idle
  step := CpuState.step queueMode

/-- The lock that the handler takes with its next statement. -/
def CpuState.wants (queueMode : Int) (s : CpuState ι) : Option SpinLock :=
  if s.handler = .entered ∧ queueMode ≠ 0 then some .ctxLock else none

/-- The handler spins on a lock of the thread that it interrupted. -/
def CpuState.Deadlocked (queueMode : Int) (s : CpuState ι) : Prop :=
  ∃ l, s.wants queueMode = some l ∧ l ∈ s.held

/-- In the private mode no interrupt comes while the thread that runs holds `ctx_lock`. -/
def LockFreeEntry (queueMode : Int) (_ : List (Event ι)) (s : CpuState ι) : CpuStep ι → Prop
  | .irq => s.handler = .idle → queueMode = 0 ∨ .ctxLock ∉ s.held
  | _ => True

/-- Between `spin_lock` and `spin_unlock`. -/
def FilePc.InSection : FilePc → Prop
  | .addTail | .unlockAdd | .del | .unlockDel => True
  | _ => False

/-- The ways open and release go on. -/
inductive FileRule (s : CpuState ι) (ctx : Nat) : CpuState ι → Prop where
  | move (pc : FilePc) : ¬(s.file ctx).InSection → ¬pc.InSection →
      FileRule s ctx (s.setFile ctx pc)
  | lock (pc : FilePc) : s.ctxLock = none →
      FileRule s ctx ({s with ctxLock := some (.file ctx)}.setFile ctx pc)
  | list (pc : FilePc) (ctxs : List Nat) : (s.file ctx).InSection →
      FileRule s ctx ({s with ctxList := ctxs}.setFile ctx pc)
  | unlock (pc : FilePc) : (s.file ctx).InSection → ¬pc.InSection →
      FileRule s ctx ({s with ctxLock := none}.setFile ctx pc)

omit [DecidableEq ι] in
theorem lockCtx_some {s s' : CpuState ι} {holder : CtxHolder} (h : s.lockCtx holder = some s') :
    s.ctxLock = none ∧ s' = {s with ctxLock := some holder} := by
  unfold CpuState.lockCtx at h
  split at h
  next hfree => exact ⟨hfree,(Option.some.inj h).symm⟩
  next => contradiction

omit [DecidableEq ι] in
theorem fileRule_of_step {s s' : CpuState ι} {ctx : Nat} {alloc : Bool}
    (h : s.fileStep ctx alloc = some s') : FileRule s ctx s' := by
  unfold CpuState.fileStep at h
  split at h
  next hpc => cases h; exact .move _ (by simp [hpc, FilePc.InSection]) (by simp [FilePc.InSection])
  next hpc =>
    cases h
    exact .move _ (by simp [hpc, FilePc.InSection]) (by cases alloc <;> simp [FilePc.InSection])
  next hpc =>
    obtain ⟨s₁,hlock,rfl⟩ := Option.map_eq_some_iff.mp h
    obtain ⟨hfree,rfl⟩ := lockCtx_some hlock
    exact .lock _ hfree
  next hpc => cases h; exact .list _ _ (by simp [hpc, FilePc.InSection])
  next hpc =>
    cases h
    exact .unlock _ (by simp [hpc, FilePc.InSection]) (by simp [FilePc.InSection])
  next hpc => cases h; exact .move _ (by simp [hpc, FilePc.InSection]) (by simp [FilePc.InSection])
  next hpc =>
    obtain ⟨s₁,hlock,rfl⟩ := Option.map_eq_some_iff.mp h
    obtain ⟨hfree,rfl⟩ := lockCtx_some hlock
    exact .lock _ hfree
  next hpc => cases h; exact .list _ _ (by simp [hpc, FilePc.InSection])
  next hpc =>
    cases h
    exact .unlock _ (by simp [hpc, FilePc.InSection]) (by simp [FilePc.InSection])

/-- The ways a step can happen. -/
inductive OneCpuRule (queueMode : Int) (s : CpuState ι) :
    CpuStep ι → CpuState ι → List (Event ι) → Prop where
  | schedule (t : Option (Thread ι)) : s.handler = .idle → s.held = [] →
      OneCpuRule queueMode s (.schedule t) {s with running := t} []
  | call (c : ι) (a : Action ι) (base : State ι) (es : List (Event ι)) : a.actor = some c →
      s.handler = .idle → s.running = some (.ioctl c) →
      FpgaGpu.Driver.step queueMode s.base a = some (base,es) →
      OneCpuRule queueMode s (.ring a) {s with base} es
  | device (a : Action ι) (base : State ι) (es : List (Event ι)) : a.actor = none →
      FpgaGpu.Driver.step queueMode s.base a = some (base,es) →
      OneCpuRule queueMode s (.ring a) {s with base} es
  | file (ctx : Nat) (alloc : Bool) (s' : CpuState ι) : s.handler = .idle →
      s.running = some (.file ctx) → FileRule s ctx s' →
      OneCpuRule queueMode s (.file ctx alloc) s' []
  | irqEnter : s.handler = .idle → OneCpuRule queueMode s .irq {s with handler := .entered} []
  | irqShared : s.handler = .entered → queueMode = 0 →
      OneCpuRule queueMode s .irq {s with handler := .leaving} []
  | irqLock : s.handler = .entered → queueMode ≠ 0 → s.ctxLock = none →
      OneCpuRule queueMode s .irq
        {s with ctxLock := some .handler, handler := .waking s.ctxList} []
  | irqWake (ctx : Nat) (rest : List Nat) : s.handler = .waking (ctx :: rest) →
      OneCpuRule queueMode s .irq {s with handler := .waking rest} []
  | irqUnlock : s.handler = .waking [] →
      OneCpuRule queueMode s .irq {s with ctxLock := none, handler := .leaving} []
  | irqReturn : s.handler = .leaving → OneCpuRule queueMode s .irq {s with handler := .idle} []

omit [DecidableEq ι] in
theorem CpuState.irq_cases {queueMode : Int} {s s' : CpuState ι}
    (h : s.irq queueMode = some s') :
    (s.handler = .idle ∧ s' = {s with handler := .entered}) ∨
    (s.handler = .entered ∧ queueMode = 0 ∧ s' = {s with handler := .leaving}) ∨
    (s.handler = .entered ∧ queueMode ≠ 0 ∧ s.ctxLock = none ∧
      s' = {s with ctxLock := some .handler, handler := .waking s.ctxList}) ∨
    (∃ ctx rest, s.handler = .waking (ctx :: rest) ∧ s' = {s with handler := .waking rest}) ∨
    (s.handler = .waking [] ∧ s' = {s with ctxLock := none, handler := .leaving}) ∨
    (s.handler = .leaving ∧ s' = {s with handler := .idle}) := by
  unfold CpuState.irq at h
  split at h
  next hhandler => simp [hhandler, Option.some.inj h]
  next hhandler =>
    split at h
    next hmode => simp [hhandler, hmode, Option.some.inj h]
    next hmode =>
      obtain ⟨s₁,hlock,rfl⟩ := Option.map_eq_some_iff.mp h
      obtain ⟨hfree,rfl⟩ := lockCtx_some hlock
      simp [hhandler, hmode, hfree]
  next hhandler => simp [hhandler, Option.some.inj h]
  next ctx rest hhandler => simp [hhandler, Option.some.inj h]
  next hhandler => simp [hhandler, Option.some.inj h]

theorem oneCpuRule_of_step {queueMode : Int} {s s' : CpuState ι} {a : CpuStep ι}
    {es : List (Event ι)} (h : s.step queueMode a = some (s',es)) :
    OneCpuRule queueMode s a s' es := by
  unfold CpuState.step at h
  split at h
  next t =>
    split at h
    next hfree => cases h; exact .schedule t hfree.1 hfree.2
    next => contradiction
  next a =>
    split at h
    next hcpu =>
      obtain ⟨r,hr,heq⟩ := Option.map_eq_some_iff.mp h
      cases heq
      cases ha : a.actor with
      | none => exact .device a _ _ ha hr
      | some c =>
        obtain ⟨hhandler,hrunning⟩ := hcpu c ha
        exact .call c a _ _ ha hhandler hrunning hr
    next => contradiction
  next ctx alloc =>
    split at h
    next hcpu =>
      obtain ⟨r,hr,heq⟩ := Option.map_eq_some_iff.mp h
      cases heq
      exact .file ctx alloc _ hcpu.1 hcpu.2 (fileRule_of_step hr)
    next => contradiction
  next =>
    obtain ⟨r,hr,heq⟩ := Option.map_eq_some_iff.mp h
    cases heq
    rcases CpuState.irq_cases hr with ⟨hhandler,rfl⟩ | ⟨hhandler,hmode,rfl⟩ |
      ⟨hhandler,hmode,hfree,rfl⟩ | ⟨ctx,rest,hhandler,rfl⟩ | ⟨hhandler,rfl⟩ | ⟨hhandler,rfl⟩
    · exact .irqEnter hhandler
    · exact .irqShared hhandler hmode
    · exact .irqLock hhandler hmode hfree
    · exact .irqWake ctx rest hhandler
    · exact .irqUnlock hhandler
    · exact .irqReturn hhandler

/-- Whatever the CPU does, the ring goes on as the ring system. -/
theorem cpu_base_run {queueMode : Int} {ok : List (Event ι) → CpuState ι → CpuStep ι → Prop}
    {log : List (Event ι)} {s : CpuState ι} (h : (cpuSystem ι queueMode).RunWith ok log s) :
    (ringSystem ι queueMode).Run log s.base := by
  have hinit : ∀ s, (cpuSystem ι queueMode).init s → (ringSystem ι queueMode).init s.base :=
    fun s hs => hs.1
  have himage : (ringSystem ι queueMode).Run (log.filterMap some) s.base := by
    refine h.image CpuState.base some hinit ?_
    intro log s a s' es _ _ hstep
    rw [List.filterMap_some]
    cases oneCpuRule_of_step hstep with
    | call c a base _ _ _ _ hbase | device a base _ _ hbase => exact .inr ⟨a,trivial,hbase⟩
    | file ctx alloc _ _ _ hrule => cases hrule <;> exact .inl ⟨rfl,rfl⟩
    | _ => exact .inl ⟨rfl,rfl⟩
  rwa [List.filterMap_some] at himage

/-- The global lock is taken when it is free, and given back from inside the section. -/
theorem Rule.globalLock {queueMode : Int} {s s' : State ι} {a : Action ι} {es : List (Event ι)}
    (h : Rule queueMode s a s' es) : s'.globalLock = s.globalLock ∨
      (∃ c, a.actor = some c ∧ s.globalLock = none ∧ s'.globalLock = some c) ∨
      ∃ c, a.actor = some c ∧ (s.pc c).InSection ∧ s'.globalLock = none := by
  cases h with
  | lock c job hpc hfree => exact .inr (.inl ⟨c,rfl,hfree,rfl⟩)
  | unlock c job tail hpc => exact .inr (.inr ⟨c,rfl,by simp [hpc, Pc.InSection],rfl⟩)
  | unlockBusy c job hpc => exact .inr (.inr ⟨c,rfl,by simp [hpc, Pc.InSection],rfl⟩)
  | _ => exact .inl rfl

theorem Rule.globalLock_device {queueMode : Int} {s s' : State ι} {a : Action ι}
    {es : List (Event ι)} (h : Rule queueMode s a s' es) (hactor : a.actor = none) :
    s'.globalLock = s.globalLock := by
  have hnone : ∀ c, a.actor ≠ some c := by simp [hactor]
  rcases h.globalLock with hsame | ⟨c,hc,-⟩ | ⟨c,hc,-⟩
  · exact hsame
  · exact absurd hc (hnone c)
  · exact absurd hc (hnone c)

/-- Who has `ctx_lock` is who is in a section under it. -/
structure CtxLockInv (s : CpuState ι) : Prop where
  file : ∀ ctx, (s.file ctx).InSection → s.ctxLock = some (.file ctx)
  runs : ∀ ctx, s.ctxLock = some (.file ctx) → s.running = some (.file ctx)
  handler : s.ctxLock = some .handler ↔ s.handler.locksCtx = true

omit [DecidableEq ι] in
theorem CtxLockInv.setFile {s : CpuState ι} {ctx : Nat} {pc : FilePc} (h : CtxLockInv s)
    (hpc : pc.InSection → s.ctxLock = some (.file ctx)) : CtxLockInv (s.setFile ctx pc) where
  file ctx' hin := by
    by_cases hctx : ctx' = ctx
    · subst hctx
      exact hpc (by simpa [CpuState.setFile] using hin)
    · exact h.file ctx' (by simpa [CpuState.setFile, hctx] using hin)
  runs := h.runs
  handler := h.handler

omit [DecidableEq ι] in
theorem CtxLockInv.file_step {s s' : CpuState ι} {ctx : Nat} (h : CtxLockInv s)
    (hhandler : s.handler = .idle) (hrunning : s.running = some (.file ctx))
    (hrule : FileRule s ctx s') : CtxLockInv s' := by
  cases hrule with
  | move pc _ hout => exact h.setFile fun hin => absurd hin hout
  | lock pc hfree =>
    refine .setFile (s := {s with ctxLock := some (.file ctx)}) ⟨?_,?_,?_⟩ fun _ => rfl
    · intro ctx' hin
      have hother := h.file ctx' hin
      rw [hfree] at hother
      contradiction
    · intro ctx' hctx
      obtain rfl : ctx = ctx' := by simpa using hctx
      exact hrunning
    · simp [hhandler, Handler.locksCtx]
  | list pc ctxs hin =>
    exact .setFile (s := {s with ctxList := ctxs}) ⟨h.file,h.runs,h.handler⟩ fun _ => h.file ctx hin
  | unlock pc hin hout =>
    have hmine := h.file ctx hin
    have hnone : ∀ ctx', ctx' ≠ ctx → ¬(s.file ctx').InSection := by
      intro ctx' hne hin'
      rw [h.file ctx' hin'] at hmine
      exact hne (by simpa using hmine)
    refine ⟨?_,?_,?_⟩
    · intro ctx' hin'
      by_cases hctx : ctx' = ctx
      · subst hctx
        exact absurd (by simpa [CpuState.setFile] using hin') hout
      · exact absurd (by simpa [CpuState.setFile, hctx] using hin') (hnone ctx' hctx)
    · intro ctx' hctx
      simp [CpuState.setFile] at hctx
    · simp [CpuState.setFile, hhandler, Handler.locksCtx]

theorem ctxLockInv_run {queueMode : Int}
    {ok : List (Event ι) → CpuState ι → CpuStep ι → Prop} {log : List (Event ι)}
    {s : CpuState ι} (h : (cpuSystem ι queueMode).RunWith ok log s) : CtxLockInv s := by
  refine h.invariant (I := fun _ s => CtxLockInv s) ?_ ?_
  · rintro s ⟨-,hfile,-,hlock,-,hhandler⟩
    refine ⟨?_,?_,?_⟩
    · intro ctx hin
      rw [hfile ctx] at hin
      exact hin.elim
    · intro ctx hctx
      rw [hlock] at hctx
      contradiction
    · simp [hlock, hhandler, Handler.locksCtx]
  · intro log s a s' es _ ih _ hstep
    cases oneCpuRule_of_step hstep with
    | schedule t hhandler hheld =>
      refine ⟨ih.file,?_,ih.handler⟩
      intro ctx hctx
      have hrunning := ih.runs ctx hctx
      rw [CpuState.held, hrunning] at hheld
      simp [CpuState.locksOf, show s.ctxLock = some (.file ctx) from hctx] at hheld
    | call | device => exact ⟨ih.file,ih.runs,ih.handler⟩
    | file ctx alloc _ hhandler hrunning hrule => exact ih.file_step hhandler hrunning hrule
    | irqEnter hhandler | irqShared hhandler | irqReturn hhandler | irqWake ctx rest hhandler =>
      refine ⟨ih.file,ih.runs,?_⟩
      have hiff := ih.handler
      rw [hhandler] at hiff
      exact hiff
    | irqLock hhandler hmode hfree =>
      refine ⟨?_,?_,?_⟩
      · intro ctx hin
        have hctx := ih.file ctx hin
        rw [hfree] at hctx
        contradiction
      · intro ctx hctx
        simp at hctx
      · simp [Handler.locksCtx]
    | irqUnlock hhandler =>
      have hmine : s.ctxLock = some .handler := ih.handler.mpr (by rw [hhandler]; rfl)
      refine ⟨?_,?_,?_⟩
      · intro ctx hin
        have hctx := ih.file ctx hin
        rw [hmine] at hctx
        simp at hctx
      · intro ctx hctx
        simp at hctx
      · simp [Handler.locksCtx]

/-- The global lock belongs to the ioctl that has the CPU. -/
theorem globalLock_runs {queueMode : Int}
    {ok : List (Event ι) → CpuState ι → CpuStep ι → Prop} {log : List (Event ι)}
    {s : CpuState ι} (h : (cpuSystem ι queueMode).RunWith ok log s) :
    ∀ c, s.base.globalLock = some c → s.running = some (.ioctl c) := by
  refine h.invariant
    (I := fun _ s => ∀ c, s.base.globalLock = some c → s.running = some (.ioctl c)) ?_ ?_
  · rintro s ⟨hprobed,-⟩ c hlock
    rw [hprobed.2.2.1] at hlock
    contradiction
  · intro log s a s' es _ ih _ hstep c hlock
    cases oneCpuRule_of_step hstep with
    | schedule t hhandler hheld =>
      have hrunning := ih c hlock
      rw [CpuState.held, hrunning] at hheld
      simp [CpuState.locksOf, show s.base.globalLock = some c from hlock] at hheld
    | call c' a base _ hactor _ hrunning hbase =>
      rcases (rule_of_step hbase).globalLock with hsame | ⟨c₁,hc₁,-,htaken⟩ | ⟨c₁,-,-,hnone⟩
      · exact ih c (hsame.symm.trans hlock)
      · obtain rfl := Option.some.inj (hactor.symm.trans hc₁)
        obtain rfl := Option.some.inj (htaken.symm.trans hlock)
        exact hrunning
      · rw [hnone] at hlock
        contradiction
    | device a base _ hactor hbase =>
      exact ih c (((rule_of_step hbase).globalLock_device hactor).symm.trans hlock)
    | file ctx alloc _ _ _ hrule => cases hrule <;> exact ih c hlock
    | _ => exact ih c hlock

/-- The locks of the handler; none outside it. -/
def Handler.locks : Handler → Option (List SpinLock)
  | .idle => none
  | .entered | .leaving => some []
  | .waking _ => some [.ctxLock]

/-- What the CPU is to its spin locks. -/
def CpuState.cpu (s : CpuState ι) : Cpu (Thread ι) SpinLock := ⟨s.running,s.held,s.handler.locks⟩

theorem ctxLock_mem_held {s : CpuState ι} (h : CtxLockInv s) :
    .ctxLock ∈ s.held ↔ ∃ ctx, s.ctxLock = some (.file ctx) := by
  constructor
  · intro hmem
    cases hrunning : s.running with
    | none => simp [CpuState.held, hrunning] at hmem
    | some t =>
      cases t with
      | ioctl c => simp [CpuState.held, hrunning, CpuState.locksOf] at hmem
      | file ctx => exact ⟨ctx,by simpa [CpuState.held, hrunning, CpuState.locksOf] using hmem⟩
  · rintro ⟨ctx,hctx⟩
    simp [CpuState.held, h.runs ctx hctx, CpuState.locksOf, hctx]

/-- Of `ctx_lock` it matters which file has it, if one does. -/
theorem held_congr {s s' : CpuState ι} (hrunning : s'.running = s.running)
    (hglobal : s'.base.globalLock = s.base.globalLock)
    (hctx : ∀ ctx, s'.ctxLock = some (.file ctx) ↔ s.ctxLock = some (.file ctx)) :
    s'.held = s.held := by
  have hlocks : s'.locksOf = s.locksOf := by
    funext t
    cases t <;> simp [CpuState.locksOf, hglobal, hctx]
  rw [CpuState.held, CpuState.held, hrunning, hlocks]

theorem cpu_congr {s s' : CpuState ι} (hrunning : s'.running = s.running)
    (hglobal : s'.base.globalLock = s.base.globalLock) (hctx : s'.ctxLock = s.ctxLock)
    (hhandler : s'.handler.locks = s.handler.locks) : s'.cpu = s.cpu := by
  rw [CpuState.cpu, CpuState.cpu, hrunning, held_congr hrunning hglobal fun _ => by rw [hctx],
    hhandler]

/-- A lock that is free can be taken by the thread that has the CPU. -/
theorem cpu_locks {s s' : CpuState ι} {t : Thread ι} {l : SpinLock} (hhandler : s.handler = .idle)
    (hrunning : s.running = some t) (hfree : s.locksOf t = [])
    (hrunning' : s'.running = s.running) (htaken : s'.locksOf t = [l])
    (hhandler' : s'.handler = s.handler) : s.cpu.step (.lock l) = some (s'.cpu,[]) := by
  have hheld : s.held = [] := by rw [CpuState.held, hrunning, Option.elim_some, hfree]
  have hheld' : s'.held = [l] := by
    rw [CpuState.held, hrunning', hrunning, Option.elim_some, htaken]
  simp [Cpu.step, Cpu.owned, CpuState.cpu, hheld, hheld', hhandler, hhandler', hrunning,
    hrunning', Handler.locks]

theorem cpu_unlocks {s s' : CpuState ι} {t : Thread ι} {l : SpinLock}
    (hhandler : s.handler = .idle) (hrunning : s.running = some t) (htaken : s.locksOf t = [l])
    (hrunning' : s'.running = s.running) (hfree : s'.locksOf t = [])
    (hhandler' : s'.handler = s.handler) : s.cpu.step (.unlock l) = some (s'.cpu,[]) := by
  have hheld : s.held = [l] := by rw [CpuState.held, hrunning, Option.elim_some, htaken]
  have hheld' : s'.held = [] := by
    rw [CpuState.held, hrunning', hrunning, Option.elim_some, hfree]
  simp [Cpu.step, CpuState.cpu, hheld, hheld', hhandler, hhandler', hrunning, hrunning',
    Handler.locks]

/-- What the handler may have to take. -/
def HandlerWants (queueMode : Int) (l : SpinLock) : Prop := queueMode ≠ 0 ∧ l = .ctxLock

/-- An ioctl moves its lock as a thread of the abstract CPU. -/
theorem cpu_call_step {queueMode : Int} {log : List (Event ι)} {s : CpuState ι} {c : ι}
    {a : Action ι} {base : State ι} {es : List (Event ι)}
    (hrun : (ringSystem ι queueMode).Run log s.base) (hactor : a.actor = some c)
    (hhandler : s.handler = .idle) (hrunning : s.running = some (.ioctl c))
    (hbase : FpgaGpu.Driver.step queueMode s.base a = some (base,es)) :
    ({s with base} : CpuState ι).cpu = s.cpu ∨
      ∃ l, s.cpu.step (.lock l) = some (({s with base} : CpuState ι).cpu,[]) ∨
        s.cpu.step (.unlock l) = some (({s with base} : CpuState ι).cpu,[]) := by
  rcases (rule_of_step hbase).globalLock with hsame | ⟨c₁,hc₁,hfree,htaken⟩ | ⟨c₁,hc₁,hin,hfree⟩
  · exact .inl (cpu_congr rfl hsame rfl rfl)
  · obtain rfl := Option.some.inj (hactor.symm.trans hc₁)
    exact .inr ⟨.globalLock,.inl (cpu_locks hhandler hrunning (by simp [CpuState.locksOf, hfree])
      rfl (by simp [CpuState.locksOf, htaken]) rfl)⟩
  · obtain rfl := Option.some.inj (hactor.symm.trans hc₁)
    have htaken := section_holds_lock hrun c hin
    exact .inr ⟨.globalLock,.inr (cpu_unlocks hhandler hrunning
      (by simp [CpuState.locksOf, htaken]) rfl (by simp [CpuState.locksOf, hfree]) rfl)⟩

theorem cpu_file_step {s s' : CpuState ι} {ctx : Nat} (hinv : CtxLockInv s)
    (hhandler : s.handler = .idle) (hrunning : s.running = some (.file ctx))
    (hrule : FileRule s ctx s') :
    s'.cpu = s.cpu ∨ ∃ l, s.cpu.step (.lock l) = some (s'.cpu,[]) ∨
      s.cpu.step (.unlock l) = some (s'.cpu,[]) := by
  cases hrule with
  | move pc => exact .inl (cpu_congr rfl rfl rfl rfl)
  | list pc ctxs => exact .inl (cpu_congr rfl rfl rfl rfl)
  | lock pc hfree =>
    exact .inr ⟨.ctxLock,.inl (cpu_locks hhandler hrunning (by simp [CpuState.locksOf, hfree])
      rfl (by simp [CpuState.locksOf, CpuState.setFile]) rfl)⟩
  | unlock pc hin =>
    have htaken := hinv.file ctx hin
    exact .inr ⟨.ctxLock,.inr (cpu_unlocks hhandler hrunning
      (by simp [CpuState.locksOf, htaken]) rfl
      (by simp [CpuState.locksOf, CpuState.setFile]) rfl)⟩

/-- As to its spin locks the system is a CPU whose handler enters only where the
thread under it holds none that the handler wants. -/
theorem cpu_run {queueMode : Int} {log : List (Event ι)} {s : CpuState ι}
    (h : (cpuSystem ι queueMode).RunWith (LockFreeEntry queueMode) log s) :
    (cpuMachine (Thread ι) SpinLock).RunWith (EntersFree (HandlerWants queueMode))
      (log.filterMap fun _ => none) s.cpu := by
  have hnone : ∀ es : List (Event ι), es.filterMap (fun _ => (none : Option Unit)) = [] := by
    intro es
    simp
  have hinit : ∀ s, (cpuSystem ι queueMode).init s →
      (cpuMachine (Thread ι) SpinLock).init s.cpu := by
    rintro s ⟨-,-,-,-,hrunning,hhandler⟩
    simp [cpuMachine, idleCpu, CpuState.cpu, CpuState.held, hrunning, hhandler, Handler.locks]
  refine h.image CpuState.cpu (fun _ => none) hinit ?_
  intro log s a s' es hrun hok hstep
  rw [hnone es]
  have hinv := ctxLockInv_run hrun
  -- a step of a thread that takes a lock, gives one back or does neither
  have hthread : ∀ {t : CpuState ι}, (t.cpu = s.cpu ∨ ∃ l,
      s.cpu.step (.lock l) = some (t.cpu,[]) ∨ s.cpu.step (.unlock l) = some (t.cpu,[])) →
      (t.cpu = s.cpu ∧ ([] : List Unit) = []) ∨ ∃ b,
        EntersFree (HandlerWants queueMode) (log.filterMap fun _ => none) s.cpu b ∧
          s.cpu.step b = some (t.cpu,[]) := by
    rintro t (hsame | ⟨l,hlock | hunlock⟩)
    · exact .inl ⟨hsame,rfl⟩
    · exact .inr ⟨.lock l,entersFree_of_ne (by simp),hlock⟩
    · exact .inr ⟨.unlock l,entersFree_of_ne (by simp),hunlock⟩
  cases oneCpuRule_of_step hstep with
  | schedule t hhandler hheld =>
    have hglobal : ∀ c, s.base.globalLock ≠ some c := by
      intro c hlock
      rw [CpuState.held, globalLock_runs hrun c hlock] at hheld
      simp [CpuState.locksOf, hlock] at hheld
    have hctx : ∀ ctx, s.ctxLock ≠ some (.file ctx) := by
      intro ctx hlock
      have hmem := (ctxLock_mem_held hinv).mpr ⟨ctx,hlock⟩
      rw [hheld] at hmem
      contradiction
    have hheld' : ({s with running := t} : CpuState ι).held = [] := by
      cases t with
      | none => rfl
      | some t => cases t <;> simp [CpuState.held, CpuState.locksOf, hglobal, hctx]
    refine .inr ⟨.schedule t,entersFree_of_ne (by simp),?_⟩
    rw [CpuState.cpu, CpuState.cpu, hheld', hheld, hhandler]
    rfl
  | call c a base _ hactor hhandler hrunning hbase =>
    exact hthread (cpu_call_step (cpu_base_run hrun) hactor hhandler hrunning hbase)
  | device a base _ hactor hbase =>
    exact .inl ⟨cpu_congr rfl ((rule_of_step hbase).globalLock_device hactor) rfl rfl,rfl⟩
  | file ctx alloc _ hhandler hrunning hrule =>
    exact hthread (cpu_file_step hinv hhandler hrunning hrule)
  | irqEnter hhandler =>
    refine .inr ⟨.enter,?_,?_⟩
    · rintro - l hmem ⟨hmode,rfl⟩
      exact (hok hhandler).elim hmode fun hfree => hfree hmem
    · have hheld : ({s with handler := .entered} : CpuState ι).held = s.held :=
        held_congr rfl rfl fun _ => Iff.rfl
      rw [CpuState.cpu, CpuState.cpu, hheld, hhandler]
      rfl
  | irqShared hhandler => exact .inl ⟨cpu_congr rfl rfl rfl (by rw [hhandler]; rfl),rfl⟩
  | irqWake ctx rest hhandler => exact .inl ⟨cpu_congr rfl rfl rfl (by rw [hhandler]; rfl),rfl⟩
  | irqLock hhandler hmode hfree =>
    have hheld : ({s with ctxLock := some .handler, handler := .waking s.ctxList} :
        CpuState ι).held = s.held := held_congr rfl rfl (by simp [hfree])
    have hnot : .ctxLock ∉ s.held := by simp [ctxLock_mem_held hinv, hfree]
    refine .inr ⟨.lock .ctxLock,entersFree_of_ne (by simp),?_⟩
    rw [CpuState.cpu, CpuState.cpu, hheld, hhandler]
    simp [cpuMachine, Cpu.step, Cpu.owned, Handler.locks, hnot]
  | irqUnlock hhandler =>
    have hmine : s.ctxLock = some .handler := hinv.handler.mpr (by rw [hhandler]; rfl)
    have hheld : ({s with ctxLock := none, handler := .leaving} : CpuState ι).held = s.held :=
      held_congr rfl rfl (by simp [hmine])
    refine .inr ⟨.unlock .ctxLock,entersFree_of_ne (by simp),?_⟩
    rw [CpuState.cpu, CpuState.cpu, hheld, hhandler]
    rfl
  | irqReturn hhandler =>
    have hheld : ({s with handler := .idle} : CpuState ι).held = s.held :=
      held_congr rfl rfl fun _ => Iff.rfl
    refine .inr ⟨.leave,entersFree_of_ne (by simp),?_⟩
    rw [CpuState.cpu, CpuState.cpu, hheld, hhandler]
    rfl

omit [DecidableEq ι] in
theorem wants_eq_some {queueMode : Int} {s : CpuState ι} {l : SpinLock}
    (h : s.wants queueMode = some l) : s.handler = .entered ∧ queueMode ≠ 0 ∧ l = .ctxLock := by
  unfold CpuState.wants at h
  split at h
  next hspin => exact ⟨hspin.1,hspin.2,(Option.some.inj h).symm⟩
  next => contradiction

/-- The handler never spins on a lock of the thread it interrupted, and so can always
go on. -/
theorem handler_never_deadlocks {queueMode : Int} {log : List (Event ι)} {s : CpuState ι}
    (h : (cpuSystem ι queueMode).RunWith (LockFreeEntry queueMode) log s) :
    ¬s.Deadlocked queueMode ∧ (s.irq queueMode).isSome := by
  have hinv := ctxLockInv_run h
  have hfree : s.handler = .entered → queueMode ≠ 0 → .ctxLock ∉ s.held := by
    intro hhandler hmode hmem
    have hin : s.cpu.handler ≠ none := by simp [CpuState.cpu, hhandler, Handler.locks]
    exact handler_wants_free (cpu_run h) hin _ hmem ⟨hmode,rfl⟩
  constructor
  · rintro ⟨l,hwants,hmem⟩
    obtain ⟨hhandler,hmode,rfl⟩ := wants_eq_some hwants
    exact hfree hhandler hmode hmem
  · unfold CpuState.irq
    split
    next => rfl
    next hhandler =>
      split
      next => rfl
      next hmode =>
        have hlock : s.ctxLock = none := by
          cases hlock : s.ctxLock with
          | none => rfl
          | some holder =>
            cases holder with
            | file ctx =>
              exact absurd ((ctxLock_mem_held hinv).mpr ⟨ctx,hlock⟩) (hfree hhandler hmode)
            | handler =>
              have hwaking := hinv.handler.mp hlock
              rw [hhandler] at hwaking
              contradiction
        simp [CpuState.lockCtx, hlock]
    next => rfl
    next => rfl
    next => rfl

/-- An interrupt that the condition rules out is the end of both. -/
theorem entry_deadlocks_iff {queueMode : Int} (log : List (Event ι)) (s : CpuState ι) :
    (∃ s', s.handler = .idle ∧ s.step queueMode .irq = some (s',[]) ∧ s'.Deadlocked queueMode) ↔
      ¬LockFreeEntry queueMode log s .irq := by
  have hheld : ({s with handler := .entered} : CpuState ι).held = s.held :=
    held_congr rfl rfl fun _ => Iff.rfl
  constructor
  · rintro ⟨s',hidle,hstep,l,hwants,hmem⟩ hok
    obtain rfl : {s with handler := .entered} = s' := by
      simpa [CpuState.step, CpuState.irq, hidle] using hstep
    obtain ⟨-,hmode,rfl⟩ := wants_eq_some hwants
    rw [hheld] at hmem
    exact (hok hidle).elim hmode fun hfree => hfree hmem
  · intro hok
    obtain ⟨hidle,hbad⟩ := Classical.not_imp.mp hok
    obtain ⟨hmode,hmem⟩ := not_or.mp hbad
    refine ⟨{s with handler := .entered},hidle,by simp [CpuState.step, CpuState.irq, hidle],
      .ctxLock,if_pos ⟨rfl,hmode⟩,?_⟩
    rw [hheld]
    exact not_not.mp hmem

/-- Nothing that happens afterwards gets the CPU out of it. -/
theorem CpuState.Deadlocked.stays {queueMode : Int} {log es : List (Event ι)}
    {s s' : CpuState ι} {a : CpuStep ι} (hrun : (cpuSystem ι queueMode).Run log s)
    (h : s.Deadlocked queueMode) (hstep : s.step queueMode a = some (s',es)) :
    s'.Deadlocked queueMode := by
  obtain ⟨l,hwants,hmem⟩ := h
  obtain ⟨hentered,hmode,rfl⟩ := wants_eq_some hwants
  cases oneCpuRule_of_step hstep with
  | device a base _ hactor hbase =>
    refine ⟨.ctxLock,hwants,?_⟩
    have hglobal := (rule_of_step hbase).globalLock_device hactor
    have hheld : ({s with base} : CpuState ι).held = s.held :=
      held_congr rfl hglobal fun _ => Iff.rfl
    rwa [hheld]
  | irqShared _ hshared => exact absurd hshared hmode
  | irqLock _ _ hfree =>
    obtain ⟨ctx,hctx⟩ := (ctxLock_mem_held (ctxLockInv_run hrun)).mp hmem
    rw [hfree] at hctx
    contradiction
  | schedule _ hhandler | call _ _ _ _ _ hhandler | file _ _ _ hhandler | irqEnter hhandler
  | irqWake _ _ hhandler | irqUnlock hhandler | irqReturn hhandler =>
    rw [hentered] at hhandler
    contradiction

def bootedCpu : CpuState Unit := ⟨probed Unit,fun _ => .closed,[],none,none,.idle⟩

theorem bootedCpu_init (queueMode : Int) : (cpuSystem Unit queueMode).init bootedCpu :=
  ⟨probed_init Unit,fun _ => rfl,rfl,rfl,rfl,rfl⟩

/-- A file is opened, and the handler comes when its context is in the list. -/
def interruptAfterOpen : List (CpuStep Unit) :=
  .schedule (some (.file 0)) :: List.replicate 5 (.file 0 true) ++ List.replicate 2 .irq

def lockFreeEntry (queueMode : Int) (s : CpuState Unit) : CpuStep Unit → Bool
  | .irq => decide (s.handler = .idle → queueMode = 0 ∨ .ctxLock ∉ s.held)
  | _ => true

theorem lockFreeEntry_sound (queueMode : Int) (log : List (Event Unit)) (s : CpuState Unit)
    (a : CpuStep Unit) (h : lockFreeEntry queueMode s a = true) :
    LockFreeEntry queueMode log s a := by
  cases a with
  | irq =>
    have hentry : s.handler = .idle → queueMode = 0 ∨ .ctxLock ∉ s.held := of_decide_eq_true h
    exact hentry
  | _ => trivial

theorem interruptAfterOpen_runs :
    (((cpuSystem Unit 1).guarded (lockFreeEntry 1)).exec bootedCpu interruptAfterOpen).isSome =
      true := by
  decide +kernel

theorem handler_never_deadlocks_private : ∃ log s,
    (cpuSystem Unit 1).RunWith (LockFreeEntry 1) log s ∧ s.handler = .waking [0] ∧
      ¬s.Deadlocked 1 ∧ (s.irq 1).isSome := by
  have hrun := System.RunWith.of_guarded_exec (bootedCpu_init 1) interruptAfterOpen
    interruptAfterOpen_runs (lockFreeEntry_sound 1)
  exact ⟨_,_,hrun,by decide +kernel,handler_never_deadlocks hrun⟩

/-- The handler comes while open has the lock and has not yet added the context. -/
def interruptInOpen : List (CpuStep Unit) :=
  .schedule (some (.file 0)) :: List.replicate 3 (.file 0 true) ++ [.irq]

theorem interruptInOpen_runs :
    ((cpuSystem Unit 1).exec bootedCpu interruptInOpen).isSome = true := by
  decide +kernel

theorem interrupted_open_deadlocks : ∃ log s, (cpuSystem Unit 1).Run log s ∧ s.Deadlocked 1 := by
  have hrun := System.Run.of_exec (bootedCpu_init 1) interruptInOpen interruptInOpen_runs
  exact ⟨_,_,hrun,.ctxLock,by decide +kernel,by decide +kernel⟩

end FpgaGpu.Driver
