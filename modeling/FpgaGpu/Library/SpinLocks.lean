import FpgaGpu.Library.System
import Mathlib.Data.List.Nodup

/-! One CPU with spin locks and an interrupt handler. A thread that holds a lock is not
preempted, but the handler may interrupt it, and then runs to its end. -/
namespace FpgaGpu.Library

/-- `held` are the locks of the thread on the CPU, which in the handler is the
interrupted one; `handler` has the locks that the handler took. -/
structure Cpu (τ κ : Type) where
  running : Option τ
  held : List κ
  handler : Option (List κ)

inductive CpuAction (τ κ : Type) where
  | schedule (t : Option τ)
  | lock (l : κ)
  | unlock (l : κ)
  | enter
  | leave

variable {τ κ : Type} [DecidableEq κ]

def Cpu.owned (s : Cpu τ κ) : List κ := s.held ++ s.handler.getD []

/-- Locks are taken and given back by the handler while it runs, else by the thread.
A lock that is owned makes its taker spin. -/
def Cpu.step (s : Cpu τ κ) : CpuAction τ κ → Option (Cpu τ κ × List Unit)
  | .schedule t =>
      if s.handler.isNone ∧ s.held = [] then some ({s with running := t},[]) else none
  | .lock l =>
      if l ∈ s.owned then none
      else
        match s.handler with
        | none => if s.running.isSome then some ({s with held := l :: s.held},[]) else none
        | some ls => some ({s with handler := some (l :: ls)},[])
  | .unlock l =>
      match s.handler with
      | none => if l ∈ s.held then some ({s with held := s.held.erase l},[]) else none
      | some ls => if l ∈ ls then some ({s with handler := some (ls.erase l)},[]) else none
  | .enter => if s.handler.isNone then some ({s with handler := some []},[]) else none
  | .leave => if s.handler = some [] then some ({s with handler := none},[]) else none

/-- An idle CPU. -/
def idleCpu (τ κ : Type) : Cpu τ κ := ⟨none,[],none⟩

def cpuMachine (τ κ : Type) [DecidableEq κ] : System (Cpu τ κ) (CpuAction τ κ) Unit where
  init s := s = idleCpu τ κ
  step := Cpu.step

/-- The ways a step can happen. -/
inductive CpuRule (s : Cpu τ κ) : CpuAction τ κ → Cpu τ κ → Prop where
  | schedule (t : Option τ) : s.handler = none → s.held = [] →
      CpuRule s (.schedule t) {s with running := t}
  | lock (l : κ) : s.handler = none → l ∉ s.owned →
      CpuRule s (.lock l) {s with held := l :: s.held}
  | handlerLock (l : κ) (ls : List κ) : s.handler = some ls → l ∉ s.owned →
      CpuRule s (.lock l) {s with handler := some (l :: ls)}
  | unlock (l : κ) : s.handler = none → CpuRule s (.unlock l) {s with held := s.held.erase l}
  | handlerUnlock (l : κ) (ls : List κ) : s.handler = some ls →
      CpuRule s (.unlock l) {s with handler := some (ls.erase l)}
  | enter : s.handler = none → CpuRule s .enter {s with handler := some []}
  | leave : s.handler = some [] → CpuRule s .leave {s with handler := none}

theorem cpuRule_of_step {s s' : Cpu τ κ} {a : CpuAction τ κ} {es : List Unit}
    (h : s.step a = some (s',es)) : CpuRule s a s' := by
  unfold Cpu.step at h
  split at h
  next t =>
    split at h
    next hfree => cases h; exact .schedule t (Option.isNone_iff_eq_none.mp hfree.1) hfree.2
    next => contradiction
  next l =>
    split at h
    next => contradiction
    next howned =>
      split at h
      next hout =>
        split at h
        next => cases h; exact .lock l hout howned
        next => contradiction
      next ls hin => cases h; exact .handlerLock l ls hin howned
  next l =>
    split at h
    next hout =>
      split at h
      next => cases h; exact .unlock l hout
      next => contradiction
    next ls hin =>
      split at h
      next => cases h; exact .handlerUnlock l ls hin
      next => contradiction
  next =>
    split at h
    next hout => cases h; exact .enter (Option.isNone_iff_eq_none.mp hout)
    next => contradiction
  next =>
    split at h
    next hin => cases h; exact .leave hin
    next => contradiction

/-- While the handler runs, the interrupted thread keeps what it has. -/
theorem CpuRule.frozen {s s' : Cpu τ κ} {a : CpuAction τ κ} (h : CpuRule s a s')
    (hin : s.handler ≠ none) : s'.running = s.running ∧ s'.held = s.held := by
  cases h with
  | schedule t hout | lock l hout | unlock l hout | enter hout => exact absurd hout hin
  | handlerLock | handlerUnlock | leave => exact ⟨rfl,rfl⟩

/-- No lock has two owners. -/
theorem owned_nodup {ok : List Unit → Cpu τ κ → CpuAction τ κ → Prop} {log : List Unit}
    {s : Cpu τ κ} (h : (cpuMachine τ κ).RunWith ok log s) : s.owned.Nodup := by
  refine h.invariant (I := fun _ s => s.owned.Nodup) ?_ ?_
  · intro s hs
    rw [hs]
    exact List.nodup_nil
  · intro log s a s' es _ ih _ hstep
    cases cpuRule_of_step hstep with
    | schedule => exact ih
    | enter hout =>
      rw [Cpu.owned, hout] at ih
      exact ih
    | leave hin =>
      rw [Cpu.owned, hin] at ih
      exact ih
    | lock l hout hfree => exact List.nodup_cons.mpr ⟨hfree,ih⟩
    | handlerLock l ls hin hfree =>
      rw [Cpu.owned, hin] at ih hfree
      exact List.nodup_middle.mpr (List.nodup_cons.mpr ⟨hfree,ih⟩)
    | unlock l hout => exact ih.sublist (List.erase_sublist.append (List.Sublist.refl _))
    | handlerUnlock l ls hin =>
      rw [Cpu.owned, hin] at ih
      exact ih.sublist ((List.Sublist.refl _).append List.erase_sublist)

/-- The handler comes only where the thread holds none of the locks it wants. -/
def EntersFree (wants : κ → Prop) (_ : List Unit) (s : Cpu τ κ) (a : CpuAction τ κ) : Prop :=
  a = .enter → ∀ l ∈ s.held, ¬wants l

omit [DecidableEq κ] in
theorem entersFree_of_ne {wants : κ → Prop} {log : List Unit} {s : Cpu τ κ} {a : CpuAction τ κ}
    (h : a ≠ .enter) : EntersFree wants log s a := fun henter => absurd henter h

/-- Then, as long as it runs, the thread under it holds none of them. -/
theorem handler_wants_free {wants : κ → Prop} {log : List Unit} {s : Cpu τ κ}
    (h : (cpuMachine τ κ).RunWith (EntersFree wants) log s) (hin : s.handler ≠ none) :
    ∀ l ∈ s.held, ¬wants l := by
  refine h.invariant (I := fun _ s => s.handler ≠ none → ∀ l ∈ s.held, ¬wants l) ?_ ?_ hin
  · intro s hs hin
    rw [hs] at hin
    exact absurd rfl hin
  · intro log s a s' es _ ih hok hstep hin
    have hrule := cpuRule_of_step hstep
    by_cases hout : s.handler = none
    · cases hrule with
      | enter => exact hok rfl
      | schedule | lock | unlock => exact absurd hout hin
      | handlerLock l ls hin' | handlerUnlock l ls hin' | leave hin' =>
        rw [hout] at hin'
        contradiction
    · rw [(hrule.frozen hout).2]
      exact ih hout

end FpgaGpu.Library
