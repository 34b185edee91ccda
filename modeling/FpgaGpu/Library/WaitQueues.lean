import Mathlib.Logic.Function.Basic

/-! Wait queues: a waiter enqueues itself, tests its condition, and sleeps if it
does not hold; whoever wakes the queue makes every waiter in it test again. -/
namespace FpgaGpu.Library

inductive WaitPhase where
  | prepare
  | test
  | sleep
  deriving DecidableEq, Repr

/-- Where a waiter is in its loop, the queue it waits on, and whether it has been
woken since it enqueued itself. -/
structure Waiter (κ : Type) where
  queue : κ
  phase : WaitPhase
  roused : Bool

variable {ι κ : Type}

def Waiter.Asleep (w : Waiter κ) : Prop := w.phase = .sleep ∧ w.roused = false

/-- A waiter that begins to wait. -/
def Waiter.begin (queue : κ) : Waiter κ := ⟨queue,.prepare,false⟩

/-- Enqueues itself. -/
def Waiter.enqueue (w : Waiter κ) : Waiter κ := {w with phase := .test,roused := false}

/-- Goes to sleep, or sleeps through nothing if it has been woken meanwhile. -/
def Waiter.doze (w : Waiter κ) : Waiter κ := {w with phase := .sleep}

/-- Goes round its loop again. -/
def Waiter.again (w : Waiter κ) : Waiter κ := {w with phase := .prepare}

variable [DecidableEq κ]

/-- Wakes every waiter in the queue. -/
def wake (queue : κ) (waiters : ι → Waiter κ) : ι → Waiter κ := fun c =>
  if (waiters c).queue = queue ∧ (waiters c).phase ≠ .prepare then
    {waiters c with roused := true}
  else waiters c

@[simp] theorem wake_queue (queue : κ) (waiters : ι → Waiter κ) (c : ι) :
    (wake queue waiters c).queue = (waiters c).queue := by
  unfold wake
  split <;> rfl

/-- Nobody in the queue stays asleep. -/
theorem not_asleep_wake {queue : κ} {waiters : ι → Waiter κ} {c : ι}
    (h : (waiters c).queue = queue) : ¬(wake queue waiters c).Asleep := by
  unfold wake Waiter.Asleep
  split
  next => simp
  next hnot =>
    rintro ⟨hsleep,-⟩
    exact hnot ⟨h,by simp [hsleep]⟩

/-- Nobody falls asleep by it. -/
theorem asleep_of_wake {queue : κ} {waiters : ι → Waiter κ} {c : ι}
    (h : (wake queue waiters c).Asleep) : (waiters c).Asleep := by
  unfold wake at h
  split at h
  next => simp [Waiter.Asleep] at h
  next => exact h

end FpgaGpu.Library
