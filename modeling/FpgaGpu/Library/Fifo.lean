import Mathlib.Data.Fintype.Card
import Mathlib.Data.Nat.ModEq
import FpgaGpu.Library.System

/-! A bounded first-in first-out queue, stated with positions that never wrap,
and the arithmetic that lets a ring of `n` slots with one slot kept free store
positions modulo `n`. -/
namespace FpgaGpu.Library

variable {α : Type} {cap : Nat}

/-- Everything ever published and how much of it was taken. Both bounds are
part of the value, so an overrun queue cannot be built. -/
structure Fifo (α : Type) (cap : Nat) where
  published : List α
  taken : Nat
  taken_le : taken ≤ published.length
  pending_le : published.length ≤ taken + cap

inductive FifoAction (α : Type) where
  | publish (x : α)
  | take

inductive FifoEvent (α : Type) where
  | put (x : α)
  | got (x : α)

def FifoEvent.put? : FifoEvent α → Option α
  | .put x => some x
  | .got _ => none

def FifoEvent.got? : FifoEvent α → Option α
  | .put _ => none
  | .got x => some x

theorem Fifo.taken_le_publish (q : Fifo α cap) (x : α) :
    q.taken ≤ (q.published ++ [x]).length :=
  Nat.le_trans q.taken_le (List.length_append ▸ Nat.le_add_right _ _)

theorem Fifo.publish_pending_le (q : Fifo α cap) (x : α)
    (room : q.published.length < q.taken + cap) :
    (q.published ++ [x]).length ≤ q.taken + cap :=
  List.length_append ▸ room

def Fifo.publish (q : Fifo α cap) (x : α) (room : q.published.length < q.taken + cap) :
    Fifo α cap where
  published := q.published ++ [x]
  taken := q.taken
  taken_le := q.taken_le_publish x
  pending_le := q.publish_pending_le x room

def Fifo.take (q : Fifo α cap) (pending : q.taken < q.published.length) : Fifo α cap where
  published := q.published
  taken := q.taken + 1
  taken_le := pending
  pending_le := by have := q.pending_le; omega

def Fifo.step (q : Fifo α cap) : FifoAction α → Option (Fifo α cap × List (FifoEvent α))
  | .publish x =>
      if room : q.published.length < q.taken + cap then some (q.publish x room,[.put x])
      else none
  | .take =>
      if pending : q.taken < q.published.length then
        some (q.take pending,[.got q.published[q.taken]])
      else none

def fifoSystem (α : Type) (cap : Nat) : System (Fifo α cap) (FifoAction α) (FifoEvent α) where
  init q := q.published = [] ∧ q.taken = 0
  step := Fifo.step

/-- What the queue is for: the values come out in the order they went in, each
of them once. -/
theorem fifo_delivers {log : List (FifoEvent α)} {q : Fifo α cap}
    (h : (fifoSystem α cap).Run log q) :
    log.filterMap FifoEvent.put? = q.published ∧
      log.filterMap FifoEvent.got? = q.published.take q.taken := by
  refine System.RunWith.invariant (I := fun log q =>
    log.filterMap FifoEvent.put? = q.published ∧
      log.filterMap FifoEvent.got? = q.published.take q.taken) ?_ ?_ h
  · intro q hq
    simp [hq.1]
  · intro log q a q' es _ hI _ hstep
    obtain ⟨hput,hgot⟩ := hI
    cases a with
    | publish x =>
      simp only [fifoSystem, Fifo.step] at hstep
      split at hstep
      next room =>
        obtain ⟨rfl,rfl⟩ := Prod.mk.inj (Option.some.inj hstep)
        simp only [List.filterMap_append, hput, hgot]
        exact ⟨rfl,by simp [Fifo.publish, FifoEvent.got?, List.take_append_of_le_length q.taken_le]⟩
      next => contradiction
    | take =>
      simp only [fifoSystem, Fifo.step] at hstep
      split at hstep
      next pending =>
        obtain ⟨rfl,rfl⟩ := Prod.mk.inj (Option.some.inj hstep)
        simp only [List.filterMap_append, hput, hgot]
        exact ⟨by simp [Fifo.take, FifoEvent.put?],(List.take_succ_eq_append_getElem pending).symm⟩
      next => contradiction

/-! Positions modulo the number of slots. `H` is the next position to take,
`T` the next to publish, and `T < H + n` keeps one slot free. -/

theorem eq_of_mod_eq {a b n : Nat} (h : a % n = b % n) (hle : a ≤ b) (hlt : b < a + n) :
    a = b := by
  have hdvd : n ∣ b - a := (Nat.modEq_iff_dvd' hle).mp h
  have hzero := Nat.eq_zero_of_dvd_of_lt hdvd (by omega)
  omega

/-- The test for a full ring is exact. -/
theorem next_mod_eq_iff {H T n : Nat} (hle : H ≤ T) (hlt : T < H + n) :
    (T + 1) % n = H % n ↔ T + 1 = H + n := by
  constructor
  · intro h
    by_contra hne
    have := eq_of_mod_eq h.symm (by omega) (by omega)
    omega
  · intro h
    rw [h, Nat.add_mod_right]

/-- The slot about to be written holds no pending position. -/
theorem pending_mod_ne {H T p n : Nat} (hp : H ≤ p) (hpT : p < T) (hlt : T < H + n) :
    p % n ≠ T % n := by
  intro h
  have := eq_of_mod_eq h hpT.le (by omega)
  omega

/-- Equality of wrapped positions is enough to know that a target was passed,
because the taker is never a full turn behind it. -/
theorem target_le_of_mod_eq {target H n : Nat} (hclose : target < H + n)
    (h : H % n = target % n) : target ≤ H := by
  by_contra hlt
  have := eq_of_mod_eq h (by omega) hclose
  omega

/-- Once a target is passed, wrapped equality holds exactly after whole turns. -/
theorem mod_eq_iff_turns {target H n : Nat} (hle : target ≤ H) :
    H % n = target % n ↔ (H - target) % n = 0 := by
  rw [← Nat.dvd_iff_mod_eq_zero, ← Nat.modEq_iff_dvd' hle]
  exact ⟨Eq.symm,Eq.symm⟩

/-! When no owner has two items pending, the owners bound what is pending. -/

section owners
variable {κ : Type} {items : List α} {taken : Nat} (owner : α → κ)
  (hone : ∀ (p p' : Nat) (x x' : α), taken ≤ p → taken ≤ p' → items[p]? = some x →
    items[p']? = some x' → owner x = owner x' → p = p')
include hone

/-- Who owns the `i`th pending item. -/
private theorem pending_owner_injective :
    Function.Injective fun i : Fin (items.length - taken) => owner items[taken + i] := by
  intro i j hij
  have heq := hone (taken + i) (taken + j) _ _ (Nat.le_add_right _ _) (Nat.le_add_right _ _)
    (List.getElem?_eq_getElem _) (List.getElem?_eq_getElem _) hij
  exact Fin.ext (Nat.add_left_cancel heq)

variable [Fintype κ]

theorem pending_le_owners : items.length - taken ≤ Fintype.card κ := by
  simpa using Fintype.card_le_of_injective _ (pending_owner_injective owner hone)

/-- An owner without a pending item leaves room for one more. -/
theorem pending_lt_owners (k : κ)
    (hk : ∀ (p : Nat) (x : α), taken ≤ p → items[p]? = some x → owner x ≠ k) :
    items.length - taken < Fintype.card κ := by
  have hk' : k ∉ Set.range fun i : Fin (items.length - taken) => owner items[taken + i] := by
    rintro ⟨i,hi⟩
    exact hk (taken + i) _ (Nat.le_add_right _ _) (List.getElem?_eq_getElem _) hi
  simpa using Fintype.card_lt_of_injective_of_notMem _ (pending_owner_injective owner hone) hk'

end owners

end FpgaGpu.Library
