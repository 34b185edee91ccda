import Mathlib.Logic.Basic

/-! An allocator that only moves a cursor: requests are rounded up to whole units and
lie one behind the other, and one that does not fit is refused. All numbers are
integers; this is the reference for allocators in machine arithmetic. -/
namespace FpgaGpu.Library

structure Bump where
  base : Nat
  limit : Nat
  unit : Nat
  unit_pos : 0 < unit

namespace Bump
variable (b : Bump)

/-- `n` in whole units. -/
def round (n : Nat) : Nat := (n + (b.unit - 1)) / b.unit * b.unit

theorem le_round (n : Nat) : n ≤ b.round n := by
  have hpos := b.unit_pos
  have hdiv := Nat.div_add_mod (n + (b.unit - 1)) b.unit
  have hmod := Nat.mod_lt (n + (b.unit - 1)) hpos
  unfold round
  rw [Nat.mul_comm]
  omega

theorem round_lt (n : Nat) : b.round n < n + b.unit := by
  have hpos := b.unit_pos
  have hle := Nat.div_mul_le_self (n + (b.unit - 1)) b.unit
  unfold round
  omega

@[simp] theorem round_mod_unit (n : Nat) : b.round n % b.unit = 0 := Nat.mul_mod_left _ _

/-- A request is granted if it is not empty and fits behind what was granted before. -/
def Fits (used n : Nat) : Prop := 1 ≤ n ∧ b.base + used + b.round n ≤ b.limit

instance (used n : Nat) : Decidable (b.Fits used n) := inferInstanceAs (Decidable (_ ∧ _))

/-- What a list of requests is answered, once requests of `used` bytes were granted. -/
def results : Nat → List Nat → List (Option Nat)
  | _, [] => []
  | used, n :: rest =>
      if b.Fits used n then some (b.base + used) :: results (used + b.round n) rest
      else none :: results used rest

/-- How much is granted. -/
def used : Nat → List Nat → Nat
  | used₀, [] => used₀
  | used₀, n :: rest =>
      if b.Fits used₀ n then used (used₀ + b.round n) rest else used used₀ rest

/-- The granted requests, with their addresses. -/
def granted : Nat → List Nat → List (Nat × Nat)
  | _, [] => []
  | used, n :: rest =>
      if b.Fits used n then (b.base + used,n) :: granted (used + b.round n) rest
      else granted used rest

/-- One behind the other from an address on, each rounded up. -/
def Contiguous : Nat → List (Nat × Nat) → Prop
  | _, [] => True
  | start, (addr,n) :: rest => addr = start ∧ Contiguous (start + b.round n) rest

theorem results_append (used₀ : Nat) (xs ys : List Nat) :
    b.results used₀ (xs ++ ys) = b.results used₀ xs ++ b.results (b.used used₀ xs) ys := by
  induction xs generalizing used₀ with
  | nil => rfl
  | cons n rest ih =>
    simp only [List.cons_append, results, used]
    split
    next => rw [ih, List.cons_append]
    next => rw [ih, List.cons_append]

theorem used_append (used₀ : Nat) (xs ys : List Nat) :
    b.used used₀ (xs ++ ys) = b.used (b.used used₀ xs) ys := by
  induction xs generalizing used₀ with
  | nil => rfl
  | cons n rest ih =>
    simp only [List.cons_append, used]
    split
    next => exact ih _
    next => exact ih _

theorem granted_append (used₀ : Nat) (xs ys : List Nat) :
    b.granted used₀ (xs ++ ys) = b.granted used₀ xs ++ b.granted (b.used used₀ xs) ys := by
  induction xs generalizing used₀ with
  | nil => rfl
  | cons n rest ih =>
    simp only [List.cons_append, granted, used]
    split
    next => rw [ih, List.cons_append]
    next => exact ih _

theorem granted_contiguous (used₀ : Nat) (xs : List Nat) :
    b.Contiguous (b.base + used₀) (b.granted used₀ xs) := by
  induction xs generalizing used₀ with
  | nil => trivial
  | cons n rest ih =>
    unfold granted
    split
    next => exact ⟨rfl,by rw [Nat.add_assoc]; exact ih _⟩
    next => exact ih _

/-- Refused requests leave no trace: without them the others get the same addresses. -/
theorem results_granted (used₀ : Nat) (xs : List Nat) :
    b.results used₀ ((b.granted used₀ xs).map Prod.snd) =
      (b.granted used₀ xs).map fun g => some g.1 := by
  induction xs generalizing used₀ with
  | nil => rfl
  | cons n rest ih =>
    unfold granted
    split
    next hfits =>
      simp only [List.map_cons, results, if_pos hfits]
      rw [ih]
    next => exact ih _

/-- Every granted address is the base or above it, in whole units from it. -/
theorem granted_aligned {used₀ : Nat} (h : used₀ % b.unit = 0) {xs : List Nat} {g : Nat × Nat}
    (hg : g ∈ b.granted used₀ xs) : b.base ≤ g.1 ∧ (g.1 - b.base) % b.unit = 0 := by
  induction xs generalizing used₀ with
  | nil => contradiction
  | cons n rest ih =>
    have hnext : (used₀ + b.round n) % b.unit = 0 := by
      rw [Nat.add_mod, h, round_mod_unit, Nat.zero_add, Nat.zero_mod]
    unfold granted at hg
    split at hg
    next =>
      rcases List.mem_cons.mp hg with rfl | hg
      · exact ⟨Nat.le_add_right _ _,by rwa [Nat.add_sub_cancel_left]⟩
      · exact ih hnext hg
    next => exact ih h hg

end Bump

end FpgaGpu.Library
