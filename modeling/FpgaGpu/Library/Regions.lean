import Mathlib.Logic.Function.Basic

/-! Regions of an address space handed out to named owners. -/
namespace FpgaGpu.Library

structure Region where
  start : Nat
  size : Nat

def Region.Has (r : Region) (x : Nat) : Prop := r.start ≤ x ∧ x < r.start + r.size

variable {κ : Type} [DecidableEq κ]

/-- The regions lie between `lo` and `hi`, and no two share a cell. -/
structure Packed (lo hi : Nat) (regions : κ → Option Region) : Prop where
  within : ∀ i r, regions i = some r → lo ≤ r.start ∧ r.start + r.size ≤ hi
  apart : ∀ i j r s, i ≠ j → regions i = some r → regions j = some s →
    ∀ x, ¬(r.Has x ∧ s.Has x)

omit [DecidableEq κ] in
theorem Packed.of_none {lo hi : Nat} {regions : κ → Option Region} (h : ∀ i, regions i = none) :
    Packed lo hi regions :=
  ⟨fun i _ hr => absurd ((h i).symm.trans hr) nofun,
    fun i _ _ _ _ hr => absurd ((h i).symm.trans hr) nofun⟩

omit [DecidableEq κ] in
theorem Packed.mono {lo hi hi' : Nat} {regions : κ → Option Region} (h : Packed lo hi regions)
    (hle : hi ≤ hi') : Packed lo hi' regions :=
  ⟨fun i r hr => ⟨(h.within i r hr).1,Nat.le_trans (h.within i r hr).2 hle⟩,h.apart⟩

theorem Packed.remove {lo hi : Nat} {regions : κ → Option Region} (h : Packed lo hi regions)
    (k : κ) : Packed lo hi (Function.update regions k none) := by
  have hkeep : ∀ i r, Function.update regions k none i = some r → regions i = some r := by
    intro i r hr
    by_cases hi : i = k
    · subst hi
      simp at hr
    · rwa [Function.update_of_ne hi] at hr
  exact ⟨fun i r hr => h.within i r (hkeep i r hr),
    fun i j r s hij hr hs => h.apart i j r s hij (hkeep i r hr) (hkeep j s hs)⟩

/-- A region that starts where the others end keeps them apart. -/
theorem Packed.insert {lo hi hi' : Nat} {regions : κ → Option Region} (h : Packed lo hi regions)
    (k : κ) {r : Region} (hlo : lo ≤ hi) (hstart : hi ≤ r.start) (hend : r.start + r.size ≤ hi') :
    Packed lo hi' (Function.update regions k (some r)) := by
  have hcases : ∀ i s, Function.update regions k (some r) i = some s →
      i = k ∧ s = r ∨ i ≠ k ∧ regions i = some s := by
    intro i s hs
    by_cases hi : i = k
    · subst hi
      exact .inl ⟨rfl,by simpa [eq_comm] using hs⟩
    · rw [Function.update_of_ne hi] at hs
      exact .inr ⟨hi,hs⟩
  refine ⟨fun i s hs => ?_,fun i j s t hij hs ht x => ?_⟩
  · rcases hcases i s hs with ⟨rfl,rfl⟩ | ⟨-,hold⟩
    · exact ⟨Nat.le_trans hlo hstart,hend⟩
    · have hwithin := h.within i s hold
      omega
  · unfold Region.Has
    rcases hcases i s hs with ⟨rfl,rfl⟩ | ⟨hi,hsold⟩ <;>
      rcases hcases j t ht with ⟨rfl,rfl⟩ | ⟨hj,htold⟩
    · exact absurd rfl hij
    · have hwithin := h.within j t htold
      omega
    · have hwithin := h.within i s hsold
      omega
    · exact h.apart i j s t hij hsold htold x

end FpgaGpu.Library
