import FpgaGpu.Library.System
import Mathlib.Data.List.Basic

/-! Named arrays as a system of their own: each key owns a list of cells, and an
action that does not fit its array is not enabled. -/
namespace FpgaGpu.Library

variable {κ β : Type}

/-- The cells `[offset, offset + length)`. -/
def slice (offset length : Nat) (xs : List β) : List β := (xs.drop offset).take length

/-- `xs` with `ys` in place of what stands from `offset` on. -/
def splice (offset : Nat) (ys xs : List β) : List β :=
  xs.take offset ++ ys ++ xs.drop (offset + ys.length)

abbrev Arrays (κ β : Type) := κ → Option (List β)

inductive ArrayAction (κ β : Type) where
  | create (k : κ) (xs : List β)
  | release (k : κ)
  | write (k : κ) (offset : Nat) (ys : List β)
  | read (k : κ) (offset length : Nat)
  | copy (source target : κ) (sourceOffset targetOffset length : Nat)

/-- The only visible thing is what a read returns. -/
def Arrays.step [DecidableEq κ] (a : Arrays κ β) :
    ArrayAction κ β → Option (Arrays κ β × List (List β))
  | .create k xs => if (a k).isNone then some (Function.update a k (some xs),[]) else none
  | .release k => if (a k).isSome then some (Function.update a k none,[]) else none
  | .write k offset ys =>
      match a k with
      | none => none
      | some xs =>
        if offset + ys.length ≤ xs.length then
          some (Function.update a k (some (splice offset ys xs)),[])
        else none
  | .read k offset length =>
      match a k with
      | none => none
      | some xs =>
        if offset + length ≤ xs.length then some (a,[slice offset length xs]) else none
  | .copy source target sourceOffset targetOffset length =>
      match a source, a target with
      | some xs, some ys =>
        if sourceOffset + length ≤ xs.length ∧ targetOffset + length ≤ ys.length then
          some (Function.update a target
            (some (splice targetOffset (slice sourceOffset length xs) ys)),[])
        else none
      | _, _ => none

/-- Arrays, from the time when there is none. -/
def arraySystem (κ β : Type) [DecidableEq κ] :
    System (Arrays κ β) (ArrayAction κ β) (List β) where
  init a := ∀ k, a k = none
  step := Arrays.step

theorem slice_range {n offset length : Nat} (h : offset + length ≤ n) (f : Nat → β) :
    slice offset length ((List.range n).map f) =
      (List.range length).map fun k => f (offset + k) := by
  apply List.ext_getElem
  · simp only [slice, List.length_take, List.length_drop, List.length_map, List.length_range]
    omega
  · intro k hk hk'
    simp [slice]

theorem splice_range {n m offset : Nat} (h : offset + m ≤ n) (f g : Nat → β) :
    splice offset ((List.range m).map g) ((List.range n).map f) =
      (List.range n).map fun k =>
        if offset ≤ k ∧ k < offset + m then g (k - offset) else f k := by
  unfold splice
  apply List.ext_getElem
  · simp only [List.length_append, List.length_take, List.length_drop, List.length_map,
      List.length_range]
    omega
  · intro k hk hk'
    simp only [List.length_map, List.length_range] at hk'
    simp only [List.getElem_append, List.getElem_take, List.getElem_drop, List.getElem_map,
      List.getElem_range, List.length_append, List.length_take, List.length_map,
      List.length_range, Nat.min_eq_left (show offset ≤ n by omega)]
    by_cases hlow : k < offset
    · rw [dif_pos (by omega), dif_pos hlow, if_neg (by omega)]
    · by_cases hmid : k < offset + m
      · rw [dif_pos hmid, dif_neg hlow, if_pos ⟨by omega,hmid⟩]
      · rw [dif_neg hmid, if_neg (by omega)]
        congr 1
        omega

end FpgaGpu.Library
