import Mathlib.Data.List.Nodup
import Mathlib.Logic.Function.Basic

/-! Memories that are copied into, one cell after the other. -/
namespace FpgaGpu.Library

variable {α β γ : Type} [DecidableEq γ]

/-- Copies from `src` to `dst`, one pair of a source and a destination after the
other. -/
def copyAll (src : α → β) (pairs : List (α × γ)) (dst : γ → β) : γ → β :=
  pairs.foldl (fun dst p => Function.update dst p.2 (src p.1)) dst

theorem copyAll_append (src : α → β) (ps qs : List (α × γ)) (dst : γ → β) :
    copyAll src (ps ++ qs) dst = copyAll src qs (copyAll src ps dst) := by
  simp [copyAll]

theorem copyAll_of_not_mem {src : α → β} {pairs : List (α × γ)} {dst : γ → β} {c : γ}
    (h : c ∉ pairs.map Prod.snd) : copyAll src pairs dst c = dst c := by
  induction pairs generalizing dst with
  | nil => rfl
  | cons p rest ih =>
    obtain ⟨hne,hrest⟩ : c ≠ p.2 ∧ c ∉ rest.map Prod.snd := by simpa using h
    calc copyAll src (p :: rest) dst c
        = copyAll src rest (Function.update dst p.2 (src p.1)) c := rfl
      _ = Function.update dst p.2 (src p.1) c := ih hrest
      _ = dst c := Function.update_of_ne hne _ _

/-- Where no destination is repeated, each one gets its own source. -/
theorem copyAll_of_mem {src : α → β} {pairs : List (α × γ)} {dst : γ → β} {a : α} {c : γ}
    (hnodup : (pairs.map Prod.snd).Nodup) (h : (a,c) ∈ pairs) :
    copyAll src pairs dst c = src a := by
  induction pairs generalizing dst with
  | nil => nomatch h
  | cons p rest ih =>
    obtain ⟨hfirst,hrest⟩ := List.nodup_cons.mp hnodup
    rcases List.mem_cons.mp h with rfl | hmem
    · calc copyAll src ((a,c) :: rest) dst c
          = copyAll src rest (Function.update dst c (src a)) c := rfl
        _ = Function.update dst c (src a) c := copyAll_of_not_mem hfirst
        _ = src a := Function.update_self _ _ _
    · exact ih hrest hmem

/-- The pairs of the first `n` places of two streams. -/
def pairUp (source : Nat → α) (target : Nat → γ) (n : Nat) : List (α × γ) :=
  (List.range n).map fun k => (source k,target k)

omit [DecidableEq γ] in
/-- A list of pairs is known from its sources and its targets. -/
theorem eq_pairUp {pairs : List (α × γ)} {source : Nat → α} {target : Nat → γ} {n : Nat}
    (hsource : pairs.map Prod.fst = (List.range n).map source)
    (htarget : pairs.map Prod.snd = (List.range n).map target) :
    pairs = pairUp source target n := by
  apply List.ext_getElem?
  intro k
  have hfst := congrArg (fun l : List α => l[k]?) hsource
  have hsnd := congrArg (fun l : List γ => l[k]?) htarget
  simp only [List.getElem?_map] at hfst hsnd
  rw [pairUp, List.getElem?_map]
  cases hp : pairs[k]? <;> cases hk : (List.range n)[k]? <;> simp_all [Prod.ext_iff]

theorem copyAll_pairUp {src : α → β} {source : Nat → α} {target : Nat → γ} {dst : γ → β}
    {n k : Nat} (hinj : ∀ i < n, ∀ j < n, target i = target j → i = j) (hk : k < n) :
    copyAll src (pairUp source target n) dst (target k) = src (source k) := by
  have hmap : (pairUp source target n).map Prod.snd = (List.range n).map target := by
    simp [pairUp, Function.comp_def]
  refine copyAll_of_mem ?_ (List.mem_map.mpr ⟨k,by simpa using hk,rfl⟩)
  rw [hmap]
  apply (List.nodup_map_iff_inj_on List.nodup_range).mpr
  intro i hi j hj heq
  exact hinj i (List.mem_range.mp hi) j (List.mem_range.mp hj) heq

theorem copyAll_pairUp_other {src : α → β} {source : Nat → α} {target : Nat → γ} {dst : γ → β}
    {n : Nat} {c : γ} (h : ∀ k < n, c ≠ target k) :
    copyAll src (pairUp source target n) dst c = dst c := by
  apply copyAll_of_not_mem
  intro hmem
  obtain ⟨k,hk,heq⟩ : ∃ k < n, target k = c := by simpa [pairUp] using hmem
  exact h k hk heq.symm

end FpgaGpu.Library
