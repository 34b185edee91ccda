import Mathlib.Data.List.Basic

/-! Lists put into a memory one behind the other. -/
namespace FpgaGpu.Library

variable {β : Type}

/-- `mem` with `xs` from `offset` on. -/
def place (offset : Nat) (xs : List β) (mem : Nat → β) : Nat → β := fun k =>
  if k < offset then mem k else (xs[k - offset]?).getD (mem k)

@[simp] theorem place_nil (offset : Nat) (mem : Nat → β) : place offset [] mem = mem := by
  funext k
  simp [place]

theorem place_below {offset k : Nat} (h : k < offset) (xs : List β) (mem : Nat → β) :
    place offset xs mem k = mem k := if_pos h

theorem place_above {offset k : Nat} {xs : List β} (h : offset + xs.length ≤ k)
    (mem : Nat → β) : place offset xs mem k = mem k := by
  have hbehind : xs[k - offset]? = none := List.getElem?_eq_none (by omega)
  rw [place, if_neg (by omega), hbehind, Option.getD_none]

/-- One list behind another is their concatenation. -/
theorem place_append (offset : Nat) (xs ys : List β) (mem : Nat → β) :
    place (offset + xs.length) ys (place offset xs mem) = place offset (xs ++ ys) mem := by
  funext k
  by_cases hbelow : k < offset
  · rw [place_below (by omega), place_below hbelow, place_below hbelow]
  · by_cases hfirst : k < offset + xs.length
    · rw [place_below hfirst, place, if_neg hbelow, place, if_neg hbelow,
        List.getElem?_append_left (by omega)]
    · have hshift : k - offset - xs.length = k - (offset + xs.length) := by omega
      rw [place, if_neg hfirst, place_above (by omega), place, if_neg hbelow,
        List.getElem?_append_right (by omega), hshift]

/-- What was placed is read back. -/
theorem map_place (offset : Nat) (xs : List β) (mem : Nat → β) :
    (List.range xs.length).map (fun k => place offset xs mem (offset + k)) = xs := by
  apply List.ext_getElem (by simp)
  intro k hk hk'
  have hget : xs[offset + k - offset]? = some xs[k] := by
    rw [Nat.add_sub_cancel_left, List.getElem?_eq_getElem hk']
  rw [List.getElem_map, List.getElem_range, place, if_neg (by omega), hget, Option.getD_some]

end FpgaGpu.Library
