import Mathlib.Data.List.Infix

/-! Histories in which things are taken and given back. -/
namespace FpgaGpu.Library

variable {ε α : Type}

/-- Everything taken is given back, once, and nothing before it was taken. -/
structure Paired (take drop : ε → Option α) (es : List ε) : Prop where
  total : es.filterMap drop = es.filterMap take
  never_ahead : ∀ pre post, es = pre ++ post → pre.filterMap drop <+: pre.filterMap take

/-- Where all is taken before anything is given back. -/
theorem Paired.of_split {take drop : ε → Option α} {es first second : List ε}
    (hes : es = first ++ second) (hfirst : first.filterMap drop = [])
    (hsecond : second.filterMap take = [])
    (hsame : second.filterMap drop = first.filterMap take) : Paired take drop es := by
  subst hes
  constructor
  · rw [List.filterMap_append, List.filterMap_append, hfirst, hsecond, hsame, List.append_nil,
      List.nil_append]
  · intro pre post h
    rcases List.append_eq_append_iff.mp h with ⟨mid,hpre,hmid⟩ | ⟨mid,hpre,hmid⟩
    · have hrest : mid.filterMap drop <+: second.filterMap drop := by
        rw [hmid, List.filterMap_append]
        exact List.prefix_append _ _
      have hnone : mid.filterMap take = [] := by
        rw [hmid, List.filterMap_append, List.append_eq_nil_iff] at hsecond
        exact hsecond.1
      rw [hpre, List.filterMap_append, List.filterMap_append, hfirst, hnone, List.nil_append,
        List.append_nil, ← hsame]
      exact hrest
    · have hnone : pre.filterMap drop = [] := by
        rw [hpre, List.filterMap_append, List.append_eq_nil_iff] at hfirst
        exact hfirst.1
      rw [hnone]
      exact List.nil_prefix

/-- Where nothing is taken nor given back. -/
theorem Paired.of_none {take drop : ε → Option α} {es : List ε} (htake : es.filterMap take = [])
    (hdrop : es.filterMap drop = []) : Paired take drop es :=
  .of_split (List.append_nil es).symm hdrop rfl htake.symm

theorem filterMap_map_none {β : Type} {f : ε → Option α} {g : β → ε} (h : ∀ b, f (g b) = none)
    (l : List β) : (l.map g).filterMap f = [] := by
  rw [List.filterMap_map, List.filterMap_eq_nil_iff]
  intro b _
  exact h b

end FpgaGpu.Library
