import Mathlib.Logic.Function.Basic

/-! Objects with reference counts that point to each other. A pointer holds no
reference, so that whether a live object points to a freed one is up to the holder
of the references. -/
namespace FpgaGpu.Library

/-- A live object: its count, and the object it points to. -/
structure RefNode (κ : Type) where
  count : Nat
  target : Option κ

abbrev RefGraph (κ : Type) := κ → Option (RefNode κ)

/-- What the holder has: the number of its references to each object, and the
object that each was made from. -/
structure RefHolder (κ : Type) where
  refs : κ → Nat
  madeFrom : κ → Option κ

inductive RefOp (κ : Type) where
  | create (o : κ) (target : Option κ)
  | retain (o : κ)
  | release (o : κ)

variable {κ : Type}

/-- Only a reference that is held can be given up. -/
def RefHolder.owns (a : RefHolder κ) : RefOp κ → Bool
  | .release o => 0 < a.refs o
  | .create _ _ | .retain _ => true

/-- No live object points to one that is not live. -/
def RefGraph.Closed (g : RefGraph κ) : Prop :=
  ∀ o node t, g o = some node → node.target = some t → (g t).isSome = true

/-- A new object is not live yet, and is made from a live one; the others are used
while they are live. -/
def RefOp.Enabled (g : RefGraph κ) : RefOp κ → Prop
  | .create o target => g o = none ∧ ∀ t, target = some t → (g t).isSome = true
  | .retain o | .release o => (g o).isSome = true

section Operations
variable [DecidableEq κ]

/-- Counts are kept modulo `m`, and an object is freed when its count comes to 0. -/
def RefGraph.apply (m : Nat) (g : RefGraph κ) : RefOp κ → RefGraph κ
  | .create o target => Function.update g o (some ⟨1,target⟩)
  | .retain o =>
      Function.update g o ((g o).map fun node => {node with count := (node.count + 1) % m})
  | .release o =>
      Function.update g o ((g o).bind fun node =>
        if (node.count + (m - 1)) % m = 0 then none
        else some {node with count := (node.count + (m - 1)) % m})

def RefHolder.apply (a : RefHolder κ) : RefOp κ → RefHolder κ
  | .create o target =>
      ⟨Function.update a.refs o 1,Function.update a.madeFrom o target⟩
  | .retain o => {a with refs := Function.update a.refs o (a.refs o + 1)}
  | .release o => {a with refs := Function.update a.refs o (a.refs o - 1)}

theorem RefGraph.apply_retain_eq {m count : Nat} {target : Option κ} {g g' : RefGraph κ} {o : κ}
    (hold : g o = some ⟨count,target⟩)
    (h : g' = Function.update g o (some ⟨(count + 1) % m,target⟩)) :
    g' = g.apply m (.retain o) := by
  rw [h]
  simp only [apply, hold, Option.map_some]

theorem RefGraph.apply_release_eq {m count : Nat} {target : Option κ} {g g' : RefGraph κ} {o : κ}
    (hold : g o = some ⟨count,target⟩)
    (h : g' = Function.update g o (if (count + (m - 1)) % m = 0 then none
      else some ⟨(count + (m - 1)) % m,target⟩)) :
    g' = g.apply m (.release o) := by
  rw [h]
  simp only [apply, hold, Option.bind_some]

end Operations

/-- Nothing that was made from `o` is held. -/
def RefHolder.Leaf (a : RefHolder κ) (o : κ) : Prop :=
  ∀ o', a.madeFrom o' = some o → a.refs o' = 0

/-- A reference whose release brings the count to 0 is the holder's last one, and
what was made from the object was given up before. -/
def RefOp.LeavesFirst (m : Nat) (a : RefHolder κ) : RefOp κ → Prop
  | .release o => a.refs o % m = 1 → a.refs o = 1 ∧ a.Leaf o
  | .create _ _ | .retain _ => True

/-- Live objects are those the holder has references to, and their counts are the
numbers of these. -/
structure RefGraph.HeldBy (m : Nat) (g : RefGraph κ) (a : RefHolder κ) : Prop where
  live : ∀ o, (g o).isSome = true ↔ 0 < a.refs o
  node : ∀ o node, g o = some node → node.count = a.refs o % m ∧ node.target = a.madeFrom o
  closed : g.Closed

theorem RefGraph.HeldBy.of_none {m : Nat} {g : RefGraph κ} {a : RefHolder κ}
    (hg : ∀ o, g o = none) (ha : ∀ o, a.refs o = 0) : g.HeldBy m a := by
  constructor
  · intro o
    simp [hg o, ha o]
  · intro o node h
    simp [hg o] at h
  · intro o node t h
    simp [hg o] at h

/-- The count comes to 0 exactly where it was 1. -/
theorem sub_one_mod_eq_zero {m : Nat} (hm : 1 < m) (n : Nat) :
    (n % m + (m - 1)) % m = 0 ↔ n % m = 1 := by
  have hlt : n % m < m := Nat.mod_lt _ (by omega)
  rcases Nat.eq_zero_or_pos (n % m) with hzero | hpos
  · rw [hzero, Nat.zero_add, Nat.mod_eq_of_lt (by omega)]
    omega
  · rw [show n % m + (m - 1) = (n % m - 1) + m by omega, Nat.add_mod_right,
      Nat.mod_eq_of_lt (by omega)]
    omega

theorem sub_one_mod {m : Nat} (hm : 1 < m) {n : Nat} (hn : 0 < n) :
    (n % m + (m - 1)) % m = (n - 1) % m := by
  rw [Nat.mod_add_mod, show n + (m - 1) = n - 1 + m by omega, Nat.add_mod_right]

namespace RefGraph.HeldBy
variable [DecidableEq κ] {m : Nat} {g : RefGraph κ} {a : RefHolder κ} {o : κ}

theorem create {target : Option κ} (h : g.HeldBy m a) (hm : 1 < m)
    (hen : (RefOp.create o target).Enabled g) :
    (g.apply m (.create o target)).HeldBy m (a.apply (.create o target)) := by
  obtain ⟨hfresh,htarget⟩ := hen
  constructor
  · intro o'
    by_cases ho : o' = o
    · subst ho
      simp [RefGraph.apply, RefHolder.apply]
    · simpa [RefGraph.apply, RefHolder.apply, ho] using h.live o'
  · intro o' node hnode
    by_cases ho : o' = o
    · subst ho
      simp only [RefGraph.apply, Function.update_self, Option.some.injEq] at hnode
      subst hnode
      simp [RefHolder.apply, Nat.mod_eq_of_lt hm]
    · simp only [RefGraph.apply, Function.update_of_ne ho] at hnode
      simpa [RefHolder.apply, ho] using h.node o' node hnode
  · intro o' node t hnode ht
    have hlive : (g t).isSome = true := by
      by_cases ho : o' = o
      · subst ho
        simp only [RefGraph.apply, Function.update_self, Option.some.injEq] at hnode
        subst hnode
        exact htarget t ht
      · simp only [RefGraph.apply, Function.update_of_ne ho] at hnode
        exact h.closed o' node t hnode ht
    by_cases hto : t = o
    · simp [RefGraph.apply, hto]
    · simpa [RefGraph.apply, hto] using hlive

theorem retain (h : g.HeldBy m a) (hen : (RefOp.retain o).Enabled g) :
    (g.apply m (.retain o)).HeldBy m (a.apply (.retain o)) := by
  obtain ⟨old,hold⟩ := Option.isSome_iff_exists.mp hen
  obtain ⟨hcount,htarget⟩ := h.node o old hold
  have hlive : ∀ o', (g.apply m (.retain o) o').isSome = (g o').isSome := by
    intro o'
    by_cases ho : o' = o
    · simp [RefGraph.apply, ho]
    · simp [RefGraph.apply, ho]
  constructor
  · intro o'
    rw [hlive, h.live]
    by_cases ho : o' = o
    · subst ho
      have hpos := (h.live o').mp hen
      simp only [RefHolder.apply, Function.update_self]
      omega
    · simp [RefHolder.apply, ho]
  · intro o' node hnode
    by_cases ho : o' = o
    · subst ho
      simp only [RefGraph.apply, Function.update_self, hold, Option.map_some,
        Option.some.injEq] at hnode
      subst hnode
      simp [RefHolder.apply, hcount, htarget]
    · simp only [RefGraph.apply, Function.update_of_ne ho] at hnode
      simpa [RefHolder.apply, ho] using h.node o' node hnode
  · intro o' node t hnode ht
    rw [hlive]
    by_cases ho : o' = o
    · subst ho
      simp only [RefGraph.apply, Function.update_self, hold, Option.map_some,
        Option.some.injEq] at hnode
      subst hnode
      exact h.closed o' old t hold ht
    · simp only [RefGraph.apply, Function.update_of_ne ho] at hnode
      exact h.closed o' node t hnode ht

/-- The object that a release leaves, if any. -/
theorem apply_release (h : g.HeldBy m a) (hm : 1 < m) {node : RefNode κ} (hnode : g o = some node) :
    g.apply m (.release o) o =
      if a.refs o % m = 1 then none else some {node with count := (a.refs o - 1) % m} := by
  have hpos : 0 < a.refs o := (h.live o).mp (by simp [hnode])
  simp only [RefGraph.apply, Function.update_self, hnode, Option.bind_some,
    (h.node o node hnode).1, sub_one_mod_eq_zero hm]
  rw [sub_one_mod hm hpos]

omit [DecidableEq κ] in
/-- An object that nothing held was made from has no pointer to it. -/
theorem target_ne_of_leaf (h : g.HeldBy m a) (hleaf : a.Leaf o) {o' : κ} {node : RefNode κ}
    (hnode : g o' = some node) : node.target ≠ some o := by
  intro ht
  have hmade : a.madeFrom o' = some o := by rw [← (h.node o' node hnode).2, ht]
  have hpos : 0 < a.refs o' := (h.live o').mp (by simp [hnode])
  have hzero := hleaf o' hmade
  omega

theorem release (h : g.HeldBy m a) (hm : 1 < m) (hen : (RefOp.release o).Enabled g)
    (hok : (RefOp.release o).LeavesFirst m a) :
    (g.apply m (.release o)).HeldBy m (a.apply (.release o)) := by
  obtain ⟨old,hold⟩ := Option.isSome_iff_exists.mp hen
  have hpos : 0 < a.refs o := (h.live o).mp hen
  have hself := h.apply_release hm hold
  have hother : ∀ o', o' ≠ o → g.apply m (.release o) o' = g o' := fun o' ho => by
    simp [RefGraph.apply, ho]
  constructor
  · intro o'
    by_cases ho : o' = o
    · subst ho
      rw [hself]
      simp only [RefHolder.apply, Function.update_self]
      by_cases hone : a.refs o' % m = 1
      · obtain ⟨hlast,-⟩ := hok hone
        simp [hlast, Nat.mod_eq_of_lt hm]
      · have hne : a.refs o' ≠ 1 := fun hone' => hone (by rw [hone', Nat.mod_eq_of_lt hm])
        simp only [hone, if_false, Option.isSome_some, true_iff]
        omega
    · rw [hother o' ho]
      simpa [RefHolder.apply, ho] using h.live o'
  · intro o' node hnode
    by_cases ho : o' = o
    · subst ho
      rw [hself] at hnode
      split at hnode
      next => contradiction
      next =>
        obtain rfl := Option.some.inj hnode
        simpa [RefHolder.apply] using (h.node o' old hold).2
    · rw [hother o' ho] at hnode
      simpa [RefHolder.apply, ho] using h.node o' node hnode
  · intro o' node t hnode ht
    have htarget : ∃ old', g o' = some old' ∧ old'.target = some t := by
      by_cases ho : o' = o
      · subst ho
        rw [hself] at hnode
        split at hnode
        next => contradiction
        next =>
          obtain rfl := Option.some.inj hnode
          exact ⟨old,hold,ht⟩
      · rw [hother o' ho] at hnode
        exact ⟨node,hnode,ht⟩
    obtain ⟨old',hold',ht'⟩ := htarget
    by_cases hto : t = o
    · subst hto
      rw [hself]
      split
      next hone => exact absurd ht' (h.target_ne_of_leaf (hok hone).2 hold')
      next => rfl
    · rw [hother t hto]
      exact h.closed o' old' t hold' ht'

theorem apply (h : g.HeldBy m a) (hm : 1 < m) {op : RefOp κ} (hen : op.Enabled g)
    (hok : op.LeavesFirst m a) : (g.apply m op).HeldBy m (a.apply op) := by
  cases op with
  | create o target => exact h.create hm hen
  | retain o => exact h.retain hen
  | release o => exact h.release hm hen hok

/-- The last reference to an object that does not point to itself can be given up
exactly when nothing that was made from it is held. -/
theorem closed_release_iff (h : g.HeldBy m a) (hm : 1 < m) (hlast : a.refs o = 1)
    (hself : a.madeFrom o ≠ some o) : (g.apply m (.release o)).Closed ↔ a.Leaf o := by
  have hen : (RefOp.release o).Enabled g := (h.live o).mpr (by omega)
  constructor
  · intro hclosed o' hmade
    by_contra hheld
    obtain ⟨node,hnode⟩ := Option.isSome_iff_exists.mp ((h.live o').mpr (by omega))
    obtain ⟨old,hold⟩ := Option.isSome_iff_exists.mp hen
    have hne : o' ≠ o := fun ho => hself (ho ▸ hmade)
    have hlive := hclosed o' node o (by simpa [RefGraph.apply, hne] using hnode)
      (by rw [(h.node o' node hnode).2, hmade])
    rw [h.apply_release hm hold, hlast, Nat.mod_eq_of_lt hm] at hlive
    simp at hlive
  · intro hleaf
    exact (h.release hm hen fun _ => ⟨hlast,hleaf⟩).closed

end RefGraph.HeldBy

end FpgaGpu.Library
