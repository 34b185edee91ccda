import Mathlib.Data.List.Chain
import Mathlib.Data.List.Nodup
import Mathlib.Logic.Function.Basic

/-! Circular doubly linked lists with a head, kept in the nodes themselves, and the
pointer writes that insert at the tail and that remove. -/
namespace FpgaGpu.Library

/-- The two pointers of every node. -/
structure Links (α : Type) where
  next : α → α
  prev : α → α

inductive LinkWrite (α : Type) where
  | next (node target : α)
  | prev (node target : α)

variable {α : Type}

def LinkWrite.node : LinkWrite α → α
  | .next node _ | .prev node _ => node

/-- Both nodes point to each other. -/
def Links.Linked (L : Links α) (u v : α) : Prop := L.next u = v ∧ L.prev v = u

/-- The list with this head has the nodes `xs`. -/
structure Links.Holds (L : Links α) (head : α) (xs : List α) : Prop where
  chain : (head :: (xs ++ [head])).IsChain L.Linked
  nodup : (head :: xs).Nodup

/-- `__list_add(node, prev, next)`. -/
def insertBetween (node prev next : α) : List (LinkWrite α) :=
  [.prev next node,.next node next,.prev node prev,.next prev node]

/-- `__list_del(prev, next)`. -/
def bridge (prev next : α) : List (LinkWrite α) := [.prev next prev,.next prev next]

/-- Only the neighbours in a chain have to stay related. -/
theorem isChain_congr {R S : α → α → Prop} {xs : List α} (h : xs.IsChain R)
    (hsame : ∀ u v, u ∈ xs.dropLast → v ∈ xs.tail → R u v → S u v) : xs.IsChain S := by
  rw [List.isChain_iff_forall_rel_of_append_cons_cons] at h ⊢
  rintro u v before behind rfl
  refine hsame u v ?_ ?_ (h rfl)
  · rw [List.dropLast_append_of_ne_nil (by simp)]
    simp
  · cases before <;> simp

variable {L L' : Links α} {e head : α} {xs ys : List α}

/-- A list whose head points to itself is empty. -/
theorem Links.holds_nil (hnext : L.next head = head) (hprev : L.prev head = head) :
    L.Holds head [] :=
  ⟨by simp [Linked, hnext, hprev],by simp⟩

theorem Links.Holds.congr (h : L.Holds head xs)
    (hsame : ∀ u ∈ head :: xs, L'.next u = L.next u ∧ L'.prev u = L.prev u) :
    L'.Holds head xs := by
  refine ⟨isChain_congr h.chain fun u v hu hv huv => ?_,h.nodup⟩
  rw [← List.cons_append, List.dropLast_concat] at hu
  have hv' : v ∈ head :: xs := by
    rcases List.mem_append.mp hv with hin | hhead
    · exact List.mem_cons_of_mem _ hin
    · simp [List.mem_singleton.mp hhead]
  exact ⟨(hsame u hu).1.trans huv.1,(hsame v hv').2.trans huv.2⟩

/-- Where a walk along the list begins. -/
theorem Links.Holds.first (h : L.Holds head xs) : (xs ++ [head]).head? = some (L.next head) := by
  obtain ⟨x,hx⟩ : ∃ x, (xs ++ [head]).head? = some x :=
    Option.isSome_iff_exists.mp (by simp)
  rw [hx, (h.chain.rel_head? hx).1]

/-- And where it goes from a node. -/
theorem Links.Holds.next_eq (h : L.Holds head (xs ++ e :: ys)) :
    (ys ++ [head]).head? = some (L.next e) := by
  have hchain := h.chain
  rw [List.append_assoc, List.cons_append, ← List.cons_append] at hchain
  obtain ⟨x,hx⟩ : ∃ x, (ys ++ [head]).head? = some x :=
    Option.isSome_iff_exists.mp (by simp)
  rw [hx, (hchain.right_of_append.rel_head? hx).1]

/-- The chain cut at its end. -/
theorem Links.Holds.cut_tail (h : L.Holds head xs) :
    ∃ ys, head :: xs = ys ++ [L.prev head] ∧ (ys ++ [L.prev head]).IsChain L.Linked := by
  have hchain := h.chain
  rw [← List.cons_append] at hchain
  rcases List.eq_nil_or_concat (head :: xs) with hnil | ⟨ys,t,hys⟩
  · contradiction
  · rw [List.concat_eq_append] at hys
    rw [hys, List.append_assoc, List.singleton_append, List.isChain_append_cons_cons] at hchain
    rw [hchain.2.1.2]
    exact ⟨ys,hys,hchain.1⟩

/-- The chain cut at a node. -/
theorem Links.Holds.cut (h : L.Holds head (xs ++ e :: ys)) :
    ∃ before behind, head :: xs = before ++ [L.prev e] ∧ ys ++ [head] = L.next e :: behind ∧
      (before ++ [L.prev e]).IsChain L.Linked ∧ (L.next e :: behind).IsChain L.Linked := by
  have hnext := h.next_eq
  have hchain := h.chain
  rw [List.append_assoc, List.cons_append, ← List.cons_append] at hchain
  rcases List.eq_nil_or_concat (head :: xs) with hnil | ⟨before,p,hp⟩
  · contradiction
  · rw [List.concat_eq_append] at hp
    rw [hp, List.append_assoc, List.singleton_append, List.isChain_append_cons_cons] at hchain
    obtain ⟨hbefore,⟨-,hprev⟩,hbehind⟩ := hchain
    cases hys : ys ++ [head] with
    | nil => simp at hys
    | cons n behind =>
      rw [hys, List.head?_cons, Option.some.injEq] at hnext
      rw [hys] at hbehind
      rw [hprev, ← hnext]
      exact ⟨before,behind,hp,rfl,hbefore,hbehind.tail⟩

theorem Links.Holds.tail_mem (h : L.Holds head xs) : L.prev head ∈ head :: xs := by
  obtain ⟨ys,hys,-⟩ := h.cut_tail
  simp [hys]

/-- The neighbours of a node are in the list, or its head. -/
theorem Links.Holds.neighbours (h : L.Holds head (xs ++ e :: ys)) :
    L.prev e ∈ head :: xs ∧ L.next e ∈ ys ++ [head] := by
  obtain ⟨before,behind,hbefore,hbehind,-,-⟩ := h.cut
  constructor
  · simp [hbefore]
  · simp [hbehind]

variable [DecidableEq α]

def Links.write (L : Links α) : LinkWrite α → Links α
  | .next node target => {L with next := Function.update L.next node target}
  | .prev node target => {L with prev := Function.update L.prev node target}

def Links.writes (L : Links α) (ws : List (LinkWrite α)) : Links α := ws.foldl Links.write L

@[simp] theorem Links.writes_nil : L.writes [] = L := rfl

@[simp] theorem Links.writes_cons (w : LinkWrite α) (ws : List (LinkWrite α)) :
    L.writes (w :: ws) = (L.write w).writes ws := rfl

/-- Writes go on from the pointers of a node as if the others did not matter. -/
theorem Links.writes_same {ws : List (LinkWrite α)} {u : α}
    (hu : L'.next u = L.next u ∧ L'.prev u = L.prev u) :
    (L'.writes ws).next u = (L.writes ws).next u ∧
      (L'.writes ws).prev u = (L.writes ws).prev u := by
  induction ws generalizing L L' with
  | nil => exact hu
  | cons w ws ih =>
    refine ih ?_
    cases w with
    | next node target =>
      refine ⟨?_,hu.2⟩
      by_cases hnode : u = node
      · simp [write, hnode]
      · simpa [write, hnode] using hu.1
    | prev node target =>
      refine ⟨hu.1,?_⟩
      by_cases hnode : u = node
      · simp [write, hnode]
      · simpa [write, hnode] using hu.2

/-- `list_add_tail(e, head)`. -/
theorem Links.Holds.addTail (h : L.Holds head xs) (he : e ∉ head :: xs) :
    (L.writes (insertBetween e (L.prev head) head)).Holds head (xs ++ [e]) := by
  obtain ⟨before,hbefore,hchain⟩ := h.cut_tail
  generalize L.prev head = t at hbefore hchain
  have hnodup := h.nodup
  have hte : t ≠ e := by
    rintro rfl
    exact he (by simp [hbefore])
  have hhead : head ≠ e := fun heq => he (by simp [heq])
  refine ⟨?_,?_⟩
  · rw [← List.cons_append, ← List.cons_append, hbefore, List.append_assoc, List.append_assoc,
      List.singleton_append, List.singleton_append, List.isChain_append_cons_cons]
    refine ⟨isChain_congr hchain fun u v hu hv huv => ?_,?_,?_⟩
    · rw [List.dropLast_concat] at hu
      rw [← hbefore, List.tail_cons] at hv
      have hut : u ≠ t := by
        rintro rfl
        rw [hbefore, List.nodup_append] at hnodup
        exact hnodup.2.2 u hu u (by simp) rfl
      have hue : u ≠ e := by
        rintro rfl
        exact he (by simp [hbefore, hu])
      have hvh : v ≠ head := by
        rintro rfl
        exact (List.nodup_cons.mp hnodup).1 hv
      have hve : v ≠ e := by
        rintro rfl
        exact he (List.mem_cons_of_mem _ hv)
      simpa [Linked, insertBetween, write, hut, hue, hvh, hve] using huv
    · simp [Linked, insertBetween, write]
    · simp [Linked, insertBetween, write, hhead, hte.symm]
  · rw [← List.cons_append, List.nodup_append]
    refine ⟨hnodup,by simp,fun u hu v hv heq => he ?_⟩
    rwa [← List.mem_singleton.mp hv, ← heq]

/-- `__list_del` of the neighbours of `e`. -/
theorem Links.Holds.remove (h : L.Holds head (xs ++ e :: ys)) :
    (L.writes (bridge (L.prev e) (L.next e))).Holds head (xs ++ ys) := by
  obtain ⟨before,behind,hbefore,hbehind,hfront,hback⟩ := h.cut
  generalize L.prev e = p at hbefore hfront
  generalize L.next e = n at hbehind hback
  have hnodup := h.nodup
  rw [← List.cons_append, List.nodup_append] at hnodup
  obtain ⟨hxs,hys,hapart⟩ := hnodup
  have hys' := (List.nodup_cons.mp hys).2
  -- the head comes first and last, everything else once
  have hlast : (ys ++ [head]).Nodup := by
    rw [List.nodup_append]
    refine ⟨hys',by simp,fun u hu v hv heq => ?_⟩
    exact hapart head (by simp) u (List.mem_cons_of_mem _ hu)
      (heq.trans (List.mem_singleton.mp hv)).symm
  refine ⟨?_,?_⟩
  · rw [List.append_assoc, ← List.cons_append, hbefore, hbehind, List.append_assoc,
      List.singleton_append, List.isChain_append_cons_cons]
    refine ⟨isChain_congr hfront fun u v hu hv huv => ?_,?_,
      isChain_congr hback fun u v hu hv huv => ?_⟩
    · rw [List.dropLast_concat] at hu
      rw [← hbefore, List.tail_cons] at hv
      have hup : u ≠ p := by
        rintro rfl
        rw [hbefore, List.nodup_append] at hxs
        exact hxs.2.2 u hu u (by simp) rfl
      have hvn : v ≠ n := by
        rintro rfl
        have hmem : v ∈ ys ++ [head] := by simp [hbehind]
        rcases List.mem_append.mp hmem with hin | hin
        · exact hapart v (List.mem_cons_of_mem _ hv) v (List.mem_cons_of_mem _ hin) rfl
        · exact (List.nodup_cons.mp hxs).1 (List.mem_singleton.mp hin ▸ hv)
      simpa [Linked, bridge, write, hup, hvn] using huv
    · simp [Linked, bridge, write]
    · have hu' : u ∈ ys := by
        rwa [← hbehind, List.dropLast_concat] at hu
      rw [List.tail_cons] at hv
      have hup : u ≠ p := by
        rintro rfl
        exact hapart u (by simp [hbefore]) u (List.mem_cons_of_mem _ hu') rfl
      have hvn : v ≠ n := by
        rintro rfl
        rw [hbehind] at hlast
        exact (List.nodup_cons.mp hlast).1 hv
      simpa [Linked, bridge, write, hup, hvn] using huv
  · rw [← List.cons_append, List.nodup_append]
    exact ⟨hxs,hys',fun u hu v hv => hapart u hu v (List.mem_cons_of_mem _ hv)⟩

/-- What happens to a node outside the list does not matter, also under writes that are
still to come. -/
theorem Links.Holds.other {ws : List (LinkWrite α)} (h : (L.writes ws).Holds head xs)
    (he : e ∉ head :: xs) (next prev : α) :
    ((L.writes [.next e next,.prev e prev]).writes ws).Holds head xs := by
  refine h.congr fun u hu => writes_same ?_
  have hue : u ≠ e := by
    rintro rfl
    exact he hu
  simp [write, hue]

/-- `list_del(e)`, which leaves two marks in the node. -/
theorem Links.Holds.del (h : L.Holds head (xs ++ e :: ys)) (next prev : α) :
    (L.writes (bridge (L.prev e) (L.next e) ++ [.next e next,.prev e prev])).Holds head
      (xs ++ ys) := by
  have he : e ∉ head :: (xs ++ ys) := by
    have hnodup := h.nodup
    rw [← List.cons_append, List.nodup_middle, List.nodup_cons] at hnodup
    exact hnodup.1
  have hremove : ((L.writes (bridge (L.prev e) (L.next e))).writes []).Holds head (xs ++ ys) :=
    h.remove
  rw [writes, List.foldl_append]
  exact hremove.other he next prev

end FpgaGpu.Library
