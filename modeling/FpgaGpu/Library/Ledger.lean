import Mathlib.Data.List.Perm.Basic
import Mathlib.Logic.Function.Basic

/-! Things handed out to several owners. -/
namespace FpgaGpu.Library

variable {α δ : Type} {held : List α} {owned : δ → List α}

/-- Everything handed out is handed out once, and belongs to one owner. -/
structure Shares (held : List α) (owned : δ → List α) : Prop where
  nodup : held.Nodup
  owned_nodup : ∀ p, (owned p).Nodup
  mem_iff : ∀ a, a ∈ held ↔ ∃ p, a ∈ owned p
  apart : ∀ a p q, a ∈ owned p → a ∈ owned q → p = q

theorem Shares.empty : Shares ([] : List α) fun _ : δ => [] := by
  constructor
  · exact List.nodup_nil
  · intro p
    exact List.nodup_nil
  · intro a
    simp
  · intro a p q ha
    contradiction

theorem Shares.owns (h : Shares held owned) {a : α} {p : δ} (ha : a ∈ owned p) : a ∈ held :=
  (h.mem_iff a).mpr ⟨p,ha⟩

variable [DecidableEq δ]

/-- An owner's list may be reordered. -/
theorem Shares.perm (h : Shares held owned) {p : δ} {l : List α} (hl : l.Perm (owned p)) :
    Shares held (Function.update owned p l) := by
  have hmem : ∀ q a, a ∈ Function.update owned p l q ↔ a ∈ owned q := by
    intro q a
    by_cases hq : q = p
    · subst hq
      rw [Function.update_self]
      exact hl.mem_iff
    · rw [Function.update_of_ne hq]
  constructor
  · exact h.nodup
  · intro q
    by_cases hq : q = p
    · subst hq
      rw [Function.update_self]
      exact hl.nodup_iff.mpr (h.owned_nodup q)
    · rw [Function.update_of_ne hq]
      exact h.owned_nodup q
  · intro a
    rw [h.mem_iff a]
    exact exists_congr fun q => (hmem q a).symm
  · intro a q r hq hr
    exact h.apart a q r ((hmem q a).mp hq) ((hmem r a).mp hr)

/-- Something that nobody has is handed out. -/
theorem Shares.take (h : Shares held owned) {p : δ} {a : α} (hfree : a ∉ held) :
    Shares (a :: held) (Function.update owned p (a :: owned p)) := by
  have hmem : ∀ q b, b ∈ Function.update owned p (a :: owned p) q ↔
      (q = p ∧ b = a) ∨ b ∈ owned q := by
    intro q b
    by_cases hq : q = p
    · subst hq
      rw [Function.update_self, List.mem_cons]
      simp
    · rw [Function.update_of_ne hq]
      simp [hq]
  have hnew : ∀ q, a ∉ owned q := fun q ha => hfree (h.owns ha)
  constructor
  · exact List.nodup_cons.mpr ⟨hfree,h.nodup⟩
  · intro q
    by_cases hq : q = p
    · subst hq
      rw [Function.update_self]
      exact List.nodup_cons.mpr ⟨hnew q,h.owned_nodup q⟩
    · rw [Function.update_of_ne hq]
      exact h.owned_nodup q
  · intro b
    rw [List.mem_cons, h.mem_iff b]
    constructor
    · rintro (rfl | ⟨q,hb⟩)
      · exact ⟨p,(hmem p b).mpr (.inl ⟨rfl,rfl⟩)⟩
      · exact ⟨q,(hmem q b).mpr (.inr hb)⟩
    · rintro ⟨q,hb⟩
      rcases (hmem q b).mp hb with ⟨-,rfl⟩ | hb
      · exact .inl rfl
      · exact .inr ⟨q,hb⟩
  · intro b q r hq hr
    rcases (hmem q b).mp hq with ⟨hqp,hb⟩ | hbq
    · rcases (hmem r b).mp hr with ⟨hrp,-⟩ | hbr
      · exact hqp.trans hrp.symm
      · exact absurd (hb ▸ hbr) (hnew r)
    · rcases (hmem r b).mp hr with ⟨-,hb⟩ | hbr
      · exact absurd (hb ▸ hbq) (hnew q)
      · exact h.apart b q r hbq hbr

variable [DecidableEq α]

/-- An owner gives something back. -/
theorem Shares.drop (h : Shares held owned) {p : δ} {a : α} {l : List α}
    (hl : owned p = a :: l) : Shares (held.erase a) (Function.update owned p l) := by
  have hp : (a :: l).Nodup := hl ▸ h.owned_nodup p
  have hown : a ∈ owned p := by
    rw [hl]
    exact List.mem_cons_self
  have hmem : ∀ q b, b ∈ Function.update owned p l q ↔ b ∈ owned q ∧ b ≠ a := by
    intro q b
    by_cases hq : q = p
    · subst hq
      rw [Function.update_self, hl, List.mem_cons]
      constructor
      · intro hb
        exact ⟨.inr hb,fun heq => (List.nodup_cons.mp hp).1 (heq ▸ hb)⟩
      · rintro ⟨hb | hb,hne⟩
        · exact absurd hb hne
        · exact hb
    · rw [Function.update_of_ne hq]
      exact ⟨fun hb => ⟨hb,fun heq => hq (h.apart a q p (heq ▸ hb) hown)⟩,And.left⟩
  constructor
  · exact h.nodup.erase a
  · intro q
    by_cases hq : q = p
    · subst hq
      rw [Function.update_self]
      exact (List.nodup_cons.mp hp).2
    · rw [Function.update_of_ne hq]
      exact h.owned_nodup q
  · intro b
    rw [h.nodup.mem_erase_iff, h.mem_iff b]
    constructor
    · rintro ⟨hne,q,hb⟩
      exact ⟨q,(hmem q b).mpr ⟨hb,hne⟩⟩
    · rintro ⟨q,hb⟩
      exact ⟨((hmem q b).mp hb).2,q,((hmem q b).mp hb).1⟩
  · intro b q r hq hr
    exact h.apart b q r ((hmem q b).mp hq).1 ((hmem r b).mp hr).1

theorem filter_erase_of_pos {f : α → Bool} {a : α} (ha : f a = true) (l : List α) :
    (l.erase a).filter f = (l.filter f).erase a := by
  induction l with
  | nil => rfl
  | cons b l ih =>
    by_cases hab : b = a
    · subst hab
      rw [List.erase_cons_head, List.filter_cons_of_pos ha, List.erase_cons_head]
    · rw [List.erase_cons_tail (by simpa using hab)]
      by_cases hb : f b = true
      · rw [List.filter_cons_of_pos hb, List.filter_cons_of_pos hb, ih,
          List.erase_cons_tail (by simpa using hab)]
      · rw [List.filter_cons_of_neg hb, List.filter_cons_of_neg hb, ih]

theorem filter_erase_of_neg {f : α → Bool} {a : α} (ha : ¬f a = true) (l : List α) :
    (l.erase a).filter f = l.filter f := by
  induction l with
  | nil => rfl
  | cons b l ih =>
    by_cases hab : b = a
    · subst hab
      rw [List.erase_cons_head, List.filter_cons_of_neg ha]
    · rw [List.erase_cons_tail (by simpa using hab)]
      by_cases hb : f b = true
      · rw [List.filter_cons_of_pos hb, List.filter_cons_of_pos hb, ih]
      · rw [List.filter_cons_of_neg hb, List.filter_cons_of_neg hb, ih]

end FpgaGpu.Library
