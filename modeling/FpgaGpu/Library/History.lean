import Mathlib.Data.List.TakeWhile

/-! The part of a history that comes before the first event of a kind. A run
only ever appends to its history, so that part is fixed once the event is there. -/
namespace FpgaGpu.Library

variable {ε α : Type}

/-- The events strictly before the first one that satisfies `p`. -/
def before (p : ε → Bool) (log : List ε) : List ε := log.takeWhile fun e => !p e

theorem before_append_of_any {p : ε → Bool} {log : List ε} (h : log.any p) (es : List ε) :
    before p (log ++ es) = before p log := by
  induction log with
  | nil => simp at h
  | cons e log ih =>
    by_cases he : p e
    · simp [before, he]
    · have htail : log.any p := by simpa [he] using h
      simpa [before, he] using ih htail

theorem before_of_not_any {p : ε → Bool} {log : List ε} (h : log.any p = false) :
    before p log = log := by
  apply List.takeWhile_eq_self_iff.mpr
  intro e he
  simpa using List.any_eq_false.mp h e he

theorem before_append_first {p : ε → Bool} {log : List ε} {e : ε} (h : log.any p = false)
    (he : p e) (es : List ε) : before p (log ++ e :: es) = log := by
  have hlog := before_of_not_any h
  rw [before] at hlog ⊢
  rw [List.takeWhile_append, hlog]
  simp [he]

theorem before_mono (p : ε → Bool) (log es : List ε) : before p log <+: before p (log ++ es) := by
  by_cases h : log.any p = true
  · have heq := before_append_of_any h es
    simp only [heq, List.prefix_refl]
  · rw [before_of_not_any (by simpa using h), before, List.takeWhile_append_of_pos]
    · exact List.prefix_append _ _
    · intro e he
      simpa using List.any_eq_false.mp (by simpa using h) e he

/-- The events from the first one that satisfies `p` on. -/
def after (p : ε → Bool) (log : List ε) : List ε := log.dropWhile fun e => !p e

theorem after_append_of_any {p : ε → Bool} {log : List ε} (h : log.any p) (es : List ε) :
    after p (log ++ es) = after p log ++ es := by
  induction log with
  | nil => simp at h
  | cons e log ih =>
    by_cases he : p e
    · simp [after, he]
    · have htail : log.any p := by simpa [he] using h
      simpa [after, he] using ih htail

theorem after_append_of_not_any {p : ε → Bool} {log : List ε} (h : log.any p = false)
    (es : List ε) : after p (log ++ es) = after p es := by
  induction log with
  | nil => rfl
  | cons e log ih =>
    obtain ⟨he,htail⟩ : p e = false ∧ log.any p = false := by simpa using h
    simpa [after, he] using ih htail

/-- Counting events of a kind never decreases along a prefix. -/
theorem filterMap_length_mono {log log' : List ε} (f : ε → Option α) (h : log <+: log') :
    (log.filterMap f).length ≤ (log'.filterMap f).length :=
  (h.filterMap f).length_le

/-- What the last event of a kind says. -/
def lastOf (f : ε → Option α) (log : List ε) : Option α := (log.filterMap f).getLast?

theorem lastOf_append (f : ε → Option α) (log es : List ε) :
    lastOf f (log ++ es) = (lastOf f es).or (lastOf f log) := by
  unfold lastOf
  rw [List.filterMap_append, List.getLast?_append]

/-- What stands at a position once one more element is there. -/
theorem getElem?_concat_eq_some {l : List α} {x y : α} {p : Nat} :
    (l ++ [x])[p]? = some y ↔ l[p]? = some y ∨ p = l.length ∧ x = y := by
  rcases lt_trichotomy p l.length with hlt | rfl | hgt
  · simp [List.getElem?_append_left hlt, hlt.ne]
  · simp
  · rw [List.getElem?_eq_none (by simpa [Nat.succ_le_iff] using hgt), List.getElem?_eq_none hgt.le]
    simp [hgt.ne']

/-- One more event for a history in pieces, the last piece first. -/
def addEvent (pieces : List (List α)) : Option α → List (List α)
  | none => [] :: pieces
  | some a =>
      match pieces with
      | [] => [[a]]
      | last :: rest => (last ++ [a]) :: rest

/-- The history cut where `f` gives `none`. -/
def piecesOf (f : ε → Option α) (log : List ε) : List (List α) :=
  (log.map f).foldl addEvent [[]]

theorem piecesOf_cut {f : ε → Option α} {e : ε} (h : f e = none) (log : List ε) :
    piecesOf f (log ++ [e]) = [] :: piecesOf f log := by
  simp [piecesOf, h, addEvent]

/-- Events that do not cut go to the last piece. -/
theorem piecesOf_extend {f : ε → Option α} {g : α → ε} (h : ∀ a, f (g a) = some a)
    {log : List ε} {last : List α} {rest : List (List α)} (hlog : piecesOf f log = last :: rest)
    (es : List α) : piecesOf f (log ++ es.map g) = (last ++ es) :: rest := by
  unfold piecesOf at hlog ⊢
  rw [List.map_append, List.foldl_append, hlog]
  clear hlog
  induction es generalizing last with
  | nil => simp
  | cons a es ih =>
    rw [List.map_cons, List.map_cons, List.foldl_cons, h]
    exact ih.trans (by simp)

end FpgaGpu.Library
