import FpgaGpu.Library.Copy

/-! Virtual memory: a page table, the memory it shows a process, and what stores,
copies by a device, and pages that come and go do to that memory. -/
namespace FpgaGpu.Library

/-- The frame behind each present page, and the page each frame is behind. -/
structure PageTable where
  frame : Nat → Option Nat
  page : Nat → Option Nat
  frame_iff : ∀ p f, frame p = some f ↔ page f = some p

/-- The table in which no page is present. -/
def PageTable.empty : PageTable := ⟨fun _ => none,fun _ => none,by simp⟩

/-- Page `p` comes to stand in front of a free frame. -/
def PageTable.insert (T : PageTable) (p f : Nat) (hp : T.frame p = none) (hf : T.page f = none) :
    PageTable where
  frame := Function.update T.frame p (some f)
  page := Function.update T.page f (some p)
  frame_iff q g := by
    have hold := T.frame_iff q g
    by_cases hq : q = p <;> by_cases hg : g = f
    · simp [hq, hg]
    · have hback : T.page g ≠ some p := fun h => by simp [(T.frame_iff p g).mpr h] at hp
      simp [hq, Function.update_of_ne hg, hback, Ne.symm hg]
    · have hback : T.frame q ≠ some f := fun h => by simp [(T.frame_iff q f).mp h] at hf
      simp [hg, Function.update_of_ne hq, hback, Ne.symm hq]
    · rwa [Function.update_of_ne hq, Function.update_of_ne hg]

/-- A present page goes, and its frame is free. -/
def PageTable.remove (T : PageTable) (p f : Nat) (h : T.frame p = some f) : PageTable where
  frame := Function.update T.frame p none
  page := Function.update T.page f none
  frame_iff q g := by
    have hold := T.frame_iff q g
    have hpage := (T.frame_iff p f).mp h
    by_cases hq : q = p <;> by_cases hg : g = f
    · simp [hq, hg]
    · have hback : T.page g ≠ some p := fun hp =>
        hg (Option.some.inj (((T.frame_iff p g).mpr hp).symm.trans h))
      simp [hq, Function.update_of_ne hg, hback]
    · have hback : T.frame q ≠ some f := fun hf =>
        hq (Option.some.inj (((T.frame_iff q f).mp hf).symm.trans hpage))
      simp [hg, Function.update_of_ne hq, hback]
    · rwa [Function.update_of_ne hq, Function.update_of_ne hg]

variable {α β : Type} {size : Nat} {T : PageTable}

/-- The address behind a virtual one, where its page is present. -/
def PageTable.translate (T : PageTable) (size v : Nat) : Option Nat :=
  (T.frame (v / size)).map fun f => f * size + v % size

/-- What a process sees: present pages in their frames, the others in `swap`. -/
def PageTable.view (T : PageTable) (size : Nat) (phys swap : Nat → β) (v : Nat) : β :=
  match T.translate size v with
  | some a => phys a
  | none => swap v

variable {phys swap : Nat → β}

/-- The frames after page `p` has been read into frame `f`. -/
def readIn (size p f : Nat) (swap phys : Nat → β) (a : Nat) : β :=
  if a / size = f then swap (p * size + a % size) else phys a

/-- The swapped pages after page `p` has been written out of frame `f`. -/
def writeOut (size p f : Nat) (phys swap : Nat → β) (v : Nat) : β :=
  if v / size = p then phys (f * size + v % size) else swap v

end FpgaGpu.Library
