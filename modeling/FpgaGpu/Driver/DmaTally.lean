import FpgaGpu.Driver.DmaDevice

/-! The books of DMA_TRANSFER: page references and scatterlists, taken and given
back by each of its phases. -/
namespace FpgaGpu.Driver
open Library

def pageTaken : DmaEffect → Option Nat
  | .getPage page => some page
  | _ => none

def pageDropped : DmaEffect → Option Nat
  | .putPage page => some page
  | _ => none

def sglAllocated : DmaEffect → Option Nat
  | .kmalloc sgl => some sgl
  | _ => none

def sglFreed : DmaEffect → Option Nat
  | .kfree sgl => some sgl
  | _ => none

/-- What a phase takes and gives back, kind by kind. -/
structure Tally (es : List DmaEffect) (taken dropped allocated freed : List Nat) : Prop where
  taken : es.filterMap pageTaken = taken
  dropped : es.filterMap pageDropped = dropped
  allocated : es.filterMap sglAllocated = allocated
  freed : es.filterMap sglFreed = freed

theorem Tally.append {es es' : List DmaEffect} {taken taken' dropped dropped' : List Nat}
    {allocated allocated' freed freed' : List Nat} (h : Tally es taken dropped allocated freed)
    (h' : Tally es' taken' dropped' allocated' freed') :
    Tally (es ++ es') (taken ++ taken') (dropped ++ dropped') (allocated ++ allocated')
      (freed ++ freed') := by
  constructor
  · rw [List.filterMap_append, h.taken, h'.taken]
  · rw [List.filterMap_append, h.dropped, h'.dropped]
  · rw [List.filterMap_append, h.allocated, h'.allocated]
  · rw [List.filterMap_append, h.freed, h'.freed]

theorem tally_getPages (pages : List Nat) : Tally (pages.map .getPage) pages [] [] [] := by
  induction pages with
  | nil => exact ⟨rfl,rfl,rfl,rfl⟩
  | cons page rest ih =>
    have hone : Tally [.getPage page] [page] [] [] [] := ⟨rfl,rfl,rfl,rfl⟩
    exact hone.append ih

theorem tally_putPages (pages : List Nat) : Tally (pages.map .putPage) [] pages [] [] := by
  induction pages with
  | nil => exact ⟨rfl,rfl,rfl,rfl⟩
  | cons page rest ih =>
    have hone : Tally [.putPage page] [] [page] [] [] := ⟨rfl,rfl,rfl,rfl⟩
    exact hone.append ih

/-- Of pages that were written to, only the references count. -/
theorem tally_dirtyPages (pages : List Nat) :
    Tally (pages.flatMap fun page => [.setPageDirty page,.putPage page]) [] pages [] [] := by
  induction pages with
  | nil => exact ⟨rfl,rfl,rfl,rfl⟩
  | cons page rest ih =>
    have hone : Tally [.setPageDirty page,.putPage page] [] [page] [] [] := ⟨rfl,rfl,rfl,rfl⟩
    exact hone.append ih

theorem DmaDev.tally_teardown (d : DmaDev) (t : Transfer) (timeout : Bool) :
    Tally (d.teardown t timeout).2.1 [] d.pages [] (d.sgl.toList.map Sgl.id) := by
  have hsgl : Tally (d.sgl.toList.map fun sgl => .kfree sgl.id) [] [] []
      (d.sgl.toList.map Sgl.id) := by
    cases d.sgl <;> exact ⟨rfl,rfl,rfl,rfl⟩
  have hstop : ∀ value offset sgl nents dir,
      Tally [.iowrite32 value offset,.unmapSg sgl nents dir] [] [] [] [] :=
    fun _ _ _ _ _ => ⟨rfl,rfl,rfl,rfl⟩
  have hpages := ((hstop 0 t.dir.channel.ctrl (d.sgl.map Sgl.id) d.numPinnedPages t.dir).append
    hsgl)
  cases hdir : t.dir with
  | toDevice =>
    rw [hdir] at hpages
    simpa [teardown, hdir, List.map_eq_flatMap] using hpages.append (tally_putPages d.pages)
  | fromDevice =>
    rw [hdir] at hpages
    simpa [teardown, hdir] using hpages.append (tally_dirtyPages d.pages)

end FpgaGpu.Driver
