import FpgaGpu.Driver.DmaCopy
import FpgaGpu.Driver.DmaTally
import FpgaGpu.Library.History
import FpgaGpu.Library.Paired

/-! A DMA_TRANSFER call that runs alone: its phases one after the other, over
every outcome of the functions it calls. -/
namespace FpgaGpu.Driver
open Library

/-- The poll loop, from the `k`-th read of the status register on: what is left
of `timeout` when it ends. -/
def pollStatus (busy : Nat → Bool) (k : Nat) : Nat → Nat
  | 0 => 0
  | timeout + 1 => if busy k then pollStatus busy (k + 1) timeout else timeout + 1

/-- The reads allowed before the transfer counts as timed out. -/
def pollLimit : Nat := 10000000

theorem pollStatus_eq_zero (busy : Nat → Bool) (k timeout : Nat) :
    pollStatus busy k timeout = 0 ↔ ∀ j < timeout, busy (k + j) = true := by
  induction timeout generalizing k with
  | zero => simp [pollStatus]
  | succ timeout ih =>
    unfold pollStatus
    split
    next hbusy =>
      rw [ih]
      constructor
      · intro h j hj
        cases j with
        | zero => exact hbusy
        | succ j =>
          rw [← Nat.succ_add_eq_add_succ]
          exact h j (Nat.lt_of_succ_lt_succ hj)
      · intro h j hj
        rw [Nat.succ_add_eq_add_succ]
        exact h (j + 1) (Nat.succ_lt_succ hj)
    next hidle =>
      constructor
      · intro h
        contradiction
      · intro h
        exact absurd (h 0 (Nat.succ_pos _)) hidle

/-- How the fallible steps of a call come out: what `copy_from_user` reads,
`get_user_pages_fast` pins, `kmalloc_array` and `dma_map_sg` return, and each poll
of the status register sees. -/
structure DmaOutcome where
  param : Option DmaParam
  gup : Gup
  alloc : Option Nat
  mapped : List MappedSg
  busy : Nat → Bool

/-- A phase that has a result ends the call. -/
def PhaseResult.andThen (r : PhaseResult) (next : DmaDev → PhaseResult) : PhaseResult :=
  match r.2.2 with
  | some _ => r
  | none =>
      let r' := next r.1
      (r'.1,r.2.1 ++ r'.2.1,r'.2.2)

/-- The call from the pin phase on. -/
def DmaDev.transfer (t : Transfer) (o : DmaOutcome) (d : DmaDev) : PhaseResult :=
  (d.pin t o.gup).andThen fun d =>
  (d.mapSgl t o.alloc o.mapped).andThen fun d =>
  (d.start t).andThen fun d =>
  d.teardown t (pollStatus o.busy 0 pollLimit = 0)

/-- `fpgagpu_ioctl` with DMA_TRANSFER. -/
def DmaDev.dmaTransfer (o : DmaOutcome) (d : DmaDev) : PhaseResult :=
  match o.param with
  | none => (d,[],some (.err .EFAULT))
  | some p =>
    match dmaCheck p with
    | .error e => (d,[],some (.err e))
    | .ok t => d.transfer t o

/-- The list, length and direction given to `dma_map_sg`, and to `dma_unmap_sg`. -/
def sgMapped : DmaEffect → Option (Option Nat × Int × DmaDirection)
  | .mapSg sgl nents dir => some (some sgl,nents,dir)
  | _ => none

def sgUnmapped : DmaEffect → Option (Option Nat × Int × DmaDirection)
  | .unmapSg sgl nents dir => some (sgl,nents,dir)
  | _ => none

/-- A write of `value` to the control register of either channel. -/
def DmaEffect.controls (value : UInt32) : DmaEffect → Bool
  | .iowrite32 v offset => v = value && (offset = xdmaH2cChan0.ctrl || offset = xdmaC2hChan0.ctrl)
  | _ => false

def DmaEffect.starts : DmaEffect → Bool := controls 1
def DmaEffect.stops : DmaEffect → Bool := controls 0

def DmaEffect.unmaps (e : DmaEffect) : Bool := (sgUnmapped e).isSome

/-- What a call that runs alone leaves behind: nothing that it took, and the
engine was started, stopped and its pages marked dirty at the right times. -/
structure DmaBalanced (o : DmaOutcome) (r : PhaseResult) : Prop where
  pages : Paired pageTaken pageDropped r.2.1
  mapping : Paired sgMapped sgUnmapped r.2.1
  mapped_once : (r.2.1.filterMap sgMapped).length ≤ 1
  sgl : Paired sglAllocated sglFreed r.2.1
  allocated_once : (r.2.1.filterMap sglAllocated).length ≤ 1
  sgl_none : r.1.sgl = none
  started_once : (r.2.1.filter DmaEffect.starts).length ≤ 1
  started : r.2.1.any DmaEffect.starts = true → ∃ p t sgl, o.param = some p ∧ dmaCheck p = .ok t ∧
    ((before DmaEffect.starts r.2.1).filterMap pageTaken).length = t.numPages ∧
    (before DmaEffect.starts r.2.1).filterMap pageDropped = [] ∧
    (before DmaEffect.starts r.2.1).filterMap sgMapped = [(some sgl,(t.numPages : Int),t.dir)] ∧
    (before DmaEffect.starts r.2.1).filterMap sgUnmapped = []
  stopped : r.2.1.any DmaEffect.unmaps = true →
    (after DmaEffect.starts (before DmaEffect.unmaps r.2.1)).any DmaEffect.stops = true
  dirty : ∀ p t, o.param = some p → dmaCheck p = .ok t → t.dir = .fromDevice →
    r.2.1.any DmaEffect.starts = true →
    ∀ pre page post, r.2.1 = pre ++ .putPage page :: post →
      pre.getLast? = some (.setPageDirty page)

/-- The two effects of giving back a page. -/
def releasePage (dir : DmaDirection) (page : Nat) : List DmaEffect :=
  match dir with
  | .toDevice => [.putPage page]
  | .fromDevice => [.setPageDirty page,.putPage page]

/-- The courses a call can take. -/
inductive DmaCourse (o : DmaOutcome) : List DmaEffect → Prop where
  | refused : DmaCourse o []
  | undone (pages : List Nat) : DmaCourse o (pages.map .getPage ++ pages.map .putPage)
  | notMapped (pages : List Nat) (sgl : Nat) :
      DmaCourse o (pages.map .getPage ++ ([.kmalloc sgl,.kfree sgl] ++ pages.map .putPage))
  | run (p : DmaParam) (t : Transfer) (pages : List Nat) (sgl : Nat) (lo hi : UInt32) :
      o.param = some p → dmaCheck p = .ok t → pages.length = t.numPages →
      DmaCourse o (pages.map .getPage ++
        ([.kmalloc sgl,.mapSg sgl pages.length t.dir,.iowrite32 lo t.dir.channel.sgLo,
          .iowrite32 hi t.dir.channel.sgHi,.iowrite32 0 t.dir.channel.sgAdj,
          .iowrite32 1 t.dir.channel.ctrl,.iowrite32 0 t.dir.channel.ctrl,
          .unmapSg (some sgl) pages.length t.dir,.kfree sgl] ++
        pages.flatMap (releasePage t.dir)))

theorem PhaseResult.andThen_ended (d : DmaDev) (es : List DmaEffect) (ret : Ret)
    (next : DmaDev → PhaseResult) :
    PhaseResult.andThen (d,es,some ret) next = (d,es,some ret) := rfl

theorem PhaseResult.andThen_next (d : DmaDev) (es : List DmaEffect) (next : DmaDev → PhaseResult) :
    PhaseResult.andThen (d,es,none) next = ((next d).1,es ++ (next d).2.1,(next d).2.2) := rfl

/-- The writes that start the channel. -/
def startWrites (ring : UInt64) (ch : Channel) : List DmaEffect :=
  [.iowrite32 (lowerWord ring) ch.sgLo,.iowrite32 (upperWord ring) ch.sgHi,.iowrite32 0 ch.sgAdj,
    .iowrite32 1 ch.ctrl]

/-- A list that is stored is run, torn down and forgotten. -/
theorem DmaDev.run_effects {t : Transfer} {d : DmaDev} {sgl : Sgl} (h : d.sgl = some sgl)
    (timeout : Bool) :
    ((d.start t).andThen fun d => d.teardown t timeout).2.1 =
      startWrites d.descRingDmaAddr t.dir.channel ++
        ([.iowrite32 0 t.dir.channel.ctrl,.unmapSg (some sgl.id) d.numPinnedPages t.dir,
          .kfree sgl.id] ++ d.pages.flatMap (releasePage t.dir)) := by
  have hstart : (d.start t).1.sgl = some sgl := h
  have htorn : ((d.start t).1.teardown t timeout).2.1 =
      [.iowrite32 0 t.dir.channel.ctrl,
        .unmapSg ((d.start t).1.sgl.map Sgl.id) (d.start t).1.numPinnedPages t.dir] ++
        (d.start t).1.sgl.toList.map (fun sgl => .kfree sgl.id) ++
        (d.start t).1.pages.flatMap (releasePage t.dir) := rfl
  rw [hstart] at htorn
  exact congrArg (startWrites d.descRingDmaAddr t.dir.channel ++ ·) htorn

theorem DmaDev.transfer_course {o : DmaOutcome} {p : DmaParam} {t : Transfer}
    (hparam : o.param = some p) (hcheck : dmaCheck p = .ok t) {d : DmaDev} (hsgl : d.sgl = none) :
    DmaCourse o (d.transfer t o).2.1 ∧ (d.transfer t o).1.sgl = none := by
  unfold transfer
  cases o.gup with
  | error e => exact ⟨.refused,hsgl⟩
  | got pages =>
    by_cases hall : pages.length = t.numPages
    · have hpages := d.pages_got pages
      rw [pin_complete hall, PhaseResult.andThen_next]
      generalize hd : DmaDev.mk d.descRing d.descRingDmaAddr _ _ d.sgl d.sglNents d.dmaBase = got
        at hpages ⊢
      have hnum : got.numPinnedPages = pages.length := by rw [← hd]
      clear hd
      subst hpages
      cases o.alloc with
      | none =>
        rw [mapSgl, PhaseResult.andThen_ended]
        exact ⟨.undone got.pages,rfl⟩
      | some sgl =>
        by_cases hmap : o.mapped = []
        · simp only [mapSgl, if_pos hmap]
          rw [PhaseResult.andThen_ended]
          exact ⟨.notMapped got.pages sgl,rfl⟩
        · rw [mapSgl_mapped t sgl hmap, PhaseResult.andThen_next, run_effects rfl]
          refine ⟨?_,rfl⟩
          have hcourse := DmaCourse.run (o := o) p t got.pages sgl (lowerWord got.descRingDmaAddr)
            (upperWord got.descRingDmaAddr) hparam hcheck hall
          rw [← hnum] at hcourse
          exact hcourse
    · rw [pin_incomplete hall, PhaseResult.andThen_ended]
      exact ⟨.undone pages,hsgl⟩

theorem DmaDev.dmaTransfer_course (o : DmaOutcome) {d : DmaDev} (hsgl : d.sgl = none) :
    DmaCourse o (d.dmaTransfer o).2.1 ∧ (d.dmaTransfer o).1.sgl = none := by
  unfold dmaTransfer
  split
  next => exact ⟨.refused,hsgl⟩
  next p hparam =>
    split
    next => exact ⟨.refused,hsgl⟩
    next t hcheck => exact transfer_course hparam hcheck hsgl

theorem filterMap_releasePage {α : Type} {f : DmaEffect → Option α} {dir : DmaDirection}
    (hput : ∀ page, f (.putPage page) = none) (hdirty : ∀ page, f (.setPageDirty page) = none)
    (pages : List Nat) : (pages.flatMap (releasePage dir)).filterMap f = [] := by
  rw [List.filterMap_eq_nil_iff]
  intro e he
  obtain ⟨page,-,he⟩ := List.mem_flatMap.mp he
  cases dir with
  | toDevice =>
    obtain rfl : e = .putPage page := by simpa [releasePage] using he
    exact hput page
  | fromDevice =>
    obtain rfl | rfl : e = .setPageDirty page ∨ e = .putPage page := by
      simpa [releasePage] using he
    · exact hdirty page
    · exact hput page

theorem tally_releasePage (dir : DmaDirection) (pages : List Nat) :
    Tally (pages.flatMap (releasePage dir)) [] pages [] [] := by
  cases dir with
  | toDevice =>
    have htally := tally_putPages pages
    rw [List.map_eq_flatMap] at htally
    exact htally
  | fromDevice => exact tally_dirtyPages pages

theorem any_map_false {β : Type} {p : DmaEffect → Bool} {g : β → DmaEffect}
    (h : ∀ b, p (g b) = false) (l : List β) : (l.map g).any p = false := by
  rw [List.any_map, List.any_eq_false]
  intro b _
  simp [h b]

theorem any_releasePage {p : DmaEffect → Bool} {dir : DmaDirection}
    (hput : ∀ page, p (.putPage page) = false) (hdirty : ∀ page, p (.setPageDirty page) = false)
    (pages : List Nat) : (pages.flatMap (releasePage dir)).any p = false := by
  rw [List.any_flatMap, List.any_eq_false]
  intro page _
  cases dir <;> simp [releasePage, hput, hdirty]

/-- Every page is marked right before its reference goes. -/
theorem dirty_before_put {pre post : List DmaEffect} {page : Nat} {pages : List Nat}
    (h : pages.flatMap (releasePage .fromDevice) = pre ++ .putPage page :: post) :
    pre.getLast? = some (.setPageDirty page) := by
  induction pages generalizing pre with
  | nil => simp at h
  | cons first rest ih =>
    rw [List.flatMap_cons, releasePage] at h
    match pre with
    | [] => simp at h
    | [e] =>
      obtain ⟨rfl,rfl,-⟩ : e = .setPageDirty first ∧ page = first ∧ _ := by
        simpa [eq_comm] using h
      rfl
    | e :: e' :: pre =>
      have hrest : rest.flatMap (releasePage .fromDevice) = pre ++ .putPage page :: post := by
        simp only [List.cons_append, List.cons.injEq, List.nil_append] at h
        exact h.2.2
      rw [List.getLast?_cons_cons, List.getLast?_cons, ih hrest]
      rfl

theorem dirty_before_put_after {first pre post : List DmaEffect} {page : Nat} {pages : List Nat}
    (hfirst : first.filterMap pageDropped = [])
    (h : first ++ pages.flatMap (releasePage .fromDevice) = pre ++ .putPage page :: post) :
    pre.getLast? = some (.setPageDirty page) := by
  rcases List.append_eq_append_iff.mp h with ⟨mid,hpre,hmid⟩ | ⟨mid,hpre,hmid⟩
  · rw [hpre, List.getLast?_append, dirty_before_put hmid]
    rfl
  · cases mid with
    | nil =>
      have hlast : [].getLast? = some (DmaEffect.setPageDirty page) := dirty_before_put hmid.symm
      contradiction
    | cons e mid =>
      obtain ⟨rfl,-⟩ := List.cons.inj hmid
      rw [hpre, List.filterMap_append, List.append_eq_nil_iff] at hfirst
      simp [pageDropped] at hfirst

/-- A call that neither maps nor starts anything. -/
theorem DmaBalanced.of_quiet {o : DmaOutcome} {d : DmaDev} {es : List DmaEffect}
    {ret : Option Ret} (hsgl_none : d.sgl = none) (hpages : Paired pageTaken pageDropped es)
    (hsgl : Paired sglAllocated sglFreed es) (honce : (es.filterMap sglAllocated).length ≤ 1)
    (hmapped : es.filterMap sgMapped = []) (hunmapped : es.filterMap sgUnmapped = [])
    (hstarts : es.any DmaEffect.starts = false) : DmaBalanced o (d,es,ret) where
  pages := hpages
  mapping := .of_none hmapped hunmapped
  mapped_once := by simp [hmapped]
  sgl := hsgl
  allocated_once := honce
  sgl_none := hsgl_none
  started_once := by
    rw [List.filter_eq_nil_iff.mpr fun e he => by simp [List.any_eq_false.mp hstarts e he]]
    exact Nat.zero_le 1
  started := by
    intro h
    exact absurd h (by simp [hstarts])
  stopped := by
    intro h
    obtain ⟨e,he,hunmaps⟩ := List.any_eq_true.mp h
    obtain ⟨x,hx⟩ := Option.isSome_iff_exists.mp hunmaps
    have hmem : x ∈ es.filterMap sgUnmapped := List.mem_filterMap.mpr ⟨e,he,hx⟩
    simp [hunmapped] at hmem
  dirty := by
    intro p t hparam hcheck hdir h
    exact absurd h (by simp [hstarts])

/-- The pages are pinned first and dropped last, with `mid` in between. -/
theorem paired_pages {mid : List DmaEffect} (htake : mid.filterMap pageTaken = [])
    (hdrop : mid.filterMap pageDropped = []) {es : List DmaEffect} {pages : List Nat}
    {allocated freed : List Nat} (hes : Tally es [] pages allocated freed) :
    Paired pageTaken pageDropped (pages.map .getPage ++ (mid ++ es)) := by
  refine .of_split rfl (tally_getPages pages).dropped ?_ ?_
  · rw [List.filterMap_append, htake, hes.taken]
    rfl
  · rw [List.filterMap_append, hdrop, hes.dropped, (tally_getPages pages).taken]
    rfl

/-- Up to the start of the channel. -/
def runStart (pages : List Nat) (sgl : Nat) (lo hi : UInt32) (dir : DmaDirection) :
    List DmaEffect :=
  pages.map .getPage ++ [.kmalloc sgl,.mapSg sgl pages.length dir,.iowrite32 lo dir.channel.sgLo,
    .iowrite32 hi dir.channel.sgHi,.iowrite32 0 dir.channel.sgAdj]

theorem runStart_starts (pages : List Nat) (sgl : Nat) (lo hi : UInt32) (dir : DmaDirection) :
    (runStart pages sgl lo hi dir).any DmaEffect.starts = false := by
  unfold runStart
  rw [List.any_append, any_map_false fun _ => rfl]
  cases dir <;>
    simp [DmaEffect.starts, DmaEffect.controls, DmaDirection.channel, xdmaH2cChan0, xdmaC2hChan0]

theorem starts_ctrl (dir : DmaDirection) :
    DmaEffect.starts (.iowrite32 1 dir.channel.ctrl) = true := by
  cases dir <;> rfl

theorem runStart_tally (pages : List Nat) (sgl : Nat) (lo hi : UInt32) (dir : DmaDirection) :
    Tally (runStart pages sgl lo hi dir) pages [] [sgl] [] := by
  have hrest : Tally [.kmalloc sgl,.mapSg sgl pages.length dir,.iowrite32 lo dir.channel.sgLo,
    .iowrite32 hi dir.channel.sgHi,.iowrite32 0 dir.channel.sgAdj] [] [] [sgl] [] :=
    ⟨rfl,rfl,rfl,rfl⟩
  simpa [runStart] using (tally_getPages pages).append hrest

theorem runStart_mapped (pages : List Nat) (sgl : Nat) (lo hi : UInt32) (dir : DmaDirection) :
    (runStart pages sgl lo hi dir).filterMap sgMapped = [(some sgl,(pages.length : Int),dir)] ∧
    (runStart pages sgl lo hi dir).filterMap sgUnmapped = [] := by
  unfold runStart
  constructor
  · rw [List.filterMap_append, filterMap_map_none fun _ => rfl]
    rfl
  · rw [List.filterMap_append, filterMap_map_none fun _ => rfl]
    rfl

/-- From the end of the polling on. -/
def runEnd (pages : List Nat) (sgl : Nat) (dir : DmaDirection) : List DmaEffect :=
  [.iowrite32 0 dir.channel.ctrl,.unmapSg (some sgl) pages.length dir,.kfree sgl] ++
    pages.flatMap (releasePage dir)

theorem runEnd_starts (pages : List Nat) (sgl : Nat) (dir : DmaDirection) :
    (runEnd pages sgl dir).any DmaEffect.starts = false := by
  unfold runEnd
  rw [List.any_append, any_releasePage (fun _ => rfl) (fun _ => rfl)]
  cases dir <;> rfl

theorem runEnd_tally (pages : List Nat) (sgl : Nat) (dir : DmaDirection) :
    Tally (runEnd pages sgl dir) [] pages [] [sgl] := by
  have hstop : Tally [.iowrite32 0 dir.channel.ctrl,.unmapSg (some sgl) pages.length dir,
    .kfree sgl] [] [] [] [sgl] := ⟨rfl,rfl,rfl,rfl⟩
  exact hstop.append (tally_releasePage dir pages)

theorem runEnd_mapped (pages : List Nat) (sgl : Nat) (dir : DmaDirection) :
    (runEnd pages sgl dir).filterMap sgMapped = [] ∧
    (runEnd pages sgl dir).filterMap sgUnmapped = [(some sgl,(pages.length : Int),dir)] := by
  unfold runEnd
  constructor
  · rw [List.filterMap_append, filterMap_releasePage (fun _ => rfl) (fun _ => rfl)]
    rfl
  · rw [List.filterMap_append, filterMap_releasePage (fun _ => rfl) (fun _ => rfl)]
    rfl

/-- The channel runs while it is polled. -/
def startStop (dir : DmaDirection) : List DmaEffect :=
  [.iowrite32 1 dir.channel.ctrl,.iowrite32 0 dir.channel.ctrl]

/-- The channel is told to stop between its start and the unmap. -/
theorem run_stopped (pages : List Nat) (sgl : Nat) (lo hi : UInt32) (dir : DmaDirection) :
    (after DmaEffect.starts (before DmaEffect.unmaps (runStart pages sgl lo hi dir ++
      .iowrite32 1 dir.channel.ctrl :: runEnd pages sgl dir))).any DmaEffect.stops = true := by
  have hes : runStart pages sgl lo hi dir ++ .iowrite32 1 dir.channel.ctrl :: runEnd pages sgl dir =
      (runStart pages sgl lo hi dir ++ startStop dir) ++ .unmapSg (some sgl) pages.length dir ::
        (.kfree sgl :: pages.flatMap (releasePage dir)) := by
    simp [runEnd, startStop]
  have hnone : (runStart pages sgl lo hi dir ++ startStop dir).any DmaEffect.unmaps = false := by
    unfold runStart
    rw [List.any_append, List.any_append, any_map_false fun _ => rfl]
    rfl
  have hafter : after DmaEffect.starts (startStop dir) = startStop dir := by
    cases dir <;> rfl
  rw [hes, before_append_first hnone rfl,
    after_append_of_not_any (runStart_starts pages sgl lo hi dir), hafter]
  cases dir <;> rfl

theorem filter_of_any {p : DmaEffect → Bool} {es : List DmaEffect} (h : es.any p = false) :
    es.filter p = [] := by
  rw [List.filter_eq_nil_iff]
  intro e he
  simp [List.any_eq_false.mp h e he]

theorem DmaBalanced.of_run {o : DmaOutcome} {d : DmaDev} {ret : Option Ret} {p : DmaParam}
    {t : Transfer} {pages : List Nat} (sgl : Nat) (lo hi : UInt32) (hparam : o.param = some p)
    (hcheck : dmaCheck p = .ok t) (hall : pages.length = t.numPages) (hsgl : d.sgl = none) :
    DmaBalanced o (d,runStart pages sgl lo hi t.dir ++ .iowrite32 1 t.dir.channel.ctrl ::
      runEnd pages sgl t.dir,ret) := by
  have hstart := runStart_tally pages sgl lo hi t.dir
  have hend := runEnd_tally pages sgl t.dir
  obtain ⟨hmapped,hnotUnmapped⟩ := runStart_mapped pages sgl lo hi t.dir
  obtain ⟨hnotMapped,hunmapped⟩ := runEnd_mapped pages sgl t.dir
  constructor
  case pages => exact .of_split rfl hstart.dropped hend.taken (hend.dropped.trans hstart.taken.symm)
  case mapping =>
    exact .of_split rfl hnotUnmapped hnotMapped (hunmapped.trans hmapped.symm)
  case mapped_once =>
    rw [List.filterMap_append, hmapped]
    exact Nat.le_of_eq (congrArg (fun l => l.length + 1) hnotMapped)
  case sgl =>
    exact .of_split rfl hstart.freed hend.allocated (hend.freed.trans hstart.allocated.symm)
  case allocated_once =>
    rw [List.filterMap_append, hstart.allocated]
    exact Nat.le_of_eq (congrArg (fun l => l.length + 1) hend.allocated)
  case sgl_none => exact hsgl
  case started_once =>
    rw [List.filter_append, filter_of_any (runStart_starts pages sgl lo hi t.dir),
      List.filter_cons_of_pos (starts_ctrl t.dir),
      filter_of_any (runEnd_starts pages sgl t.dir)]
    exact Nat.le_refl 1
  case started =>
    intro _
    rw [before_append_first (runStart_starts pages sgl lo hi t.dir) (starts_ctrl t.dir)]
    refine ⟨p,t,sgl,hparam,hcheck,?_,hstart.dropped,?_,hnotUnmapped⟩
    · rw [hstart.taken, hall]
    · rw [hmapped, hall]
  case stopped =>
    intro _
    exact run_stopped pages sgl lo hi t.dir
  case dirty =>
    intro p' t' hparam' hcheck' hdir _ pre page post hes
    obtain rfl := Option.some.inj (hparam.symm.trans hparam')
    obtain rfl := Except.ok.inj (hcheck.symm.trans hcheck')
    have hfirst : (runStart pages sgl lo hi t.dir ++ (startStop t.dir ++
        [DmaEffect.unmapSg (some sgl) pages.length t.dir,.kfree sgl])).filterMap pageDropped =
          [] := by
      rw [List.filterMap_append, hstart.dropped]
      rfl
    have hsplit : (runStart pages sgl lo hi t.dir ++ (startStop t.dir ++
        [DmaEffect.unmapSg (some sgl) pages.length t.dir,.kfree sgl])) ++
        pages.flatMap (releasePage t.dir) = pre ++ .putPage page :: post := by
      rw [← hes]
      simp [runEnd, startStop]
    rw [hdir] at hfirst hsplit
    exact dirty_before_put_after hfirst hsplit

theorem DmaBalanced.of_course {o : DmaOutcome} {d : DmaDev} {es : List DmaEffect}
    {ret : Option Ret} (hcourse : DmaCourse o es) (hsgl : d.sgl = none) :
    DmaBalanced o (d,es,ret) := by
  cases hcourse with
  | refused =>
    exact .of_quiet hsgl (.of_none rfl rfl) (.of_none rfl rfl) (Nat.zero_le 1) rfl rfl rfl
  | undone pages =>
    have htally := (tally_getPages pages).append (tally_putPages pages)
    refine .of_quiet hsgl ?_ (.of_none htally.allocated htally.freed) ?_ ?_ ?_ ?_
    · exact paired_pages List.filterMap_nil rfl (tally_putPages pages)
    · rw [htally.allocated]
      exact Nat.zero_le 1
    · rw [List.filterMap_append, filterMap_map_none fun _ => rfl, filterMap_map_none fun _ => rfl]
      rfl
    · rw [List.filterMap_append, filterMap_map_none fun _ => rfl, filterMap_map_none fun _ => rfl]
      rfl
    · rw [List.any_append, any_map_false fun _ => rfl, any_map_false fun _ => rfl]
      rfl
  | notMapped pages sgl =>
    have hkmalloc : Tally [.kmalloc sgl,.kfree sgl] [] [] [sgl] [sgl] := ⟨rfl,rfl,rfl,rfl⟩
    have htally := (tally_getPages pages).append (hkmalloc.append (tally_putPages pages))
    refine .of_quiet hsgl ?_ ?_ ?_ ?_ ?_ ?_
    · exact paired_pages rfl rfl (tally_putPages pages)
    · have hfirst : Tally [.kmalloc sgl] [] [] [sgl] [] := ⟨rfl,rfl,rfl,rfl⟩
      have hsecond : Tally [.kfree sgl] [] [] [] [sgl] := ⟨rfl,rfl,rfl,rfl⟩
      have hgot := (tally_getPages pages).append hfirst
      have hput := hsecond.append (tally_putPages pages)
      have hes : pages.map DmaEffect.getPage ++ ([.kmalloc sgl,.kfree sgl] ++ pages.map .putPage) =
          (pages.map .getPage ++ [.kmalloc sgl]) ++ ([.kfree sgl] ++ pages.map .putPage) := by simp
      refine .of_split hes hgot.freed hput.allocated ?_
      rw [hgot.allocated, hput.freed]
      rfl
    · rw [htally.allocated]
      exact Nat.le_refl 1
    · rw [List.filterMap_append, List.filterMap_append, filterMap_map_none fun _ => rfl,
        filterMap_map_none fun _ => rfl]
      rfl
    · rw [List.filterMap_append, List.filterMap_append, filterMap_map_none fun _ => rfl,
        filterMap_map_none fun _ => rfl]
      rfl
    · rw [List.any_append, List.any_append, any_map_false fun _ => rfl, any_map_false fun _ => rfl]
      rfl
  | run p t pages sgl lo hi hparam hcheck hall =>
    have hrun : DmaBalanced o (d,_,ret) := .of_run sgl lo hi hparam hcheck hall hsgl
    simpa [runStart, runEnd] using hrun

/-- A call that runs alone balances its resources on every path. -/
theorem dma_resources_balance (o : DmaOutcome) {d : DmaDev} (hsgl : d.sgl = none) :
    DmaBalanced o (d.dmaTransfer o) := by
  obtain ⟨hcourse,hnone⟩ := DmaDev.dmaTransfer_course o hsgl
  exact .of_course hcourse hnone

/-- Five bytes from the device, over a page boundary, polled idle at the third read. -/
def twoPagesRead : DmaOutcome where
  param := some ⟨1,5,0x10000,4094⟩
  gup := .got [7,8]
  alloc := some 3
  mapped := [⟨7 * 4096 + 4094,5⟩]
  busy k := decide (k < 2)

theorem dma_resources_balance_two_pages :
    (probedDmaDev.dmaTransfer twoPagesRead).2 = ([.getPage 7,.getPage 8,.kmalloc 3,
      .mapSg 3 2 .fromDevice,.iowrite32 0x100000 0x5080,.iowrite32 0 0x5084,.iowrite32 0 0x5088,
      .iowrite32 1 0x1004,.iowrite32 0 0x1004,.unmapSg (some 3) 2 .fromDevice,.kfree 3,
      .setPageDirty 7,.putPage 7,.setPageDirty 8,.putPage 8],some .ok) ∧
    DmaBalanced twoPagesRead (probedDmaDev.dmaTransfer twoPagesRead) :=
  ⟨by decide +kernel,dma_resources_balance twoPagesRead rfl⟩

end FpgaGpu.Driver
