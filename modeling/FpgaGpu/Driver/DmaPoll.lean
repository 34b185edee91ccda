import FpgaGpu.Driver.DmaBalance

/-! The completion wait of DMA_TRANSFER, read by read: on every stream of status
values it ends, and the call succeeds exactly if a read within the limit found the
channel idle. -/
namespace FpgaGpu.Driver
open Library

/-- Bit 0 of what `ioread32` gives for the status register. -/
def statusBusy (value : UInt32) : Bool := value &&& 1 != 0

/-- `while ((ioread32(status) & 1) != 0 && --timeout > 0)` from the `k`-th read on: the
values read and what is left of `timeout`; `none` if `fuel` turns are not enough. -/
def pollLoop (status : Nat → UInt32) (k : Nat) (timeout : Int) : Nat → Option (List UInt32 × Int)
  | 0 => none
  | fuel + 1 =>
      if statusBusy (status k) then
        if 0 < timeout - 1 then
          (pollLoop status (k + 1) (timeout - 1) fuel).map fun r => (status k :: r.1,r.2)
        else some ([status k],timeout - 1)
      else some ([status k],timeout)

/-- A wait of `n` reads, of at most `limit`, that ends with the first idle one. -/
structure PollEnd (busy : Nat → Bool) (limit n : Nat) : Prop where
  pos : 0 < n
  le : n ≤ limit
  before : ∀ k, k + 1 < n → busy k = true
  last : n < limit → busy (n - 1) = false

theorem PollEnd.idle {busy : Nat → Bool} {limit : Nat} (hlimit : 0 < limit)
    (hidle : busy 0 = false) : PollEnd busy limit 1 where
  pos := Nat.one_pos
  le := hlimit
  before k hk := absurd hk (by omega)
  last _ := hidle

theorem PollEnd.not_lt {busy : Nat → Bool} {limit n n' : Nat} (h : PollEnd busy limit n)
    (h' : PollEnd busy limit n') : ¬n < n' := by
  intro hlt
  have hpos := h.pos
  have hidle := h.last (hlt.trans_le h'.le)
  have hbusy := h'.before (n - 1) (by omega)
  exact absurd (hidle.symm.trans hbusy) (by decide)

/-- The values of the register fix the number of reads. -/
theorem PollEnd.unique {busy : Nat → Bool} {limit n n' : Nat} (h : PollEnd busy limit n)
    (h' : PollEnd busy limit n') : n = n' :=
  Nat.le_antisymm (Nat.not_lt.mp (h'.not_lt h)) (Nat.not_lt.mp (h.not_lt h'))

/-- One more read in front. -/
theorem PollEnd.cons {busy : Nat → Bool} {limit n : Nat} (hbusy : busy 0 = true)
    (h : PollEnd (fun k => busy (k + 1)) limit n) : PollEnd busy (limit + 1) (n + 1) where
  pos := Nat.succ_pos n
  le := Nat.succ_le_succ h.le
  before k hk := by
    cases k with
    | zero => exact hbusy
    | succ k => exact h.before k (by omega)
  last hlt := by
    have hpos := h.pos
    have hlast := h.last (Nat.lt_of_succ_lt_succ hlt)
    rwa [Nat.sub_add_cancel hpos] at hlast

/-- The loop ends within `timeout` reads, whatever it reads. -/
theorem pollLoop_ends (status : Nat → UInt32) {k timeout fuel : Nat} (hpos : 0 < timeout)
    (hfuel : timeout ≤ fuel) : ∃ n, PollEnd (fun j => statusBusy (status (k + j))) timeout n ∧
      pollLoop status k timeout fuel = some ((List.range' k n).map status,
        ((pollStatus (fun j => statusBusy (status j)) k timeout : Nat) : Int)) := by
  induction fuel generalizing k timeout with
  | zero => omega
  | succ fuel ih =>
    obtain ⟨timeout,rfl⟩ : ∃ m, timeout = m + 1 := ⟨timeout - 1,by omega⟩
    have hless : ((timeout + 1 : Nat) : Int) - 1 = (timeout : Nat) := by omega
    cases hbusy : statusBusy (status k) with
    | false =>
      refine ⟨1,.idle hpos hbusy,?_⟩
      simp [pollLoop, pollStatus, hbusy]
    | true =>
      by_cases hmore : 0 < timeout
      · obtain ⟨n,hend,hloop⟩ := ih (k := k + 1) hmore (Nat.le_of_succ_le_succ hfuel)
        have hshift : (fun j => statusBusy (status (k + 1 + j))) =
            fun j => statusBusy (status (k + (j + 1))) := by
          funext j
          rw [Nat.add_assoc, Nat.add_comm 1 j]
        rw [hshift] at hend
        refine ⟨n + 1,hend.cons hbusy,?_⟩
        rw [pollLoop, if_pos hbusy, hless, if_pos (Int.natCast_pos.mpr hmore), hloop, pollStatus,
          if_pos hbusy, List.range'_succ]
        rfl
      · obtain rfl : timeout = 0 := by omega
        refine ⟨1,⟨Nat.one_pos,Nat.le_refl 1,fun j hj => absurd hj (by omega),by omega⟩,?_⟩
        simp [pollLoop, pollStatus, hbusy]

/-- The outcome of a call whose reads of the status register give `status`. -/
structure PolledOutcome extends DmaOutcome where
  status : Nat → UInt32
  busy_eq : busy = fun k => statusBusy (status k)

/-- What a call does, its reads of the status register in their places. -/
inductive DmaIo where
  | did (e : DmaEffect)
  | polled (value : UInt32)
  deriving DecidableEq, Repr

def DmaIo.effect : DmaIo → Option DmaEffect
  | .did e => some e
  | .polled _ => none

def DmaIo.read : DmaIo → Option UInt32
  | .did _ => none
  | .polled value => some value

def DmaIo.starts (io : DmaIo) : Bool := io.effect.any DmaEffect.starts
def DmaIo.unmaps (io : DmaIo) : Bool := io.effect.any DmaEffect.unmaps

abbrev PolledResult := DmaDev × List DmaIo × Option Ret

/-- The call from the pin phase to the start of the channel. -/
def DmaDev.toWait (t : Transfer) (o : DmaOutcome) (d : DmaDev) : PhaseResult :=
  (d.pin t o.gup).andThen fun d =>
  (d.mapSgl t o.alloc o.mapped).andThen fun d =>
  d.start t

/-- The call from the pin phase on. -/
def DmaDev.polledTransfer (t : Transfer) (o : PolledOutcome) (fuel : Nat) (d : DmaDev) :
    Option PolledResult :=
  let r := d.toWait t o.toDmaOutcome
  match r.2.2 with
  | some ret => some (r.1,r.2.1.map .did,some ret)
  | none => (pollLoop o.status 0 pollLimit fuel).map fun w =>
      let r' := r.1.teardown t (w.2 = 0)
      (r'.1,r.2.1.map .did ++ w.1.map .polled ++ r'.2.1.map .did,r'.2.2)

/-- `fpgagpu_ioctl` with DMA_TRANSFER. -/
def DmaDev.polledDmaTransfer (o : PolledOutcome) (fuel : Nat) (d : DmaDev) :
    Option PolledResult :=
  match o.param with
  | none => some (d,[],some (.err .EFAULT))
  | some p =>
    match dmaCheck p with
    | .error e => some (d,[],some (.err e))
    | .ok t => d.polledTransfer t o fuel

theorem PhaseResult.andThen_assoc (r : PhaseResult) (f g : DmaDev → PhaseResult) :
    (r.andThen f).andThen g = r.andThen fun d => (f d).andThen g := by
  obtain ⟨d,es,ret⟩ := r
  cases ret with
  | some ret => rfl
  | none =>
    rcases hf : f d with ⟨d',es',ret'⟩
    cases ret' <;> simp [andThen, hf]

theorem DmaDev.transfer_eq (t : Transfer) (o : DmaOutcome) (d : DmaDev) :
    d.transfer t o =
      (d.toWait t o).andThen fun d => d.teardown t (pollStatus o.busy 0 pollLimit = 0) := by
  simp only [transfer, toWait, PhaseResult.andThen_assoc]

/-- All pages of the transfer are pinned, and `dma_map_sg` maps them. -/
structure DmaOutcome.Mapped (o : DmaOutcome) (t : Transfer) : Prop where
  pinned : ∃ pages, o.gup = .got pages ∧ pages.length = t.numPages
  alloc : o.alloc ≠ none
  mapped : o.mapped ≠ []

/-- Short of the wait nothing is started; a call gets there if and only if its pages are
mapped, and has then started the channel and unmapped nothing. -/
theorem DmaDev.toWait_cases (t : Transfer) (o : DmaOutcome) (d : DmaDev) :
    (¬o.Mapped t ∧ ∃ ret, ret ≠ .ok ∧ (d.toWait t o).2.2 = some ret ∧
      (d.toWait t o).2.1.any DmaEffect.starts = false) ∨
    (o.Mapped t ∧ (d.toWait t o).2.2 = none ∧ (d.toWait t o).2.1.any DmaEffect.starts = true ∧
      (d.toWait t o).2.1.any DmaEffect.unmaps = false) := by
  unfold toWait
  cases hgup : o.gup with
  | error e =>
    refine .inl ⟨fun h => ?_,.err e,by simp,rfl,rfl⟩
    obtain ⟨pages,hgot,-⟩ := h.pinned
    simp [hgup] at hgot
  | got pages =>
    by_cases hall : pages.length = t.numPages
    · rw [pin_complete hall, PhaseResult.andThen_next]
      cases halloc : o.alloc with
      | none =>
        refine .inl ⟨fun h => h.alloc halloc,.err .ENOMEM,by simp,rfl,?_⟩
        rw [List.any_append, any_map_false fun _ => rfl]
        exact any_map_false (fun _ => rfl) _
      | some sgl =>
        by_cases hmap : o.mapped = []
        · refine .inl ⟨fun h => h.mapped hmap,.err .ENOMEM,by simp,?_,?_⟩
          · rw [mapSgl, if_pos hmap]
            rfl
          · rw [mapSgl, if_pos hmap, PhaseResult.andThen_ended, List.any_append,
              List.any_append, any_map_false fun _ => rfl, any_map_false fun _ => rfl]
            rfl
        · rw [mapSgl_mapped t sgl hmap, PhaseResult.andThen_next]
          refine .inr ⟨⟨⟨pages,hgup,hall⟩,by simp [halloc],hmap⟩,rfl,?_,?_⟩
          · have hwrite : DmaEffect.iowrite32 1 t.dir.channel.ctrl ∈
                startWrites d.descRingDmaAddr t.dir.channel := by simp [startWrites]
            apply List.any_eq_true.mpr
            refine ⟨_,?_,starts_ctrl t.dir⟩
            exact List.mem_append_right _ (List.mem_append_right _ hwrite)
          · rw [List.any_append, any_map_false fun _ => rfl]
            rfl
    · rw [pin_incomplete hall, PhaseResult.andThen_ended]
      refine .inl ⟨fun h => ?_,.err .EFAULT,by simp,rfl,?_⟩
      · obtain ⟨pages',hgot,hcount⟩ := h.pinned
        obtain rfl := Gup.got.inj (hgup.symm.trans hgot)
        exact hall hcount
      · rw [List.any_append, any_map_false fun _ => rfl, any_map_false fun _ => rfl]
        rfl

/-- What the wait makes of a call. -/
structure PollExact (o : PolledOutcome) (io : List DmaIo) (ret : Ret) : Prop where
  /-- The reads are the first ones of the register, and the last is the first idle one. -/
  started : io.any DmaIo.starts = true →
    ∃ n, PollEnd (fun k => statusBusy (o.status k)) pollLimit n ∧
      io.filterMap DmaIo.read = (List.range n).map o.status
  ok_iff : io.any DmaIo.starts = true →
    (ret = .ok ↔ ∃ k < pollLimit, statusBusy (o.status k) = false)
  timed_out : io.any DmaIo.starts = true →
    (ret = .err .ETIMEDOUT ↔ ∀ k < pollLimit, statusBusy (o.status k) = true)
  /-- No read follows the stop, and no unmap comes before it. -/
  stopped : io.any DmaIo.starts = true → ∃ pre e post, io = pre ++ .did e :: post ∧
    e.stops = true ∧ post.filterMap DmaIo.read = [] ∧ pre.any DmaIo.unmaps = false ∧
    post.any DmaIo.unmaps = true
  not_started : io.any DmaIo.starts = false → io.filterMap DmaIo.read = [] ∧ ret ≠ .ok

@[simp] theorem filterMap_read_did (es : List DmaEffect) :
    (es.map DmaIo.did).filterMap DmaIo.read = [] :=
  filterMap_map_none (fun _ => rfl) es

@[simp] theorem filterMap_read_polled (values : List UInt32) :
    (values.map DmaIo.polled).filterMap DmaIo.read = values := by
  simp [List.filterMap_map, DmaIo.read, Function.comp_def]

@[simp] theorem filterMap_effect_did (es : List DmaEffect) :
    (es.map DmaIo.did).filterMap DmaIo.effect = es := by
  simp [List.filterMap_map, DmaIo.effect, Function.comp_def]

@[simp] theorem filterMap_effect_polled (values : List UInt32) :
    (values.map DmaIo.polled).filterMap DmaIo.effect = [] := by
  simp [List.filterMap_map, DmaIo.effect, Function.comp_def]

@[simp] theorem any_starts_did (es : List DmaEffect) :
    (es.map DmaIo.did).any DmaIo.starts = es.any DmaEffect.starts := by
  simp [List.any_map, DmaIo.starts, DmaIo.effect, Function.comp_def]

@[simp] theorem any_unmaps_did (es : List DmaEffect) :
    (es.map DmaIo.did).any DmaIo.unmaps = es.any DmaEffect.unmaps := by
  simp [List.any_map, DmaIo.unmaps, DmaIo.effect, Function.comp_def]

@[simp] theorem any_unmaps_polled (values : List UInt32) :
    (values.map DmaIo.polled).any DmaIo.unmaps = false := by
  simp [List.any_map, DmaIo.unmaps, DmaIo.effect, Function.comp_def]

/-- A call that ends short of the wait. -/
theorem PollExact.of_quiet {o : PolledOutcome} {es : List DmaEffect} {ret : Ret}
    (hstarts : es.any DmaEffect.starts = false) (hret : ret ≠ .ok) :
    PollExact o (es.map .did) ret := by
  rw [← any_starts_did] at hstarts
  constructor
  case not_started => exact fun _ => ⟨filterMap_read_did es,hret⟩
  all_goals
    intro h
    exact absurd h (by simp [hstarts])

/-- Of a wait that has ended, `timeout` tells whether the channel was found idle. -/
theorem pollStatus_idle (busy : Nat → Bool) (limit : Nat) :
    pollStatus busy 0 limit ≠ 0 ↔ ∃ k < limit, busy k = false := by
  rw [ne_eq, pollStatus_eq_zero]
  simp

/-- A call that waits, with `n` reads between the two halves of what it does. -/
theorem PollExact.of_wait {o : PolledOutcome} {n : Nat} {es : List DmaEffect}
    {stop unmap : DmaEffect} (rest : List DmaEffect)
    (hend : PollEnd (fun k => statusBusy (o.status k)) pollLimit n)
    (hstarts : es.any DmaEffect.starts = true) (hunmaps : es.any DmaEffect.unmaps = false)
    (hstop : stop.stops = true) (hunmap : unmap.unmaps = true) :
    PollExact o (es.map .did ++ ((List.range n).map o.status).map .polled ++
        (stop :: unmap :: rest).map .did)
      (if pollStatus (fun k => statusBusy (o.status k)) 0 pollLimit = 0 then .err .ETIMEDOUT
        else .ok) where
  started _ := by
    refine ⟨n,hend,?_⟩
    rw [List.filterMap_append, List.filterMap_append, filterMap_read_did, filterMap_read_did,
      filterMap_read_polled, List.nil_append, List.append_nil]
  ok_iff _ := by
    rw [← pollStatus_idle]
    split
    next hzero => simp [hzero]
    next hleft => simp [hleft]
  timed_out _ := by
    have htimeout := pollStatus_eq_zero (fun k => statusBusy (o.status k)) 0 pollLimit
    simp only [Nat.zero_add] at htimeout
    rw [← htimeout]
    split
    next hzero => simp [hzero]
    next hleft => simp [hleft]
  stopped _ := by
    refine ⟨_,stop,(unmap :: rest).map .did,rfl,hstop,filterMap_read_did _,?_,?_⟩
    · rw [List.any_append, any_unmaps_did, hunmaps, any_unmaps_polled]
      rfl
    · rw [any_unmaps_did, List.any_cons, hunmap]
      rfl
  not_started h := by
    rw [List.any_append, List.any_append, any_starts_did, hstarts] at h
    contradiction

theorem DmaDev.teardown_eq (d : DmaDev) (t : Transfer) (timeout : Bool) :
    d.teardown t timeout = ((d.teardown t timeout).1,
      .iowrite32 0 t.dir.channel.ctrl :: .unmapSg (d.sgl.map Sgl.id) d.numPinnedPages t.dir ::
        (d.sgl.toList.map (fun sgl => .kfree sgl.id) ++ d.pages.flatMap (releasePage t.dir)),
      some (if timeout then .err .ETIMEDOUT else .ok)) := rfl

/-- With fuel for every read it is allowed a call ends, like the call that is modelled
without its reads; it starts the channel where its pages are mapped, and its wait is
exact. -/
theorem DmaDev.polledTransfer_exact (t : Transfer) (o : PolledOutcome) (d : DmaDev) {fuel : Nat}
    (hfuel : pollLimit ≤ fuel) : ∃ d' io ret, d.polledTransfer t o fuel = some (d',io,some ret) ∧
      d.transfer t o.toDmaOutcome = (d',io.filterMap DmaIo.effect,some ret) ∧
      (io.any DmaIo.starts = true ↔ o.Mapped t) ∧ PollExact o io ret := by
  have hcases := d.toWait_cases t o.toDmaOutcome
  rw [transfer_eq, polledTransfer]
  generalize d.toWait t o.toDmaOutcome = waiting at hcases ⊢
  obtain ⟨d',es,end'⟩ := waiting
  rcases hcases with ⟨hnot,ret,hne,hret,hquiet⟩ | ⟨hmapped,hret,hstarts,hunmaps⟩
  · obtain rfl : end' = some ret := hret
    have hstarts : (es.map DmaIo.did).any DmaIo.starts = false := by rwa [any_starts_did]
    refine ⟨d',es.map .did,ret,rfl,?_,?_,.of_quiet hquiet hne⟩
    · rw [PhaseResult.andThen_ended, filterMap_effect_did]
    · simp [hstarts, hnot]
  · obtain rfl : end' = none := hret
    obtain ⟨n,hend,hloop⟩ := pollLoop_ends o.status (k := 0) (by decide : 0 < pollLimit) hfuel
    simp only [Nat.zero_add] at hend
    rw [← List.range_eq_range'] at hloop
    have hstop : (DmaEffect.iowrite32 0 t.dir.channel.ctrl).stops = true := by
      cases t.dir <;> rfl
    have hunmap : (DmaEffect.unmapSg (d'.sgl.map Sgl.id) d'.numPinnedPages t.dir).unmaps = true :=
      rfl
    have hexact := PollExact.of_wait ((d'.sgl.toList.map fun sgl => .kfree sgl.id) ++
      d'.pages.flatMap (releasePage t.dir)) hend hstarts hunmaps hstop hunmap
    have htorn := d'.teardown_eq t
      (pollStatus (fun k => statusBusy (o.status k)) 0 pollLimit = 0)
    simp only [decide_eq_true_eq] at htorn
    refine ⟨(d'.teardown t (pollStatus (fun k => statusBusy (o.status k)) 0 pollLimit = 0)).1,
      _,_,?_,?_,?_,hexact⟩
    · simp only [hloop, Option.map_some, Int.natCast_eq_zero]
      rw [htorn]
    · rw [o.busy_eq, PhaseResult.andThen_next, htorn]
      simp only [List.filterMap_append, filterMap_effect_did, filterMap_effect_polled,
        List.append_nil]
    · rw [List.any_append, List.any_append, any_starts_did, hstarts]
      exact iff_of_true rfl hmapped

/-- A request that is accepted, and whose pages are mapped. -/
def DmaOutcome.Reaches (o : DmaOutcome) : Prop :=
  ∃ p t, o.param = some p ∧ dmaCheck p = .ok t ∧ o.Mapped t

/-- The channel is started where the request gets that far, and the completion wait is
then exact on every stream of status values. -/
theorem dma_poll_exact (o : PolledOutcome) (d : DmaDev) {fuel : Nat} (hfuel : pollLimit ≤ fuel) :
    ∃ d' io ret, d.polledDmaTransfer o fuel = some (d',io,some ret) ∧
      d.dmaTransfer o.toDmaOutcome = (d',io.filterMap DmaIo.effect,some ret) ∧
      (io.any DmaIo.starts = true ↔ o.Reaches) ∧ PollExact o io ret := by
  unfold DmaDev.polledDmaTransfer DmaDev.dmaTransfer
  have hrefused (e : Errno) : PollExact o (([] : List DmaEffect).map .did) (.err e) :=
    .of_quiet rfl nofun
  cases hparam : o.param with
  | none =>
    refine ⟨d,[],.err .EFAULT,rfl,rfl,iff_of_false nofun ?_,hrefused _⟩
    rintro ⟨p,t,hp,-⟩
    simp [hparam] at hp
  | some p =>
    simp only
    cases hcheck : dmaCheck p with
    | error e =>
      refine ⟨d,[],.err e,rfl,rfl,iff_of_false nofun ?_,hrefused _⟩
      rintro ⟨p',t,hp,ht,-⟩
      obtain rfl := Option.some.inj (hparam.symm.trans hp)
      simp [hcheck] at ht
    | ok t =>
      obtain ⟨d',io,ret,hcall,hsame,hstarts,hexact⟩ := d.polledTransfer_exact t o hfuel
      refine ⟨d',io,ret,hcall,hsame,hstarts.trans ⟨fun h => ⟨p,t,hparam,hcheck,h⟩,?_⟩,hexact⟩
      rintro ⟨p',t',hp,ht,hmapped⟩
      obtain rfl := Option.some.inj (hparam.symm.trans hp)
      obtain rfl := Except.ok.inj (hcheck.symm.trans ht)
      exact hmapped

/-- Five bytes from the device; the third read finds the channel idle. -/
def thirdReadIdle : PolledOutcome where
  toDmaOutcome := twoPagesRead
  status k := if k < 2 then 1 else 0
  busy_eq := by
    funext k
    change decide (k < 2) = statusBusy (if k < 2 then 1 else 0)
    by_cases hk : k < 2
    · rw [if_pos hk, decide_eq_true hk]
      rfl
    · rw [if_neg hk, decide_eq_false hk]
      rfl

theorem thirdReadIdle_end : PollEnd (fun k => statusBusy (thirdReadIdle.status k)) pollLimit 3 where
  pos := by decide
  le := by decide
  before k hk := by
    rcases (by omega : k = 0 ∨ k = 1) with rfl | rfl <;> rfl
  last _ := rfl

theorem dma_poll_exact_third_read : ∃ d' io,
    probedDmaDev.polledDmaTransfer thirdReadIdle pollLimit = some (d',io,some .ok) ∧
      io.any DmaIo.starts = true ∧ io.filterMap DmaIo.read = [1,1,0] ∧
      PollExact thirdReadIdle io .ok := by
  obtain ⟨d',io,ret,hcall,-,hstarts,hexact⟩ :=
    dma_poll_exact thirdReadIdle probedDmaDev (Nat.le_refl pollLimit)
  have hstarted := hstarts.mpr ⟨⟨1,5,0x10000,4094⟩,_,rfl,rfl,⟨[7,8],rfl,rfl⟩,nofun,nofun⟩
  obtain rfl := (hexact.ok_iff hstarted).mpr ⟨2,by decide,rfl⟩
  obtain ⟨n,hend,hreads⟩ := hexact.started hstarted
  obtain rfl := hend.unique thirdReadIdle_end
  exact ⟨d',io,hcall,hstarted,hreads,hexact⟩

end FpgaGpu.Driver
