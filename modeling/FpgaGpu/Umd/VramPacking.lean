import FpgaGpu.Library.Bump
import FpgaGpu.Library.System
import FpgaGpu.Umd.Vram

/-! The VRAM allocator against the one with integers: where the arithmetic of the
cursor wraps, and that it packs exactly where it does not. -/
namespace FpgaGpu.Umd
open Library

inductive VramCall where
  | alloc (size : UInt64)
  | free (addr size : UInt64)

/-- A request, and the address it was given; 0 if it was refused. -/
structure VramAnswer where
  size : UInt64
  addr : UInt64
  deriving DecidableEq, Repr

/-- The allocator from the start of the process, or from `fpgagpu_vram_init` on. -/
def vramSystem : System Vram VramCall VramAnswer where
  init v := v = .static ∨ ∃ w, v = Vram.init w
  step v
    | .alloc size => some ((v.alloc size).2,[⟨size,(v.alloc size).1⟩])
    | .free addr size => some (v.free addr size,[])

theorem vramPage_pos : 0 < 4096 := Nat.succ_pos _

/-- Pages from 64 KB up to 1 GB. -/
def vramBump : Bump := ⟨0x10000,0x40000000,4096,vramPage_pos⟩

theorem vramBump_round (n : Nat) : vramBump.round n = (n + 4095) / 4096 * 4096 := rfl

/-- The end of the rounded request is below 2^64. -/
def VramCall.NoWrap (v : Vram) : VramCall → Prop
  | .alloc size => v.currentHeapPtr.toNat + vramBump.round size.toNat < 2 ^ 64
  | .free _ _ => True

/-- The cursor is one that the next request starts from, and lies in the VRAM. -/
structure Vram.Settled (v : Vram) : Prop where
  ready : v.ready.currentHeapPtr = v.currentHeapPtr
  base_le : vramBump.base ≤ v.currentHeapPtr.toNat
  le_limit : v.currentHeapPtr.toNat ≤ vramBump.limit

theorem Vram.Settled.of_init {v : Vram} (h : vramSystem.init v) : v.Settled := by
  have hbase : vramBump.base ≤ vramUserBase.toNat := by decide
  have hlimit : vramUserBase.toNat ≤ vramBump.limit := by decide
  rcases h with rfl | ⟨w,rfl⟩
  · exact ⟨rfl,hbase,hlimit⟩
  · exact ⟨rfl,hbase,hlimit⟩

theorem Vram.ready_of_initialized {v : Vram} (h : v.vramInitialized = true) : v.ready = v := by
  simp [ready, h]

theorem Vram.Settled.of_ready {v : Vram} (h : v.Settled) : v.ready.Settled := by
  constructor
  · rw [ready_of_initialized v.ready_vramInitialized]
  · rw [h.ready]
    exact h.base_le
  · rw [h.ready]
    exact h.le_limit

theorem alignedSize_toNat_mod (size : UInt64) :
    (alignedSize size).toNat = (size.toNat + 4095) % 2 ^ 64 / 4096 * 4096 := by
  have hadd : size + 4096 - 1 = size + 4095 := by
    rw [UInt64.sub_eq_add_neg, UInt64.add_assoc]
    rfl
  rw [alignedSize, and_pageMask_toNat, hadd, UInt64.toNat_add]
  rfl

section Alloc
variable {v : Vram} {size : UInt64}

/-- A request whose end is beyond the VRAM, as the comparison sees it. -/
theorem Vram.Settled.alloc_refused (hv : v.Settled) (hsize : size ≠ 0)
    (h : vramBump.limit <
      (v.currentHeapPtr.toNat + (alignedSize size).toNat) % 2 ^ 64) :
    v.alloc size = (0,v.ready) := by
  have hfull : v.ready.currentHeapPtr + alignedSize size > vramTotalSize := by
    rw [gt_iff_lt, UInt64.lt_iff_toNat_lt, UInt64.toNat_add, hv.ready]
    exact h
  simp only [alloc, if_neg hsize, if_pos hfull]

theorem Vram.Settled.alloc_granted (hv : v.Settled) (hsize : size ≠ 0)
    (h : (v.currentHeapPtr.toNat + (alignedSize size).toNat) % 2 ^ 64 ≤ vramBump.limit) :
    v.alloc size = (v.currentHeapPtr,⟨v.currentHeapPtr + alignedSize size,true⟩) := by
  have hroom : ¬v.ready.currentHeapPtr + alignedSize size > vramTotalSize := by
    rw [gt_iff_lt, UInt64.lt_iff_toNat_lt, UInt64.toNat_add, hv.ready, Nat.not_lt]
    exact h
  unfold alloc
  rw [if_neg hsize]
  simp only [if_neg hroom]
  rw [hv.ready, v.ready_vramInitialized]

theorem Vram.Settled.addr_ne_zero (hv : v.Settled) : v.currentHeapPtr ≠ 0 := by
  intro hzero
  have hbase := hv.base_le
  rw [hzero] at hbase
  contradiction

/-- While nothing wraps the allocator does what the integers say. -/
theorem Vram.Settled.alloc_exact (hv : v.Settled) (h : (VramCall.alloc size).NoWrap v) :
    if 1 ≤ size.toNat ∧ v.currentHeapPtr.toNat + vramBump.round size.toNat ≤ vramBump.limit then
      (v.alloc size).1 = v.currentHeapPtr ∧ (v.alloc size).2.vramInitialized = true ∧
        (v.alloc size).2.currentHeapPtr.toNat =
          v.currentHeapPtr.toNat + vramBump.round size.toNat
    else (v.alloc size).1 = 0 ∧ (v.alloc size).2.Settled ∧
      (v.alloc size).2.currentHeapPtr = v.currentHeapPtr := by
  have hwrap : v.currentHeapPtr.toNat + vramBump.round size.toNat < 2 ^ 64 := h
  rw [vramBump_round] at hwrap ⊢
  have hround : (alignedSize size).toNat = (size.toNat + 4095) / 4096 * 4096 :=
    alignedSize_toNat (by omega)
  have hsum : (v.currentHeapPtr.toNat + (alignedSize size).toNat) % 2 ^ 64 =
      v.currentHeapPtr.toNat + (size.toNat + 4095) / 4096 * 4096 := by
    rw [hround, Nat.mod_eq_of_lt hwrap]
  split
  next hfits =>
    have hsize : size ≠ 0 := by
      rintro rfl
      exact absurd hfits.1 (by decide)
    rw [hv.alloc_granted hsize (by rw [hsum]; exact hfits.2)]
    refine ⟨rfl,rfl,?_⟩
    rw [UInt64.toNat_add, hsum]
  next hnot =>
    by_cases hsize : size = 0
    · subst hsize
      exact ⟨rfl,hv,rfl⟩
    · have hpos : 1 ≤ size.toNat := by
        rw [Nat.one_le_iff_ne_zero]
        exact fun hzero => hsize (UInt64.toNat_inj.mp hzero)
      have hfull : vramBump.limit < v.currentHeapPtr.toNat + (size.toNat + 4095) / 4096 * 4096 :=
        Nat.not_le.mp fun hle => hnot ⟨hpos,hle⟩
      rw [hv.alloc_refused hsize (by rw [hsum]; exact hfull)]
      exact ⟨rfl,hv.of_ready,hv.ready⟩

theorem Vram.Settled.alloc (hv : v.Settled) (h : (VramCall.alloc size).NoWrap v) :
    (v.alloc size).2.Settled ∧ v.currentHeapPtr ≤ (v.alloc size).2.currentHeapPtr := by
  have hexact := hv.alloc_exact h
  rw [UInt64.le_iff_toNat_le]
  split at hexact
  next hfits =>
    obtain ⟨-,hinit,hnext⟩ := hexact
    have hle : v.currentHeapPtr.toNat ≤ (v.alloc size).2.currentHeapPtr.toNat :=
      hnext ▸ Nat.le_add_right _ _
    refine ⟨⟨by rw [ready_of_initialized hinit],?_,?_⟩,hle⟩
    · exact Nat.le_trans hv.base_le hle
    · rw [hnext]
      exact hfits.2
  next =>
    obtain ⟨-,hsettled,hsame⟩ := hexact
    exact ⟨hsettled,by rw [hsame]⟩

/-- A request for more than what remains is refused without effect exactly if its
end does not wrap. A wrapped end lies at the cursor or below it, and passes. -/
theorem Vram.Settled.refused_iff (hv : v.Settled)
    (hlarge : vramBump.limit - v.currentHeapPtr.toNat < size.toNat) :
    (v.alloc size).1 = 0 ∧ (v.alloc size).2.currentHeapPtr = v.currentHeapPtr ↔
      (VramCall.alloc size).NoWrap v := by
  constructor
  · rintro ⟨hrefused,-⟩
    by_contra hwrap
    have hlimit : vramBump.limit = 2 ^ 30 := rfl
    have hle := hv.le_limit
    have hlt := size.toNat_lt
    have hsize : size ≠ 0 := by
      rintro rfl
      exact absurd hlarge (Nat.not_lt_zero _)
    have hend : 2 ^ 64 ≤ v.currentHeapPtr.toNat + (size.toNat + 4095) / 4096 * 4096 :=
      Nat.not_lt.mp hwrap
    have hpasses : (v.currentHeapPtr.toNat + (alignedSize size).toNat) % 2 ^ 64 ≤
        vramBump.limit := by
      rw [alignedSize_toNat_mod]
      omega
    rw [hv.alloc_granted hsize hpasses] at hrefused
    exact hv.addr_ne_zero hrefused
  · intro hwrap
    have hexact := hv.alloc_exact hwrap
    have hle := vramBump.le_round size.toNat
    rw [if_neg (by omega)] at hexact
    exact ⟨hexact.1,hexact.2.2⟩

end Alloc

theorem settled_run {log : List VramAnswer} {v : Vram}
    (h : vramSystem.RunWith (fun _ v c => c.NoWrap v) log v) : v.Settled := by
  refine h.invariant (I := fun _ v => v.Settled) (fun v hv => .of_init hv) ?_
  intro log v c v' es _ ih hok hstep
  cases c with
  | alloc size =>
    obtain ⟨rfl,-⟩ := Prod.mk.inj (Option.some.inj hstep)
    exact (ih.alloc hok).1
  | free addr size =>
    obtain ⟨rfl,-⟩ := Prod.mk.inj (Option.some.inj hstep)
    exact ih

/-- As long as no request has wrapped the cursor stays in the VRAM and only moves up,
and the next request for more than what remains is refused without effect exactly if
it does not wrap. -/
theorem oversized_refused_iff {log : List VramAnswer} {v : Vram}
    (h : vramSystem.RunWith (fun _ v c => c.NoWrap v) log v) :
    vramUserBase ≤ v.currentHeapPtr ∧ v.currentHeapPtr ≤ vramTotalSize ∧
    (∀ size, (VramCall.alloc size).NoWrap v →
      v.currentHeapPtr ≤ (v.alloc size).2.currentHeapPtr) ∧
    ∀ size : UInt64, vramTotalSize.toNat - v.currentHeapPtr.toNat < size.toNat →
      ((v.alloc size).1 = 0 ∧ (v.alloc size).2.currentHeapPtr = v.currentHeapPtr ↔
        (VramCall.alloc size).NoWrap v) := by
  have hv := settled_run h
  refine ⟨UInt64.le_iff_toNat_le.mpr hv.base_le,UInt64.le_iff_toNat_le.mpr hv.le_limit,?_,?_⟩
  · intro size hok
    exact (hv.alloc hok).2
  · intro size hlarge
    exact hv.refused_iff hlarge

/-- The allocator after one request for a page. -/
def onePage : Vram := ⟨0x11000,true⟩

theorem onePage_run :
    vramSystem.RunWith (fun _ v c => c.NoWrap v) [⟨4096,0x10000⟩] onePage := by
  have hinit : vramSystem.RunWith (fun _ v c => c.NoWrap v) [] Vram.static := .init (Or.inl rfl)
  have hok : (VramCall.alloc 4096).NoWrap Vram.static := by
    unfold VramCall.NoWrap
    decide +kernel
  exact hinit.step hok rfl

theorem oversized_refused_one_page :
    vramUserBase ≤ onePage.currentHeapPtr ∧ onePage.currentHeapPtr ≤ vramTotalSize ∧
    (∀ size, (VramCall.alloc size).NoWrap onePage →
      onePage.currentHeapPtr ≤ (onePage.alloc size).2.currentHeapPtr) ∧
    ∀ size : UInt64, vramTotalSize.toNat - onePage.currentHeapPtr.toNat < size.toNat →
      ((onePage.alloc size).1 = 0 ∧
          (onePage.alloc size).2.currentHeapPtr = onePage.currentHeapPtr ↔
        (VramCall.alloc size).NoWrap onePage) :=
  oversized_refused_iff onePage_run

/-- A request for 8 KB less than 2^64 is granted, and moves the cursor back to a
place before the VRAM for buffers. -/
theorem wrapped_request_granted : ∃ log v, vramSystem.Run log v ∧
    vramTotalSize.toNat - v.currentHeapPtr.toNat < (0xFFFFFFFFFFFFE000 : UInt64).toNat ∧
    (v.alloc 0xFFFFFFFFFFFFE000).1 = 0x11000 ∧
    (v.alloc 0xFFFFFFFFFFFFE000).2.currentHeapPtr = 0xF000 ∧
    (v.alloc 0xFFFFFFFFFFFFE000).2.currentHeapPtr < vramUserBase :=
  ⟨_,_,onePage_run.run,by decide,by decide,by decide,by decide⟩

/-- The size of a request. -/
def VramCall.request : VramCall → Nat
  | .alloc size => size.toNat
  | .free _ _ => 0

def VramAnswer.request (a : VramAnswer) : Nat := a.size.toNat

def VramAnswer.result (a : VramAnswer) : Option Nat :=
  if a.addr = 0 then none else some a.addr.toNat

/-- The granted requests of a log, with their addresses. -/
def grantedIn (log : List VramAnswer) : List (Nat × Nat) :=
  log.filterMap fun a => a.result.map fun addr => (addr,a.request)

/-- The answers are those of the integers; the granted ranges lie one behind the
other, each from the start of a page on, as if nothing had been refused. -/
structure PacksExactly (log : List VramAnswer) : Prop where
  answers : log.map VramAnswer.result = vramBump.results 0 (log.map VramAnswer.request)
  aligned : ∀ g ∈ grantedIn log, 0 < g.1 ∧ g.1 % 4096 = 0
  contiguous : vramBump.Contiguous vramBump.base (grantedIn log)
  untraced : vramBump.results 0 ((grantedIn log).map Prod.snd) =
    (grantedIn log).map fun g => some g.1

/-- The log is that of the integers, and the cursor stands behind what they granted. -/
structure PackInv (log : List VramAnswer) (v : Vram) : Prop where
  settled : v.Settled
  cursor : v.currentHeapPtr.toNat =
    vramBump.base + vramBump.used 0 (log.map VramAnswer.request)
  answers : log.map VramAnswer.result = vramBump.results 0 (log.map VramAnswer.request)
  granted : grantedIn log = vramBump.granted 0 (log.map VramAnswer.request)

theorem PackInv.alloc {log : List VramAnswer} {v : Vram} (ih : PackInv log v) {size : UInt64}
    (hsize : size.toNat ≤ 2 ^ 62) :
    PackInv (log ++ [⟨size,(v.alloc size).1⟩]) (v.alloc size).2 := by
  have hlimit : vramBump.limit = 2 ^ 30 := rfl
  have hle := ih.settled.le_limit
  have hround := vramBump.round_lt size.toNat
  have hunit : vramBump.unit = 4096 := rfl
  have hok : (VramCall.alloc size).NoWrap v := by
    show v.currentHeapPtr.toNat + vramBump.round size.toNat < 2 ^ 64
    omega
  have hexact := ih.settled.alloc_exact hok
  have hsettled := (ih.settled.alloc hok).1
  have hfits : vramBump.Fits (vramBump.used 0 (log.map VramAnswer.request)) size.toNat ↔
      1 ≤ size.toNat ∧ v.currentHeapPtr.toNat + vramBump.round size.toNat ≤ vramBump.limit := by
    rw [ih.cursor]
    rfl
  simp only [← hfits] at hexact
  split at hexact
  next hroom =>
    obtain ⟨haddr,-,hnext⟩ := hexact
    have hne : v.currentHeapPtr ≠ 0 := ih.settled.addr_ne_zero
    refine ⟨hsettled,?_,?_,?_⟩
    · rw [hnext, ih.cursor, List.map_append, vramBump.used_append]
      simp [Bump.used, VramAnswer.request, hroom, Nat.add_assoc]
    · rw [List.map_append, List.map_append, vramBump.results_append, ih.answers, haddr]
      simp [Bump.results, VramAnswer.request, VramAnswer.result, hroom, hne, ih.cursor]
    · rw [List.map_append, vramBump.granted_append, ← ih.granted, haddr]
      simp [grantedIn, Bump.granted, VramAnswer.request, VramAnswer.result, hroom, hne, ih.cursor]
  next hroom =>
    obtain ⟨haddr,-,hnext⟩ := hexact
    refine ⟨hsettled,?_,?_,?_⟩
    · rw [hnext, ih.cursor, List.map_append, vramBump.used_append]
      simp [Bump.used, VramAnswer.request, hroom]
    · rw [List.map_append, List.map_append, vramBump.results_append, ih.answers, haddr]
      simp [Bump.results, VramAnswer.request, VramAnswer.result, hroom]
    · rw [List.map_append, vramBump.granted_append, ← ih.granted, haddr]
      simp [grantedIn, Bump.granted, VramAnswer.request, VramAnswer.result, hroom]

theorem packInv_run {log : List VramAnswer} {v : Vram}
    (h : vramSystem.RunWith (fun _ _ c => c.request ≤ 2 ^ 62) log v) : PackInv log v := by
  apply h.invariant (I := PackInv)
  · intro v hv
    refine ⟨.of_init hv,?_,rfl,rfl⟩
    rcases hv with rfl | ⟨w,rfl⟩ <;> rfl
  · intro log v c v' es _ ih hok hstep
    cases c with
    | alloc size =>
      obtain ⟨rfl,rfl⟩ := Prod.mk.inj (Option.some.inj hstep)
      exact ih.alloc hok
    | free addr size =>
      obtain ⟨rfl,rfl⟩ := Prod.mk.inj (Option.some.inj hstep)
      rw [List.append_nil]
      exact ih

/-- Any sequence of requests of up to 2^62 bytes and of frees. -/
theorem allocator_packs {log : List VramAnswer} {v : Vram}
    (h : vramSystem.RunWith (fun _ _ c => c.request ≤ 2 ^ 62) log v) : PacksExactly log := by
  obtain ⟨-,-,hanswers,hgranted⟩ := packInv_run h
  have hbase : vramBump.base = 65536 := rfl
  constructor
  · exact hanswers
  · intro g hg
    rw [hgranted] at hg
    obtain ⟨hle,haligned⟩ := vramBump.granted_aligned (Nat.zero_mod _) hg
    have hunit : (g.1 - vramBump.base) % 4096 = 0 := haligned
    omega
  · rw [hgranted]
    exact vramBump.granted_contiguous 0 _
  · rw [hgranted]
    exact vramBump.results_granted 0 _

/-- Requests that fill the VRAM to its last page, with refused ones between them. -/
def fillsVram : List VramCall :=
  [.alloc 100,.alloc 0x40000000,.free 0x10000 100,.alloc 0,.alloc 0x3FFEF000,.alloc 1]

theorem fillsVram_runs : (vramSystem.exec (Vram.init .static) fillsVram).isSome = true := by
  decide +kernel

theorem allocator_packs_full : ∃ log v,
    vramSystem.RunWith (fun _ _ c => c.request ≤ 2 ^ 62) log v ∧
    log.map VramAnswer.result = [some 0x10000,none,none,some 0x11000,none] ∧
    PacksExactly log := by
  have hinit : vramSystem.RunWith (fun _ _ c => c.request ≤ 2 ^ 62) [] (Vram.init .static) :=
    .init (.inr ⟨_,rfl⟩)
  have hrequests : ∀ c ∈ fillsVram, c.request ≤ 2 ^ 62 := by decide
  have hrun := hinit.continue fillsVram (fun c hc _ _ => hrequests c hc) fillsVram_runs
  exact ⟨_,_,hrun,by decide +kernel,allocator_packs hrun⟩

end FpgaGpu.Umd
