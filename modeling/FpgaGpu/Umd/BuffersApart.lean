import FpgaGpu.Umd.Buffers

/-! Live buffers and the VRAM they were given. Only the cursor keeps them apart,
so a context that resets it while buffers are live gives their VRAM away again. -/
namespace FpgaGpu.Umd
open Driver Library

def kernargBase : Nat := 0
def kernargSize : Nat := 4096

def Mem.region (m : Mem) : Region := ⟨m.ddr3Addr.toNat,m.size.toNat⟩

def Process.regions (p : Process) (h : Nat) : Option Region := (p.mems h).map Mem.region

/-- No two live buffers share a byte of VRAM, and none meets the kernarg page. -/
def BuffersApart (p : Process) : Prop :=
  (∀ h h' m m', h ≠ h' → p.mems h = some m → p.mems h' = some m' →
    ∀ x, ¬(m.region.Has x ∧ m'.region.Has x)) ∧
  ∀ h m, p.mems h = some m → ∀ x, ¬(m.region.Has x ∧ (Region.mk kernargBase kernargSize).Has x)

/-- Whether a call gets to `fpgagpu_vram_init`. -/
def ApiCall.resetsVram : ApiCall → Bool
  | .clCreateContext numDevices devices opened reopened malloc =>
      numDevices ≠ 0 && devices && (opened.or reopened).isSome && malloc.isSome
  | _ => false

/-- Buffers of at most 1 GB. -/
def ApiCall.sized : ApiCall → Bool
  | .clCreateBuffer _ _ size _ _ _ => size ≤ vramTotalSize
  | _ => true

def Sized (_ : List ApiEvent) (_ : Process) (call : ApiCall) : Prop := call.sized = true

/-- A context is created only while no buffer is live. -/
def ResetsEmpty (log : List ApiEvent) (p : Process) (call : ApiCall) : Prop :=
  Sized log p call ∧ (call.resetsVram = true → ∀ h, p.mems h = none)

/-- What a call does to the allocator and the live regions. -/
inductive VramRule (p : Process) : ApiCall → Process → Prop where
  | same (call : ApiCall) (p' : Process) :
      p'.vram = p.vram → p'.regions = p.regions → VramRule p call p'
  | reset (call : ApiCall) (p' : Process) :
      call.resetsVram = true → p'.vram = p.vram.init → p'.regions = p.regions →
      VramRule p call p'
  | lost (context : Option Nat) (flags size hostPtr : UInt64) (malloc : Option Nat) (upload : Ret)
      (p' : Process) :
      p'.vram = (p.vram.alloc size).2 → p'.regions = p.regions →
      VramRule p (.clCreateBuffer context flags size hostPtr malloc upload) p'
  | created (context : Option Nat) (flags size hostPtr : UInt64) (m : Nat) (upload : Ret)
      (p' : Process) :
      (p.vram.alloc size).1 ≠ 0 → p'.vram = (p.vram.alloc size).2 →
      p'.regions = Function.update p.regions m
        (some ⟨(p.vram.alloc size).1.toNat,size.toNat⟩) →
      VramRule p (.clCreateBuffer context flags size hostPtr (some m) upload) p'
  | released (call : ApiCall) (h : Nat) (p' : Process) :
      p'.vram = p.vram → p'.regions = Function.update p.regions h none → VramRule p call p'

theorem regions_update (mems : Nat → Option Mem) (k : Nat) (m : Option Mem) :
    (fun h => (Function.update mems k m h).map Mem.region) =
      Function.update (fun h => (mems h).map Mem.region) k (m.map Mem.region) := by
  funext h
  by_cases hk : h = k
  · subst hk
    simp
  · simp [hk]

/-- A change of the reference count leaves the region where it is. -/
theorem regions_refCount {mems : Nat → Option Mem} {k : Nat} {m : Mem} (h : mems k = some m)
    (refCount : UInt32) :
    (fun i => (Function.update mems k (some {m with refCount := refCount}) i).map Mem.region) =
      fun i => (mems i).map Mem.region := by
  rw [regions_update]
  apply (Function.update_eq_self_iff).mpr
  simp [h, Mem.region]

theorem vramRule_of_step {p p' : Process} {call : ApiCall} {es : List ApiEvent}
    (h : p.step call = some (p',es)) : VramRule p call p' := by
  cases call with
  | clCreateContext numDevices devices opened reopened malloc =>
    simp only [Process.step, clCreateContext, Process.fail] at h
    split at h
    next => cases h; exact .same _ _ rfl rfl
    next hargs =>
      split at h
      next => cases h; exact .same _ _ rfl rfl
      next => cases h; exact .same _ _ rfl rfl
      next fd c hopen =>
        split at h
        next =>
          cases h
          refine .reset _ _ ?_ rfl rfl
          simp only [not_or, Bool.not_eq_true', Bool.not_eq_false] at hargs
          simp [ApiCall.resetsVram, hopen, hargs]
        next => contradiction
  | clRetainContext context =>
    simp only [Process.step, clRetainContext, Process.fail] at h
    split at h
    next => cases h; exact .same _ _ rfl rfl
    next c =>
      split at h
      next => contradiction
      next => cases h; exact .same _ _ rfl rfl
  | clReleaseContext context =>
    simp only [Process.step, clReleaseContext, Process.fail] at h
    split at h
    next => cases h; exact .same _ _ rfl rfl
    next c =>
      split at h
      next => contradiction
      next =>
        split_ifs at h
        · cases h; exact .same _ _ rfl rfl
        · cases h; exact .same _ _ rfl rfl
  | clCreateBuffer context flags size hostPtr malloc upload =>
    simp only [Process.step, clCreateBuffer, Process.fail] at h
    split at h
    next => cases h; exact .same _ _ rfl rfl
    next c =>
      split at h
      next => contradiction
      next =>
        split at h
        next => cases h; exact .same _ _ rfl rfl
        next =>
          split at h
          next => cases h; exact .lost _ _ _ _ _ _ _ rfl rfl
          next haddr =>
            split at h
            next => cases h; exact .lost _ _ _ _ _ _ _ rfl rfl
            next m =>
              split_ifs at h
              · cases h; exact .lost _ _ _ _ _ _ _ rfl rfl
              · cases h; exact .created _ _ _ _ _ _ _ haddr rfl (regions_update _ _ _)
              · cases h; exact .created _ _ _ _ _ _ _ haddr rfl (regions_update _ _ _)
  | clReleaseMemObject memobj =>
    simp only [Process.step, clReleaseMemObject, Process.fail] at h
    split at h
    next => cases h; exact .same _ _ rfl rfl
    next m =>
      split at h
      next => contradiction
      next mem hmem =>
        split_ifs at h
        · cases h; exact .released _ m _ rfl (regions_update _ _ _)
        · cases h; exact .same _ _ rfl (regions_refCount hmem _)

/-- The live regions lie packed below the cursor. -/
structure VramInv (p : Process) : Prop where
  heap_ge : vramUserBase ≤ p.vram.heap
  heap_le : p.vram.heap ≤ vramTotalSize
  packed : Packed vramUserBase.toNat p.vram.heap.toNat p.regions

theorem Vram.heap_static : Vram.static.heap = vramUserBase := rfl

theorem Vram.heap_init (v : Vram) : v.init.heap = vramUserBase := rfl

theorem VramInv.of_init {p : Process} (h : processSystem.init p) : VramInv p := by
  obtain ⟨hvram,-,hmems⟩ := h
  have hheap : p.vram.heap = vramUserBase := by rw [hvram, Vram.heap_static]
  have hnone : ∀ h, p.regions h = none := fun h => by simp [Process.regions, hmems h]
  exact ⟨hheap ▸ UInt64.le_refl _,hheap ▸ by decide,Packed.of_none hnone⟩

/-- Every buffer starts within the VRAM, whatever sizes were asked for. -/
structure VramBelow (p : Process) : Prop where
  heap_le : p.vram.heap ≤ vramTotalSize
  start_le : ∀ h r, p.regions h = some r → r.start ≤ vramTotalSize.toNat

theorem VramBelow.step {p p' : Process} {call : ApiCall} {es : List ApiEvent}
    (h : VramBelow p) (hstep : p.step call = some (p',es)) : VramBelow p' := by
  obtain ⟨hheap,hstart⟩ := h
  have hnext : ∀ size, (p.vram.alloc size).2.heap ≤ vramTotalSize := by
    intro size
    rcases p.vram.alloc_eq size with ⟨-,hsame⟩ | ⟨-,hmoved,hle⟩
    · exact hsame ▸ hheap
    · exact hmoved ▸ hle
  cases vramRule_of_step hstep with
  | same call p' hvram hregions => exact ⟨hvram ▸ hheap,hregions ▸ hstart⟩
  | reset call p' hreset hvram hregions =>
    refine ⟨?_,hregions ▸ hstart⟩
    rw [hvram, Vram.heap_init]
    decide
  | lost context flags size hostPtr malloc upload p' hvram hregions =>
    exact ⟨hvram ▸ hnext size,hregions ▸ hstart⟩
  | created context flags size hostPtr m upload p' hne hvram hregions =>
    refine ⟨hvram ▸ hnext size,fun k r hr => ?_⟩
    rw [hregions] at hr
    by_cases hk : k = m
    · subst hk
      obtain rfl : _ = r := by simpa using hr
      rcases p.vram.alloc_eq size with ⟨hzero,-⟩ | ⟨haddr,-⟩
      · exact absurd hzero hne
      · simpa [haddr] using UInt64.le_iff_toNat_le.mp hheap
    · exact hstart k r (by simpa [hk] using hr)
  | released call k p' hvram hregions =>
    refine ⟨hvram ▸ hheap,fun k' r hr => ?_⟩
    rw [hregions] at hr
    by_cases hk : k' = k
    · subst hk
      simp at hr
    · exact hstart k' r (by simpa [hk] using hr)

theorem VramBelow.of_init {p : Process} (h : processSystem.init p) : VramBelow p := by
  obtain ⟨hge,hle,-⟩ := VramInv.of_init h
  refine ⟨hle,fun k r hr => ?_⟩
  simp [Process.regions, h.2.2 k] at hr

theorem VramBelow.ddr3Addr_le {p : Process} (h : VramBelow p) {k : Nat} {m : Mem}
    (hm : p.mems k = some m) : m.ddr3Addr ≤ vramTotalSize := by
  rw [UInt64.le_iff_toNat_le]
  exact h.start_le k m.region (by simp [Process.regions, hm])

/-- What a call asks `fpgagpu_vram_alloc` for. -/
def ApiCall.request : ApiCall → UInt64
  | .clCreateBuffer _ _ size _ _ _ => size
  | _ => 0

theorem VramInv.step {p p' : Process} {call : ApiCall} {es : List ApiEvent} (ih : VramInv p)
    (hsize : call.request.toNat < 2 ^ 63)
    (hempty : call.resetsVram = true → ∀ h, p.mems h = none)
    (hstep : p.step call = some (p',es)) : VramInv p' := by
  obtain ⟨hge,hle,hpacked⟩ := ih
  cases vramRule_of_step hstep with
  | same call p' hvram hregions =>
    rw [← hvram] at hge hle hpacked
    exact ⟨hge,hle,hregions ▸ hpacked⟩
  | reset call p' hreset hvram hregions =>
    have hheap : p'.vram.heap = vramUserBase := by rw [hvram, Vram.heap_init]
    have hnone : ∀ h, p'.regions h = none := fun h => by
      rw [hregions, Process.regions, hempty hreset h, Option.map_none]
    exact ⟨hheap ▸ UInt64.le_refl _,hheap ▸ by decide,Packed.of_none hnone⟩
  | lost context flags size hostPtr malloc upload p' hvram hregions =>
    rcases Vram.alloc_cases hle hsize with ⟨-,hsame⟩ | ⟨-,hroom,hend⟩
    · rw [ApiCall.request, ← hvram] at hsame
      rw [← hsame] at hge hle hpacked
      exact ⟨hge,hle,hregions ▸ hpacked⟩
    · rw [ApiCall.request, ← hvram] at hroom hend
      have hmono : p.vram.heap.toNat ≤ p'.vram.heap.toNat := by omega
      exact ⟨UInt64.le_trans hge (UInt64.le_iff_toNat_le.mpr hmono),hend,
        hregions ▸ hpacked.mono hmono⟩
  | created context flags size hostPtr m upload p' hne hvram hregions =>
    rcases Vram.alloc_cases hle hsize with ⟨hzero,-⟩ | ⟨haddr,hroom,hend⟩
    · exact absurd hzero hne
    · rw [ApiCall.request, ← hvram] at hroom hend
      have hmono : p.vram.heap.toNat ≤ p'.vram.heap.toNat := by omega
      refine ⟨UInt64.le_trans hge (UInt64.le_iff_toNat_le.mpr hmono),hend,?_⟩
      rw [hregions]
      rw [ApiCall.request] at haddr
      rw [haddr]
      exact hpacked.insert m (UInt64.le_iff_toNat_le.mp hge) (Nat.le_refl _) hroom
  | released call h p' hvram hregions =>
    rw [← hvram] at hge hle hpacked
    exact ⟨hge,hle,hregions ▸ hpacked.remove h⟩

theorem ApiCall.request_lt {call : ApiCall} (h : call.sized = true) :
    call.request.toNat < 2 ^ 63 := by
  have htotal : vramTotalSize.toNat = 2 ^ 30 := rfl
  cases call with
  | clCreateBuffer context flags size hostPtr malloc upload =>
    simp only [sized, decide_eq_true_eq, UInt64.le_iff_toNat_le, htotal] at h
    simp only [request]
    omega
  | _ => exact Nat.two_pow_pos 63

theorem vramInv_run {log : List ApiEvent} {p : Process}
    (h : processSystem.RunWith ResetsEmpty log p) : VramInv p := by
  refine h.invariant (I := fun _ p => VramInv p) (fun p hp => .of_init hp) ?_
  intro log p call p' es hrun ih ⟨hsized,hempty⟩ hstep
  exact ih.step (ApiCall.request_lt hsized) hempty hstep

/-- Buffers stay apart where every context is created while no buffer is live. -/
theorem buffers_apart {log : List ApiEvent} {p : Process}
    (h : processSystem.RunWith ResetsEmpty log p) : BuffersApart p := by
  obtain ⟨-,-,hpacked⟩ := vramInv_run h
  have hregion : ∀ {h m}, p.mems h = some m → p.regions h = some m.region := fun hm => by
    simp [Process.regions, hm]
  refine ⟨fun h h' m m' hne hm hm' => hpacked.apart h h' _ _ hne (hregion hm) (hregion hm'),?_⟩
  rintro h m hm x ⟨hx,-,hkernarg⟩
  have hlo := (hpacked.within h _ (hregion hm)).1
  have hbase : vramUserBase.toNat = 65536 := rfl
  have hx := hx.1
  have hkernarg : x < kernargBase + kernargSize := hkernarg
  rw [kernargBase, kernargSize] at hkernarg
  omega

/-- The process at its start. -/
def startedProcess : Process := ⟨Vram.static,fun _ => none,fun _ => none⟩

theorem startedProcess_init : processSystem.init startedProcess :=
  ⟨rfl,fun _ => rfl,fun _ => rfl⟩

/-- Two buffers in one context, the first one released again, and a third one. -/
def oneContext : List ApiCall :=
  [.clCreateBuffer (some 1) 0 4096 0 (some 2) .ok,.clCreateBuffer (some 1) 0 100 0 (some 3) .ok,
    .clReleaseMemObject (some 2),.clCreateBuffer (some 1) 0 4096 0 (some 4) .ok]

/-- The process with its first context. -/
def withContext : Process :=
  {startedProcess with
    vram := startedProcess.vram.init
    contexts := Function.update startedProcess.contexts 1 (some ⟨5,1⟩)}

theorem oneContext_runs : (processSystem.exec withContext oneContext).isSome = true := by
  decide +kernel

theorem buffers_apart_one_context : ∃ log p, processSystem.RunWith ResetsEmpty log p ∧
    (p.mems 3).map Mem.ddr3Addr = some 0x11000 ∧ (p.mems 4).map Mem.ddr3Addr = some 0x12000 ∧
    BuffersApart p := by
  have hinit : processSystem.RunWith ResetsEmpty [] startedProcess := .init startedProcess_init
  have hcontext : processSystem.RunWith ResetsEmpty ([] ++ [.returned .CL_SUCCESS (some 1)])
      withContext :=
    .step (a := .clCreateContext 1 true (some 5) none (some 1)) hinit
      ⟨by rfl,fun _ _ => rfl⟩ rfl
  have hrest : ∀ call ∈ oneContext, call.sized = true ∧ call.resetsVram = false := by decide +kernel
  have hrun := hcontext.continue oneContext (fun call hcall _ _ =>
    ⟨(hrest call hcall).1,fun hreset => by simp [(hrest call hcall).2] at hreset⟩) oneContext_runs
  exact ⟨_,_,hrun,by decide +kernel,by decide +kernel,buffers_apart hrun⟩

/-- A second context is created while the first one has a buffer. -/
def twoContexts : List ApiCall :=
  [.clCreateContext 1 true (some 5) none (some 1),
    .clCreateBuffer (some 1) 0 4096 0 (some 2) .ok,
    .clCreateContext 1 true (some 6) none (some 3),
    .clCreateBuffer (some 3) 0 4096 0 (some 4) .ok]

theorem twoContexts_runs : (processSystem.exec startedProcess twoContexts).isSome = true := by
  decide +kernel

/-- Both live buffers are given the VRAM from 0x10000. -/
theorem second_context_shares_vram : ∃ log p, processSystem.RunWith Sized log p ∧
    (p.mems 2).map Mem.ddr3Addr = some 0x10000 ∧ (p.mems 4).map Mem.ddr3Addr = some 0x10000 ∧
    ¬BuffersApart p := by
  have hinit : processSystem.RunWith Sized [] startedProcess := .init startedProcess_init
  have hsized : ∀ call ∈ twoContexts, call.sized = true := by decide +kernel
  have hrun := hinit.continue twoContexts (fun call hcall _ _ => hsized call hcall)
    twoContexts_runs
  have hfirst : ((processSystem.exec startedProcess twoContexts).get twoContexts_runs).1.mems 2 =
      some ⟨1,0,4096,0,0x10000,1⟩ := by
    decide +kernel
  have hsecond : ((processSystem.exec startedProcess twoContexts).get twoContexts_runs).1.mems 4 =
      some ⟨3,0,4096,0,0x10000,1⟩ := by
    decide +kernel
  refine ⟨_,_,hrun,by rw [hfirst]; rfl,by rw [hsecond]; rfl,fun happart => ?_⟩
  exact happart.1 2 4 _ _ (by decide) hfirst hsecond 0x10000
    ⟨⟨by decide,by decide⟩,by decide,by decide⟩

end FpgaGpu.Umd
