import FpgaGpu.Umd.BuffersApart

/-! What a failing `clCreateBuffer` leaves behind in the VRAM allocator, which gives
nothing back before the next context. -/
namespace FpgaGpu.Umd
open Driver Library

/-- The test that refuses a request. -/
def Vram.Refuses (v : Vram) (size : UInt64) : Prop := v.heap + alignedSize size > vramTotalSize

theorem Vram.alloc_initialized {v : Vram} (h : v.vramInitialized = true) (size : UInt64) :
    (v.alloc size).2.vramInitialized = true := by
  unfold alloc
  split
  next => exact h
  next =>
    simp only
    split
    next => exact v.ready_vramInitialized
    next => exact v.ready_vramInitialized

/-- A refused request changes nothing once the allocator is initialized. -/
theorem Vram.alloc_refused {v : Vram} (h : v.vramInitialized = true) {size : UInt64}
    (hrefused : v.Refuses size) : v.alloc size = (0,v) := by
  have hready : v.ready = v := by simp [ready, h]
  unfold alloc
  split
  next => rfl
  next =>
    have hfull : v.ready.currentHeapPtr + alignedSize size > vramTotalSize := hrefused
    simp only
    rw [if_pos hfull, hready]

/-- Contexts are created with the allocator initialized, and it stays so. -/
theorem initialized_of_step {p p' : Process} {call : ApiCall} {es : List ApiEvent}
    (h : p.step call = some (p',es))
    (ih : ∀ k, (p.contexts k).isSome = true → p.vram.vramInitialized = true) :
    ∀ k, (p'.contexts k).isSome = true → p'.vram.vramInitialized = true := by
  intro k hk
  cases call with
  | clCreateContext numDevices devices opened reopened malloc =>
    simp only [Process.step, clCreateContext, Process.fail] at h
    split at h
    next => cases h; exact ih k hk
    next =>
      split at h
      next => cases h; exact ih k hk
      next => cases h; exact ih k hk
      next =>
        split at h
        next => cases h; rfl
        next => contradiction
  | clRetainContext context =>
    simp only [Process.step, clRetainContext, Process.fail] at h
    split at h
    next => cases h; exact ih k hk
    next c =>
      split at h
      next => contradiction
      next hc => cases h; exact ih c (by rw [hc]; rfl)
  | clReleaseContext context =>
    simp only [Process.step, clReleaseContext, Process.fail] at h
    split at h
    next => cases h; exact ih k hk
    next c =>
      split at h
      next => contradiction
      next hc =>
        split at h
        next => cases h; exact ih c (by rw [hc]; rfl)
        next => cases h; exact ih c (by rw [hc]; rfl)
  | clCreateBuffer context flags size hostPtr malloc upload =>
    simp only [Process.step, clCreateBuffer, Process.fail] at h
    split at h
    next => cases h; exact ih k hk
    next c =>
      split at h
      next => contradiction
      next hc =>
        have hinit : p.vram.vramInitialized = true := ih c (by rw [hc]; rfl)
        split at h
        next => cases h; exact hinit
        next =>
          split at h
          next => cases h; exact Vram.alloc_initialized hinit size
          next =>
            split at h
            next => cases h; exact Vram.alloc_initialized hinit size
            next =>
              repeat' split at h
              all_goals first
                | contradiction
                | (cases h; exact Vram.alloc_initialized hinit size)
  | clReleaseMemObject memobj =>
    simp only [Process.step, clReleaseMemObject, Process.fail] at h
    split at h
    next => cases h; exact ih k hk
    next =>
      split at h
      next => contradiction
      next =>
        split at h
        next => cases h; exact ih k hk
        next => cases h; exact ih k hk

theorem initialized_run {log : List ApiEvent} {p : Process} (h : processSystem.Run log p) :
    ∀ k, (p.contexts k).isSome = true → p.vram.vramInitialized = true := by
  refine h.invariant
    (I := fun _ p => ∀ k, (p.contexts k).isSome = true → p.vram.vramInitialized = true) ?_ ?_
  · rintro p ⟨-,hcontexts,-⟩ k hk
    simp [hcontexts k] at hk
  · intro log p call p' es _ ih _ hstep
    exact initialized_of_step hstep ih

/-- The state after a failing clCreateBuffer. Where the allocator has been asked, and
has not refused, it stays as it is after the request. -/
structure CreateFailed (context : Option Nat) (size : UInt64) (p p' : Process) : Prop where
  contexts : p'.contexts = p.contexts
  mems : p'.mems = p.mems
  untouched : context = none ∨ size = 0 ∨ p.vram.Refuses size → p'.vram = p.vram
  taken : ¬(context = none ∨ size = 0 ∨ p.vram.Refuses size) → p'.vram = (p.vram.alloc size).2
  unfreed : ∀ addr n, p'.vram.free addr n = p'.vram

/-- A call that returns NULL. -/
def returnsNull (es : List ApiEvent) : Prop := ∀ m, .returned .CL_SUCCESS (some m) ∉ es

/-- In any process, with any results of `malloc` and of the upload. -/
theorem failed_create_keeps {log : List ApiEvent} {p : Process} (hrun : processSystem.Run log p)
    {context : Option Nat} {flags size hostPtr : UInt64} {malloc : Option Nat} {upload : Ret}
    {p' : Process} {es : List ApiEvent}
    (h : p.step (.clCreateBuffer context flags size hostPtr malloc upload) = some (p',es))
    (hfailed : returnsNull es) : CreateFailed context size p p' := by
  have hsame : context = none ∨ size = 0 → CreateFailed context size p p := fun hargs =>
    ⟨rfl,rfl,fun _ => rfl,fun hnot => absurd (hargs.imp_right .inl) hnot,fun _ _ => rfl⟩
  simp only [Process.step, clCreateBuffer, Process.fail] at h
  split at h
  next => cases h; exact hsame (.inl rfl)
  next c =>
    split at h
    next => contradiction
    next hc =>
      have hinit : p.vram.vramInitialized = true := initialized_run hrun c (by rw [hc]; rfl)
      split at h
      next hsize => cases h; exact hsame (.inr hsize)
      next hsize =>
        have htaken : CreateFailed (some c) size p {p with vram := (p.vram.alloc size).2} := by
          refine ⟨rfl,rfl,fun hargs => ?_,fun _ => rfl,fun _ _ => rfl⟩
          rcases hargs with hcontext | hzero | hrefused
          · contradiction
          · exact absurd hzero hsize
          · rw [Vram.alloc_refused hinit hrefused]
        split at h
        next => cases h; exact htaken
        next =>
          split at h
          next => cases h; exact htaken
          next m =>
            split at h
            next => contradiction
            next =>
              split at h
              next =>
                split at h
                next => cases h; exact htaken
                next => cases h; exact absurd (by simp) (hfailed m)
              next => cases h; exact absurd (by simp) (hfailed m)

theorem failed_create_keeps_no_memory : ∃ p' es,
    withContext.step (.clCreateBuffer (some 1) 0 4096 0 none .ok) = some (p',es) ∧
    returnsNull es ∧ CreateFailed (some 1) 4096 withContext p' := by
  have hrun : processSystem.Run ([] ++ [.returned .CL_SUCCESS (some 1)]) withContext :=
    .step (a := .clCreateContext 1 true (some 5) none (some 1)) (.init startedProcess_init)
      trivial rfl
  have hnull : returnsNull [.returned .CL_OUT_OF_HOST_MEMORY none] := fun m => by simp
  have hstep : withContext.step (.clCreateBuffer (some 1) 0 4096 0 none .ok) =
      some ({withContext with vram := (withContext.vram.alloc 4096).2},
        [.returned .CL_OUT_OF_HOST_MEMORY none]) := rfl
  exact ⟨_,_,hstep,hnull,failed_create_keeps hrun hstep hnull⟩

/-- A request that the driver refuses for its size keeps the VRAM: the next buffer
lies behind it. -/
theorem failed_upload_keeps_vram : ∃ log p p' es, processSystem.Run log p ∧
    p.step (.clCreateBuffer (some 1) clMemCopyHostPtr 0x2001000 0x5000 (some 2) (.err .EINVAL)) =
      some (p',es) ∧ returnsNull es ∧ p'.vram ≠ p.vram ∧
    (p.vram.alloc 4096).1 = 0x10000 ∧ (p'.vram.alloc 4096).1 = 0x2011000 := by
  have hrun : processSystem.Run ([] ++ [.returned .CL_SUCCESS (some 1)]) withContext :=
    .step (a := .clCreateContext 1 true (some 5) none (some 1)) (.init startedProcess_init)
      trivial rfl
  exact ⟨_,withContext,_,_,hrun,rfl,fun m => by simp,by decide,by decide,by decide⟩

end FpgaGpu.Umd
