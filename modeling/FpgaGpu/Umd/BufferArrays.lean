import FpgaGpu.Umd.BufferMemory

/-! Buffers as independent byte arrays: what the VRAM holds for each live buffer,
and how the array actions answer the calls. -/
namespace FpgaGpu.Umd
open Driver Library

/-- The array of each live buffer. -/
def Runtime.contents (r : Runtime) : Arrays Nat UInt8 := fun h =>
  (r.process.mems h).map fun m => cells r.vram m.ddr3Addr m.size.toNat

/-- What a successful call means for the arrays. A new buffer has whatever bytes
its VRAM holds; CL_MEM_COPY_HOST_PTR is a write of all of it. -/
def BufferCall.meaning (r : Runtime) : BufferCall → List (ArrayAction Nat UInt8)
  | .api (.clCreateBuffer _ flags size hostPtr (some h) _) =>
      .create h (cells r.vram (r.process.vram.alloc size).1 size.toNat) ::
        if flags &&& clMemCopyHostPtr ≠ 0 ∧ hostPtr ≠ 0 then
          [.write h 0 (cells r.host hostPtr size.toNat)]
        else []
  | .api (.clReleaseMemObject (some h)) => [.release h]
  | .clEnqueueWriteBuffer _ (some h) offset size ptr _ =>
      [.write h offset.toNat (cells r.host ptr size.toNat)]
  | .clEnqueueReadBuffer _ (some h) offset size _ _ => [.read h offset.toNat size.toNat]
  | .clEnqueueCopyBuffer _ (some h) (some k) srcOffset dstOffset size _ _ _ =>
      [.copy h k srcOffset.toNat dstOffset.toNat size.toNat]
  | _ => []

/-- Sizes and offsets below 2^32. -/
def BufferCall.below4G : BufferCall → Prop
  | .api call => call.request.toNat < 2 ^ 32
  | .store _ _ => True
  | .clEnqueueWriteBuffer _ _ offset size _ _ => offset.toNat < 2 ^ 32 ∧ size.toNat < 2 ^ 32
  | .clEnqueueReadBuffer _ _ offset size _ _ => offset.toNat < 2 ^ 32 ∧ size.toNat < 2 ^ 32
  | .clEnqueueCopyBuffer _ _ _ srcOffset dstOffset size _ _ _ =>
      srcOffset.toNat < 2 ^ 32 ∧ dstOffset.toNat < 2 ^ 32 ∧ size.toNat < 2 ^ 32

/-- A context is created only while no buffer is live, as after one clCreateContext. -/
def OneContext (_ : List BufferEvent) (r : Runtime) (call : BufferCall) : Prop :=
  call.below4G ∧
  ∀ c, call = .api c → c.resetsVram = true → ∀ h, r.process.mems h = none

/-- A range that does not lie in its buffer. -/
def BufferCall.Outside (r : Runtime) : BufferCall → Prop
  | .clEnqueueWriteBuffer (some _) (some h) offset size _ _
  | .clEnqueueReadBuffer (some _) (some h) offset size _ _ =>
      ∃ m, r.process.mems h = some m ∧ m.size.toNat < offset.toNat + size.toNat
  | .clEnqueueCopyBuffer (some _) (some h) (some k) srcOffset dstOffset size _ _ _ =>
      ∃ m n, r.process.mems h = some m ∧ r.process.mems k = some n ∧
        (m.size.toNat < srcOffset.toNat + size.toNat ∨
          n.size.toNat < dstOffset.toNat + size.toNat)
  | _ => False

/-- Live buffers lie apart, and each has the one reference it was created with. -/
structure RuntimeInv (r : Runtime) : Prop where
  vram : VramInv r.process
  single : ∀ h m, r.process.mems h = some m → m.refCount = 1

theorem VramInv.mem_bounds {p : Process} (hinv : VramInv p) {h : Nat} {m : Mem}
    (hm : p.mems h = some m) : m.ddr3Addr.toNat + m.size.toNat ≤ 2 ^ 30 := by
  have hle : p.vram.heap.toNat ≤ vramTotalSize.toNat := UInt64.le_iff_toNat_le.mp hinv.heap_le
  have htotal : vramTotalSize.toNat = 2 ^ 30 := rfl
  have hregion : p.regions h = some m.region := by simp [Process.regions, hm]
  have hend : m.ddr3Addr.toNat + m.size.toNat ≤ p.vram.heap.toNat :=
    (hinv.packed.within h m.region hregion).2
  omega

/-- No address of another buffer is one of the `n` from `offset` on. -/
theorem VramInv.mem_apart {p : Process} (hinv : VramInv p) {h k : Nat} {m m' : Mem}
    (hne : k ≠ h) (hm : p.mems h = some m) (hm' : p.mems k = some m') {offset : UInt64} {n : Nat}
    (hfit : offset.toNat + n ≤ m.size.toNat) (j : Nat) (hj : j < m'.size.toNat) :
    n ≤ (along m'.ddr3Addr j - (m.ddr3Addr + offset)).toNat := by
  have hbounds := hinv.mem_bounds hm
  have hbounds' := hinv.mem_bounds hm'
  have hregion : p.regions h = some m.region := by simp [Process.regions, hm]
  have hregion' : p.regions k = some m'.region := by simp [Process.regions, hm']
  have hapart := hinv.packed.apart k h _ _ hne hregion' hregion (m'.ddr3Addr.toNat + j)
  simp only [Region.Has, Mem.region, not_and] at hapart
  unfold along
  rw [UInt64.toNat_sub, UInt64.toNat_add, UInt64.toNat_add, UInt64.toNat_ofNat']
  omega

/-- A copy into a buffer changes its array and no other one. -/
theorem contents_copy {r r₁ : Runtime} (hinv : VramInv r.process) {h : Nat} {m : Mem}
    (hm : r.process.mems h = some m) {src : UInt64 → UInt8} {addr offset : UInt64} {n : Nat}
    (hfit : offset.toNat + n ≤ m.size.toNat) (hprocess : r₁.process = r.process)
    (hvram : r₁.vram =
      copyAll src (pairUp (along addr) (along (m.ddr3Addr + offset)) n) r.vram) :
    r₁.contents = Function.update r.contents h (some (splice offset.toNat (cells src addr n)
      (cells r.vram m.ddr3Addr m.size.toNat))) := by
  have hbounds := hinv.mem_bounds hm
  funext k
  unfold Runtime.contents
  rw [hprocess, hvram]
  by_cases hk : k = h
  · subst hk
    rw [Function.update_self, hm, Option.map_some, cells_copyAll_splice hfit (by omega)]
  · rw [Function.update_of_ne hk]
    cases hm' : r.process.mems k with
    | none => rfl
    | some m' =>
      simp only [Option.map_some]
      rw [cells_copyAll_apart (by omega) (hinv.mem_apart hk hm hm' hfit)]

theorem toUInt32_toNat {size : UInt64} (h : size.toNat < 2 ^ 32) :
    size.toUInt32.toNat = size.toNat := by
  rw [UInt64.toNat_toUInt32]
  exact Nat.mod_eq_of_lt h

theorem Runtime.dma_write {r : Runtime} {size : UInt64} (h : size.toNat < 2 ^ 32)
    (ddr3Addr ptr : UInt64) :
    r.dma ⟨0,size.toUInt32,ddr3Addr,ptr⟩ .ok =
      {r with vram := copyAll r.host (pairUp (along ptr) (along ddr3Addr) size.toNat) r.vram} := by
  rw [← toUInt32_toNat h]
  rfl

theorem Runtime.dma_read {r : Runtime} {size : UInt64} (h : size.toNat < 2 ^ 32)
    (ddr3Addr ptr : UInt64) :
    r.dma ⟨1,size.toUInt32,ddr3Addr,ptr⟩ .ok =
      {r with host := copyAll r.vram (pairUp (along ddr3Addr) (along ptr) size.toNat) r.host} := by
  rw [← toUInt32_toNat h]
  rfl

/-- A successful transfer to a live buffer, from any host memory. -/
theorem contents_write {r : Runtime} (hinv : VramInv r.process) {h : Nat} {m : Mem}
    (hm : r.process.mems h = some m) {offset size : UInt64} (hsize : size.toNat < 2 ^ 32)
    (hfit : offset.toNat + size.toNat ≤ m.size.toNat) (host : UInt64 → UInt8) (ptr : UInt64) :
    (Runtime.dma ⟨0,size.toUInt32,m.ddr3Addr + offset,ptr⟩ .ok {r with host := host}).contents =
      Function.update r.contents h (some (splice offset.toNat (cells host ptr size.toNat)
        (cells r.vram m.ddr3Addr m.size.toNat))) := by
  rw [Runtime.dma_write hsize]
  exact contents_copy hinv hm hfit rfl rfl

theorem Runtime.dma_failed {r : Runtime} {ret : Ret} (h : ioctlFailed ret = true) (p : DmaParam) :
    r.dma p ret = r := by
  unfold dma
  rw [if_pos h]

/-- What the refinement says of one call. -/
structure Answered (r : Runtime) (call : BufferCall) (r' : Runtime) (es : List BufferEvent) :
    Prop where
  exec : (arraySystem Nat UInt8).exec r.contents
    (if statusOf es = some .CL_SUCCESS then call.meaning r else []) =
      some (r'.contents,readsIn es)
  refused : call.Outside r → statusOf es = some .CL_INVALID_VALUE

theorem statusOf_ret (es : List BufferEvent) (status : ClStatus) (handle : Option Nat) :
    statusOf (es ++ [.api (.returned status handle)]) = some status := by
  unfold statusOf
  rw [lastOf_append]
  rfl

theorem readsIn_ret (es : List BufferEvent) (status : ClStatus) (handle : Option Nat) :
    readsIn (es ++ [.api (.returned status handle)]) = readsIn es := by
  unfold readsIn
  rw [List.filterMap_append]
  exact List.append_nil _

/-- A call that fails and changes no buffer. -/
theorem Answered.of_error {r r₁ r' : Runtime} {call : BufferCall} {es es' : List BufferEvent}
    {status : ClStatus} (hret : r₁.ret es' status = some (r',es)) (hreads : readsIn es' = [])
    (hcontents : r₁.contents = r.contents) (herror : status ≠ .CL_SUCCESS)
    (hout : call.Outside r → status = .CL_INVALID_VALUE) : Answered r call r' es := by
  obtain ⟨rfl,rfl⟩ := Prod.mk.inj (Option.some.inj hret)
  refine ⟨?_,fun h => by rw [statusOf_ret, hout h]⟩
  rw [statusOf_ret, readsIn_ret, hreads, hcontents, if_neg (by simpa using herror)]
  rfl

/-- A call that succeeds and does what it means. -/
theorem Answered.of_success {r r₁ r' : Runtime} {call : BufferCall} {es es' : List BufferEvent}
    (hret : r₁.ret es' .CL_SUCCESS = some (r',es))
    (hexec : (arraySystem Nat UInt8).exec r.contents (call.meaning r) =
      some (r₁.contents,readsIn es'))
    (hin : ¬call.Outside r) : Answered r call r' es := by
  obtain ⟨rfl,rfl⟩ := Prod.mk.inj (Option.some.inj hret)
  refine ⟨?_,fun h => absurd h hin⟩
  rw [statusOf_ret, readsIn_ret, if_pos rfl, hexec]

/-- The check of a range, where nothing wraps. -/
theorem range_check {offset size bound : UInt64} (hoffset : offset.toNat < 2 ^ 32)
    (hsize : size.toNat < 2 ^ 32) :
    offset + size > bound ↔ bound.toNat < offset.toNat + size.toNat := by
  have hsum : (offset + size).toNat = offset.toNat + size.toNat := by
    rw [UInt64.toNat_add]
    omega
  rw [gt_iff_lt, UInt64.lt_iff_toNat_lt, hsum]

theorem contents_of_mem {r : Runtime} {h : Nat} {m : Mem} (hm : r.process.mems h = some m) :
    r.contents h = some (cells r.vram m.ddr3Addr m.size.toNat) := by
  unfold Runtime.contents
  rw [hm]
  rfl

theorem exec_write {a : Arrays Nat UInt8} {h offset : Nat} {xs ys : List UInt8}
    (ha : a h = some xs) (hfit : offset + ys.length ≤ xs.length) :
    (arraySystem Nat UInt8).exec a [.write h offset ys] =
      some (Function.update a h (some (splice offset ys xs)),[]) := by
  simp [System.exec, arraySystem, Arrays.step, ha, hfit]

theorem clEnqueueWriteBuffer_answered {r r' : Runtime} {es : List BufferEvent}
    {commandQueue buffer : Option Nat} {offset size ptr : UInt64} {dma : Ret}
    (hinv : VramInv r.process) (hoffset : offset.toNat < 2 ^ 32) (hsize : size.toNat < 2 ^ 32)
    (h : clEnqueueWriteBuffer commandQueue buffer offset size ptr dma r = some (r',es)) :
    Answered r (.clEnqueueWriteBuffer commandQueue buffer offset size ptr dma) r' es := by
  unfold clEnqueueWriteBuffer at h
  split at h
  next => exact .of_error h rfl rfl (by simp) (fun hout => hout.elim)
  next => exact .of_error h rfl rfl (by simp) (fun hout => hout.elim)
  next queue k =>
    split at h
    next m context hm hcontext =>
      split_ifs at h with hptr hrange hfailed
      · exact .of_error h rfl rfl (by simp) (fun _ => rfl)
      · exact .of_error h rfl rfl (by simp) (fun _ => rfl)
      · refine .of_error h rfl ?_ (by simp) ?_
        · rw [Runtime.dma_failed hfailed]
        · rintro ⟨m',hm',hlt⟩
          obtain rfl := Option.some.inj (hm.symm.trans hm')
          exact absurd ((range_check hoffset hsize).mpr hlt) hrange
      · have hok : dma = .ok := (ioctlFailed_eq_false dma).mp (by simpa using hfailed)
        have hfit : offset.toNat + size.toNat ≤ m.size.toNat :=
          Nat.not_lt.mp fun hlt => hrange ((range_check hoffset hsize).mpr hlt)
        refine .of_success h ?_ ?_
        · rw [hok, contents_write hinv hm hsize hfit r.host ptr]
          exact exec_write (contents_of_mem hm) (by simpa using hfit)
        · rintro ⟨m',hm',hlt⟩
          obtain rfl := Option.some.inj (hm.symm.trans hm')
          omega
    next => contradiction

theorem exec_read {a : Arrays Nat UInt8} {h offset length : Nat} {xs : List UInt8}
    (ha : a h = some xs) (hfit : offset + length ≤ xs.length) :
    (arraySystem Nat UInt8).exec a [.read h offset length] =
      some (a,[slice offset length xs]) := by
  simp [System.exec, arraySystem, Arrays.step, ha, hfit]

theorem exec_copy {a : Arrays Nat UInt8} {h k srcOffset dstOffset length : Nat}
    {xs ys : List UInt8} (hsrc : a h = some xs) (hdst : a k = some ys)
    (hfit : srcOffset + length ≤ xs.length ∧ dstOffset + length ≤ ys.length) :
    (arraySystem Nat UInt8).exec a [.copy h k srcOffset dstOffset length] =
      some (Function.update a k (some (splice dstOffset (slice srcOffset length xs) ys)),[]) := by
  simp [System.exec, arraySystem, Arrays.step, hsrc, hdst, hfit]

/-- A read changes the host memory only, where the bytes of the range then stand. -/
theorem clEnqueueReadBuffer_answered {r r' : Runtime} {es : List BufferEvent}
    {commandQueue buffer : Option Nat} {offset size ptr : UInt64} {dma : Ret}
    (hoffset : offset.toNat < 2 ^ 32) (hsize : size.toNat < 2 ^ 32)
    (h : clEnqueueReadBuffer commandQueue buffer offset size ptr dma r = some (r',es)) :
    Answered r (.clEnqueueReadBuffer commandQueue buffer offset size ptr dma) r' es := by
  unfold clEnqueueReadBuffer at h
  split at h
  next => exact .of_error h rfl rfl (by simp) (fun hout => hout.elim)
  next => exact .of_error h rfl rfl (by simp) (fun hout => hout.elim)
  next queue k =>
    split at h
    next m context hm hcontext =>
      split_ifs at h with hptr hrange hfailed
      · exact .of_error h rfl rfl (by simp) (fun _ => rfl)
      · exact .of_error h rfl rfl (by simp) (fun _ => rfl)
      · refine .of_error h rfl ?_ (by simp) ?_
        · rw [Runtime.dma_failed hfailed]
        · rintro ⟨m',hm',hlt⟩
          obtain rfl := Option.some.inj (hm.symm.trans hm')
          exact absurd ((range_check hoffset hsize).mpr hlt) hrange
      · have hok : dma = .ok := (ioctlFailed_eq_false dma).mp (by simpa using hfailed)
        have hfit : offset.toNat + size.toNat ≤ m.size.toNat :=
          Nat.not_lt.mp fun hlt => hrange ((range_check hoffset hsize).mpr hlt)
        refine .of_success h ?_ ?_
        · rw [hok, Runtime.dma_read hsize]
          have hlength : offset.toNat + size.toNat ≤
              (cells r.vram m.ddr3Addr m.size.toNat).length := by simpa using hfit
          have hread := exec_read (contents_of_mem hm) hlength
          rw [slice_cells hfit] at hread
          simp only [BufferCall.meaning, hread, readsIn, List.filterMap_cons, List.filterMap_nil]
          rw [cells_copyAll (by omega)]
          rfl
        · rintro ⟨m',hm',hlt⟩
          obtain rfl := Option.some.inj (hm.symm.trans hm')
          omega
    next => contradiction

/-- The bounce buffer holds the source range as it was before the call, so a
target range that overlaps it gets the old bytes. -/
theorem clEnqueueCopyBuffer_answered {r r' : Runtime} {es : List BufferEvent}
    {commandQueue srcBuffer dstBuffer : Option Nat} {srcOffset dstOffset size : UInt64}
    {bounce : Option UInt64} {dmaRead dmaWrite : Ret} (hinv : VramInv r.process)
    (hsrcOffset : srcOffset.toNat < 2 ^ 32) (hdstOffset : dstOffset.toNat < 2 ^ 32)
    (hsize : size.toNat < 2 ^ 32)
    (h : clEnqueueCopyBuffer commandQueue srcBuffer dstBuffer srcOffset dstOffset size bounce
      dmaRead dmaWrite r = some (r',es)) :
    Answered r (.clEnqueueCopyBuffer commandQueue srcBuffer dstBuffer srcOffset dstOffset size
      bounce dmaRead dmaWrite) r' es := by
  unfold clEnqueueCopyBuffer at h
  split at h
  next => exact .of_error h rfl rfl (by simp) (fun hout => hout.elim)
  next => exact .of_error h rfl rfl (by simp) (fun hout => hout.elim)
  next => exact .of_error h rfl rfl (by simp) (fun hout => hout.elim)
  next queue i k =>
    split at h
    next src dst context hsrc hdst hcontext =>
      split at h
      next => exact .of_error h rfl rfl (by simp) (fun _ => rfl)
      next hsrcRange =>
      split at h
      next => exact .of_error h rfl rfl (by simp) (fun _ => rfl)
      next hdstRange =>
      have hsrcFit : srcOffset.toNat + size.toNat ≤ src.size.toNat :=
        Nat.not_lt.mp fun hlt => hsrcRange ((range_check hsrcOffset hsize).mpr hlt)
      have hdstFit : dstOffset.toNat + size.toNat ≤ dst.size.toNat :=
        Nat.not_lt.mp fun hlt => hdstRange ((range_check hdstOffset hsize).mpr hlt)
      have hin : ¬(BufferCall.clEnqueueCopyBuffer (some queue) (some i) (some k) srcOffset
          dstOffset size bounce dmaRead dmaWrite).Outside r := by
        rintro ⟨src',dst',hsrc',hdst',hlt⟩
        obtain rfl := Option.some.inj (hsrc.symm.trans hsrc')
        obtain rfl := Option.some.inj (hdst.symm.trans hdst')
        omega
      cases bounce with
      | none => exact .of_error h rfl rfl (by simp) (fun hout => absurd hout hin)
      | some bounce =>
        dsimp only at h
        split_ifs at h with hreadFailed hwriteFailed
        · refine .of_error h rfl ?_ (by simp) (fun hout => absurd hout hin)
          rw [Runtime.dma_failed hreadFailed]
        · have hok : dmaRead = .ok := (ioctlFailed_eq_false dmaRead).mp (by simpa using hreadFailed)
          refine .of_error h rfl ?_ (by simp) (fun hout => absurd hout hin)
          rw [Runtime.dma_failed hwriteFailed, hok, Runtime.dma_read hsize]
          rfl
        · have hok : dmaRead = .ok := (ioctlFailed_eq_false dmaRead).mp (by simpa using hreadFailed)
          have hok' : dmaWrite = .ok :=
            (ioctlFailed_eq_false dmaWrite).mp (by simpa using hwriteFailed)
          refine .of_success h ?_ hin
          rw [hok, hok', Runtime.dma_read hsize, contents_write hinv hdst hsize hdstFit]
          have hlength : srcOffset.toNat + size.toNat ≤
                (cells r.vram src.ddr3Addr src.size.toNat).length ∧
              dstOffset.toNat + size.toNat ≤ (cells r.vram dst.ddr3Addr dst.size.toNat).length :=
            ⟨by simpa using hsrcFit,by simpa using hdstFit⟩
          have hcopy := exec_copy (contents_of_mem hsrc) (contents_of_mem hdst) hlength
          rw [slice_cells hsrcFit] at hcopy
          rw [cells_copyAll (by omega)]
          exact hcopy
    next => contradiction

/-- The upload of a new buffer. -/
def uploadOf (fd : Nat) (flags size hostPtr addr : UInt64) : List ApiEvent :=
  if flags &&& clMemCopyHostPtr ≠ 0 ∧ hostPtr ≠ 0 then
    [.dmaTransfer fd (copyHostPtr size hostPtr addr) .ok]
  else []

/-- What a call does to the buffers: create one, release one, or nothing, with
whatever it transfers failing. -/
inductive BufferRule (p : Process) : ApiCall → Process → List ApiEvent → Prop where
  | created (context fd : Nat) (flags size hostPtr : UInt64) (h : Nat) (upload : Ret) (p' : Process)
      (es : List ApiEvent) :
      p.mems h = none →
      p'.mems = Function.update p.mems h
        (some ⟨context,flags,size,hostPtr,(p.vram.alloc size).1,1⟩) →
      es = uploadOf fd flags size hostPtr (p.vram.alloc size).1 ++
        [.returned .CL_SUCCESS (some h)] →
      BufferRule p (.clCreateBuffer (some context) flags size hostPtr (some h) upload) p' es
  | released (h : Nat) (m : Mem) (p' : Process) :
      p.mems h = some m → p'.mems = Function.update p.mems h none →
      BufferRule p (.clReleaseMemObject (some h)) p' [.returned .CL_SUCCESS none]
  | other (call : ApiCall) (p' : Process) (es : List ApiEvent) :
      p'.mems = p.mems →
      (∀ fd param ret, .dmaTransfer fd param ret ∈ es → ioctlFailed ret = true) →
      (statusOf (es.map .api) = some .CL_SUCCESS → ∀ r, (BufferCall.api call).meaning r = []) →
      BufferRule p call p' es

/-- A call that only returns. -/
theorem BufferRule.failed {p p' : Process} {call : ApiCall} {es : List ApiEvent}
    {status : ClStatus} (hmems : p'.mems = p.mems)
    (hes : ∀ fd param ret, .dmaTransfer fd param ret ∈ es → ioctlFailed ret = true)
    (hstatus : status ≠ .CL_SUCCESS) :
    BufferRule p call p' (es ++ [.returned status none]) := by
  apply BufferRule.other _ _ _ hmems
  · intro fd param ret hmem
    exact hes fd param ret (by simpa using hmem)
  · intro hsuccess
    rw [List.map_append, List.map_singleton, statusOf_ret] at hsuccess
    exact absurd (Option.some.inj hsuccess) hstatus

theorem bufferRule_create {p p' : Process} {es : List ApiEvent} {context : Option Nat}
    {flags size hostPtr : UInt64} {malloc : Option Nat} {upload : Ret}
    (h : clCreateBuffer context flags size hostPtr malloc upload p = some (p',es)) :
    BufferRule p (.clCreateBuffer context flags size hostPtr malloc upload) p' es := by
  unfold clCreateBuffer at h
  simp only [Process.fail] at h
  split at h
  next => cases h; exact .failed rfl (by simp) (by simp)
  next c =>
    split at h
    next => contradiction
    next context hcontext =>
      split at h
      next => cases h; exact .failed rfl (by simp) (by simp)
      next =>
        split at h
        next => cases h; exact .failed rfl (by simp) (by simp)
        next haddr =>
          split at h
          next => cases h; exact .failed rfl (by simp) (by simp)
          next m =>
            split_ifs at h with hfree hcopy hfailed
            · cases h
              refine .failed rfl ?_ (by simp)
              intro fd param ret hmem
              obtain ⟨-,-,rfl⟩ : fd = _ ∧ param = _ ∧ ret = upload := by simpa using hmem
              exact hfailed
            · cases h
              have hok : upload = .ok := (ioctlFailed_eq_false upload).mp (by simpa using hfailed)
              refine .created c context.fd _ _ _ m _ _ _ (by simpa using hfree) rfl ?_
              rw [uploadOf, if_pos hcopy, hok]
              rfl
            · cases h
              refine .created c context.fd _ _ _ m _ _ _ (by simpa using hfree) rfl ?_
              rw [uploadOf, if_neg hcopy]
              rfl

theorem bufferRule_release {p p' : Process} {es : List ApiEvent} {memobj : Option Nat}
    (hsingle : ∀ h m, p.mems h = some m → m.refCount = 1)
    (h : clReleaseMemObject memobj p = some (p',es)) :
    BufferRule p (.clReleaseMemObject memobj) p' es := by
  unfold clReleaseMemObject at h
  split at h
  next => cases h; exact .failed rfl (by simp) (by simp)
  next k =>
    split at h
    next => contradiction
    next m hm =>
      have hlast : m.refCount - 1 = 0 := by
        rw [hsingle k m hm]
        rfl
      simp only [hlast, ↓reduceIte] at h
      cases h
      exact .released k m _ hm rfl

/-- The calls on contexts transfer nothing and leave the buffers alone. -/
theorem bufferRule_of_step {p p' : Process} {call : ApiCall} {es : List ApiEvent}
    (hsingle : ∀ h m, p.mems h = some m → m.refCount = 1)
    (h : p.step call = some (p',es)) : BufferRule p call p' es := by
  cases call with
  | clCreateContext numDevices devices opened reopened malloc =>
    simp only [Process.step, clCreateContext, Process.fail] at h
    repeat' split at h
    all_goals first | contradiction | (cases h; exact .other _ _ _ rfl (by simp) (fun _ _ => rfl))
  | clRetainContext context =>
    simp only [Process.step, clRetainContext, Process.fail] at h
    repeat' split at h
    all_goals first | contradiction | (cases h; exact .other _ _ _ rfl (by simp) (fun _ _ => rfl))
  | clReleaseContext context =>
    simp only [Process.step, clReleaseContext, Process.fail] at h
    repeat' split at h
    all_goals first | contradiction | (cases h; exact .other _ _ _ rfl (by simp) (fun _ _ => rfl))
  | clCreateBuffer context flags size hostPtr malloc upload => exact bufferRule_create h
  | clReleaseMemObject memobj => exact bufferRule_release hsingle h

@[simp] theorem Runtime.dma_process (p : DmaParam) (ret : Ret) (r : Runtime) :
    (r.dma p ret).process = r.process := by
  unfold dma
  split
  · rfl
  · split <;> rfl

/-- What a step does to the process: only an API call changes it. -/
theorem process_of_step {r r' : Runtime} {call : BufferCall} {es : List BufferEvent}
    (h : r.step call = some (r',es)) :
    r'.process = r.process ∨
    ∃ c es', call = .api c ∧ r.process.step c = some (r'.process,es') ∧ es = es'.map .api ∧
      r' = {r.transfers es' with process := r'.process} := by
  cases call with
  | api c =>
    simp only [Runtime.step] at h
    split at h
    next => contradiction
    next p es' hstep =>
      cases h
      exact .inr ⟨c,es',rfl,hstep,rfl,rfl⟩
  | store addr byte =>
    cases h
    exact .inl rfl
  | clEnqueueWriteBuffer commandQueue buffer offset size ptr dma =>
    left
    simp only [Runtime.step, clEnqueueWriteBuffer, Runtime.ret] at h
    repeat' split at h
    all_goals first | contradiction | (cases h; simp)
  | clEnqueueReadBuffer commandQueue buffer offset size ptr dma =>
    left
    simp only [Runtime.step, clEnqueueReadBuffer, Runtime.ret] at h
    repeat' split at h
    all_goals first | contradiction | (cases h; simp)
  | clEnqueueCopyBuffer commandQueue srcBuffer dstBuffer srcOffset dstOffset size bounce dmaRead
      dmaWrite =>
    left
    simp only [Runtime.step, clEnqueueCopyBuffer, Runtime.ret] at h
    repeat' split at h
    all_goals first | contradiction | (cases h; simp)

theorem RuntimeInv.of_init {r : Runtime} (h : processSystem.init r.process) : RuntimeInv r :=
  ⟨.of_init h,fun k m hm => by simp [h.2.2 k] at hm⟩

theorem BufferRule.single {p p' : Process} {call : ApiCall} {es : List ApiEvent}
    (hrule : BufferRule p call p' es) (hsingle : ∀ h m, p.mems h = some m → m.refCount = 1) :
    ∀ h m, p'.mems h = some m → m.refCount = 1 := by
  intro k m hm
  cases hrule with
  | created context fd flags size hostPtr h upload p' es hfree hmems hes =>
    rw [hmems] at hm
    by_cases hk : k = h
    · subst hk
      rw [Function.update_self] at hm
      cases hm
      rfl
    · rw [Function.update_of_ne hk] at hm
      exact hsingle k m hm
  | released h m' p' hm' hmems =>
    rw [hmems] at hm
    by_cases hk : k = h
    · subst hk
      simp at hm
    · rw [Function.update_of_ne hk] at hm
      exact hsingle k m hm
  | other call p' es hmems hes hmeaning =>
    rw [hmems] at hm
    exact hsingle k m hm

theorem RuntimeInv.step {r r' : Runtime} {call : BufferCall} {es log : List BufferEvent}
    (ih : RuntimeInv r) (hok : OneContext log r call) (hstep : r.step call = some (r',es)) :
    RuntimeInv r' := by
  rcases process_of_step hstep with hsame | ⟨c,es',rfl,hprocess,-,-⟩
  · exact ⟨hsame ▸ ih.vram,hsame ▸ ih.single⟩
  · have hsize : c.request.toNat < 2 ^ 63 := Nat.lt_trans hok.1 (by decide)
    exact ⟨ih.vram.step hsize (hok.2 c rfl) hprocess,
      (bufferRule_of_step ih.single hprocess).single ih.single⟩

/-- Transfers that fail leave the memories alone. -/
theorem Runtime.transfers_failed {es : List ApiEvent} {r : Runtime}
    (h : ∀ fd param ret, .dmaTransfer fd param ret ∈ es → ioctlFailed ret = true) :
    r.transfers es = r := by
  induction es generalizing r with
  | nil => rfl
  | cons e rest ih =>
    have hrest := ih (r := r) fun fd param ret hmem => h fd param ret (List.mem_cons_of_mem _ hmem)
    cases e with
    | dmaTransfer fd param ret =>
      calc r.transfers (.dmaTransfer fd param ret :: rest)
          = (r.dma param ret).transfers rest := rfl
        _ = r.transfers rest := by rw [dma_failed (h fd param ret List.mem_cons_self)]
        _ = r := hrest
    | close fd => exact hrest
    | returned status handle => exact hrest

theorem readsIn_api (es : List ApiEvent) : readsIn (es.map .api) = [] := by
  unfold readsIn
  rw [List.filterMap_eq_nil_iff]
  intro e he
  obtain ⟨e,-,rfl⟩ := List.mem_map.mp he
  rfl

theorem contents_created {r : Runtime} {p : Process} {h : Nat} {m : Mem}
    (hmems : p.mems = Function.update r.process.mems h (some m)) :
    ({r with process := p} : Runtime).contents =
      Function.update r.contents h (some (cells r.vram m.ddr3Addr m.size.toNat)) := by
  funext k
  unfold Runtime.contents
  rw [hmems]
  by_cases hk : k = h
  · subst hk
    simp
  · simp [hk]

/-- The upload of a new buffer is a write of all of it. -/
theorem contents_uploaded {r : Runtime} {p : Process} {h fd : Nat} {m : Mem} (hinv : VramInv p)
    (hm : p.mems h = some m) {flags hostPtr : UInt64} (hsize : m.size.toNat < 2 ^ 32)
    (hcopy : flags &&& clMemCopyHostPtr ≠ 0 ∧ hostPtr ≠ 0) :
    ({r.transfers (uploadOf fd flags m.size hostPtr m.ddr3Addr ++
        [.returned .CL_SUCCESS (some h)]) with process := p} : Runtime).contents =
      Function.update ({r with process := p} : Runtime).contents h
        (some (splice (0 : UInt64).toNat (cells r.host hostPtr m.size.toNat)
          (cells r.vram m.ddr3Addr m.size.toNat))) := by
  have hfit : (0 : UInt64).toNat + m.size.toNat ≤ m.size.toNat := by simp
  have hvram : (r.transfers (uploadOf fd flags m.size hostPtr m.ddr3Addr ++
      [.returned .CL_SUCCESS (some h)])).vram =
      copyAll r.host (pairUp (along hostPtr) (along (m.ddr3Addr + 0)) m.size.toNat) r.vram := by
    rw [uploadOf, if_pos hcopy, UInt64.add_zero, ← toUInt32_toNat hsize]
    rfl
  exact contents_copy (r := {r with process := p}) hinv hm hfit rfl hvram

theorem exec_create {a : Arrays Nat UInt8} {h : Nat} (ha : a h = none) (xs : List UInt8)
    (rest : List (ArrayAction Nat UInt8)) :
    (arraySystem Nat UInt8).exec a (.create h xs :: rest) =
      (arraySystem Nat UInt8).exec (Function.update a h (some xs)) rest := by
  rw [System.exec]
  simp only [arraySystem, Arrays.step, ha, Option.isNone_none, if_true, List.nil_append]
  split <;> simp_all

theorem exec_release {a : Arrays Nat UInt8} {h : Nat} {xs : List UInt8} (ha : a h = some xs) :
    (arraySystem Nat UInt8).exec a [.release h] = some (Function.update a h none,[]) := by
  simp [System.exec, arraySystem, Arrays.step, ha]

theorem api_answered {r r' : Runtime} {c : ApiCall} {es : List ApiEvent} (hinv : RuntimeInv r)
    (hinv' : VramInv r'.process) (hsize : c.request.toNat < 2 ^ 32)
    (hstep : r.process.step c = some (r'.process,es))
    (hr' : r' = {r.transfers es with process := r'.process}) :
    Answered r (.api c) r' (es.map .api) := by
  refine ⟨?_,fun hout => hout.elim⟩
  generalize hp : r'.process = p' at hstep hinv' hr'
  subst hr'
  rw [readsIn_api]
  cases bufferRule_of_step hinv.single hstep with
  | created context fd flags size hostPtr h upload p' es hfree hmems hes =>
    have hempty : r.contents h = none := by
      unfold Runtime.contents
      rw [hfree]
      rfl
    have hplain := contents_created hmems
    subst hes
    rw [List.map_append, List.map_singleton, statusOf_ret, if_pos rfl, BufferCall.meaning,
      exec_create hempty]
    by_cases hcopy : flags &&& clMemCopyHostPtr ≠ 0 ∧ hostPtr ≠ 0
    · have hm : p'.mems h = some ⟨context,flags,size,hostPtr,(r.process.vram.alloc size).1,1⟩ := by
        rw [hmems, Function.update_self]
      rw [if_pos hcopy, contents_uploaded hinv' hm hsize hcopy, hplain]
      exact exec_write (Function.update_self _ _ _) (by simp)
    · have htransfers : r.transfers (uploadOf fd flags size hostPtr (r.process.vram.alloc size).1 ++
          [.returned .CL_SUCCESS (some h)]) = r := by
        rw [uploadOf, if_neg hcopy]
        rfl
      rw [if_neg hcopy, htransfers, hplain]
      rfl
  | released h m p' hm hmems =>
    have hcontents : ({r with process := p'} : Runtime).contents =
        Function.update r.contents h none := by
      funext k
      unfold Runtime.contents
      rw [hmems]
      by_cases hk : k = h
      · subst hk
        simp
      · simp [hk]
    exact (exec_release (contents_of_mem hm)).trans (by rw [← hcontents]; rfl)
  | other call p' es hmems hes hmeaning =>
    have hcontents : ({r with process := p'} : Runtime).contents = r.contents := by
      unfold Runtime.contents
      rw [hmems]
    rw [Runtime.transfers_failed hes, hcontents]
    split
    next hsuccess =>
      rw [hmeaning hsuccess r]
      rfl
    next => rfl

theorem answered_of_step {r r' : Runtime} {call : BufferCall} {es log : List BufferEvent}
    (hinv : RuntimeInv r) (hok : OneContext log r call) (hstep : r.step call = some (r',es)) :
    Answered r call r' es := by
  cases call with
  | api c =>
    have hinv' := (hinv.step hok hstep).vram
    rcases process_of_step hstep with hsame | ⟨c,es',hc,hprocess,rfl,hr'⟩
    · simp only [Runtime.step] at hstep
      split at hstep
      next => contradiction
      next p es' hprocess =>
        cases hstep
        exact api_answered hinv hinv' hok.1 hprocess rfl
    · cases hc
      exact api_answered hinv hinv' hok.1 hprocess hr'
  | store addr byte =>
    cases hstep
    exact ⟨rfl,fun hout => hout.elim⟩
  | clEnqueueWriteBuffer commandQueue buffer offset size ptr dma =>
    exact clEnqueueWriteBuffer_answered hinv.vram hok.1.1 hok.1.2 hstep
  | clEnqueueReadBuffer commandQueue buffer offset size ptr dma =>
    exact clEnqueueReadBuffer_answered hok.1.1 hok.1.2 hstep
  | clEnqueueCopyBuffer commandQueue srcBuffer dstBuffer srcOffset dstOffset size bounce dmaRead
      dmaWrite =>
    exact clEnqueueCopyBuffer_answered hinv.vram hok.1.1 hok.1.2.1 hok.1.2.2 hstep

theorem Answered.unchanged {r r' : Runtime} {call : BufferCall} {es : List BufferEvent}
    (h : Answered r call r' es) (herror : statusOf es ≠ some .CL_SUCCESS) :
    r'.contents = r.contents := by
  have hexec := h.exec
  rw [if_neg herror] at hexec
  exact (Prod.mk.inj (Option.some.inj hexec)).1.symm

theorem runtimeInv_run {log : List BufferEvent} {r : Runtime}
    (h : runtimeSystem.RunWith OneContext log r) : RuntimeInv r :=
  h.invariant (I := fun _ r => RuntimeInv r) (fun _ hr => .of_init hr)
    fun _ _ _ _ _ _ ih hok hstep => ih.step hok hstep

theorem arrays_run {log : List BufferEvent} {r : Runtime}
    (h : runtimeSystem.RunWith OneContext log r) :
    (arraySystem Nat UInt8).Run (readsIn log) r.contents := by
  refine h.invariant (I := fun log r => (arraySystem Nat UInt8).Run (readsIn log) r.contents) ?_ ?_
  · intro r hr
    apply System.RunWith.init
    intro k
    unfold Runtime.contents
    rw [hr.2.2 k]
    rfl
  · intro log r call r' es hrun ih hok hstep
    have hanswer := answered_of_step (runtimeInv_run hrun) hok hstep
    have hreads : readsIn (log ++ es) = readsIn log ++ readsIn es := List.filterMap_append
    rw [hreads]
    exact ih.exec _ hanswer.exec

/-- The VRAM refines a map from live buffers to byte arrays: in every run the
reads return what the arrays hold, every call is answered by the actions it
means, an error changes nothing, and a range outside its buffer is refused. -/
theorem buffers_are_arrays {log : List BufferEvent} {r : Runtime}
    (h : runtimeSystem.RunWith OneContext log r) :
    (arraySystem Nat UInt8).Run (readsIn log) r.contents ∧
    ∀ call r' es, OneContext log r call → r.step call = some (r',es) →
      (arraySystem Nat UInt8).exec r.contents
        (if statusOf es = some .CL_SUCCESS then call.meaning r else []) =
          some (r'.contents,readsIn es) ∧
      (statusOf es ≠ some .CL_SUCCESS → r'.contents = r.contents) ∧
      (call.Outside r → statusOf es = some .CL_INVALID_VALUE) := by
  refine ⟨arrays_run h,fun call r' es hok hstep => ?_⟩
  have hanswer := answered_of_step (runtimeInv_run h) hok hstep
  exact ⟨hanswer.exec,hanswer.unchanged,hanswer.refused⟩

/-- A buffer created from host memory, copied over itself and read, and a read
that goes beyond its end. -/
def bufferCalls : List BufferCall :=
  [.api (.clCreateBuffer (some 1) clMemCopyHostPtr 8 0x100 (some 2) .ok),
    .clEnqueueCopyBuffer (some 1) (some 2) (some 2) 0 2 4 (some 0x1000) .ok .ok,
    .clEnqueueReadBuffer (some 1) (some 2) 0 8 0x200 .ok,
    .clEnqueueReadBuffer (some 1) (some 2) 4 8 0x200 .ok]

/-- A process with its context, and host memory where each address holds its low byte. -/
def withMemory : Runtime := ⟨withContext,fun _ => 0,UInt64.toUInt8⟩

theorem bufferCalls_run : (runtimeSystem.exec withMemory bufferCalls).isSome = true := by
  decide +kernel

theorem bufferCalls_reads :
    readsIn ((runtimeSystem.exec withMemory bufferCalls).get bufferCalls_run).2 =
      [[0,1,0,1,2,3,6,7]] := by
  decide +kernel

theorem createContext_ok (log : List BufferEvent) :
    OneContext log ⟨startedProcess,fun _ => 0,UInt64.toUInt8⟩
      (.api (.clCreateContext 1 true (some 5) none (some 1))) := by
  refine ⟨?_,fun _ _ _ _ => rfl⟩
  simp [BufferCall.below4G, ApiCall.request]

theorem buffers_are_arrays_overlap : ∃ log r, runtimeSystem.RunWith OneContext log r ∧
    readsIn log = [[0,1,0,1,2,3,6,7]] ∧
    (arraySystem Nat UInt8).Run [[0,1,0,1,2,3,6,7]] r.contents := by
  have hinit : runtimeSystem.RunWith OneContext [] ⟨startedProcess,fun _ => 0,UInt64.toUInt8⟩ :=
    .init startedProcess_init
  have hcontext : runtimeSystem.RunWith OneContext
      ([] ++ [.api (.returned .CL_SUCCESS (some 1))]) withMemory :=
    .step hinit (createContext_ok _) rfl
  have hok : ∀ call ∈ bufferCalls, ∀ log r, OneContext log r call := by
    intro call hcall log r
    simp only [bufferCalls, List.mem_cons, List.not_mem_nil, or_false] at hcall
    rcases hcall with rfl | rfl | rfl | rfl <;>
      exact ⟨by simp [BufferCall.below4G, ApiCall.request],by simp [ApiCall.resetsVram]⟩
  have hrun := hcontext.continue bufferCalls hok bufferCalls_run
  have hreads : readsIn ([] ++ [.api (.returned .CL_SUCCESS (some 1))] ++
      ((runtimeSystem.exec withMemory bufferCalls).get bufferCalls_run).2) =
        [[0,1,0,1,2,3,6,7]] := bufferCalls_reads
  refine ⟨_,_,hrun,hreads,?_⟩
  rw [← hreads]
  exact (buffers_are_arrays hrun).1

end FpgaGpu.Umd
