import FpgaGpu.Umd.BufferArrays

/-! The DMA requests that the buffer commands issue: which of them the driver
accepts, and whether they stay inside their buffers. -/
namespace FpgaGpu.Umd
open Driver Library

/-- `CL_DEVICE_MAX_MEM_ALLOC_SIZE` of `g_device`. -/
def maxMemAllocSize : UInt64 := 32 * 1024 * 1024

def BufferEvent.request : BufferEvent → Option DmaParam
  | .api (.dmaTransfer _ p _) => some p
  | _ => none

def requestsIn (es : List BufferEvent) : List DmaParam := es.filterMap BufferEvent.request

/-- The buffer and the range that a command names for its transfers in a direction. -/
def BufferCall.range : BufferCall → UInt32 → Option (Nat × UInt64 × UInt64)
  | .clEnqueueWriteBuffer _ (some h) offset size _ _, _
  | .clEnqueueReadBuffer _ (some h) offset size _ _, _ => some (h,offset,size)
  | .clEnqueueCopyBuffer _ (some h) (some k) srcOffset dstOffset size _ _ _, direction =>
      some (if direction = 1 then (h,srcOffset,size) else (k,dstOffset,size))
  | _, _ => none

/-- The request a command makes for a range that passed its check. -/
structure Issued (m : Mem) (offset size : UInt64) (p : DmaParam) : Prop where
  checked : offset + size ≤ m.size
  size_eq : p.size = size.toUInt32
  ddr3Addr_eq : p.ddr3Addr = m.ddr3Addr + offset

/-- The request is for as many bytes as the caller asked for, all of the buffer. -/
structure Inside (m : Mem) (size : UInt64) (p : DmaParam) : Prop where
  size_eq : p.size.toNat = size.toNat
  start : m.ddr3Addr.toNat ≤ p.ddr3Addr.toNat
  finish : p.ddr3Addr.toNat + p.size.toNat ≤ m.ddr3Addr.toNat + m.size.toNat

section Commands
variable {r r' : Runtime} {es : List BufferEvent} {p : DmaParam}

/-- The common course of a write and a read: two checks, then one request. -/
theorem requests_of_checked {A B F : Prop} [Decidable A] [Decidable B] [Decidable F]
    {e : BufferEvent} {rest : List BufferEvent} {after : Runtime} {a b c d : ClStatus}
    (he : e.request = some p) (hrest : requestsIn rest = [])
    (h : (if A then r.ret [] a else if B then r.ret [] b
      else if F then after.ret [e] c else after.ret (e :: rest) d) = some (r',es)) :
    requestsIn es = if A ∨ B then [] else [p] := by
  have hret : ∀ status, BufferEvent.request (.api (.returned status none)) = none := fun _ => rfl
  unfold requestsIn at hrest ⊢
  unfold Runtime.ret at h
  split at h
  next hA =>
    obtain ⟨-,rfl⟩ := Prod.mk.inj (Option.some.inj h)
    rw [if_pos (.inl hA)]
    rfl
  next hA =>
    split at h
    next hB =>
      obtain ⟨-,rfl⟩ := Prod.mk.inj (Option.some.inj h)
      rw [if_pos (.inr hB)]
      rfl
    next hB =>
      rw [if_neg (not_or.mpr ⟨hA,hB⟩)]
      split at h
      next =>
        obtain ⟨-,rfl⟩ := Prod.mk.inj (Option.some.inj h)
        simp [he, hret]
      next =>
        obtain ⟨-,rfl⟩ := Prod.mk.inj (Option.some.inj h)
        simp [he, hret, hrest]

/-- A write makes one request, if the pointer and the range pass. -/
theorem requests_of_write {q b : Nat} {offset size ptr : UInt64} {dma : Ret} {m : Mem}
    (hm : r.process.mems b = some m)
    (h : clEnqueueWriteBuffer (some q) (some b) offset size ptr dma r = some (r',es)) :
    requestsIn es = if ptr = 0 ∨ offset + size > m.size then []
      else [⟨0,size.toUInt32,m.ddr3Addr + offset,ptr⟩] := by
  cases hc : r.process.contexts q with
  | none => simp [clEnqueueWriteBuffer, hm, hc] at h
  | some c =>
    simp only [clEnqueueWriteBuffer, hm, hc] at h
    exact requests_of_checked rfl rfl h

/-- And so does a read. -/
theorem requests_of_read {q b : Nat} {offset size ptr : UInt64} {dma : Ret} {m : Mem}
    (hm : r.process.mems b = some m)
    (h : clEnqueueReadBuffer (some q) (some b) offset size ptr dma r = some (r',es)) :
    requestsIn es = if ptr = 0 ∨ offset + size > m.size then []
      else [⟨1,size.toUInt32,m.ddr3Addr + offset,ptr⟩] := by
  cases hc : r.process.contexts q with
  | none => simp [clEnqueueReadBuffer, hm, hc] at h
  | some c =>
    simp only [clEnqueueReadBuffer, hm, hc] at h
    exact requests_of_checked rfl rfl h

/-- A copy makes a request for its source and, if that succeeds, one for its
destination. -/
theorem requests_of_copy {q b k : Nat} {srcOffset dstOffset size : UInt64}
    {bounce : Option UInt64} {dmaRead dmaWrite : Ret} {m n : Mem}
    (hm : r.process.mems b = some m) (hn : r.process.mems k = some n)
    (h : clEnqueueCopyBuffer (some q) (some b) (some k) srcOffset dstOffset size bounce dmaRead
      dmaWrite r = some (r',es)) :
    requestsIn es = [] ∨
    srcOffset + size ≤ m.size ∧ dstOffset + size ≤ n.size ∧ ∃ ptr,
      requestsIn es = ⟨1,size.toUInt32,m.ddr3Addr + srcOffset,ptr⟩ ::
        if ioctlFailed dmaRead then []
        else [⟨0,size.toUInt32,n.ddr3Addr + dstOffset,ptr⟩] := by
  cases hc : r.process.contexts q with
  | none => simp [clEnqueueCopyBuffer, hm, hn, hc] at h
  | some c =>
    simp only [clEnqueueCopyBuffer, hm, hn, hc, Runtime.ret] at h
    split at h
    next =>
      obtain ⟨-,rfl⟩ := Prod.mk.inj (Option.some.inj h)
      exact .inl rfl
    next hsrc =>
      split at h
      next =>
        obtain ⟨-,rfl⟩ := Prod.mk.inj (Option.some.inj h)
        exact .inl rfl
      next hdst =>
        split at h
        next =>
          obtain ⟨-,rfl⟩ := Prod.mk.inj (Option.some.inj h)
          exact .inl rfl
        next ptr =>
          refine .inr ⟨UInt64.not_lt.mp hsrc,UInt64.not_lt.mp hdst,ptr,?_⟩
          split at h
          next hread =>
            obtain ⟨-,rfl⟩ := Prod.mk.inj (Option.some.inj h)
            rw [if_pos hread]
            rfl
          next hread =>
            rw [if_neg hread]
            split at h
            all_goals
              obtain ⟨-,rfl⟩ := Prod.mk.inj (Option.some.inj h)
              rfl

theorem issued_of_checked {offset size ptr : UInt64} {direction : UInt32} {m : Mem}
    (h : requestsIn es = if ptr = 0 ∨ offset + size > m.size then []
      else [⟨direction,size.toUInt32,m.ddr3Addr + offset,ptr⟩])
    (hp : p ∈ requestsIn es) : Issued m offset size p := by
  rw [h] at hp
  split at hp
  next => contradiction
  next hpass =>
    obtain rfl := List.mem_singleton.mp hp
    exact ⟨UInt64.not_lt.mp (not_or.mp hpass).2,rfl,rfl⟩

theorem issued_of_write {q : Option Nat} {b : Nat} {offset size ptr : UInt64} {dma : Ret}
    {m : Mem} (hm : r.process.mems b = some m)
    (h : clEnqueueWriteBuffer q (some b) offset size ptr dma r = some (r',es))
    (hp : p ∈ requestsIn es) : Issued m offset size p := by
  cases q with
  | none =>
    obtain ⟨-,rfl⟩ := Prod.mk.inj (Option.some.inj h)
    contradiction
  | some q => exact issued_of_checked (requests_of_write hm h) hp

theorem issued_of_read {q : Option Nat} {b : Nat} {offset size ptr : UInt64} {dma : Ret}
    {m : Mem} (hm : r.process.mems b = some m)
    (h : clEnqueueReadBuffer q (some b) offset size ptr dma r = some (r',es))
    (hp : p ∈ requestsIn es) : Issued m offset size p := by
  cases q with
  | none =>
    obtain ⟨-,rfl⟩ := Prod.mk.inj (Option.some.inj h)
    contradiction
  | some q => exact issued_of_checked (requests_of_read hm h) hp

/-- The two requests of a copy are told apart by their directions. -/
theorem issued_of_copy {q : Option Nat} {b k : Nat} {srcOffset dstOffset size : UInt64}
    {bounce : Option UInt64} {dmaRead dmaWrite : Ret}
    (h : clEnqueueCopyBuffer q (some b) (some k) srcOffset dstOffset size bounce dmaRead
      dmaWrite r = some (r',es)) (hp : p ∈ requestsIn es) :
    (p.direction = 1 ∧ ∀ m, r.process.mems b = some m → Issued m srcOffset size p) ∨
    (p.direction = 0 ∧ ∀ n, r.process.mems k = some n → Issued n dstOffset size p) := by
  cases q with
  | none =>
    obtain ⟨-,rfl⟩ := Prod.mk.inj (Option.some.inj h)
    contradiction
  | some q =>
    cases hm : r.process.mems b with
    | none => simp [clEnqueueCopyBuffer, hm] at h
    | some m =>
      cases hn : r.process.mems k with
      | none => simp [clEnqueueCopyBuffer, hm, hn] at h
      | some n =>
        rcases requests_of_copy hm hn h with hnone | ⟨hsrc,hdst,ptr,hrequests⟩
        · rw [hnone] at hp
          contradiction
        · rw [hrequests] at hp
          rcases List.mem_cons.mp hp with rfl | hp
          · refine .inl ⟨rfl,fun m' hm' => ?_⟩
            obtain rfl := Option.some.inj hm'
            exact ⟨hsrc,rfl,rfl⟩
          · split at hp
            next => contradiction
            next =>
              obtain rfl := List.mem_singleton.mp hp
              refine .inr ⟨rfl,fun n' hn' => ?_⟩
              obtain rfl := Option.some.inj hn'
              exact ⟨hdst,rfl,rfl⟩

theorem issued_of_step {call : BufferCall} (h : r.step call = some (r',es))
    (hp : p ∈ requestsIn es) {b : Nat} {offset size : UInt64}
    (hrange : call.range p.direction = some (b,offset,size)) {m : Mem}
    (hm : r.process.mems b = some m) : Issued m offset size p := by
  unfold BufferCall.range at hrange
  split at hrange
  next =>
    cases hrange
    exact issued_of_write hm h hp
  next =>
    cases hrange
    exact issued_of_read hm h hp
  next =>
    rcases issued_of_copy h hp with ⟨hdir,hissued⟩ | ⟨hdir,hissued⟩
    · rw [hdir, if_pos rfl] at hrange
      cases hrange
      exact hissued m hm
    · rw [hdir, if_neg (by decide)] at hrange
      cases hrange
      exact hissued m hm
  next => contradiction

end Commands

/-- What the driver says to a request that is in the limits of a buffer. -/
theorem accepted_iff {size ptr : UInt64} (hsize : 1 ≤ size.toNat)
    (hlimit : size.toNat ≤ maxMemAllocSize.toNat) (hptr : ptr ≠ 0)
    (hwrap : ptr.toNat + size.toNat ≤ 2 ^ 64) {direction : UInt32}
    (hdir : (dmaDirection direction).isSome) (ddr3Addr : UInt64) :
    (∃ t, dmaCheck ⟨direction,size.toUInt32,ddr3Addr,ptr⟩ = .ok t) ↔
      ptr.toNat % pageSize + size.toNat ≤ maxPages * pageSize := by
  have hmax : maxMemAllocSize.toNat = 32 * 1024 * 1024 := rfl
  have hnarrow : size.toUInt32.toNat = size.toNat := toUInt32_toNat (by omega)
  have hne : size.toUInt32 ≠ 0 := by
    intro hzero
    rw [hzero] at hnarrow
    have hzero' : (0 : UInt32).toNat = 0 := rfl
    omega
  rw [dmaCheck_ok_iff]
  simp only [hnarrow]
  constructor
  · rintro ⟨-,-,-,-,hpages,-⟩
    exact hpages
  · intro hpages
    exact ⟨hne,hptr,by omega,hwrap,hpages,hdir⟩

theorem range_passes {offset size bound : UInt64}
    (hfit : offset.toNat + size.toNat ≤ bound.toNat) : ¬offset + size > bound := by
  have hbound := bound.toNat_lt
  rw [gt_iff_lt, UInt64.lt_iff_toNat_lt, UInt64.toNat_add]
  omega

/-- For a buffer of at most 32 MB the one request of a write or a read is accepted
exactly if the pages it touches on the host are no more than the descriptors. -/
theorem buffer_request_accepted_iff {r : Runtime} {q b : Nat} {m : Mem}
    {offset size ptr : UInt64} (hm : r.process.mems b = some m)
    (hq : (r.process.contexts q).isSome = true) (hlimit : m.size ≤ maxMemAllocSize)
    (hsize : 1 ≤ size.toNat) (hfit : offset.toNat + size.toNat ≤ m.size.toNat) (hptr : ptr ≠ 0)
    (hwrap : ptr.toNat + size.toNat ≤ 2 ^ 64) (dma : Ret) :
    ∀ call ∈ [BufferCall.clEnqueueWriteBuffer (some q) (some b) offset size ptr dma,
      .clEnqueueReadBuffer (some q) (some b) offset size ptr dma],
    ∃ r' es p, r.step call = some (r',es) ∧ requestsIn es = [p] ∧
      ((∃ t, dmaCheck p = .ok t) ↔ ptr.toNat % pageSize + size.toNat ≤ maxPages * pageSize) := by
  obtain ⟨c,hc⟩ := Option.isSome_iff_exists.mp hq
  have hrange := range_passes hfit
  have hpass : ¬(ptr = 0 ∨ offset + size > m.size) := not_or.mpr ⟨hptr,hrange⟩
  rw [UInt64.le_iff_toNat_le] at hlimit
  intro call hcall
  rcases List.mem_cons.mp hcall with rfl | hcall
  · have hstep : (r.step (.clEnqueueWriteBuffer (some q) (some b) offset size ptr dma)).isSome := by
      simp only [Runtime.step, clEnqueueWriteBuffer, hm, hc, if_neg hptr, if_neg hrange]
      split <;> rfl
    obtain ⟨⟨r',es⟩,hr⟩ := Option.isSome_iff_exists.mp hstep
    refine ⟨r',es,_,hr,(requests_of_write hm hr).trans (if_neg hpass),?_⟩
    exact accepted_iff hsize (by omega) hptr hwrap rfl _
  · obtain rfl := List.mem_singleton.mp hcall
    have hstep : (r.step (.clEnqueueReadBuffer (some q) (some b) offset size ptr dma)).isSome := by
      simp only [Runtime.step, clEnqueueReadBuffer, hm, hc, if_neg hptr, if_neg hrange]
      split <;> rfl
    obtain ⟨⟨r',es⟩,hr⟩ := Option.isSome_iff_exists.mp hstep
    refine ⟨r',es,_,hr,(requests_of_read hm hr).trans (if_neg hpass),?_⟩
    exact accepted_iff hsize (by omega) hptr hwrap rfl _

/-- A process with a context and a buffer of 32 MB. -/
def largeBuffer : List BufferCall :=
  [.api (.clCreateContext 1 true (some 5) none (some 1)),
    .api (.clCreateBuffer (some 1) 0 maxMemAllocSize 0 (some 2) .ok)]

def startedRuntime : Runtime := ⟨startedProcess,fun _ => 0,fun _ => 0⟩

theorem largeBuffer_runs : (runtimeSystem.exec startedRuntime largeBuffer).isSome = true := by
  decide +kernel

theorem buffer_request_accepted_page : ∃ log r m, runtimeSystem.Run log r ∧
    r.process.mems 2 = some m ∧
    ∀ call ∈ [BufferCall.clEnqueueWriteBuffer (some 1) (some 2) 100 4096 0x1001 .ok,
      .clEnqueueReadBuffer (some 1) (some 2) 100 4096 0x1001 .ok],
    ∃ r' es p, r.step call = some (r',es) ∧ requestsIn es = [p] ∧
      ((∃ t, dmaCheck p = .ok t) ↔ (0x1001 : UInt64).toNat % pageSize + (4096 : UInt64).toNat ≤
        maxPages * pageSize) := by
  have hrun : runtimeSystem.Run _ _ :=
    .of_exec (S := runtimeSystem) (s := startedRuntime) startedProcess_init largeBuffer
      largeBuffer_runs
  exact ⟨_,_,⟨1,0,maxMemAllocSize,0,0x10000,1⟩,hrun,by decide +kernel,
    buffer_request_accepted_iff (m := ⟨1,0,maxMemAllocSize,0,0x10000,1⟩) (by decide +kernel)
      (by decide +kernel) (by decide) (by decide) (by decide) (by decide) (by decide) .ok⟩

/-- A write of the whole buffer from the second byte of a page touches 8193 pages. -/
theorem whole_buffer_refused : ∃ log r r' es p, runtimeSystem.Run log r ∧
    (r.process.mems 2).map Mem.size = some maxMemAllocSize ∧
    r.step (.clEnqueueWriteBuffer (some 1) (some 2) 0 maxMemAllocSize 0x1001 (.err .EINVAL)) =
      some (r',es) ∧ requestsIn es = [p] ∧ dmaCheck p = .error .EINVAL := by
  have hrun : runtimeSystem.Run _ _ :=
    .of_exec (S := runtimeSystem) (s := startedRuntime) startedProcess_init largeBuffer
      largeBuffer_runs
  exact ⟨_,_,_,_,⟨0,0x2000000,0x10000,0x1001⟩,hrun,by decide +kernel,rfl,rfl,rfl⟩

/-- A checked range stays inside its buffer exactly if its end does not wrap. -/
theorem Issued.inside_iff {m : Mem} {offset size : UInt64} {p : DmaParam}
    (h : Issued m offset size p) (haddr : m.ddr3Addr ≤ vramTotalSize)
    (hbound : m.size ≤ vramTotalSize) :
    Inside m size p ↔ offset.toNat + size.toNat < 2 ^ 64 := by
  have htotal : vramTotalSize.toNat = 2 ^ 30 := rfl
  have hoffset := offset.toNat_lt
  obtain ⟨hchecked,hsize,hddr3⟩ := h
  rw [UInt64.le_iff_toNat_le, htotal] at haddr hbound
  rw [UInt64.le_iff_toNat_le, UInt64.toNat_add] at hchecked
  have hstart : p.ddr3Addr.toNat = (m.ddr3Addr.toNat + offset.toNat) % 2 ^ 64 := by
    rw [hddr3, UInt64.toNat_add]
  have hlow : p.size.toNat = size.toNat % 2 ^ 32 := by
    rw [hsize, UInt64.toNat_toUInt32]
  constructor
  · rintro ⟨hsize,hstart',hfinish⟩
    omega
  · intro hnowrap
    constructor
    · omega
    · omega
    · omega

theorem vramBelow_run {log : List BufferEvent} {r : Runtime} (h : runtimeSystem.Run log r) :
    VramBelow r.process := by
  refine h.invariant (I := fun _ r => VramBelow r.process) (fun r hr => .of_init hr) ?_
  intro log r call r' es _ ih _ hstep
  rcases process_of_step hstep with hsame | ⟨c,es',-,hprocess,-,-⟩
  · rw [hsame]
    exact ih
  · exact ih.step hprocess

/-- Every request that a buffer command issues is for the bytes its caller asked
for, and only for bytes of its buffer, exactly if offset and size do not add up to
2^64. -/
theorem requests_inside_iff {log : List BufferEvent} {r : Runtime}
    (hrun : runtimeSystem.Run log r) {c : BufferCall} {r' : Runtime} {es : List BufferEvent}
    (h : r.step c = some (r',es)) {p : DmaParam} (hp : p ∈ requestsIn es) {b : Nat}
    {offset size : UInt64} (hrange : c.range p.direction = some (b,offset,size)) {m : Mem}
    (hm : r.process.mems b = some m) (hbound : m.size ≤ vramTotalSize) :
    Inside m size p ↔ offset.toNat + size.toNat < 2 ^ 64 :=
  (issued_of_step h hp hrange hm).inside_iff ((vramBelow_run hrun).ddr3Addr_le hm) hbound

/-- A process with a context and a buffer of one page. -/
def pageBuffer : List BufferCall :=
  [.api (.clCreateContext 1 true (some 5) none (some 1)),
    .api (.clCreateBuffer (some 1) 0 4096 0 (some 2) .ok)]

theorem pageBuffer_runs : (runtimeSystem.exec startedRuntime pageBuffer).isSome = true := by
  decide +kernel

theorem requests_inside_one_page : ∃ log r r' es p, runtimeSystem.Run log r ∧
    r.step (.clEnqueueWriteBuffer (some 1) (some 2) 96 4000 0x5000 .ok) = some (r',es) ∧
    p ∈ requestsIn es ∧
    (Inside ⟨1,0,4096,0,0x10000,1⟩ 4000 p ↔
      (96 : UInt64).toNat + (4000 : UInt64).toNat < 2 ^ 64) := by
  have hrun : runtimeSystem.Run _ _ :=
    .of_exec (S := runtimeSystem) (s := startedRuntime) startedProcess_init pageBuffer
      pageBuffer_runs
  exact ⟨_,_,_,_,⟨0,4000,0x10060,0x5000⟩,hrun,rfl,List.mem_singleton_self _,
    requests_inside_iff (c := .clEnqueueWriteBuffer (some 1) (some 2) 96 4000 0x5000 .ok) hrun rfl
      (List.mem_singleton_self _) rfl rfl (by decide)⟩

/-- The offset of a write wraps back over the 64 KB before the buffer, and the
request is for the kernel arguments. -/
theorem wrapped_write_leaves_buffer : ∃ log r r' es p, runtimeSystem.Run log r ∧
    r.process.mems 2 = some ⟨1,0,4096,0,0x10000,1⟩ ∧
    r.step (.clEnqueueWriteBuffer (some 1) (some 2) 0xFFFFFFFFFFFF0000 0x10000 0x5000 .ok) =
      some (r',es) ∧ p ∈ requestsIn es ∧ p.ddr3Addr = 0 ∧
    ¬Inside ⟨1,0,4096,0,0x10000,1⟩ 0x10000 p := by
  have hrun : runtimeSystem.Run _ _ :=
    .of_exec (S := runtimeSystem) (s := startedRuntime) startedProcess_init pageBuffer
      pageBuffer_runs
  refine ⟨_,_,_,_,⟨0,0x10000,0,0x5000⟩,hrun,rfl,rfl,List.mem_singleton_self _,rfl,fun h => ?_⟩
  exact absurd h.start (by decide)

end FpgaGpu.Umd
