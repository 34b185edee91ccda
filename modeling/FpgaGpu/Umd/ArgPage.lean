import FpgaGpu.Library.History
import FpgaGpu.Umd.KernelArgs

/-! Whatever is set on a kernel, and in whatever order, a launch uploads the value
that was last set at each index, in both lanes, and nothing else. -/
namespace FpgaGpu.Umd
open Driver Library

theorem VramBelow.addr_lt {p : Process} (h : VramBelow p) {k : Nat} {m : Mem}
    (hm : p.mems k = some m) : m.ddr3Addr.toNat < 2 ^ 32 := by
  have hle := h.start_le k m.region (by simp [Process.regions, hm])
  exact Nat.lt_of_le_of_lt hle (by decide)

/-- Values that fit: handles, and scalars of at most four bytes. -/
def ArgAction.fits : ArgAction → Bool
  | .setArg _ _ argSize _ => decide (argSize = 8 ∨ argSize ≤ 4)
  | .api _ => true

def FittingArgs (_ : List ArgEvent) (_ : ArgState) (a : ArgAction) : Prop := a.fits = true

def ArgEvent.setAt (i : Nat) : ArgEvent → Option Nat
  | .set index value => if index = i then some value else none
  | _ => none

/-- The value last set at an index. -/
def lastSet (log : List ArgEvent) (i : Nat) : Option Nat := lastOf (ArgEvent.setAt i) log

/-- What one step does: a call that has nothing to do with the kernel, a set that
is rejected, or one that is stored. -/
inductive ArgRule (s : ArgState) : ArgAction → ArgState → List ArgEvent → Prop where
  | api (call : ApiCall) (p : Process) (es : List ApiEvent)
      (hstep : s.process.step call = some (p,es)) :
      ArgRule s (.api call) {s with process := p} (es.map .api)
  | rejected (a : ArgAction) (status : ClStatus) (hstatus : status ≠ .CL_SUCCESS) :
      ArgRule s a s [.setReturned status]
  | stored (argIndex : UInt32) (argSize : UInt64) (bytes : Nat → UInt8) (e : ArgEntry)
      (value : Nat) (hindex : argIndex.toNat < maxArgs)
      (hentry : argEntry s.process.mems argSize bytes = some e)
      (hvalue : argValueOf s.process.mems argSize bytes = some value) :
      ArgRule s (.setArg true argIndex argSize (some bytes))
        {s with kernel := s.kernel.store argIndex.toNat e hindex}
        [.set argIndex.toNat value,.setReturned .CL_SUCCESS]

theorem argValueOf_isSome {mems : Nat → Option Mem} {argSize : UInt64} {bytes : Nat → UInt8}
    {e : ArgEntry} (h : argEntry mems argSize bytes = some e) :
    ∃ value, argValueOf mems argSize bytes = some value := by
  unfold argEntry at h
  unfold argValueOf
  split at h
  next hsize =>
    obtain ⟨mem,hmem,-⟩ := Option.map_eq_some_iff.mp h
    exact ⟨mem.ddr3Addr.toNat,by simp [hsize, hmem]⟩
  next hsize => exact ⟨_,if_neg hsize⟩

theorem argRule_of_step {s s' : ArgState} {a : ArgAction} {es : List ArgEvent}
    (h : s.step a = some (s',es)) : ArgRule s a s' es := by
  cases a with
  | api call =>
    obtain ⟨⟨p,es'⟩,hstep,heq⟩ := Option.map_eq_some_iff.mp h
    cases heq
    exact .api call p es' hstep
  | setArg kernel argIndex argSize argValue =>
    simp only [ArgState.step] at h
    split at h
    next hkernel =>
      subst hkernel
      unfold ArgState.setArg clSetKernelArg at h
      by_cases hindex : argIndex.toNat < maxArgs
      · simp only [hindex, ↓reduceDIte] at h
        cases argValue with
        | none =>
          cases h
          exact .rejected _ _ (by decide)
        | some bytes =>
          cases hentry : argEntry s.process.mems argSize bytes with
          | none => simp [hentry] at h
          | some e =>
            obtain ⟨value,hvalue⟩ := argValueOf_isSome hentry
            simp only [hentry, Option.map_some, ↓reduceIte, Option.bind_some, hvalue,
              Option.toList_some, List.map_cons, List.map_nil, List.cons_append,
              List.nil_append] at h
            cases h
            exact .stored argIndex argSize bytes e value hindex hentry hvalue
      · simp only [hindex, ↓reduceDIte] at h
        cases h
        exact .rejected _ _ (by decide)
    next =>
      cases h
      exact .rejected _ _ (by decide)

/-- An entry holds its value unchanged. -/
theorem argEntry_value {s : ArgState} {argSize : UInt64} {bytes : Nat → UInt8} {e : ArgEntry}
    {value : Nat} (hvram : VramBelow s.process) (hsize : argSize = 8 ∨ argSize ≤ 4)
    (hentry : argEntry s.process.mems argSize bytes = some e)
    (hvalue : argValueOf s.process.mems argSize bytes = some value) :
    e.isSet = true ∧ e.scalarVal.toNat = value := by
  unfold argEntry at hentry
  unfold argValueOf at hvalue
  split at hentry
  next hhandle =>
    obtain ⟨mem,hmem,rfl⟩ := Option.map_eq_some_iff.mp hentry
    obtain rfl : mem.ddr3Addr.toNat = value := by simpa [hhandle, hmem] using hvalue
    refine ⟨rfl,?_⟩
    rw [UInt64.toNat_toUInt32]
    exact Nat.mod_eq_of_lt (hvram.addr_lt hmem)
  next hhandle =>
    obtain rfl := Option.some.inj hentry
    obtain rfl : leNat argSize.toNat bytes = value := by simpa [hhandle] using hvalue
    have hfour := hsize.resolve_left hhandle
    have hlt : leNat argSize.toNat bytes < 2 ^ 32 :=
      Nat.lt_of_lt_of_le (leNat_lt _ _)
        (Nat.pow_le_pow_right (by decide) (UInt64.le_iff_toNat_le.mp hfour))
    refine ⟨rfl,?_⟩
    simp only [hfour, ↓reduceIte]
    rw [UInt32.toNat_ofNat']
    exact Nat.mod_eq_of_lt hlt

/-- An entry agrees with the value that was last set at its index, if any. -/
def ArgEntry.Holds (e : ArgEntry) : Option Nat → Prop
  | none => e.isSet = false ∧ e.scalarVal = 0
  | some value => e.isSet = true ∧ e.scalarVal.toNat = value

structure ArgInv (log : List ArgEvent) (s : ArgState) : Prop where
  vram : VramBelow s.process
  holds : ∀ i, (s.kernel.args i).Holds (lastSet log i)
  above : ∀ i, s.kernel.numArgs ≤ i → lastSet log i = none
  top : s.kernel.numArgs ≠ 0 → lastSet log (s.kernel.numArgs - 1) ≠ none

theorem lastSet_append_quiet {log es : List ArgEvent} {i : Nat}
    (h : ∀ e ∈ es, ArgEvent.setAt i e = none) : lastSet (log ++ es) i = lastSet log i := by
  have hnone : lastOf (ArgEvent.setAt i) es = none := by
    unfold lastOf
    rw [List.filterMap_eq_nil_iff.mpr h, List.getLast?_nil]
  unfold lastSet
  rw [lastOf_append, hnone, Option.none_or]

theorem lastSet_append_set (log : List ArgEvent) (index value i : Nat) (status : ClStatus) :
    lastSet (log ++ [.set index value,.setReturned status]) i =
      if index = i then some value else lastSet log i := by
  unfold lastSet
  rw [lastOf_append]
  by_cases h : index = i <;> simp [lastOf, List.filterMap_cons, ArgEvent.setAt, h]

theorem ArgInv.frame {log es : List ArgEvent} {s : ArgState} {p : Process} (h : ArgInv log s)
    (hp : VramBelow p) (hes : ∀ i, ∀ e ∈ es, ArgEvent.setAt i e = none) :
    ArgInv (log ++ es) {s with process := p} := by
  have hsame : ∀ i, lastSet (log ++ es) i = lastSet log i := fun i => lastSet_append_quiet (hes i)
  exact ⟨hp,fun i => hsame i ▸ h.holds i,fun i hi => hsame i ▸ h.above i hi,
    fun hne => hsame _ ▸ h.top hne⟩

theorem ArgInv.stored {log : List ArgEvent} {s : ArgState} {i : Nat} {e : ArgEntry} {value : Nat}
    {status : ClStatus} (h : ArgInv log s) (hindex : i < maxArgs)
    (hset : e.isSet = true ∧ e.scalarVal.toNat = value) :
    ArgInv (log ++ [.set i value,.setReturned status])
      {s with kernel := s.kernel.store i e hindex} := by
  have hlast := fun j => lastSet_append_set log i value j status
  refine ⟨h.vram,fun j => ?_,fun j hj => ?_,fun hne => ?_⟩
  · rw [hlast]
    by_cases hj : i = j
    · subst hj
      simpa [KernelObject.store, ArgEntry.Holds] using hset
    · simpa [KernelObject.store, hj, Ne.symm hj] using h.holds j
  · have hle : s.kernel.numArgs ≤ j ∧ i ≠ j := by
      simp only [KernelObject.store] at hj
      split at hj <;> omega
    rw [hlast, if_neg hle.2]
    exact h.above j hle.1
  · rw [hlast]
    simp only [KernelObject.store] at hne ⊢
    split
    next => simp
    next hlt =>
      split
      next => simp
      next => exact h.top (by omega)

theorem clCreateKernel_ok {program : Option Program} {kernelName malloc : Bool}
    {k : KernelObject} (h : clCreateKernel program kernelName malloc = .ok k) :
    k.numArgs = 0 ∧ ∀ i, k.args i = .zero := by
  unfold clCreateKernel at h
  split at h
  · contradiction
  split at h
  · contradiction
  split at h
  · contradiction
  split at h
  · contradiction
  rw [← Except.ok.inj h]
  exact ⟨rfl,fun _ => rfl⟩

theorem argInv_run {log : List ArgEvent} {s : ArgState}
    (h : argSystem.RunWith FittingArgs log s) : ArgInv log s := by
  apply h.invariant
  · rintro s ⟨⟨hvram,hcontexts,hmems⟩,program,hkernel⟩
    have hregions : ∀ k, s.process.regions k = none := fun k => by
      simp [Process.regions, hmems k]
    have hfresh := clCreateKernel_ok hkernel
    refine ⟨⟨?_,fun k r hr => ?_⟩,fun i => ?_,fun _ _ => rfl,fun hne => absurd hfresh.1 hne⟩
    · rw [hvram, Vram.heap_static]
      decide
    · simp [hregions k] at hr
    · rw [hfresh.2 i]
      exact ⟨rfl,rfl⟩
  · intro log s a s' es hrun ih hok hstep
    cases argRule_of_step hstep with
    | api call p es' hapi => exact ih.frame (ih.vram.step hapi) (by simp [ArgEvent.setAt])
    | rejected a status hstatus => exact ih.frame ih.vram (by simp [ArgEvent.setAt])
    | stored argIndex argSize bytes e value hindex hentry hvalue =>
      have hsize : argSize = 8 ∨ argSize ≤ 4 := by simpa [FittingArgs, ArgAction.fits] using hok
      exact ih.stored hindex (argEntry_value ih.vram hsize hentry hvalue)

theorem marshal_isSome {args : List KernelArg} {i : Nat} {buf : Nat → UInt32} :
    (marshal args i buf).isSome ↔ ∀ arg ∈ args, arg.isSet = true := by
  induction args generalizing i buf with
  | nil => simp [marshal]
  | cons arg rest ih =>
    unfold marshal
    by_cases h : arg.isSet
    · simpa [h] using ih
    · simp [h]

/-- The word that a launch finds for an index. -/
theorem kernel_args_get (k : KernelObject) (i : Nat) :
    k.kernel.args[i]? =
      if i < k.numArgs then some ⟨(k.args i).isSet,(k.args i).scalarVal⟩ else none := by
  unfold KernelObject.kernel
  by_cases h : i < k.numArgs <;> simp [h]

/-- Every word of the page is the value last set at its index, or 0. -/
theorem page_word {log : List ArgEvent} {s : ArgState} {nd : NDRange} {memalign : Bool}
    {launch : Launch} (hinv : ArgInv log s) (hkernel : nd.kernel = some s.kernel.kernel)
    (hprepare : prepare nd memalign = .ok launch) (j : Nat) :
    (launch.page j).toNat = (lastSet log (j / 2)).getD 0 := by
  obtain ⟨kernel,globalSize,hnd,-,hargs,-⟩ := prepare_ok hprepare
  obtain rfl := Option.some.inj (hkernel.symm.trans hnd)
  have hholds := hinv.holds (j / 2)
  rw [launch.page_eq, hargs, kernel_args_get]
  by_cases hlt : j / 2 < s.kernel.numArgs
  · cases hlast : lastSet log (j / 2) with
    | none =>
      rw [hlast] at hholds
      simp [hlt, hholds.2]
    | some value =>
      rw [hlast] at hholds
      simp [hlt, hholds.2]
  · rw [hinv.above _ (Nat.not_lt.mp hlt)]
    simp [hlt]

/-- With a gap among the indices that were set, the call is refused. -/
theorem prepare_gap {log : List ArgEvent} {s : ArgState} {nd : NDRange} {program : Program}
    (hinv : ArgInv log s) (hkernel : nd.kernel = some s.kernel.kernel)
    (hqueue : nd.commandQueue = true) (hprogram : s.kernel.program = some program)
    (hbuilt : program.isBuilt = true) (hglobal : nd.globalWorkSize.isSome = true)
    (hdim : nd.workDim ≠ 0 ∧ ¬3 < nd.workDim) {i j : Nat} (hij : i < j)
    (hi : lastSet log i = none) (hj : lastSet log j ≠ none) :
    prepare nd true = .error .CL_INVALID_KERNEL_ARGS := by
  have hlt : j < s.kernel.numArgs := by
    by_contra hge
    exact hj (hinv.above j (Nat.not_lt.mp hge))
  have hunset : (s.kernel.args i).isSet = false := by
    have hholds := hinv.holds i
    rw [hi] at hholds
    exact hholds.1
  have hnot : (marshal s.kernel.kernel.args 0 fun _ => 0).isSome = false := by
    rw [← Bool.not_eq_true, marshal_isSome]
    intro hall
    have hget := kernel_args_get s.kernel i
    rw [if_pos (Nat.lt_trans hij hlt)] at hget
    have hset := hall _ (List.mem_of_getElem? hget)
    simp [hunset] at hset
  obtain ⟨globalSize,hglobal⟩ := Option.isSome_iff_exists.mp hglobal
  have hprog : s.kernel.kernel.program = some program := hprogram
  unfold prepare
  simp [hqueue, hkernel, hprog, hbuilt, hglobal, hdim.1, hdim.2, hnot]

/-- The page of a launch holds the values last set, each in both lanes of its
index, and zeroes; no write of the marshalling loop leaves it. -/
structure PageFaithful (log : List ArgEvent) (k : KernelObject) (launch : Launch) : Prop where
  lanes : ∀ i < k.numArgs, ∃ value, lastSet log i = some value ∧
    (launch.page (2 * i)).toNat = value ∧ (launch.page (2 * i + 1)).toNat = value
  rest : ∀ j, 2 * k.numArgs ≤ j → launch.page j = 0
  inside : ∀ buf page, marshal launch.args 0 buf = some page →
    ∀ j, kernargWords ≤ j → page j = buf j
  word : ∀ j, (launch.page j).toNat = (lastSet log (j / 2)).getD 0

theorem pageFaithful {log : List ArgEvent} {s : ArgState} {nd : NDRange} {memalign : Bool}
    {launch : Launch} (hinv : ArgInv log s) (hkernel : nd.kernel = some s.kernel.kernel)
    (hprepare : prepare nd memalign = .ok launch) : PageFaithful log s.kernel launch := by
  obtain ⟨kernel,globalSize,hnd,-,hargs,-⟩ := prepare_ok hprepare
  obtain rfl := Option.some.inj (hkernel.symm.trans hnd)
  have hword := page_word hinv hkernel hprepare
  refine ⟨fun i hi => ?_,fun j hj => ?_,fun buf page hpage j hj => ?_,hword⟩
  · have hset : (s.kernel.args i).isSet = true := by
      have hget := kernel_args_get s.kernel i
      rw [if_pos hi, ← hargs] at hget
      exact marshal_isSome.mp launch.argsSet _ (List.mem_of_getElem? hget)
    have hholds := hinv.holds i
    cases hlast : lastSet log i with
    | none =>
      rw [hlast] at hholds
      simp [hset, ArgEntry.Holds] at hholds
    | some value =>
      refine ⟨value,rfl,?_,?_⟩
      · rw [hword, Nat.mul_div_cancel_left i (by decide), hlast, Option.getD_some]
      · rw [hword, (by omega : (2 * i + 1) / 2 = i), hlast, Option.getD_some]
  · have hnone := hinv.above (j / 2) (by omega)
    have hzero := hword j
    rw [hnone] at hzero
    exact UInt32.toNat_inj.mp hzero
  · have hfits := s.kernel.fits
    simp only [kernargWords, maxArgs] at hj hfits
    have hbeyond : ¬j / 2 - 0 < s.kernel.numArgs := by omega
    rw [marshal_eq hpage, hargs, kernel_args_get, if_neg hbeyond]
    simp

/-- What the upload of a launch leaves in the device is its page. -/
theorem Clients.step_uploaded {κ : Type} [DecidableEq κ] {queueMode : Int} {u u' : Clients κ}
    {k : κ} {launch : Launch} {es : List (ClientEvent κ)} (hphase : u.phase k = .upload launch)
    (hstep : u.step queueMode (.dma k .ok) = some (u',es)) :
    ∀ j < kernargWords, u'.ring.dev.kernarg j = launch.page j := by
  intro j hj
  simp only [Clients.step, hphase] at hstep
  obtain ⟨hnext,-⟩ := Prod.mk.inj (Option.some.inj hstep)
  rw [← hnext]
  exact if_pos hj

/-- Kernel arguments are marshalled faithfully, whatever was set before, and so the
device holds them after the upload. -/
theorem kernel_args_faithful {κ : Type} [DecidableEq κ] {log : List ArgEvent} {s : ArgState}
    (h : argSystem.RunWith FittingArgs log s) :
    (∀ nd memalign launch, nd.kernel = some s.kernel.kernel → prepare nd memalign = .ok launch →
      PageFaithful log s.kernel launch ∧
      ∀ (queueMode : Int) (u u' : Clients κ) (k : κ) (es : List (ClientEvent κ)),
        u.phase k = .upload launch → u.step queueMode (.dma k .ok) = some (u',es) →
        ∀ j < kernargWords, (u'.ring.dev.kernarg j).toNat = (lastSet log (j / 2)).getD 0) ∧
    (∀ log' s' nd nd' memalign memalign' launch launch',
      argSystem.RunWith FittingArgs log' s' → (∀ i, lastSet log i = lastSet log' i) →
      nd.kernel = some s.kernel.kernel → nd'.kernel = some s'.kernel.kernel →
      prepare nd memalign = .ok launch → prepare nd' memalign' = .ok launch' →
      launch.page = launch'.page) ∧
    (∀ nd program i j, nd.kernel = some s.kernel.kernel → nd.commandQueue = true →
      s.kernel.program = some program → program.isBuilt = true →
      nd.globalWorkSize.isSome = true → nd.workDim ≠ 0 ∧ ¬3 < nd.workDim →
      i < j → lastSet log i = none → lastSet log j ≠ none →
      ∀ (queueMode : Int) (u : Clients κ) (k : κ), u.phase k = .idle →
        u.step queueMode (.enqueue k nd true) =
          some (u,[.entered k nd,.returned k .CL_INVALID_KERNEL_ARGS])) ∧
    ∀ a s' es status, s.step a = some (s',es) → .setReturned status ∈ es →
      status ≠ .CL_SUCCESS → s' = s := by
  have hinv := argInv_run h
  refine ⟨fun nd memalign launch hkernel hok => ⟨pageFaithful hinv hkernel hok,?_⟩,?_,?_,?_⟩
  · intro queueMode u u' k es hphase hstep j hj
    rw [Clients.step_uploaded hphase hstep j hj, page_word hinv hkernel hok]
  · intro log' s' nd nd' memalign memalign' launch launch' h' hsame hkernel hkernel' hok hok'
    funext j
    apply UInt32.toNat_inj.mp
    rw [page_word hinv hkernel hok, page_word (argInv_run h') hkernel' hok', hsame]
  · intro nd program i j hkernel hqueue hprogram hbuilt hglobal hdim hij hi hj queueMode u k hidle
    have hrefused := prepare_gap hinv hkernel hqueue hprogram hbuilt hglobal hdim hij hi hj
    simp [Clients.step, hidle, hrefused]
  · intro a s' es status hstep hmem hfailed
    cases argRule_of_step hstep with
    | api call p es' hapi => simp at hmem
    | rejected a status' hstatus => rfl
    | stored argIndex argSize bytes e value hindex hentry hvalue =>
      obtain rfl : status = .CL_SUCCESS := by simpa using hmem
      exact absurd rfl hfailed

/-- A buffer, then index 0 set to a scalar and to the buffer, and index 1 to a
scalar of two bytes. -/
def setTwice : List ArgAction :=
  [.api (.clCreateContext 1 true (some 5) none (some 1)),
    .api (.clCreateBuffer (some 1) 0 100 0 (some 2) .ok),
    .setArg true 0 4 (some fun _ => 1),
    .setArg true 1 2 (some fun i => if i = 0 then 7 else 1),
    .setArg true 0 8 (some fun i => if i = 0 then 2 else 0),
    .setArg true 32 4 (some fun _ => 9)]

theorem oneInstruction_fits : (1 : UInt32).toNat ≤ ([7] : List UInt32).length := by decide

def setTwiceStart : ArgState :=
  ⟨startedProcess,⟨some ⟨true,[7],1,oneInstruction_fits⟩,fun _ => .zero,0,Nat.zero_le _⟩⟩

theorem setTwiceStart_init : argSystem.init setTwiceStart :=
  ⟨startedProcess_init,some ⟨true,[7],1,oneInstruction_fits⟩,rfl⟩

theorem setTwice_runs : (argSystem.exec setTwiceStart setTwice).isSome = true := by
  decide +kernel

/-- One client, about to upload. -/
def uploading (launch : Launch) : Clients Unit := ⟨probed _,fun _ => .upload launch,fun _ => 0⟩

theorem kernel_args_faithful_twice : ∃ log s launch u es, argSystem.RunWith FittingArgs log s ∧
    s.kernel.numArgs = 2 ∧ lastSet log 0 = some 0x10000 ∧ lastSet log 1 = some 0x107 ∧
    (uploading launch).step 0 (.dma () .ok) = some (u,es) ∧
    (u.ring.dev.kernarg 0).toNat = 0x10000 ∧ (u.ring.dev.kernarg 3).toNat = 0x107 ∧
    PageFaithful log s.kernel launch := by
  have hinit : argSystem.RunWith FittingArgs [] setTwiceStart := .init setTwiceStart_init
  have hfits : ∀ a ∈ setTwice, a.fits = true := by decide +kernel
  have hrun := hinit.continue setTwice (fun a ha _ _ => hfits a ha) setTwice_runs
  let s := ((argSystem.exec setTwiceStart setTwice).get setTwice_runs).1
  let nd : NDRange := ⟨true,some s.kernel.kernel,1,some fun _ => 2,none⟩
  have hset : (marshal s.kernel.kernel.args 0 fun _ => 0).isSome = true := by decide +kernel
  have hprogram : s.kernel.kernel.program = some ⟨true,[7],1,oneInstruction_fits⟩ := by
    decide +kernel
  obtain ⟨launch,hprepare⟩ : ∃ launch, prepare nd true = .ok launch := by
    unfold prepare
    simp only [nd, hprogram, hset]
    exact ⟨_,rfl⟩
  obtain ⟨hpage,hheld⟩ := (kernel_args_faithful (κ := Unit) hrun).1 nd true launch rfl hprepare
  have hstep : (uploading launch).step 0 (.dma () .ok) = some _ := rfl
  have hword := hheld 0 (uploading launch) _ () _ rfl hstep
  refine ⟨_,_,launch,_,_,hrun,by decide +kernel,by decide +kernel,by decide +kernel,hstep,?_,?_,
    hpage⟩
  · rw [hword 0 (by decide)]
    decide +kernel
  · rw [hword 3 (by decide)]
    decide +kernel

end FpgaGpu.Umd
