import FpgaGpu.Driver.RingFifo
import FpgaGpu.Driver.StagedWords
import FpgaGpu.Driver.Uapi

/-! Calls of `fpgagpu_ioctl` as processes make them, with a command word, a pointer and
their memory: what the firmware finds in a descriptor is what a caller had there. -/
namespace FpgaGpu.Driver
open Library

/-- A process has the request at `arg`, with any bytes as padding. -/
def UserMemory.HasRequest (m : UserMemory) (arg : UInt64) (r : Request) : Prop :=
  ∃ padding, m.Holds arg r.size (r.image padding)

/-- What a request has the driver publish. -/
def Request.job (m : UserMemory) : Request → Option Job
  | .submitCmd block => some (.submit block.cmd)
  | .loadKernel block => some (.load (block.kbin m))
  | .dmaTransfer _ | .doorbell | .getVersion => none

/-- The descriptor that should come of a request. -/
def Request.task (m : UserMemory) : Request → Option DispatchPacket
  | .submitCmd block => some (submitTask block.cmd)
  | .loadKernel block => some (loadTask (block.kbin m))
  | .dmaTransfer _ | .doorbell | .getVersion => none

theorem Request.task_of_job {m : UserMemory} {r : Request} {job : Job} (h : r.job m = some job) :
    r.task m = some job.task := by
  cases r <;> cases h <;> rfl

/-- The packed struct as the firmware reads it from the words of a slot. -/
def firmwareRead (desc : List UInt32) : DispatchPacket :=
  dispatchPacketStruct.read (bytesOfWords fun j => desc.getD j 0)

@[simp] theorem firmwareRead_words (p : DispatchPacket) : firmwareRead p.words = p :=
  (dispatchPacket_words p fun _ => 0).2

theorem copyFromUser_some {m : UserMemory} {arg : UInt64} {n : Nat} {bytes : Nat → UInt8}
    (h : copyFromUser m arg n = some bytes) : m.Holds arg n bytes := by
  unfold copyFromUser at h
  split at h
  next hall =>
    obtain rfl := Option.some.inj h
    intro k hk
    have hsome := List.all_eq_true.mp hall k (List.mem_range.mpr hk)
    obtain ⟨b,hb⟩ := Option.isSome_iff_exists.mp hsome
    simp only [hb, Option.getD_some]
  next => contradiction

theorem copyFromUser_none {m : UserMemory} {arg : UInt64} {n : Nat}
    (h : copyFromUser m arg n = none) : ∃ k < n, m (arg + UInt64.ofNat k) = none := by
  by_contra hnot
  have hholds : m.Holds arg n fun k => (m (arg + UInt64.ofNat k)).getD 0 := by
    intro k hk
    cases hb : m (arg + UInt64.ofNat k) with
    | none => exact absurd ⟨k,hk,hb⟩ hnot
    | some b => simp [hb]
  obtain ⟨bytes,hcopy,-⟩ := hholds.copy
  rw [h] at hcopy
  contradiction

/-- What was copied is a variable of the struct. -/
theorem holds_image {τ : Type} (c : CStruct τ) {m : UserMemory} {arg : UInt64}
    {bytes : Nat → UInt8} (h : copyFromUser m arg (sizeof c.fields) = some bytes) :
    m.Holds arg (sizeof c.fields) (c.image (c.read bytes) bytes) := by
  rw [c.image_read]
  exact copyFromUser_some h

/-- A call that gets past the first checks makes a request, which it has or cannot be
read. -/
theorem fpgagpuIoctl_some {m : UserMemory} {cmd : UInt32} {arg : UInt64} {handler : IoctlCase}
    (h : fpgagpuIoctl m cmd arg = some handler) : ∃ r : Request, cmd = r.word ∧
      (m.HasRequest arg r ∧ handler = r.handler m arg ∨
        (∃ k < r.size, m (arg + UInt64.ofNat k) = none) ∧ handler = r.fault arg) := by
  by_cases hdma : cmd = iocDmaTransfer
  · subst hdma
    rw [fpgagpuIoctl_dma] at h
    obtain rfl := Option.some.inj h
    cases hcopy : copyFromUser m arg (sizeof dmaParamStruct.fields) with
    | none => exact ⟨.dmaTransfer ⟨0,0,0,0⟩,rfl,.inr ⟨copyFromUser_none hcopy,rfl⟩⟩
    | some bytes =>
      exact ⟨.dmaTransfer (dmaParamStruct.read bytes),rfl,
        .inl ⟨⟨bytes,holds_image dmaParamStruct hcopy⟩,rfl⟩⟩
  by_cases hsubmit : cmd = iocSubmitCmd
  · subst hsubmit
    rw [fpgagpuIoctl_submit] at h
    obtain rfl := Option.some.inj h
    cases hcopy : copyFromUser m arg (sizeof launchCmdStruct.fields) with
    | none => exact ⟨.submitCmd ⟨⟨0,0,0,0,0,0,0,0⟩,0,0⟩,rfl,.inr ⟨copyFromUser_none hcopy,rfl⟩⟩
    | some bytes =>
      exact ⟨.submitCmd (launchCmdStruct.read bytes),rfl,
        .inl ⟨⟨bytes,holds_image launchCmdStruct hcopy⟩,rfl⟩⟩
  by_cases hdoorbell : cmd = iocDoorbell
  · subst hdoorbell
    rw [fpgagpuIoctl_doorbell] at h
    obtain rfl := Option.some.inj h
    exact ⟨.doorbell,rfl,.inl ⟨⟨fun _ => 0,fun k hk => absurd hk (Nat.not_lt_zero k)⟩,rfl⟩⟩
  by_cases hversion : cmd = iocGetVersion
  · subst hversion
    rw [fpgagpuIoctl_version] at h
    obtain rfl := Option.some.inj h
    exact ⟨.getVersion,rfl,.inl ⟨⟨fun _ => 0,fun k hk => absurd hk (Nat.not_lt_zero k)⟩,rfl⟩⟩
  by_cases hload : cmd = iocLoadKernel
  · subst hload
    rw [fpgagpuIoctl_load] at h
    obtain rfl := Option.some.inj h
    cases hcopy : copyFromUser m arg (sizeof kernelBinaryStruct.fields) with
    | none => exact ⟨.loadKernel ⟨0,0,0⟩,rfl,.inr ⟨copyFromUser_none hcopy,rfl⟩⟩
    | some bytes =>
      exact ⟨.loadKernel (kernelBinaryStruct.read bytes),rfl,
        .inl ⟨⟨bytes,holds_image kernelBinaryStruct hcopy⟩,rfl⟩⟩
  have hother : fpgagpuIoctl m cmd arg = none := by
    apply fpgagpuIoctl_other
    intro r
    cases r <;> assumption
  rw [hother] at h
  contradiction

/-- A call that hands the ring a descriptor has the request that this descriptor is for. -/
theorem fpgagpuIoctl_job {m : UserMemory} {cmd : UInt32} {arg : UInt64} {job : Job}
    (h : fpgagpuIoctl m cmd arg = some (.ring job.call)) : ∃ r : Request, cmd = r.word ∧
      m.HasRequest arg r ∧ r.job m = some job := by
  obtain ⟨r,hword,⟨hhas,hhandler⟩ | ⟨-,hfault⟩⟩ := fpgagpuIoctl_some h
  · refine ⟨r,hword,hhas,?_⟩
    cases r <;> cases job <;> cases hhandler <;> rfl
  · cases r <;> cases job <;> cases hfault

inductive ByteAction (ι : Type) where
  | ioctl (c : ι) (m : UserMemory) (cmd : UInt32) (arg : UInt64)
  | ring (a : Action ι)

inductive ByteEvent (ι : Type) where
  | ioctl (c : ι) (m : UserMemory) (cmd : UInt32) (arg : UInt64)
  | notty (c : ι) (cmd : UInt32)
  | ring (e : Event ι)

variable {ι : Type}

def ByteEvent.ring? : ByteEvent ι → Option (Event ι)
  | .ring e => some e
  | _ => none

/-- What the ring sees. -/
def ringEvents (log : List (ByteEvent ι)) : List (Event ι) := log.filterMap ByteEvent.ring?

@[simp] theorem ringEvents_ring (es : List (Event ι)) : ringEvents (es.map .ring) = es := by
  simp [ringEvents, ByteEvent.ring?, List.filterMap_map, Function.comp_def]

variable [DecidableEq ι]

/-- A DMA_TRANSFER and a GET_VERSION do not come to the ring. -/
def byteStep (queueMode : Int) (s : State ι) :
    ByteAction ι → Option (State ι × List (ByteEvent ι))
  | .ioctl c m cmd arg =>
      match fpgagpuIoctl m cmd arg with
      | none => some (s,[.notty c cmd])
      | some (.ring call) =>
          (step queueMode s (.start c call)).map fun r =>
            (r.1,.ioctl c m cmd arg :: r.2.map .ring)
      | some (.dmaTransfer _) | some (.getVersion _) => some (s,[.ioctl c m cmd arg])
  | .ring (.start _ _) => none
  | .ring a => (step queueMode s a).map fun r => (r.1,r.2.map .ring)

def byteSystem (ι : Type) [DecidableEq ι] (queueMode : Int) :
    System (State ι) (ByteAction ι) (ByteEvent ι) where
  init := Probed
  step := byteStep queueMode

theorem Rule.no_called {queueMode : Int} {s s' : State ι} {a : Action ι} {es : List (Event ι)}
    (h : Rule queueMode s a s' es) (ha : ∀ c call, a ≠ .start c call) :
    ∀ c call, .called c call ∉ es := by
  cases h with
  | start c call => exact absurd rfl (ha c call)
  | _ => simp

/-- What a step of a process or of the ring can be. -/
inductive ByteRule (queueMode : Int) (s : State ι) :
    ByteAction ι → State ι → List (ByteEvent ι) → Prop where
  | refused (c : ι) (m : UserMemory) (cmd : UInt32) (arg : UInt64)
      (h : fpgagpuIoctl m cmd arg = none) :
      ByteRule queueMode s (.ioctl c m cmd arg) s [.notty c cmd]
  | elsewhere (c : ι) (m : UserMemory) (cmd : UInt32) (arg : UInt64)
      (h : fpgagpuIoctl m cmd arg ≠ none) :
      ByteRule queueMode s (.ioctl c m cmd arg) s [.ioctl c m cmd arg]
  | called (c : ι) (m : UserMemory) (cmd : UInt32) (arg : UInt64) (call : Call) {s' : State ι}
      (h : fpgagpuIoctl m cmd arg = some (.ring call))
      (hstep : step queueMode s (.start c call) = some (s',[.called c call])) :
      ByteRule queueMode s (.ioctl c m cmd arg) s' [.ioctl c m cmd arg,.ring (.called c call)]
  | ring (b : Action ι) {s' : State ι} {es : List (Event ι)}
      (hstep : step queueMode s b = some (s',es)) (hcalled : ∀ c call, .called c call ∉ es) :
      ByteRule queueMode s (.ring b) s' (es.map .ring)

theorem byteRule_of_step {queueMode : Int} {s s' : State ι} {a : ByteAction ι}
    {es : List (ByteEvent ι)} (h : byteStep queueMode s a = some (s',es)) :
    ByteRule queueMode s a s' es := by
  cases a with
  | ioctl c m cmd arg =>
    simp only [byteStep] at h
    split at h
    next hnone =>
      cases h
      exact .refused c m cmd arg hnone
    next call hcall =>
      obtain ⟨⟨t,es'⟩,hstep,heq⟩ := Option.map_eq_some_iff.mp h
      cases heq
      have hrule := rule_of_step hstep
      cases hrule with
      | start => exact .called c m cmd arg call hcall hstep
      | testTrue _ _ _ _ _ ha => cases ha
      | testFalse _ _ _ _ _ ha => cases ha
    next hdma =>
      cases h
      exact .elsewhere c m cmd arg (by rw [hdma]; simp)
    next hversion =>
      cases h
      exact .elsewhere c m cmd arg (by rw [hversion]; simp)
  | ring b =>
    have hring : (step queueMode s b).map (fun r => (r.1,r.2.map ByteEvent.ring)) = some (s',es) →
        (∀ c call, b ≠ .start c call) → ByteRule queueMode s (.ring b) s' es := by
      intro hmap hb
      obtain ⟨⟨t,es'⟩,hstep,heq⟩ := Option.map_eq_some_iff.mp hmap
      cases heq
      exact .ring b hstep ((rule_of_step hstep).no_called hb)
    cases b with
    | start c call => contradiction
    | access c => exact hring h (by simp)
    | expire c => exact hring h (by simp)
    | interrupt c => exact hring h (by simp)
    | firmware => exact hring h (by simp)
    | upload page => exact hring h (by simp)

section Runs
variable {queueMode : Int} {log : List (ByteEvent ι)} {s : State ι}

/-- A condition on the accesses to the ring. -/
def OnRing (ok : List (Event ι) → State ι → Action ι → Prop) (log : List (ByteEvent ι))
    (s : State ι) (a : ByteAction ι) : Prop :=
  ∀ b, a = .ring b → ok (ringEvents log) s b

/-- To the ring it is a run of calls, under any condition that is not about their start. -/
theorem byteSystem_image {ok : List (Event ι) → State ι → Action ι → Prop}
    (hstart : ∀ log s c call, ok log s (.start c call))
    (h : (byteSystem ι queueMode).RunWith (OnRing ok) log s) :
    (ringSystem ι queueMode).RunWith ok (ringEvents log) s := by
  refine h.image (A := ringSystem ι queueMode) id ByteEvent.ring? (fun s hs => hs) ?_
  intro log s a s' es _ hok hstep
  cases byteRule_of_step hstep with
  | refused => exact .inl ⟨rfl,rfl⟩
  | elsewhere => exact .inl ⟨rfl,rfl⟩
  | called c m cmd arg call _ hcall => exact .inr ⟨.start c call,hstart _ _ c call,hcall⟩
  | ring b hb _ =>
    refine .inr ⟨b,hok b rfl,?_⟩
    rw [show List.filterMap ByteEvent.ring? (List.map ByteEvent.ring _) = _ from
      ringEvents_ring _]
    exact hb

theorem byteSystem_ring (h : (byteSystem ι queueMode).Run log s) :
    (ringSystem ι queueMode).Run (ringEvents log) s :=
  byteSystem_image (fun _ _ _ _ => trivial) (h.mono fun _ _ _ _ _ _ _ => trivial)

/-- The ring is called by `fpgagpu_ioctl` only. -/
theorem called_by_ioctl (h : (byteSystem ι queueMode).Run log s) {c : ι} {call : Call}
    (hcalled : .called c call ∈ ringEvents log) : ∃ m cmd arg,
      fpgagpuIoctl m cmd arg = some (.ring call) ∧ .ioctl c m cmd arg ∈ log := by
  have hall := h.invariant (I := fun log _ => ∀ c call, .called c call ∈ ringEvents log →
    ∃ m cmd arg, fpgagpuIoctl m cmd arg = some (.ring call) ∧ .ioctl c m cmd arg ∈ log)
    (fun s _ c call hmem => by simp [ringEvents] at hmem) ?_
  · exact hall c call hcalled
  · intro log s a s' es _ ih _ hstep c call hmem
    rw [ringEvents, List.filterMap_append, List.mem_append] at hmem
    rcases hmem with hold | hnew
    · obtain ⟨m,cmd,arg,hioctl,hin⟩ := ih c call hold
      exact ⟨m,cmd,arg,hioctl,List.mem_append_left es hin⟩
    · cases byteRule_of_step hstep with
      | refused => simp [ByteEvent.ring?] at hnew
      | elsewhere => simp [ByteEvent.ring?] at hnew
      | called c' m cmd arg call' hioctl _ =>
        simp only [ByteEvent.ring?, List.filterMap_cons, List.filterMap_nil,
          List.mem_singleton, Event.called.injEq] at hnew
        obtain ⟨rfl,rfl⟩ := hnew
        exact ⟨m,cmd,arg,hioctl,List.mem_append_right log List.mem_cons_self⟩
      | ring b _ hquiet =>
        rw [show List.filterMap ByteEvent.ring? (List.map ByteEvent.ring _) = _ from
          ringEvents_ring _] at hnew
        exact absurd hnew (hquiet c call)

theorem fpgagpuIoctl_word_ne_none (m : UserMemory) (arg : UInt64) (r : Request) :
    fpgagpuIoctl m r.word arg ≠ none := by
  cases r with
  | dmaTransfer _ => simp [Request.word, fpgagpuIoctl_dma]
  | submitCmd _ => simp [Request.word, fpgagpuIoctl_submit]
  | doorbell => simp [Request.word, fpgagpuIoctl_doorbell]
  | getVersion => simp [Request.word, fpgagpuIoctl_version]
  | loadKernel _ => simp [Request.word, fpgagpuIoctl_load]

/-- `-ENOTTY` is for the words of no request, and they get nothing else. -/
theorem notty_iff (h : (byteSystem ι queueMode).Run log s) :
    (∀ c cmd, .notty c cmd ∈ log → ∀ r : Request, cmd ≠ r.word) ∧
      ∀ c m cmd arg, .ioctl c m cmd arg ∈ log → ∃ r : Request, cmd = r.word := by
  refine h.invariant (I := fun log _ =>
    (∀ c cmd, .notty c cmd ∈ log → ∀ r : Request, cmd ≠ r.word) ∧
      ∀ c m cmd arg, .ioctl c m cmd arg ∈ log → ∃ r : Request, cmd = r.word)
    (fun _ _ => ⟨by simp,by simp⟩) ?_
  intro log s a s' es _ ih _ hstep
  have hword : ∀ {m : UserMemory} {cmd : UInt32} {arg : UInt64},
      fpgagpuIoctl m cmd arg ≠ none → ∃ r : Request, cmd = r.word := by
    intro m cmd arg hne
    obtain ⟨handler,hsome⟩ := Option.ne_none_iff_exists'.mp hne
    obtain ⟨r,hr,-⟩ := fpgagpuIoctl_some hsome
    exact ⟨r,hr⟩
  constructor
  · intro c cmd hmem r
    rcases List.mem_append.mp hmem with hold | hnew
    · exact ih.1 c cmd hold r
    · cases byteRule_of_step hstep with
      | refused c' m cmd' arg hnone =>
        obtain ⟨rfl,rfl⟩ : c = c' ∧ cmd = cmd' := by simpa using hnew
        rintro rfl
        exact fpgagpuIoctl_word_ne_none m arg r hnone
      | elsewhere => simp at hnew
      | called => simp at hnew
      | ring => simp at hnew
  · intro c m cmd arg hmem
    rcases List.mem_append.mp hmem with hold | hnew
    · exact ih.2 c m cmd arg hold
    · cases byteRule_of_step hstep with
      | refused => simp at hnew
      | elsewhere c' m' cmd' arg' hne =>
        obtain ⟨-,-,rfl,-⟩ : c = c' ∧ m = m' ∧ cmd = cmd' ∧ arg = arg' := by simpa using hnew
        exact hword hne
      | called c' m' cmd' arg' call hsome _ =>
        obtain ⟨-,-,rfl,-⟩ : c = c' ∧ m = m' ∧ cmd = cmd' ∧ arg = arg' := by simpa using hnew
        exact hword (by rw [hsome]; simp)
      | ring => simp at hnew

/-- Who published, in order. -/
def publishers (log : List (Event ι)) : List ι := (publishedIn log).map Prod.fst

/-- The descriptor at a place is for the request that its publisher had at its pointer. -/
def FromRequest (log : List (ByteEvent ι)) (i : Nat) (desc : List UInt32) (c : ι)
    (m : UserMemory) (r : Request) : Prop :=
  ∃ arg, (publishers (ringEvents log))[i]? = some c ∧ .ioctl c m r.word arg ∈ log ∧
    m.HasRequest arg r ∧ r.task m = some (firmwareRead desc)

/-- The instructions behind the pointer of a LOAD_KERNEL request, staged by the call one
after the other, and all of them before its descriptor was published. -/
structure StagedCode (log : List (Event ι)) (c : ι) (m : UserMemory) (b : KernelBlock)
    (words : List UInt32) : Prop where
  length : words.length = b.instrSize.toNat
  read : ∀ (j : Nat) (w : UInt32), words[j]? = some w →
    getUser m (b.userInstrPtr + UInt64.ofNat (4 * j)) = some w
  wrote : stagingWrites c log = words.mapIdx Prod.mk
  before : ∀ pre post job, log = pre ++ .published c job :: post →
    stagingWrites c pre = words.mapIdx Prod.mk

omit [DecidableEq ι] in
/-- The program is loaded from the staging area as it was read. -/
def LoadedFrom (log : List (Event ι)) (i : Nat) (desc : List UInt32) (words : List UInt32) : Prop :=
  ∃ dev, (executedIn log)[i]? = some (desc,dev) ∧ ∀ (j : Nat) (w : UInt32), words[j]? = some w →
    dev.staging j = w ∧ (dev.execute desc).iram j = w

theorem stagedCode_of_published {log : List (Event ι)} {s : State ι} {c : ι} {m : UserMemory}
    {b : KernelBlock} (h : (ringSystem ι queueMode).Run log s)
    (hpub : (c,.load (b.kbin m)) ∈ publishedIn log) : ∃ words, StagedCode log c m b words := by
  obtain ⟨words,hlength,hread,hwrote⟩ := (stageOrder_run h c).published _ hpub
  refine ⟨words,hlength,hread,hwrote,fun pre post job hlog => ?_⟩
  obtain ⟨p,hp⟩ := List.getElem?_of_mem hpub
  have hplace : (publishedIn log)[(publishedIn pre).length]? = some (c,job) := by
    rw [hlog, publishedIn_append, List.getElem?_append_right (Nat.le_refl _), Nat.sub_self]
    rfl
  obtain rfl := published_once h c _ _ _ _ hp hplace
  obtain rfl : .load (b.kbin m) = job := (Prod.mk.inj (Option.some.inj (hp.symm.trans hplace))).2
  obtain ⟨early,hearly,-,hbefore⟩ := staged_before_published h pre _ post hlog c _ rfl
  -- by then the call has written as many words as ever
  have hlengths : (stagingWrites c pre).length = (stagingWrites c log).length := by
    rw [hbefore, hwrote, List.length_mapIdx, List.length_mapIdx, hearly, hlength]
  have hfirst : stagingWrites c pre <+: stagingWrites c log :=
    ⟨_,by rw [hlog, stagingWrites_append]⟩
  rw [hfirst.eq_of_length hlengths, hwrote]

/-- A program that no other call has overwritten is loaded as it was read. -/
theorem loadedFrom_of_spares {log : List (Event ι)} {s : State ι} {c : ι} {m : UserMemory}
    {b : KernelBlock} {words : List UInt32} {i : Nat}
    (h : (ringSystem ι queueMode).RunWith SparesStaged log s)
    (hpub : (publishedIn log)[i]? = some (c,.load (b.kbin m))) (hi : i < executedCount log)
    (hcode : StagedCode log c m b words) :
    LoadedFrom log i (Job.load (b.kbin m)).task.words words := by
  obtain ⟨⟨desc,dev⟩,hexec⟩ : ∃ x, (executedIn log)[i]? = some x := ⟨_,List.getElem?_eq_getElem hi⟩
  obtain ⟨c',job,hpub',rfl⟩ := executed_published h.run hexec
  obtain ⟨rfl,rfl⟩ := Prod.mk.inj (Option.some.inj (hpub'.symm.trans hpub))
  have hstaged := (stagingInv_run h).owned i _ dev c' _ hexec hpub
  refine ⟨dev,hexec,fun j w hw => ?_⟩
  have hj : j < b.instrSize.toNat := hcode.length ▸ (List.getElem?_eq_some_iff.mp hw).1
  have hword : dev.staging j = w :=
    Option.some.inj ((hstaged j hj).symm.trans (hcode.read j w hw))
  refine ⟨hword,?_⟩
  rw [execute_load, ← hword]
  exact if_pos hj

/-- The descriptors that the firmware reads, field by field, are those of the requests that
the publishers of the ring had in their memories, one for each, in order. A LOAD_KERNEL
has staged the instructions behind its pointer, and they get to I-RAM as long as no call
overwrites what another has staged and still needs. -/
theorem bytes_to_firmware (h : (byteSystem ι queueMode).Run log s) :
    (∀ (i : Nat) (desc : List UInt32), (consumedIn (ringEvents log))[i]? = some desc →
      ∃ c m r, FromRequest log i desc c m r ∧
        ∀ block, r = .loadKernel block → ∃ words, StagedCode (ringEvents log) c m block words ∧
          ((byteSystem ι queueMode).RunWith (OnRing SparesStaged) log s →
            LoadedFrom (ringEvents log) i desc words)) ∧
    (∀ (i j : Nat) (c : ι), (publishers (ringEvents log))[i]? = some c →
      (publishers (ringEvents log))[j]? = some c → i = j) ∧
    (∀ c cmd, .notty c cmd ∈ log → ∀ r : Request, cmd ≠ r.word) ∧
    ∀ c m cmd arg, .ioctl c m cmd arg ∈ log → ∃ r : Request, cmd = r.word := by
  have hring := byteSystem_ring h
  refine ⟨fun i desc hdesc => ?_,fun i j c hi hj => ?_,notty_iff h⟩
  · -- the ring is a queue, so the descriptor is the one published at its place
    obtain ⟨rest,hrest⟩ := consumed_initial hring
    have hplace : ((publishedIn (ringEvents log)).map fun x => x.2.task.words)[i]? = some desc := by
      rw [← hrest, List.getElem?_append_left (List.getElem?_eq_some_iff.mp hdesc).1, hdesc]
    rw [List.getElem?_map, Option.map_eq_some_iff] at hplace
    obtain ⟨⟨c,job⟩,hpublished,rfl⟩ := hplace
    have hexecuted : i < executedCount (ringEvents log) :=
      lt_of_lt_of_le (List.getElem?_eq_some_iff.mp hdesc).1 (consumed_le_executed hring)
    have hcalled := published_called hring c job (List.mem_of_getElem? hpublished)
    obtain ⟨m,cmd,arg,hioctl,hin⟩ := called_by_ioctl h hcalled
    obtain ⟨r,rfl,hhas,hjob⟩ := fpgagpuIoctl_job hioctl
    have hpublisher : (publishers (ringEvents log))[i]? = some c := by
      rw [publishers, List.getElem?_map, hpublished, Option.map_some]
    have htask : r.task m = some (firmwareRead job.task.words) := by
      rw [firmwareRead_words, Request.task_of_job hjob]
    refine ⟨c,m,r,⟨arg,hpublisher,hin,hhas,htask⟩,?_⟩
    rintro block rfl
    obtain rfl := Option.some.inj hjob
    obtain ⟨words,hcode⟩ := stagedCode_of_published hring (List.mem_of_getElem? hpublished)
    have hnotStart : ∀ (log : List (Event ι)) (s : State ι) c call,
        SparesStaged log s (.start c call) := by
      intro log s c call c' kbin i w heq
      contradiction
    refine ⟨words,hcode,fun hspares => ?_⟩
    exact loadedFrom_of_spares (byteSystem_image hnotStart hspares) hpublished hexecuted hcode
  · rw [publishers, List.getElem?_map, Option.map_eq_some_iff] at hi hj
    obtain ⟨⟨_,job⟩,hi,rfl⟩ := hi
    obtain ⟨⟨_,job'⟩,hj,hsame⟩ := hj
    obtain rfl : _ = _ := hsame
    exact published_once hring _ _ _ _ _ hi hj

end Runs

/-- A process with one launch command at address 64, and nothing else that can be read. -/
def launchMemory : UserMemory := fun a =>
  if 64 ≤ a ∧ a < 120 then
    some (launchCmdStruct.image ⟨oneLaunch,0,0⟩ (fun _ => 0xEE) (a - 64).toNat)
  else none

/-- A process with a program of two words at address 256, and at address 64 what points
to it. -/
def codeMemory (first second : UInt32) : UserMemory := fun a =>
  if 64 ≤ a ∧ a < 80 then
    some (kernelBinaryStruct.image ⟨256,2,5⟩ (fun _ => 0xEE) (a - 64).toNat)
  else if 256 ≤ a ∧ a < 264 then
    some (bytesOfWords (fun i => if i = 0 then first else second) (a - 256).toNat)
  else none

/-- A call that is none, and then two loads with a launch between them. -/
def loadsAndLaunch : List (ByteAction (Fin 3)) :=
  let onRing : List (Action (Fin 3)) → List (ByteAction (Fin 3)) := List.map .ring
  [.ioctl 1 launchMemory iocWaitForIrq 0,.ioctl 0 (codeMemory 7 9) iocLoadKernel 64] ++
    onRing ([.access 0,.access 0] ++ sectionSteps 0 ++ firmwareTurn ++ [.access 0]) ++
    [.ioctl 2 (codeMemory 8 6) iocLoadKernel 64,.ring (.access 2),
      .ioctl 1 launchMemory iocSubmitCmd 64,.ring (.access 2)] ++
    onRing (sectionSteps 1 ++ firmwareTurn ++ sectionSteps 2 ++ firmwareTurn)

/-- A word is staged only while no other call needs the staging area. -/
def bytesWait (s : List (ByteEvent (Fin 3)) × State (Fin 3)) : ByteAction (Fin 3) → Bool
  | .ioctl _ _ _ _ => true
  | .ring a => stagesWait (ringEvents s.1,s.2) a

theorem onRing_of_bytesWait {log : List (ByteEvent (Fin 3))} {s : State (Fin 3)}
    {a : ByteAction (Fin 3)} (h : bytesWait (log,s) a = true) : OnRing SparesStaged log s a := by
  rintro b rfl
  exact sparesStaged_of_stagesWait h

theorem loadsAndLaunch_run : (((byteSystem (Fin 3) 0).recorded.guarded bytesWait).exec
    ([],probed (Fin 3)) loadsAndLaunch).isSome = true := by
  decide +kernel

def ByteEvent.refused? : ByteEvent ι → Option UInt32
  | .notty _ cmd => some cmd
  | _ => none

omit [DecidableEq ι] in
theorem mem_refused {log : List (ByteEvent ι)} {cmd : UInt32}
    (h : cmd ∈ log.filterMap ByteEvent.refused?) : ∃ c, .notty c cmd ∈ log := by
  obtain ⟨e,he,hword⟩ := List.mem_filterMap.mp h
  unfold ByteEvent.refused? at hword
  split at hword
  next c cmd' =>
    obtain rfl := Option.some.inj hword
    exact ⟨c,he⟩
  next => contradiction

theorem loadsAndLaunch_refused : ((((byteSystem (Fin 3) 0).recorded.guarded bytesWait).exec
    ([],probed (Fin 3)) loadsAndLaunch).get loadsAndLaunch_run).1.1.filterMap ByteEvent.refused? =
      [iocWaitForIrq] := by
  decide +kernel

theorem bytes_to_firmware_two_loads : ∃ log s,
    (byteSystem (Fin 3) 0).RunWith (OnRing SparesStaged) log s ∧
    publishers (ringEvents log) = [0,1,2] ∧
    (consumedIn (ringEvents log)).map (fun desc => (firmwareRead desc).opcode) =
      [opcodeLoadKernel,opcodeLaunchKernel,opcodeLoadKernel] ∧
    (executedIn (ringEvents log)).map (fun x => (x.2.staging 0,x.2.staging 1)) =
      [(7,9),(8,6),(8,6)] ∧
    (∀ (i : Nat) (desc : List UInt32), (consumedIn (ringEvents log))[i]? = some desc →
      ∃ c m r, FromRequest log i desc c m r ∧
        ∀ block, r = .loadKernel block → ∃ words, StagedCode (ringEvents log) c m block words ∧
          LoadedFrom (ringEvents log) i desc words) ∧
    ∀ r : Request, iocWaitForIrq ≠ r.word := by
  have hspares : (byteSystem (Fin 3) 0).RunWith (OnRing SparesStaged) _ _ :=
    .of_recorded_exec (probed_init (Fin 3)) loadsAndLaunch loadsAndLaunch_run
      fun log s a => onRing_of_bytesWait
  obtain ⟨hread,-,hnotty,-⟩ := bytes_to_firmware hspares.run
  have hrefused : List.filterMap ByteEvent.refused? _ = [iocWaitForIrq] := loadsAndLaunch_refused
  refine ⟨_,_,hspares,by decide +kernel,by decide +kernel,by decide +kernel,?_,?_⟩
  · intro i desc hdesc
    obtain ⟨c,m,r,hfrom,hload⟩ := hread i desc hdesc
    refine ⟨c,m,r,hfrom,fun block hblock => ?_⟩
    obtain ⟨words,hcode,hloaded⟩ := hload block hblock
    exact ⟨words,hcode,hloaded hspares⟩
  · obtain ⟨c,hc⟩ := mem_refused (hrefused ▸ List.mem_singleton_self iocWaitForIrq)
    exact hnotty c _ hc

end FpgaGpu.Driver
