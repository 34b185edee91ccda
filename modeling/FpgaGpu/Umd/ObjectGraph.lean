import FpgaGpu.Umd.BuffersApart
import FpgaGpu.Umd.ObjectEffects

/-! An application that gives up each of its references once, and whether the
objects it still uses point to freed ones. The pointers of the objects are not
counted, so that this is up to the order of its releases. -/
namespace FpgaGpu.Umd
open Driver Library

/-- No live object points to a freed one. -/
structure Objects.Alive (s : Objects) : Prop where
  queue : ∀ h q, s.queues h = some q → (s.process.contexts q.context).isSome = true
  mem : ∀ h m, s.process.mems h = some m → (s.process.contexts m.context).isSome = true
  program : ∀ h p, s.programs h = some p → (s.process.contexts p.context).isSome = true
  kernel : ∀ h k, s.kernels h = some k → (s.programs k.program).isSome = true

/-- The objects of a process, and the references its application has. -/
structure Application where
  objects : Objects
  held : RefHolder Object

def Application.step (s : Application) (call : ObjectCall) :
    Option (Application × List ObjectEvent) :=
  match s.objects.step call with
  | none => none
  | some (objects,es) =>
    match call.effect es with
    | none => some (⟨objects,s.held⟩,es)
    | some op =>
        if s.held.owns op then some (⟨objects,s.held.apply op⟩,es) else none

/-- An application at its start. -/
def objectSystem : System Application ObjectCall ObjectEvent where
  init s := processSystem.init s.objects.process ∧ (∀ h, s.objects.queues h = none) ∧
    (∀ h, s.objects.programs h = none) ∧ (∀ h, s.objects.kernels h = none) ∧
    ∀ o, s.held.refs o = 0
  step := Application.step

/-- Queues, buffers and programs are given up before their context, kernels before
their program, and no 2^32 references are held of one object. -/
def LeavesFirst (_ : List ObjectEvent) (s : Application) (call : ObjectCall) : Prop :=
  ∀ o, call.op none = some (.release o) → (RefOp.release o).LeavesFirst UInt32.size s.held

theorem Objects.alive_iff (s : Objects) : s.Alive ↔ s.graph.Closed := by
  constructor
  · intro h o node t hnode ht
    cases o with
    | context k =>
      obtain ⟨c,-,rfl⟩ := Option.map_eq_some_iff.mp hnode
      contradiction
    | queue k =>
      obtain ⟨q,hq,rfl⟩ := Option.map_eq_some_iff.mp hnode
      obtain rfl := Option.some.inj ht
      simpa [graph] using h.queue k q hq
    | mem k =>
      obtain ⟨m,hm,rfl⟩ := Option.map_eq_some_iff.mp hnode
      obtain rfl := Option.some.inj ht
      simpa [graph] using h.mem k m hm
    | program k =>
      obtain ⟨p,hp,rfl⟩ := Option.map_eq_some_iff.mp hnode
      obtain rfl := Option.some.inj ht
      simpa [graph] using h.program k p hp
    | kernel k =>
      obtain ⟨kernel,hk,rfl⟩ := Option.map_eq_some_iff.mp hnode
      obtain rfl := Option.some.inj ht
      simpa [graph] using h.kernel k kernel hk
  · intro h
    constructor
    · intro k q hq
      have hlive := h (.queue k) _ (.context q.context)
        (by rw [graph_queue, hq, Option.map_some]) rfl
      rwa [graph_context, Option.isSome_map] at hlive
    · intro k m hm
      have hlive := h (.mem k) _ (.context m.context)
        (by rw [graph_mem, hm, Option.map_some]) rfl
      rwa [graph_context, Option.isSome_map] at hlive
    · intro k p hp
      have hlive := h (.program k) _ (.context p.context)
        (by rw [graph_program, hp, Option.map_some]) rfl
      rwa [graph_context, Option.isSome_map] at hlive
    · intro k kernel hk
      have hlive := h (.kernel k) _ (.program kernel.program)
        (by rw [graph_kernel, hk, Option.map_some]) rfl
      rwa [graph_program, Option.isSome_map] at hlive

/-- Releases in the order of `LeavesFirst` keep every object that is pointed to, and
the counts equal to the references of the application. -/
theorem heldBy_run {log : List ObjectEvent} {s : Application}
    (h : objectSystem.RunWith LeavesFirst log s) :
    s.objects.graph.HeldBy UInt32.size s.held := by
  refine h.invariant (I := fun _ s => s.objects.graph.HeldBy UInt32.size s.held) ?_ ?_
  · rintro s ⟨⟨-,hcontexts,hmems⟩,hqueues,hprograms,hkernels,hrefs⟩
    refine .of_none (fun o => ?_) hrefs
    cases o with
    | context k => simp [hcontexts]
    | queue k => simp [hqueues]
    | mem k => simp [hmems]
    | program k => simp [hprograms]
    | kernel k => simp [hkernels]
  · intro log s call s' es _ ih hok hstep
    rw [objectSystem] at hstep
    simp only [Application.step] at hstep
    split at hstep
    next => contradiction
    next objects es' hobjects =>
      obtain ⟨hgraph,henabled⟩ := effect_of_step hobjects
      split at hstep
      next hnone =>
        obtain ⟨rfl,-⟩ := Prod.mk.inj (Option.some.inj hstep)
        rw [hnone, Option.elim_none] at hgraph
        simpa only [hgraph] using ih
      next op hop =>
        split at hstep
        next =>
          obtain ⟨rfl,-⟩ := Prod.mk.inj (Option.some.inj hstep)
          rw [hop, Option.elim_some] at hgraph
          have hleaves : op.LeavesFirst UInt32.size s.held := by
            cases op with
            | release o =>
              obtain ⟨handle,-,hhandle⟩ := Option.bind_eq_some_iff.mp hop
              exact hok o (ObjectCall.op_release hhandle)
            | create o target => trivial
            | retain o => trivial
          have hheld := ih.apply (by decide) (henabled op hop) hleaves
          simpa only [hgraph] using hheld
        next => contradiction

theorem alive_run {log : List ObjectEvent} {s : Application}
    (h : objectSystem.RunWith LeavesFirst log s) : s.objects.Alive :=
  (Objects.alive_iff _).mpr (heldBy_run h).closed

/-- An object does not point to itself. -/
theorem Objects.target_ne {s : Objects} {o : Object} {node : RefNode Object}
    (h : s.graph o = some node) : node.target ≠ some o := by
  cases o with
  | context k =>
    obtain ⟨c,-,rfl⟩ := Option.map_eq_some_iff.mp h
    simp
  | queue k =>
    obtain ⟨q,-,rfl⟩ := Option.map_eq_some_iff.mp h
    simp
  | mem k =>
    obtain ⟨m,-,rfl⟩ := Option.map_eq_some_iff.mp h
    simp
  | program k =>
    obtain ⟨p,-,rfl⟩ := Option.map_eq_some_iff.mp h
    simp
  | kernel k =>
    obtain ⟨kernel,-,rfl⟩ := Option.map_eq_some_iff.mp h
    simp

/-- The last reference to an object is given up too early exactly when something
made from it is still held. -/
theorem last_release_iff {log : List ObjectEvent} {s : Application}
    (h : objectSystem.RunWith LeavesFirst log s) {call : ObjectCall} {s' : Objects}
    {es : List ObjectEvent} {o : Object} (hstep : s.objects.step call = some (s',es))
    (hop : call.effect es = some (.release o)) (hlast : s.held.refs o = 1) :
    s'.Alive ↔ s.held.Leaf o := by
  have hheld := heldBy_run h
  have hgraph := (effect_of_step hstep).graph
  rw [hop, Option.elim_some] at hgraph
  rw [Objects.alive_iff, hgraph]
  apply hheld.closed_release_iff (by decide) hlast
  obtain ⟨node,hnode⟩ := Option.isSome_iff_exists.mp ((hheld.live o).mpr (by omega))
  rw [← (hheld.node o node hnode).2]
  exact Objects.target_ne hnode

/-- Following a pointer to a live object is no fault. -/
theorem Objects.reach_noFault {s : Objects} {o : Object} {next : List ObjectEvent}
    (hlive : (s.graph o).isSome = true) (hnext : ∀ o, .fault o ∉ next) :
    ∀ o', .fault o' ∉ s.reach o next := by
  intro o'
  unfold reach
  rw [if_pos hlive]
  simpa using hnext o'

theorem Objects.finish_noFault (status : ClStatus) : ∀ o, .fault o ∉ finish status := by
  simp [finish]

section Faults
variable {s s' : Objects} {es : List ObjectEvent}

theorem Objects.ret_noFault {status : ClStatus} (h : s.ret status = some (s',es)) :
    ∀ o, .fault o ∉ es := by
  obtain ⟨-,rfl⟩ := Prod.mk.inj (Option.some.inj h)
  exact finish_noFault status

theorem Objects.created_noFault {k : Nat} (h : s.created k = some (s',es)) :
    ∀ o, .fault o ∉ es := by
  obtain ⟨-,rfl⟩ := Prod.mk.inj (Option.some.inj h)
  simp

theorem Objects.Alive.enqueueBuffer_noFault (halive : s.Alive) {commandQueue buffer : Option Nat}
    {offset size ptr : UInt64} {dma : Ret}
    (h : s.enqueueBuffer commandQueue buffer offset size ptr dma = some (s',es)) :
    ∀ o, .fault o ∉ es := by
  unfold enqueueBuffer at h
  split at h
  next => exact ret_noFault h
  next => exact ret_noFault h
  next q b =>
    split at h
    next queue buffer hqueue hbuffer =>
      split at h
      next => exact ret_noFault h
      split at h
      next => exact ret_noFault h
      next =>
        obtain ⟨-,rfl⟩ := Prod.mk.inj (Option.some.inj h)
        apply reach_noFault
        · simpa using halive.queue q queue hqueue
        · exact finish_noFault _
    next => contradiction

/-- While no pointer dangles, no call follows one to a freed object. -/
theorem Objects.Alive.noFault (halive : s.Alive) {call : ObjectCall}
    (h : s.step call = some (s',es)) : ∀ o, .fault o ∉ es := by
  cases call with
  | api call =>
    obtain ⟨r,-,hr⟩ := Option.map_eq_some_iff.mp h
    obtain ⟨-,rfl⟩ := Prod.mk.inj hr
    simp
  | clFinish commandQueue doorbell =>
    simp only [step, clFinish] at h
    split at h
    next => exact ret_noFault h
    next k =>
      obtain ⟨q,hq,hr⟩ := Option.map_eq_some_iff.mp h
      obtain ⟨-,rfl⟩ := Prod.mk.inj hr
      apply reach_noFault
      · simpa using halive.queue k q hq
      · exact finish_noFault _
  | clEnqueueWriteBuffer commandQueue buffer offset size ptr dma =>
    exact halive.enqueueBuffer_noFault h
  | clEnqueueReadBuffer commandQueue buffer offset size ptr dma =>
    exact halive.enqueueBuffer_noFault h
  | clEnqueueCopyBuffer commandQueue srcBuffer dstBuffer srcOffset dstOffset size bounce dmaRead
      dmaWrite =>
    simp only [step, clEnqueueCopyBuffer] at h
    split at h
    next => exact ret_noFault h
    next => exact ret_noFault h
    next => exact ret_noFault h
    next k _ _ =>
      split at h
      next queue _ _ hqueue _ _ =>
        have hlive : (s.graph (.context queue.context)).isSome = true := by
          simpa using halive.queue k queue hqueue
        split at h
        next => exact ret_noFault h
        split at h
        next => exact ret_noFault h
        split at h
        next => exact ret_noFault h
        next =>
          obtain ⟨-,rfl⟩ := Prod.mk.inj (Option.some.inj h)
          apply reach_noFault hlive
          split
          · exact finish_noFault _
          · exact reach_noFault hlive (finish_noFault _)
      next => contradiction
  | clEnqueueNDRangeKernel commandQueue kernel workDim globalWorkSize rest =>
    simp only [step, clEnqueueNDRangeKernel] at h
    split at h
    next => exact ret_noFault h
    next => exact ret_noFault h
    next q k =>
      split at h
      next queue kernel hqueue hkernel =>
        obtain ⟨-,rfl⟩ := Prod.mk.inj (Option.some.inj h)
        apply reach_noFault
        · simpa using halive.kernel k kernel hkernel
        · split
          · exact finish_noFault _
          split
          · exact finish_noFault _
          · apply reach_noFault
            · simpa using halive.queue q queue hqueue
            · exact finish_noFault _
      next => contradiction
  | _ =>
    simp only [step, clCreateCommandQueue, clReleaseCommandQueue, clCreateProgramWithSource,
      clReleaseProgram, clBuildProgram, clCreateKernel, clReleaseKernel] at h
    repeat' split at h
    all_goals first
      | contradiction
      | exact ret_noFault h
      | exact created_noFault h

end Faults

/-- While the application gives up what it made from an object before the object, no
live object points to a freed one, and no command reaches a freed one. -/
theorem objects_kept_alive {log : List ObjectEvent} {s : Application}
    (h : objectSystem.RunWith LeavesFirst log s) :
    s.objects.Alive ∧ ∀ o, .fault o ∉ log := by
  refine ⟨alive_run h,fun o hfault => ?_⟩
  obtain ⟨pre,post,hlog⟩ := List.append_of_mem hfault
  refine h.event_of_step (P := fun _ e => e ≠ .fault o) ?_ pre (.fault o) post hlog rfl
  intro log s call s' es hrun _ hstep pre e post hes he
  rw [objectSystem] at hstep
  simp only [Application.step] at hstep
  have hmem : ObjectEvent.fault o ∈ es := by rw [hes, he]; simp
  split at hstep
  next => contradiction
  next objects es' hobjects =>
    have hnone := (alive_run hrun).noFault hobjects o
    split at hstep
    next =>
      obtain ⟨-,rfl⟩ := Prod.mk.inj (Option.some.inj hstep)
      exact hnone hmem
    next =>
      split at hstep
      next =>
        obtain ⟨-,rfl⟩ := Prod.mk.inj (Option.some.inj hstep)
        exact hnone hmem
      next => contradiction

/-- An application that has made nothing. -/
def newApplication : Application :=
  ⟨⟨startedProcess,0,fun _ => none,fun _ => none,fun _ => none⟩,⟨fun _ => 0,fun _ => none⟩⟩

theorem newApplication_init : objectSystem.init newApplication :=
  ⟨startedProcess_init,fun _ => rfl,fun _ => rfl,fun _ => rfl,fun _ => rfl⟩

/-- A context and a queue in it. -/
def contextAndQueue : List ObjectCall :=
  [.api (.clCreateContext 1 true (some 5) none (some 1)),
    .clCreateCommandQueue (some 1) (some 2)]

/-- What the application holds then. -/
def holdsQueue : RefHolder Object where
  refs := Function.update (Function.update (fun _ => 0) (.context 1) 1) (.queue 2) 1
  madeFrom := Function.update (Function.update (fun _ => none) (.context 1) none) (.queue 2)
    (some (.context 1))

theorem holdsQueue_madeFrom {o o' : Object} (h : holdsQueue.madeFrom o' = some o) :
    o' = .queue 2 ∧ o = .context 1 := by
  simp only [holdsQueue, Function.update_apply] at h
  split at h
  next hq => exact ⟨hq,(Option.some.inj h).symm⟩
  next => simp at h

theorem objects_kept_alive_one_queue : ∃ log s,
    objectSystem.RunWith LeavesFirst log s ∧ .reached (.context 1) ∈ log ∧
    s.objects.queues 2 = none ∧ s.objects.process.contexts 1 = none ∧
    s.objects.Alive ∧ ∀ o, .fault o ∉ log := by
  have hinit : objectSystem.RunWith LeavesFirst [] newApplication := .init newApplication_init
  have hmade := hinit.continue (contextAndQueue ++ [.clFinish (some 2) .ok])
    (fun call hcall log s o ho => by
      simp only [contextAndQueue, List.cons_append, List.nil_append, List.mem_cons,
        List.not_mem_nil, or_false] at hcall
      rcases hcall with rfl | rfl | rfl <;> contradiction) (by decide +kernel)
  have hqueue := hmade.step (a := .clReleaseCommandQueue (some 2)) (fun o ho _ => by
    obtain rfl := RefOp.release.inj (Option.some.inj ho)
    refine ⟨rfl,fun o' hmade => ?_⟩
    obtain ⟨-,hne⟩ := holdsQueue_madeFrom hmade
    contradiction) rfl
  have hcontext := hqueue.step (a := .api (.clReleaseContext (some 1))) (fun o ho _ => by
    obtain rfl := RefOp.release.inj (Option.some.inj ho)
    refine ⟨rfl,fun o' hmade => ?_⟩
    obtain ⟨rfl,-⟩ := holdsQueue_madeFrom hmade
    rfl) rfl
  exact ⟨_,_,hcontext,by decide +kernel,rfl,rfl,objects_kept_alive hcontext⟩

/-- The context is released before the queue that points to it. -/
def contextFirst : List ObjectCall :=
  contextAndQueue ++ [.api (.clReleaseContext (some 1)),.clFinish (some 2) .ok]

theorem contextFirst_runs : (objectSystem.exec newApplication contextFirst).isSome = true := by
  decide +kernel

/-- clFinish on the live queue reads the file from a freed context. -/
theorem clFinish_reaches_freed_context : ∃ log s, objectSystem.Run log s ∧
    s.objects.queues 2 = some ⟨1,1⟩ ∧ s.objects.process.contexts 1 = none ∧ ¬s.objects.Alive ∧
    .fault (.context 1) ∈ log := by
  have hrun : objectSystem.Run _ _ :=
    .of_exec (S := objectSystem) newApplication_init contextFirst contextFirst_runs
  refine ⟨_,_,hrun,by decide +kernel,by decide +kernel,fun halive => ?_,by decide +kernel⟩
  have hlive := halive.queue 2 ⟨1,1⟩ (by decide +kernel)
  revert hlive
  decide +kernel

end FpgaGpu.Umd
