import FpgaGpu.Umd.Objects

/-! What each call does to the references of the application and to the graph of
live objects. -/
namespace FpgaGpu.Umd
open Driver Library

/-- What a successful call does to the references of the application, which gets
the handle of a new object. -/
def ObjectCall.op : ObjectCall → Option Nat → Option (RefOp Object)
  | .api (.clCreateContext _ _ _ _ _), some h => some (.create (.context h) none)
  | .api (.clRetainContext (some h)), _ => some (.retain (.context h))
  | .api (.clReleaseContext (some h)), _ => some (.release (.context h))
  | .api (.clCreateBuffer context _ _ _ _ _), some h =>
      some (.create (.mem h) (context.map .context))
  | .api (.clReleaseMemObject (some h)), _ => some (.release (.mem h))
  | .clCreateCommandQueue context _, some h => some (.create (.queue h) (context.map .context))
  | .clReleaseCommandQueue (some h), _ => some (.release (.queue h))
  | .clCreateProgramWithSource context _ _ _ _, some h =>
      some (.create (.program h) (context.map .context))
  | .clReleaseProgram (some h), _ => some (.release (.program h))
  | .clCreateKernel program _ _, some h => some (.create (.kernel h) (program.map .program))
  | .clReleaseKernel (some h), _ => some (.release (.kernel h))
  | _, _ => none

def ObjectEvent.success : ObjectEvent → Option (Option Nat)
  | .api (.returned .CL_SUCCESS handle) => some handle
  | _ => none

/-- The effect of a call with the events it made. -/
def ObjectCall.effect (call : ObjectCall) (es : List ObjectEvent) : Option (RefOp Object) :=
  (lastOf ObjectEvent.success es).bind call.op

theorem ObjectCall.effect_eq_none {call : ObjectCall} {es : List ObjectEvent}
    (h : ∀ handle, call.op handle = none) : call.effect es = none := by
  unfold effect
  cases lastOf ObjectEvent.success es with
  | none => rfl
  | some handle => exact h handle

/-- A step that leaves the graph alone, or does to it what its call says. -/
structure Objects.Effect (s s' : Objects) (op : Option (RefOp Object)) : Prop where
  graph : s'.graph = op.elim s.graph (s.graph.apply UInt32.size)
  enabled : ∀ o, op = some o → o.Enabled s.graph

theorem Objects.Effect.none {s s' : Objects} (h : s'.graph = s.graph) : s.Effect s' none :=
  ⟨h,fun _ ho => by contradiction⟩

/-- The graph after one object of a kind has been changed. -/
theorem Objects.graph_update {s s' : Objects} {β : Type} {handle : Nat → Object}
    {objects : Nat → Option β} {node : β → RefNode Object} {h : Nat} {b : Option β}
    (hinj : ∀ k, handle k = handle h → k = h)
    (hold : ∀ k, s.graph (handle k) = (objects k).map node)
    (hnew : ∀ k, s'.graph (handle k) = (Function.update objects h b k).map node)
    (hother : ∀ o, (∀ k, o ≠ handle k) → s'.graph o = s.graph o) :
    s'.graph = Function.update s.graph (handle h) (b.map node) := by
  funext o
  by_cases ho : ∃ k, o = handle k
  · obtain ⟨k,rfl⟩ := ho
    rw [hnew]
    by_cases hk : k = h
    · rw [hk, Function.update_self, Function.update_self]
    · rw [Function.update_of_ne hk, Function.update_of_ne (mt (hinj k) hk), hold]
  · have hne : ∀ k, o ≠ handle k := fun k hk => ho ⟨k,hk⟩
    rw [Function.update_of_ne (hne h), hother o hne]

theorem toNat_sub_one (n : UInt32) :
    (n - 1).toNat = (n.toNat + (UInt32.size - 1)) % UInt32.size := by
  rw [UInt32.toNat_sub, Nat.add_comm]
  rfl

theorem sub_one_eq_zero_iff (n : UInt32) :
    n - 1 = 0 ↔ (n.toNat + (UInt32.size - 1)) % UInt32.size = 0 := by
  rw [← toNat_sub_one, ← UInt32.toNat_inj]
  rfl

section Updates
variable (s : Objects) (h : Nat)

theorem Objects.graph_setContext (vram : Vram) (c : Option Context) :
    ({s with process := {s.process with
      vram := vram
      contexts := Function.update s.process.contexts h c}} : Objects).graph =
      Function.update s.graph (.context h) (c.map fun c => ⟨c.refCount.toNat,none⟩) := by
  apply graph_update (fun _ => Object.context.inj) (fun _ => rfl) (fun _ => rfl)
  intro o ho
  cases o with
  | context k => exact absurd rfl (ho k)
  | _ => rfl

theorem Objects.graph_setMem (vram : Vram) (m : Option Mem) :
    ({s with process := {s.process with
      vram := vram
      mems := Function.update s.process.mems h m}} : Objects).graph =
      Function.update s.graph (.mem h)
        (m.map fun m => ⟨m.refCount.toNat,some (.context m.context)⟩) := by
  apply graph_update (fun _ => Object.mem.inj) (fun _ => rfl) (fun _ => rfl)
  intro o ho
  cases o with
  | mem k => exact absurd rfl (ho k)
  | _ => rfl

theorem Objects.graph_setQueue (q : Option CommandQueue) :
    ({s with queues := Function.update s.queues h q} : Objects).graph =
      Function.update s.graph (.queue h)
        (q.map fun q => ⟨q.refCount.toNat,some (.context q.context)⟩) := by
  apply graph_update (fun _ => Object.queue.inj) (fun _ => rfl) (fun _ => rfl)
  intro o ho
  cases o with
  | queue k => exact absurd rfl (ho k)
  | _ => rfl

theorem Objects.graph_setProgram (counter : Nat) (p : Option ProgramObject) :
    ({s with
      counter := counter
      programs := Function.update s.programs h p} : Objects).graph =
      Function.update s.graph (.program h)
        (p.map fun p => ⟨p.refCount.toNat,some (.context p.context)⟩) := by
  apply graph_update (fun _ => Object.program.inj) (fun _ => rfl) (fun _ => rfl)
  intro o ho
  cases o with
  | program k => exact absurd rfl (ho k)
  | _ => rfl

theorem Objects.graph_setKernel (k : Option CreatedKernel) :
    ({s with kernels := Function.update s.kernels h k} : Objects).graph =
      Function.update s.graph (.kernel h)
        (k.map fun k => ⟨k.refCount.toNat,some (.program k.program)⟩) := by
  apply graph_update (fun _ => Object.kernel.inj) (fun _ => rfl) (fun _ => rfl)
  intro o ho
  cases o with
  | kernel k => exact absurd rfl (ho k)
  | _ => rfl

end Updates

namespace Objects.Effect
variable {s s' : Objects} {o : Object}

theorem create {target : Option Object}
    (hgraph : s'.graph = Function.update s.graph o (some ⟨1,target⟩)) (hfresh : s.graph o = .none)
    (htarget : ∀ t, target = some t → (s.graph t).isSome = true) :
    s.Effect s' (some (.create o target)) := by
  refine ⟨hgraph,fun op hop => ?_⟩
  obtain rfl := Option.some.inj hop
  exact ⟨hfresh,htarget⟩

/-- A release of an object with count `n` and pointer `t`, as its code does it. -/
theorem release {n : UInt32} {t : Option Object} (hold : s.graph o = some ⟨n.toNat,t⟩)
    (hgraph : s'.graph = Function.update s.graph o
      (if (n.toNat + (UInt32.size - 1)) % UInt32.size = 0 then Option.none
      else some ⟨(n.toNat + (UInt32.size - 1)) % UInt32.size,t⟩)) :
    s.Effect s' (some (.release o)) := by
  refine ⟨RefGraph.apply_release_eq hold hgraph,fun op hop => ?_⟩
  obtain rfl := Option.some.inj hop
  simp [RefOp.Enabled, hold]

theorem freed {n : UInt32} {t : Option Object} (hold : s.graph o = some ⟨n.toNat,t⟩)
    (hzero : n - 1 = 0) (hgraph : s'.graph = Function.update s.graph o Option.none) :
    s.Effect s' (some (.release o)) := by
  apply release hold
  rw [hgraph, if_pos ((sub_one_eq_zero_iff n).mp hzero)]

theorem dropped {n : UInt32} {t : Option Object} (hold : s.graph o = some ⟨n.toNat,t⟩)
    (hpos : n - 1 ≠ 0)
    (hgraph : s'.graph = Function.update s.graph o (some ⟨(n - 1).toNat,t⟩)) :
    s.Effect s' (some (.release o)) := by
  apply release hold
  rw [hgraph, if_neg (mt (sub_one_eq_zero_iff n).mpr hpos), toNat_sub_one]

/-- The releases that are written with `dropRef`. -/
theorem releaseRef {β : Type} {n : UInt32} {t : Option Object} {k : UInt32 → β}
    {node : β → RefNode Object} (hold : s.graph o = some ⟨n.toNat,t⟩)
    (hgraph : s'.graph = Function.update s.graph o ((dropRef n k).map node))
    (hnode : ∀ n, node (k n) = ⟨n.toNat,t⟩) :
    s.Effect s' (some (.release o)) := by
  unfold dropRef at hgraph
  split at hgraph
  next hzero => exact freed hold hzero hgraph
  next hpos =>
    rw [Option.map_some, hnode] at hgraph
    exact dropped hold hpos hgraph

theorem retain {n : UInt32} {t : Option Object} (hold : s.graph o = some ⟨n.toNat,t⟩)
    (hgraph : s'.graph = Function.update s.graph o (some ⟨(n + 1).toNat,t⟩)) :
    s.Effect s' (some (.retain o)) := by
  have hcount : (n + 1).toNat = (n.toNat + 1) % UInt32.size := UInt32.toNat_add n 1
  refine ⟨RefGraph.apply_retain_eq hold (hcount ▸ hgraph),fun op hop => ?_⟩
  obtain rfl := Option.some.inj hop
  simp [RefOp.Enabled, hold]

end Objects.Effect

/-- The calls on contexts and buffers. -/
theorem effect_of_api {s : Objects} {call : ApiCall} {p : Process} {es : List ApiEvent}
    (h : s.process.step call = some (p,es)) :
    s.Effect {s with process := p} ((ObjectCall.api call).effect (es.map .api)) := by
  cases call with
  | clCreateContext numDevices devices opened reopened malloc =>
    simp only [Process.step, clCreateContext, Process.fail] at h
    split at h
    next => cases h; exact .none rfl
    next =>
      split at h
      next => cases h; exact .none rfl
      next => cases h; exact .none rfl
      next fd c _ =>
        split at h
        next hfresh =>
          cases h
          exact .create (s.graph_setContext c _ _) (by simp [hfresh]) fun t ht => by contradiction
        next => contradiction
  | clRetainContext context =>
    simp only [Process.step, clRetainContext, Process.fail] at h
    split at h
    next => cases h; exact .none rfl
    next k =>
      split at h
      next => contradiction
      next c hc =>
        cases h
        exact .retain (n := c.refCount) (by rw [s.graph_context, hc, Option.map_some])
          (s.graph_setContext k _ _)
  | clReleaseContext context =>
    simp only [Process.step, clReleaseContext, Process.fail] at h
    split at h
    next => cases h; exact .none rfl
    next k =>
      split at h
      next => contradiction
      next c hc =>
        have hold : s.graph (.context k) = some ⟨c.refCount.toNat,none⟩ := by
          rw [s.graph_context, hc, Option.map_some]
        split at h
        next hzero => cases h; exact .freed hold hzero (s.graph_setContext k _ none)
        next hpos => cases h; exact .dropped hold hpos (s.graph_setContext k _ (some _))
  | clCreateBuffer context flags size hostPtr malloc upload =>
    simp only [Process.step, clCreateBuffer, Process.fail] at h
    split at h
    next => cases h; exact .none rfl
    next k =>
      split at h
      next => contradiction
      next c hc =>
        have htarget : ∀ t, some (Object.context k) = some t → (s.graph t).isSome = true := by
          intro t ht
          obtain rfl := Option.some.inj ht
          simp [hc]
        split at h
        next => cases h; exact .none rfl
        next =>
          split at h
          next => cases h; exact .none rfl
          next =>
            split at h
            next => cases h; exact .none rfl
            next m =>
              split at h
              next => contradiction
              next hfresh =>
                have hfresh : s.graph (.mem m) = none := by simp [not_not.mp hfresh]
                split at h
                next =>
                  split at h
                  next => cases h; exact .none rfl
                  next => cases h; exact .create (s.graph_setMem m _ _) hfresh htarget
                next => cases h; exact .create (s.graph_setMem m _ _) hfresh htarget
  | clReleaseMemObject memobj =>
    simp only [Process.step, clReleaseMemObject, Process.fail] at h
    split at h
    next => cases h; exact .none rfl
    next k =>
      split at h
      next => contradiction
      next m hm =>
        have hold : s.graph (.mem k) = some ⟨m.refCount.toNat,some (.context m.context)⟩ := by
          rw [s.graph_mem, hm, Option.map_some]
        split at h
        next hzero => cases h; exact .freed hold hzero (s.graph_setMem k _ none)
        next hpos => cases h; exact .dropped hold hpos (s.graph_setMem k _ (some _))

section Effects
variable {s s' : Objects} {es : List ObjectEvent}

theorem effect_of_createCommandQueue {context malloc : Option Nat}
    (h : s.clCreateCommandQueue context malloc = some (s',es)) :
    s.Effect s' ((ObjectCall.clCreateCommandQueue context malloc).effect es) := by
  simp only [Objects.clCreateCommandQueue, Objects.ret, Objects.created] at h
  split at h
  next => cases h; exact .none rfl
  next c =>
    split at h
    next => contradiction
    next => cases h; exact .none rfl
    next k hc =>
      split at h
      next hfresh =>
        cases h
        refine .create (s.graph_setQueue k _) (by simp [hfresh]) fun t ht => ?_
        obtain rfl := Option.some.inj ht
        simp [hc]
      next => contradiction

theorem effect_of_releaseCommandQueue {commandQueue : Option Nat}
    (h : s.clReleaseCommandQueue commandQueue = some (s',es)) :
    s.Effect s' ((ObjectCall.clReleaseCommandQueue commandQueue).effect es) := by
  simp only [Objects.clReleaseCommandQueue, Objects.ret] at h
  split at h
  next => cases h; exact .none rfl
  next k =>
    split at h
    next => contradiction
    next q hq =>
      cases h
      apply Objects.Effect.releaseRef (n := q.refCount) (t := some (.context q.context))
      · rw [s.graph_queue, hq, Option.map_some]
      · exact s.graph_setQueue _ _
      · exact fun _ => rfl

theorem effect_of_createProgram {context : Option Nat} {count : UInt32}
    {strings : Option (Nat → Bool)} {malloc : Option Nat} {source : Bool}
    (h : s.clCreateProgramWithSource context count strings malloc source = some (s',es)) :
    s.Effect s'
      ((ObjectCall.clCreateProgramWithSource context count strings malloc source).effect es) := by
  simp only [Objects.clCreateProgramWithSource, Objects.ret, Objects.created] at h
  split at h
  next => cases h; exact .none rfl
  next c =>
    split at h
    next => contradiction
    next => cases h; exact .none rfl
    next hc =>
      split at h
      next => cases h; exact .none rfl
      split at h
      next => cases h; exact .none rfl
      split at h
      next => cases h; exact .none rfl
      next k =>
        split at h
        next => cases h; exact .none rfl
        split at h
        next hfresh =>
          cases h
          refine .create (s.graph_setProgram k s.counter _) (by simp [hfresh]) fun t ht => ?_
          obtain rfl := Option.some.inj ht
          simp [hc]
        next => contradiction

theorem effect_of_releaseProgram {program : Option Nat}
    (h : s.clReleaseProgram program = some (s',es)) :
    s.Effect s' ((ObjectCall.clReleaseProgram program).effect es) := by
  simp only [Objects.clReleaseProgram, Objects.ret] at h
  split at h
  next => cases h; exact .none rfl
  next k =>
    split at h
    next => contradiction
    next p hp =>
      cases h
      apply Objects.Effect.releaseRef (n := p.refCount) (t := some (.context p.context))
      · rw [s.graph_program, hp, Option.map_some]
      · exact s.graph_setProgram _ _ _
      · exact fun _ => rfl

/-- A build changes neither the count nor the context of its program. -/
theorem effect_of_buildProgram {program : Option Nat} {calls : BuildCalls}
    (h : s.clBuildProgram program calls = some (s',es)) :
    s.Effect s' ((ObjectCall.clBuildProgram program calls).effect es) := by
  rw [ObjectCall.effect_eq_none fun _ => rfl]
  simp only [Objects.clBuildProgram, Objects.ret] at h
  split at h
  next => cases h; exact .none rfl
  next k =>
    split at h
    next => contradiction
    next p hp =>
      cases h
      obtain ⟨hcontext,hcount⟩ := clBuildProgram_frame s.counter calls p
      apply Objects.Effect.none
      rw [s.graph_setProgram, Option.map_some, hcontext, hcount, Function.update_eq_self_iff,
        s.graph_program, hp, Option.map_some]

theorem effect_of_createKernel {program : Option Nat} {kernelName : Bool} {malloc : Option Nat}
    (h : s.clCreateKernel program kernelName malloc = some (s',es)) :
    s.Effect s' ((ObjectCall.clCreateKernel program kernelName malloc).effect es) := by
  simp only [Objects.clCreateKernel, Objects.ret, Objects.created] at h
  split at h
  next => cases h; exact .none rfl
  next c =>
    split at h
    next => contradiction
    next p hp =>
      split at h
      next => cases h; exact .none rfl
      split at h
      next => cases h; exact .none rfl
      split at h
      next => cases h; exact .none rfl
      next k =>
        split at h
        next hfresh =>
          cases h
          refine .create (s.graph_setKernel k _) (by simp [hfresh]) fun t ht => ?_
          obtain rfl := Option.some.inj ht
          simp [hp]
        next => contradiction

theorem effect_of_releaseKernel {kernel : Option Nat}
    (h : s.clReleaseKernel kernel = some (s',es)) :
    s.Effect s' ((ObjectCall.clReleaseKernel kernel).effect es) := by
  simp only [Objects.clReleaseKernel, Objects.ret] at h
  split at h
  next => cases h; exact .none rfl
  next i =>
    split at h
    next => contradiction
    next k hk =>
      cases h
      apply Objects.Effect.releaseRef (n := k.refCount) (t := some (.program k.program))
      · rw [s.graph_kernel, hk, Option.map_some]
      · exact s.graph_setKernel _ _
      · exact fun _ => rfl

/-- A command changes no object, whatever it reaches. -/
theorem Objects.command_frame {call : ObjectCall} (h : s.step call = some (s',es))
    (hcommand : match call with
      | .clFinish _ _ | .clEnqueueWriteBuffer _ _ _ _ _ _ | .clEnqueueReadBuffer _ _ _ _ _ _
      | .clEnqueueCopyBuffer _ _ _ _ _ _ _ _ _ | .clEnqueueNDRangeKernel _ _ _ _ _ => True
      | _ => False) : s' = s := by
  have hsame {es' : List ObjectEvent} (heq : some (s,es') = some (s',es)) : s' = s :=
    (Prod.mk.inj (Option.some.inj heq)).1.symm
  cases call with
  | clFinish commandQueue doorbell =>
    simp only [step, clFinish, ret] at h
    split at h
    next => exact hsame h
    next =>
      obtain ⟨q,-,hq⟩ := Option.map_eq_some_iff.mp h
      exact (Prod.mk.inj hq).1.symm
  | clEnqueueWriteBuffer commandQueue buffer offset size ptr dma
  | clEnqueueReadBuffer commandQueue buffer offset size ptr dma =>
    cases commandQueue with
    | none => exact hsame h
    | some q =>
      cases buffer with
      | none => exact hsame h
      | some b =>
        simp only [step, clEnqueueWriteBuffer, clEnqueueReadBuffer, enqueueBuffer, ret] at h
        split at h
        next =>
          split at h
          next => exact hsame h
          split at h
          next => exact hsame h
          next => exact hsame h
        next => contradiction
  | clEnqueueCopyBuffer commandQueue srcBuffer dstBuffer srcOffset dstOffset size bounce dmaRead
      dmaWrite =>
    cases commandQueue with
    | none => exact hsame h
    | some q =>
      cases srcBuffer with
      | none => exact hsame h
      | some b =>
        cases dstBuffer with
        | none => exact hsame h
        | some d =>
          simp only [step, clEnqueueCopyBuffer, ret] at h
          split at h
          next =>
            split at h
            next => exact hsame h
            split at h
            next => exact hsame h
            split at h
            next => exact hsame h
            next => exact hsame h
          next => contradiction
  | clEnqueueNDRangeKernel commandQueue kernel workDim globalWorkSize rest =>
    cases commandQueue with
    | none => exact hsame h
    | some q =>
      cases kernel with
      | none => exact hsame h
      | some k =>
        simp only [step, clEnqueueNDRangeKernel] at h
        split at h
        next => exact hsame h
        next => contradiction
  | _ => exact hcommand.elim

theorem effect_of_step {call : ObjectCall} (h : s.step call = some (s',es)) :
    s.Effect s' (call.effect es) := by
  cases call with
  | api call =>
    obtain ⟨⟨p,es⟩,hp,hr⟩ := Option.map_eq_some_iff.mp h
    obtain ⟨rfl,rfl⟩ := Prod.mk.inj hr
    exact effect_of_api hp
  | clCreateCommandQueue context malloc => exact effect_of_createCommandQueue h
  | clReleaseCommandQueue commandQueue => exact effect_of_releaseCommandQueue h
  | clCreateProgramWithSource context count strings malloc source =>
    exact effect_of_createProgram h
  | clReleaseProgram program => exact effect_of_releaseProgram h
  | clBuildProgram program calls => exact effect_of_buildProgram h
  | clCreateKernel program kernelName malloc => exact effect_of_createKernel h
  | clReleaseKernel kernel => exact effect_of_releaseKernel h
  | _ =>
    rw [ObjectCall.effect_eq_none fun _ => rfl, Objects.command_frame h trivial]
    exact .none rfl

end Effects

/-- A release of the application is one whatever it returns. -/
theorem ObjectCall.op_release {call : ObjectCall} {handle : Option Nat} {o : Object}
    (h : call.op handle = some (.release o)) : call.op none = some (.release o) := by
  unfold op at h
  split at h
  all_goals first
    | exact h
    | simp at h

end FpgaGpu.Umd
