import FpgaGpu.Umd.Clients

/-! Everything one step of the clients can do, what the driver sees of it, and
which tickets can be at work. -/
namespace FpgaGpu.Umd
open Driver Library

variable {κ : Type}

def ClientEvent.ring? : ClientEvent κ → Option (Event (Ticket κ))
  | .ring e => some e
  | _ => none

/-- The history of the driver in a history of the clients. -/
def ringLog (log : List (ClientEvent κ)) : List (Event (Ticket κ)) :=
  log.filterMap ClientEvent.ring?

@[simp] theorem ringLog_append (log log' : List (ClientEvent κ)) :
    ringLog (log ++ log') = ringLog log ++ ringLog log' := List.filterMap_append ..

@[simp] theorem ringLog_ring (es : List (Event (Ticket κ))) :
    ringLog (es.map ClientEvent.ring) = es := by
  rw [ringLog, List.filterMap_map]
  exact List.filterMap_some

@[simp] theorem ringLog_nil : ringLog ([] : List (ClientEvent κ)) = [] := rfl
@[simp] theorem ringLog_entered (k : κ) (nd : NDRange) (log : List (ClientEvent κ)) :
    ringLog (.entered k nd :: log) = ringLog log := rfl
@[simp] theorem ringLog_uploaded (k : κ) (log : List (ClientEvent κ)) :
    ringLog (.uploaded k :: log) = ringLog log := rfl
@[simp] theorem ringLog_returned (k : κ) (status : ClStatus) (log : List (ClientEvent κ)) :
    ringLog (.returned k status :: log) = ringLog log := rfl

/-- The driver sees nothing of the return. -/
@[simp] theorem ringLog_result (k : κ) (status : Option ClStatus) :
    ringLog (status.toList.map (ClientEvent.returned k)) = [] := by
  cases status <;> rfl

theorem afterIoctl_err (t : Ticket κ) (e : Errno) (restart : Bool) :
    afterIoctl t (.err e) restart =
      if restart ∧ e = .ERESTARTSYS then (.issue t.launch t.ioctl,none)
      else (.idle,some .CL_OUT_OF_RESOURCES) := by
  simp [afterIoctl, ioctlFailed]

theorem afterIoctl_ok (t : Ticket κ) (restart : Bool) :
    afterIoctl t .ok restart = match t.ioctl with
      | .load => if t.launch.cmd.isSome then (.issue t.launch .submit,none) else (.crashed,none)
      | .submit => (.issue t.launch .doorbell,none)
      | .doorbell => (.idle,some .CL_SUCCESS) := rfl

/-- The one way for a call to end in CL_SUCCESS. -/
theorem afterIoctl_success {t : Ticket κ} {ret : Ret} {restart : Bool}
    (h : (afterIoctl t ret restart).2 = some .CL_SUCCESS) : t.ioctl = .doorbell ∧ ret = .ok := by
  cases ret with
  | err e =>
    rw [afterIoctl_err] at h
    split at h <;> simp at h
  | ok =>
    rw [afterIoctl_ok] at h
    cases hio : t.ioctl with
    | load =>
      simp only [hio] at h
      split at h <;> simp at h
    | submit => simp [hio] at h
    | doorbell => exact ⟨rfl,rfl⟩

theorem afterIoctl_not_inside (t t' : Ticket κ) (ret : Ret) (restart : Bool) :
    (afterIoctl t ret restart).1 ≠ .inside t' := by
  unfold afterIoctl
  repeat' split
  all_goals simp

/-- The last call of client `k` began after `pre`, with `nd`. -/
def Entered (log pre : List (ClientEvent κ)) (k : κ) (nd : NDRange)
    (mid : List (ClientEvent κ)) : Prop :=
  log = pre ++ .entered k nd :: mid ∧ ∀ nd', .entered k nd' ∉ mid

theorem Entered.append {log pre mid es : List (ClientEvent κ)} {k : κ} {nd : NDRange}
    (h : Entered log pre k nd mid) (hes : ∀ nd', .entered k nd' ∉ es) :
    Entered (log ++ es) pre k nd (mid ++ es) := by
  obtain ⟨rfl,hmid⟩ := h
  refine ⟨by simp,fun nd' hmem => ?_⟩
  rcases List.mem_append.mp hmem with hold | hnew
  · exact hmid nd' hold
  · exact hes nd' hnew

theorem Entered.of_append {log es pre mid : List (ClientEvent κ)} {k : κ} {nd : NDRange}
    (h : Entered (log ++ es) pre k nd mid) (hes : ∀ nd', .entered k nd' ∉ es) :
    ∃ mid', Entered log pre k nd mid' ∧ mid = mid' ++ es := by
  rcases cut_append h.1 with ⟨mid',hlog,rfl⟩ | ⟨es',hnew,-⟩
  · exact ⟨mid',⟨hlog,fun nd' hmem => h.2 nd' (List.mem_append_left _ hmem)⟩,rfl⟩
  · exact absurd (by simp [hnew]) (hes nd)

theorem Entered.unique {log pre pre' mid mid' : List (ClientEvent κ)} {k : κ} {nd nd' : NDRange}
    (h : Entered log pre k nd mid) (h' : Entered log pre' k nd' mid') :
    pre = pre' ∧ nd = nd' ∧ mid = mid' := by
  rcases cut_append (h.1.symm.trans h'.1) with ⟨post,-,hmid⟩ | ⟨es,hes,hpre⟩
  · exact absurd (by simp [hmid]) (h'.2 nd)
  · cases es with
    | nil =>
      obtain ⟨hentered,hmid⟩ := List.cons.inj hes
      exact ⟨by simpa using hpre.symm,by simpa using hentered,hmid⟩
    | cons e es =>
      obtain ⟨-,hmid⟩ := List.cons.inj hes
      exact absurd (by simp [hmid]) (h.2 nd')

variable [DecidableEq κ]

section setPhase
variable (u : Clients κ) (k : κ) (p : Phase κ)

@[simp] theorem Clients.setPhase_ring : (u.setPhase k p).ring = u.ring := rfl
@[simp] theorem Clients.setPhase_calls : (u.setPhase k p).calls = u.calls := rfl
@[simp] theorem Clients.setPhase_phase_self : (u.setPhase k p).phase k = p := by
  simp [Clients.setPhase]

@[simp] theorem Clients.setPhase_phase_other {k' : κ} (h : k' ≠ k) :
    (u.setPhase k p).phase k' = u.phase k' := by
  simp [Clients.setPhase, h]

end setPhase

inductive ClientRule (queueMode : Int) (u : Clients κ) :
    ClientAction κ → Clients κ → List (ClientEvent κ) → Prop where
  | refused (k : κ) (nd : NDRange) (memalign : Bool) (status : ClStatus)
      (hphase : u.phase k = .idle) (hprepare : prepare nd memalign = .error status) :
      ClientRule queueMode u (.enqueue k nd memalign) u [.entered k nd,.returned k status]
  | entered (k : κ) (nd : NDRange) (memalign : Bool) (launch : Launch)
      (hphase : u.phase k = .idle) (hprepare : prepare nd memalign = .ok launch) :
      ClientRule queueMode u (.enqueue k nd memalign) (u.setPhase k (.upload launch))
        [.entered k nd]
  | uploaded (k : κ) (launch : Launch) (hphase : u.phase k = .upload launch) :
      ClientRule queueMode u (.dma k .ok)
        ((u.upload launch.page).setPhase k (.issue launch .load)) [.uploaded k]
  | uploadFailed (k : κ) (launch : Launch) (hphase : u.phase k = .upload launch) :
      ClientRule queueMode u (.dma k (.failed none)) (u.setPhase k .idle)
        [.returned k .CL_OUT_OF_RESOURCES]
  | uploadBroken (k : κ) (launch : Launch) (left : Nat → UInt32)
      (hphase : u.phase k = .upload launch) :
      ClientRule queueMode u (.dma k (.failed (some left)))
        ((u.upload left).setPhase k .idle) [.uploaded k,.returned k .CL_OUT_OF_RESOURCES]
  | ioctl (k : κ) (launch : Launch) (io : Ioctl) (t : Ticket κ)
      (hphase : u.phase k = .issue launch io) (ht : t = ⟨k,u.calls k,io,launch⟩)
      (hready : u.ring.pc t = .ready) :
      ClientRule queueMode u (.ioctl k)
        {u.setPhase k (.inside t) with
          calls := Function.update u.calls k (u.calls k + 1),
          ring := u.ring.setPc t (entry queueMode t.call)} [.ring (.called t t.call)]
  | ring (a : Action (Ticket κ)) (ring' : State (Ticket κ)) (es : List (Event (Ticket κ)))
      (ha : ringOnly a = true) (hstep : step queueMode u.ring a = some (ring',es)) :
      ClientRule queueMode u (.ring a) {u with ring := ring'} (es.map .ring)
  | result (k : κ) (t : Ticket κ) (ret : Ret) (restart : Bool)
      (hphase : u.phase k = .inside t) (hpc : u.ring.pc t = .done ret) :
      ClientRule queueMode u (.result k restart) (u.setPhase k (afterIoctl t ret restart).1)
        ((afterIoctl t ret restart).2.toList.map (.returned k))

theorem clientRule_of_step {queueMode : Int} {u u' : Clients κ} {a : ClientAction κ}
    {es : List (ClientEvent κ)} (h : u.step queueMode a = some (u',es)) :
    ClientRule queueMode u a u' es := by
  cases a with
  | enqueue k nd memalign =>
    simp only [Clients.step] at h
    split at h
    next hphase =>
      split at h
      next status hprepare => cases h; exact .refused k nd memalign status hphase hprepare
      next launch hprepare => cases h; exact .entered k nd memalign launch hphase hprepare
    next => contradiction
  | dma k result =>
    simp only [Clients.step] at h
    split at h
    next launch hphase => cases h; exact .uploaded k launch hphase
    next launch hphase => cases h; exact .uploadFailed k launch hphase
    next launch left hphase => cases h; exact .uploadBroken k launch left hphase
    next => contradiction
  | ioctl k =>
    simp only [Clients.step] at h
    split at h
    next launch io hphase =>
      simp only [Clients.ringStep, step] at h
      split at h
      next => contradiction
      next ring' es' hstep =>
        split at hstep
        next hready =>
          cases hstep
          cases h
          exact .ioctl k launch io _ hphase rfl hready
        next => contradiction
    next => contradiction
  | ring a =>
    simp only [Clients.step] at h
    split at h
    next ha =>
      simp only [Clients.ringStep] at h
      split at h
      next => contradiction
      next ring' es' hstep => cases h; exact .ring a ring' es' ha hstep
    next => contradiction
  | result k restart =>
    simp only [Clients.step] at h
    split at h
    next t hphase =>
      split at h
      next ret hpc => cases h; exact .result k t ret restart hphase hpc
      next => contradiction
    next => contradiction

/-- The driver under the clients is the ring machine: a client step is one of
its steps, or none. -/
theorem clients_refine_ring (queueMode : Int) :
    Refinement (clientSystem κ queueMode) (ringSystem (Ticket κ) queueMode)
      (fun log u rlog r => r = u.ring ∧ rlog = ringLog log) where
  init u hu := ⟨u.ring,hu.1,rfl,rfl⟩
  step := by
    rintro log u a u' es _ _ - - ⟨rfl,rfl⟩ hstep
    cases clientRule_of_step hstep with
    | refused | entered | uploadFailed => exact ⟨[],_,[],rfl,rfl,by simp⟩
    | uploaded k launch => exact ⟨[.upload launch.page],_,[],rfl,rfl,by simp⟩
    | uploadBroken k launch left => exact ⟨[.upload left],_,[],rfl,rfl,by simp⟩
    | ioctl k launch io t hphase ht hready =>
      refine ⟨[.start t t.call],_,[.called t t.call],?_,rfl,by simp [ringLog, ClientEvent.ring?]⟩
      simp [System.exec, ringSystem, step, hready]
    | ring a ring' es ha hring =>
      refine ⟨[a],ring',es,?_,rfl,by simp⟩
      simp [System.exec, ringSystem, hring]
    | result k t ret restart =>
      exact ⟨[],_,[],rfl,rfl,by simp⟩

theorem ring_run {queueMode : Int} {log : List (ClientEvent κ)} {u : Clients κ}
    (h : (clientSystem κ queueMode).Run log u) :
    (ringSystem (Ticket κ) queueMode).Run (ringLog log) u.ring := by
  obtain ⟨_,_,hrun,rfl,rfl⟩ := (clients_refine_ring queueMode).run h
  exact hrun

/-- What the driver and the firmware can do by themselves they can do under the clients. -/
theorem clients_exec_ring {queueMode : Int} {acts : List (Action (Ticket κ))}
    (hacts : ∀ a ∈ acts, ringOnly a = true) {u : Clients κ} {r : State (Ticket κ)}
    {es : List (Event (Ticket κ))}
    (h : (ringSystem (Ticket κ) queueMode).exec u.ring acts = some (r,es)) :
    (clientSystem κ queueMode).exec u (acts.map .ring) =
      some ({u with ring := r},es.map .ring) := by
  induction acts generalizing u es with
  | nil =>
    obtain ⟨rfl,rfl⟩ := Prod.mk.inj (Option.some.inj h)
    rfl
  | cons a acts ih =>
    rw [System.exec] at h
    split at h
    next => contradiction
    next r₁ es₁ hstep =>
      split at h
      next => contradiction
      next r₂ es₂ hexec =>
        obtain ⟨rfl,rfl⟩ := Prod.mk.inj (Option.some.inj h)
        have hfirst : (clientSystem κ queueMode).step u (.ring a) =
            some ({u with ring := r₁},es₁.map .ring) := by
          have hstep : step queueMode u.ring a = some (r₁,es₁) := hstep
          simp [clientSystem, Clients.step, Clients.ringStep, hacts a, hstep]
        have hrest := ih (u := {u with ring := r₁}) (fun a ha => hacts a (by simp [ha])) hexec
        simp [System.exec, hfirst, hrest]

/-- The invariant rule of the clients, one case for each rule. -/
theorem client_invariant {queueMode : Int}
    {ok : List (ClientEvent κ) → Clients κ → ClientAction κ → Prop}
    {I : List (ClientEvent κ) → Clients κ → Prop} {log : List (ClientEvent κ)} {u : Clients κ}
    (hinit : ∀ u, (clientSystem κ queueMode).init u → I [] u)
    (hrule : ∀ log u a u' es, (clientSystem κ queueMode).RunWith ok log u → I log u →
      ok log u a → ClientRule queueMode u a u' es → I (log ++ es) u')
    (h : (clientSystem κ queueMode).RunWith ok log u) : I log u :=
  h.invariant hinit fun log u a u' es hrun hI hok hstep =>
    hrule log u a u' es hrun hI hok (clientRule_of_step hstep)

/-- A ticket at work is the one its client is inside of, and every call was made
with a ticket that says what it is. -/
structure TicketInv (log : List (ClientEvent κ)) (u : Clients κ) : Prop where
  active : ∀ t, u.ring.pc t = .ready ∨ (∃ ret, u.ring.pc t = .done ret) ∨
    u.phase t.client = .inside t
  unused : ∀ t, u.calls t.client ≤ t.nth → u.ring.pc t = .ready
  inside : ∀ k t, u.phase k = .inside t → t.client = k ∧ .called t t.call ∈ ringLog log
  called : ∀ t call, .called t call ∈ ringLog log → call = t.call

/-- A call's own step takes it from a point that is neither start nor end. -/
theorem ringOnly_actor {queueMode : Int} {r r' : State (Ticket κ)} {a : Action (Ticket κ)}
    {es : List (Event (Ticket κ))} (h : Rule queueMode r a r' es) (ha : ringOnly a = true)
    {t : Ticket κ} (hact : a.actor = some t) : r.pc t ≠ .ready ∧ ∀ ret, r.pc t ≠ .done ret := by
  cases h with
  | start => simp [ringOnly] at ha
  | testTrue c target a otherwise hpc hwait | testFalse c target a otherwise hpc hwait =>
    obtain rfl := Option.some.inj (hwait.actor.symm.trans hact)
    simp [hpc]
  | fwHead | fwEmpty | fwTask | fwFetch | fwFetchLast | fwExec | fwCommit | upload =>
    nomatch hact
  | _ =>
    obtain rfl := Option.some.inj hact
    simp_all

theorem ringOnly_not_called {queueMode : Int} {r r' : State (Ticket κ)} {a : Action (Ticket κ)}
    {es : List (Event (Ticket κ))} (h : Rule queueMode r a r' es) (ha : ringOnly a = true)
    (t : Ticket κ) (call : Call) : .called t call ∉ es := by
  cases h with
  | start => simp [ringOnly] at ha
  | _ => simp

/-- A step of client `k` alone, from outside any ioctl to outside any ioctl. -/
private theorem ticketInv_setPhase {log es : List (ClientEvent κ)} {u : Clients κ} {k : κ}
    {p : Phase κ} (h : TicketInv log u) (dev : Device)
    (hold : ∀ t, u.phase k = .inside t → ∃ ret, u.ring.pc t = .done ret)
    (hnew : ∀ t, p ≠ .inside t) (hes : ringLog es = []) :
    TicketInv (log ++ es) ({u with ring := {u.ring with dev := dev}}.setPhase k p) := by
  obtain ⟨hactive,hunused,hinside,hcalled⟩ := h
  refine ⟨fun t => ?_,hunused,fun k' t hphase => ?_,fun t call hmem => ?_⟩
  · rcases hactive t with hready | hdone | hphase
    · exact .inl hready
    · exact .inr (.inl hdone)
    · by_cases hk : t.client = k
      · exact .inr (.inl (hold t (hk ▸ hphase)))
      · exact .inr (.inr (by simpa [hk] using hphase))
  · by_cases hk : k' = k
    · subst hk
      exact absurd (by simpa using hphase) (hnew t)
    · rw [ringLog_append, hes, List.append_nil]
      exact hinside k' t (by simpa [hk] using hphase)
  · rw [ringLog_append, hes, List.append_nil] at hmem
    exact hcalled t call hmem

theorem ticketInv_run {queueMode : Int} {log : List (ClientEvent κ)} {u : Clients κ}
    (h : (clientSystem κ queueMode).Run log u) : TicketInv log u := by
  refine client_invariant (I := TicketInv) ?_ ?_ h
  · intro u hu
    refine ⟨fun t => .inl (hu.1.2.2.2.1 t),fun t _ => hu.1.2.2.2.1 t,?_,?_⟩
    · intro k t hphase
      simp [hu.2.1 k] at hphase
    · intro t call hmem
      simp at hmem
  · intro log u a u' es hrun ih _ hrule
    cases hrule with
    | refused k nd memalign status hphase hprepare =>
      obtain ⟨hactive,hunused,hinside,hcalled⟩ := ih
      exact ⟨hactive,hunused,by simpa using hinside,by simpa using hcalled⟩
    | entered k nd memalign launch hphase hprepare =>
      exact ticketInv_setPhase ih _ (by simp [hphase]) (by simp) rfl
    | uploaded k launch hphase =>
      exact ticketInv_setPhase ih _ (by simp [hphase]) (by simp) rfl
    | uploadFailed k launch hphase =>
      exact ticketInv_setPhase ih _ (by simp [hphase]) (by simp) rfl
    | uploadBroken k launch left hphase =>
      exact ticketInv_setPhase ih _ (by simp [hphase]) (by simp) rfl
    | result k t ret restart hphase hpc =>
      refine ticketInv_setPhase ih _ ?_ (fun t' => afterIoctl_not_inside t t' ret restart)
        (ringLog_result k _)
      rintro t' ht'
      obtain rfl := Phase.inside.inj (hphase.symm.trans ht')
      exact ⟨ret,hpc⟩
    | ioctl k launch io t hphase ht hready =>
      obtain ⟨hactive,hunused,hinside,hcalled⟩ := ih
      have hlog : ringLog [ClientEvent.ring (.called t t.call)] = [.called t t.call] := rfl
      have hclient : t.client = k := by rw [ht]
      have hnth : t.nth = u.calls k := by rw [ht]
      refine ⟨fun t' => ?_,fun t' ht' => ?_,fun k' t' ht' => ?_,fun t' call hmem => ?_⟩
      · by_cases htt : t' = t
        · subst htt
          exact .inr (.inr (by simp [Clients.setPhase, hclient]))
        · rw [State.setPc_pc_other _ _ _ htt]
          refine (hactive t').imp_right (Or.imp_right fun hin => ?_)
          have hk : t'.client ≠ k := by
            intro hk
            simp [hk, hphase] at hin
          simpa [Clients.setPhase, hk] using hin
      · have htt : t' ≠ t := by
          rintro rfl
          simp only [hclient, hnth, Function.update_self] at ht'
          omega
        rw [State.setPc_pc_other _ _ _ htt]
        apply hunused t'
        by_cases hk : t'.client = k
        · simp only [hk, Function.update_self] at ht' ⊢
          omega
        · simpa [hk] using ht'
      · rw [ringLog_append, hlog]
        by_cases hk : k' = k
        · subst hk
          obtain rfl : t = t' := by simpa [Clients.setPhase] using ht'
          exact ⟨hclient,by simp⟩
        · obtain ⟨hc,hmem⟩ := hinside k' t' (by simpa [Clients.setPhase, hk] using ht')
          exact ⟨hc,List.mem_append_left _ hmem⟩
      · rw [ringLog_append, hlog] at hmem
        rcases List.mem_append.mp hmem with hold | hnew
        · exact hcalled t' call hold
        · obtain ⟨rfl,rfl⟩ : t' = t ∧ call = t.call := by simpa using hnew
          rfl
    | ring a ring' es ha hstep =>
      obtain ⟨hactive,hunused,hinside,hcalled⟩ := ih
      have hrule := rule_of_step hstep
      refine ⟨fun t => ?_,fun t ht => ?_,fun k t hphase => ?_,fun t call hmem => ?_⟩
      · by_cases hact : a.actor = some t
        · obtain ⟨hready,hdone⟩ := ringOnly_actor hrule ha hact
          have hbusy := ((hactive t).resolve_left hready).resolve_left fun ⟨ret,h⟩ => hdone ret h
          exact .inr (.inr hbusy)
        · rw [hrule.pc_other hact]
          exact hactive t
      · have hready := hunused t ht
        rwa [hrule.pc_other fun hact => (ringOnly_actor hrule ha hact).1 hready]
      · rw [ringLog_append]
        exact (hinside k t hphase).imp_right (List.mem_append_left _)
      · rw [ringLog_append, ringLog_ring] at hmem
        rcases List.mem_append.mp hmem with hold | hnew
        · exact hcalled t call hold
        · exact absurd hnew (ringOnly_not_called hrule ha t call)

theorem inside_calledAs {queueMode : Int} {log : List (ClientEvent κ)} {u : Clients κ}
    (h : (clientSystem κ queueMode).Run log u) {k : κ} {t : Ticket κ}
    (hphase : u.phase k = .inside t) : CalledAs (ringLog log) t t.call := by
  have hticket := ticketInv_run h
  intro call
  constructor
  · exact hticket.called t call
  · rintro rfl
    exact (hticket.inside k t hphase).2

end FpgaGpu.Umd
