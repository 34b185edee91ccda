import FpgaGpu.Driver.Patient
import FpgaGpu.Umd.Dispatch

/-! How many clients the ring has room for. A client never has more than one
descriptor pending, so 511 clients whose waits are not given up cannot fill the
ring, and 512 can. -/
namespace FpgaGpu.Umd
open Driver Library

variable {κ : Type}

/-- The programs fit the I-RAM, uploads succeed, and no wait is given up. -/
def Untroubled (_ : List (ClientEvent κ)) (_ : Clients κ) : ClientAction κ → Prop
  | .enqueue _ nd _ => ∀ kernel program, nd.kernel = some kernel →
      kernel.program = some program →
      program.numInstructions ≠ 0 ∧ program.numInstructions ≤ 1024
  | .dma _ result => result = .ok
  | .ring (.expire _) | .ring (.interrupt _) => False
  | _ => True

/-- What the ioctls still to come are called with is sound. -/
def Phase.Sound : Phase κ → Prop
  | .upload launch => ¬launch.kbin.BadSize
  | .issue launch io => ¬launch.kbin.BadSize ∧ (io = .submit → launch.cmd.isSome = true)
  | .inside t => ¬t.launch.kbin.BadSize ∧ (t.ioctl = .submit → t.launch.cmd.isSome = true)
  | _ => True

theorem Ticket.call_sound {t : Ticket κ} (h : (Phase.inside t).Sound) : t.call.Sound := by
  unfold Ticket.call
  split
  next =>
    refine ⟨h.1,fun i hi => ?_⟩
    have hlt : i < t.launch.program.binaryWords.length :=
      lt_of_lt_of_le hi t.launch.program.fits
    simp [Launch.kbin, hlt]
  next hio => exact h.2 hio
  next => trivial

theorem afterIoctl_sound {t : Ticket κ} (ret : Ret) (restart : Bool)
    (h : (Phase.inside t).Sound) : (afterIoctl t ret restart).1.Sound := by
  cases ret with
  | err e =>
    rw [afterIoctl_err]
    split
    · exact h
    · trivial
  | ok =>
    rw [afterIoctl_ok]
    cases t.ioctl with
    | load =>
      by_cases hcmd : t.launch.cmd.isSome = true
      · simp only [hcmd, if_true]
        exact ⟨h.1,fun _ => hcmd⟩
      · simp [hcmd, Phase.Sound]
    | submit => exact ⟨h.1,nofun⟩
    | doorbell => trivial

theorem prepare_resources {nd : NDRange} {memalign : Bool} :
    prepare nd memalign ≠ .error .CL_OUT_OF_RESOURCES := by
  unfold prepare
  repeat' split
  all_goals simp

variable [DecidableEq κ]

section untroubled
variable {log : List (ClientEvent κ)} {u : Clients κ}
  (h : (clientSystem κ 0).RunWith Untroubled log u)
include h

theorem sound_run : ∀ k, (u.phase k).Sound := by
  refine client_invariant (I := fun _ u => ∀ k, (u.phase k).Sound) ?_ ?_ h
  · intro u hu k
    simp [hu.2.1 k, Phase.Sound]
  · intro log u a u' es _ ih hok hrule
    have hset : ∀ (u' : Clients κ) k p, u'.phase = u.phase → p.Sound →
        ∀ k', ((u'.setPhase k p).phase k').Sound := by
      intro u' k p hsame hp k'
      by_cases hk : k' = k
      · simpa [hk] using hp
      · simpa [hk, hsame] using ih k'
    cases hrule with
    | refused => exact ih
    | entered k nd memalign launch hphase hprepare =>
      obtain ⟨kernel,globalSize,hkernel,hprogram,-⟩ := prepare_ok hprepare
      obtain ⟨hzero,hle⟩ := hok kernel _ hkernel hprogram
      apply hset u k _ rfl
      rintro (hz | hlt)
      · exact hzero hz
      · exact absurd hle (UInt32.not_le.mpr hlt)
    | uploaded k launch hphase =>
      have hown := ih k
      rw [hphase] at hown
      exact hset (u.upload launch.page) k _ rfl ⟨hown,nofun⟩
    | uploadFailed k => exact hset u k _ rfl trivial
    | uploadBroken k launch left => exact hset (u.upload left) k _ rfl trivial
    | ioctl k launch io t hphase ht hready =>
      have hown := ih k
      rw [hphase] at hown
      subst ht
      exact hset {u with ring := _, calls := _} k _ rfl hown
    | ring => exact ih
    | result k t ret restart hphase =>
      have hown := ih k
      rw [hphase] at hown
      exact hset u k _ rfl (afterIoctl_sound ret restart hown)

/-- The driver below sees sound calls and waits that are not given up. -/
theorem patient_ring : (ringSystem (Ticket κ) 0).RunWith Patient (ringLog log) u.ring := by
  refine System.RunWith.image Clients.ring ClientEvent.ring? ?_ ?_ h
  · exact fun u hu => hu.1
  intro log u a u' es _ hok hstep
  cases clientRule_of_step hstep with
  | refused | entered | uploadFailed => exact .inl ⟨rfl,rfl⟩
  | uploaded k launch => exact .inr ⟨.upload launch.page,trivial,rfl⟩
  | uploadBroken k launch left => nomatch (hok : DmaResult.failed (some left) = .ok)
  | ioctl k launch io t hphase ht hready =>
    refine .inr ⟨.start t t.call,trivial,?_⟩
    simp [ringSystem, step, hready, ClientEvent.ring?]
  | ring a ring' es ha hring =>
    refine .inr ⟨a,?_,hring.trans (by rw [← ringLog, ringLog_ring])⟩
    cases a <;> exact hok
  | result k t ret restart => exact .inl ⟨rfl,ringLog_result k _⟩

/-- The ioctl a client is in fails only because the ring is full, and then it has
published nothing. -/
theorem inside_refused {k : κ} {t : Ticket κ} {e : Errno} (hphase : u.phase k = .inside t)
    (hpc : u.ring.pc t = .done (.err e)) :
    e = .EBUSY ∧ t.ioctl ≠ .doorbell ∧ Fresh (ringLog log) t := by
  have hsound := sound_run h k
  rw [hphase] at hsound
  obtain ⟨rfl,hcall,hfresh⟩ := patient_run (patient_ring h) t t.call
    (inside_calledAs h.run hphase) (Ticket.call_sound hsound) e hpc
  exact ⟨rfl,fun hio => hcall (by simp [Ticket.call, hio]),hfresh⟩

end untroubled

/-- What client has to wait for position `p`, where its ticket `t` published: it is still in the
ioctl that did, or on its way to the end of a DOORBELL that covers `p`. -/
def Phase.Owes (log : List (Event (Ticket κ))) (t : Ticket κ) (p : Nat) : Phase κ → Prop
  | .inside t' => t' = t ∨ t'.ioctl = .doorbell ∧
      p < publishedCount (before (Event.tailReadBy t') log)
  | .issue _ io => io = .doorbell
  | _ => False

theorem Phase.Owes.append {log : List (Event (Ticket κ))} {t : Ticket κ} {p : Nat}
    {phase : Phase κ} (h : phase.Owes log t p) (es : List (Event (Ticket κ))) :
    phase.Owes (log ++ es) t p := by
  cases phase with
  | inside t' =>
    refine h.imp_right (And.imp_right fun hp => lt_of_lt_of_le hp ?_)
    exact filterMap_length_mono Event.published? (before_mono _ log es)
  | issue launch io => exact h
  | _ => exact h

/-- Whoever published what is pending is waiting for it, and for nothing else. -/
structure DebtInv (log : List (ClientEvent κ)) (u : Clients κ) : Prop where
  owes : ∀ (p : Nat) (x : Ticket κ × Job), consumedCount (ringLog log) ≤ p →
    (pubIn log)[p]? = some x → (u.phase x.1.client).Owes (ringLog log) x.1 p
  one : ∀ (p p' : Nat) (x x' : Ticket κ × Job), consumedCount (ringLog log) ≤ p →
    consumedCount (ringLog log) ≤ p' → (pubIn log)[p]? = some x → (pubIn log)[p']? = some x' →
    x.1.client = x'.1.client → p = p'

/-- A step of client `k` that the driver does not see. -/
private theorem debtInv_setPhase {log es : List (ClientEvent κ)} {u u' : Clients κ} {k : κ}
    {q : Phase κ} (h : DebtInv log u) (hes : ringLog es = []) (hsame : u'.phase = u.phase)
    (hq : ∀ (p : Nat) (x : Ticket κ × Job), consumedCount (ringLog log) ≤ p →
      (pubIn log)[p]? = some x → x.1.client = k → (u.phase k).Owes (ringLog log) x.1 p →
      q.Owes (ringLog log) x.1 p) : DebtInv (log ++ es) (u'.setPhase k q) := by
  have hlog : ringLog (log ++ es) = ringLog log := by rw [ringLog_append, hes, List.append_nil]
  refine ⟨?_,?_⟩
  · rw [pubIn_append_quiet hes, hlog]
    intro p x hp hget
    have howes := h.owes p x hp hget
    by_cases hk : x.1.client = k
    · rw [hk] at howes ⊢
      rw [Clients.setPhase_phase_self]
      exact hq p x hp hget hk howes
    · rwa [Clients.setPhase_phase_other _ _ _ hk, hsame]
  · rw [pubIn_append_quiet hes, hlog]
    exact h.one

omit [DecidableEq κ] in
/-- A call that publishes is no DOORBELL. -/
theorem publisher_ioctl {t : Ticket κ} {job : Job} (h : job.call = t.call) :
    t.ioctl ≠ .doorbell := by
  intro hio
  cases job <;> simp [Ticket.call, hio, Job.call] at h

section debt
variable {log : List (ClientEvent κ)} {u : Clients κ}
  (h : (clientSystem κ 0).RunWith Untroubled log u)
include h

omit h in
/-- A client that is about to publish has nothing pending. -/
theorem DebtInv.settled (hdebt : DebtInv log u) {t : Ticket κ}
    (hphase : u.phase t.client = .inside t) (hio : t.ioctl ≠ .doorbell)
    (hfresh : Fresh (ringLog log) t) : ∀ (p : Nat) (x : Ticket κ × Job),
      consumedCount (ringLog log) ≤ p → (pubIn log)[p]? = some x → x.1.client ≠ t.client := by
  intro p x hp hget hk
  have howes := hdebt.owes p x hp hget
  rw [hk, hphase] at howes
  rcases howes with heq | ⟨hbell,-⟩
  · have hmem : (t,x.2) ∈ pubIn log := heq ▸ List.mem_of_getElem? hget
    exact hfresh.not_published _ hmem
  · exact hio hbell

theorem debtInv_ring (hdebt : DebtInv log u) {a : Action (Ticket κ)} {ring' : State (Ticket κ)}
    {es : List (Event (Ticket κ))} (hrule : Rule 0 u.ring a ring' es) :
    DebtInv (log ++ es.map .ring) {u with ring := ring'} := by
  have hlog : ringLog (log ++ es.map .ring) = ringLog log ++ es := by simp
  have hle := consumedCount_append_le (ringLog log) es
  rw [← hlog] at hle
  rcases hrule.publishes with hnone | ⟨t,job,tail,hpc,hone⟩
  · have hpub : pubIn (log ++ es.map .ring) = pubIn log := by
      rw [pubIn_append_ring, hnone, List.append_nil]
    refine ⟨?_,?_⟩
    · rw [hpub]
      intro p x hp hget
      rw [hlog]
      exact (hdebt.owes p x (hle.trans hp) hget).append es
    · rw [hpub]
      exact fun p p' x x' hp hp' => hdebt.one p p' x x' (hle.trans hp) (hle.trans hp')
  · obtain ⟨hin,hjob⟩ := publisher_inside h.run hpc
    have hinv := callInv_run (ring_run h.run) t
    rw [hpc] at hinv
    have hsettled := hdebt.settled hin (publisher_ioctl hjob) hinv.1
    have hpub : pubIn (log ++ es.map .ring) = pubIn log ++ [(t,job)] := by
      rw [pubIn_append_ring, hone]
    refine ⟨?_,?_⟩
    · rw [hpub]
      intro p x hp hget
      rw [hlog]
      rcases getElem?_concat_eq_some.mp hget with hold | ⟨-,rfl⟩
      · exact (hdebt.owes p x (hle.trans hp) hold).append es
      · rw [hin]
        exact .inl rfl
    · rw [hpub]
      intro p p' x x' hp hp' hget hget' hk
      rcases getElem?_concat_eq_some.mp hget with hold | ⟨hlast,rfl⟩ <;>
        rcases getElem?_concat_eq_some.mp hget' with hold' | ⟨hlast',rfl⟩
      · exact hdebt.one p p' x x' (hle.trans hp) (hle.trans hp') hold hold' hk
      · exact absurd hk (hsettled p x (hle.trans hp) hold)
      · exact absurd hk.symm (hsettled p' x' (hle.trans hp') hold')
      · exact hlast.trans hlast'.symm

/-- An ioctl that returns leaves its client owing what it owed, unless it has been taken. -/
theorem owes_afterIoctl {k : κ} {t : Ticket κ} {ret : Ret} (restart : Bool)
    (hphase : u.phase k = .inside t) (hpc : u.ring.pc t = .done ret) {p : Nat}
    {x : Ticket κ × Job} (hp : consumedCount (ringLog log) ≤ p) (hget : (pubIn log)[p]? = some x)
    (howes : (Phase.inside t).Owes (ringLog log) x.1 p) :
    (afterIoctl t ret restart).1.Owes (ringLog log) x.1 p := by
  have hring := ring_run h.run
  have hcalled := ((inside_calledAs h.run hphase) t.call).mpr rfl
  have hpending : ¬ConsumedAt (ringLog log) p := by
    rintro ⟨c,job,-,hcon⟩
    exact absurd (List.getElem?_eq_some_iff.mp hcon).1 (not_lt.mpr hp)
  cases ret with
  | err e =>
    obtain ⟨-,hio,hfresh⟩ := inside_refused h hphase hpc
    rcases howes with heq | ⟨hbell,-⟩
    · have hmem : (t,x.2) ∈ pubIn log := heq ▸ List.mem_of_getElem? hget
      exact absurd hmem (hfresh.not_published _)
    · exact absurd hbell hio
  | ok =>
    rcases howes with rfl | ⟨hbell,hbefore⟩
    · obtain ⟨t,job⟩ := x
      have hjob := published_ticket h.run (List.mem_of_getElem? hget)
      cases job with
      | load kbin =>
        rw [← hjob] at hcalled
        have hload : .called t (.loadKernel (some kbin)) ∈ ringLog log := hcalled
        obtain ⟨p',hunique,hcon⟩ := load_sound hring hload hpc
        obtain ⟨rfl,-⟩ := (hunique p _).mp hget
        exact absurd hcon hpending
      | submit cmd =>
        simp only [afterIoctl_ok, (call_eq_submit hjob).1]
        rfl
    · have hdoorbell : t.call = .doorbell := by simp [Ticket.call, hbell]
      exact absurd ((doorbell_sound hring (hdoorbell ▸ hcalled) hpc).2 p hbefore) hpending

theorem debtInv_run : DebtInv log u := by
  refine client_invariant (I := DebtInv) ?_ ?_ h
  · intro u _
    exact ⟨by simp [pubIn],by simp [pubIn]⟩
  · intro log u a u' es hrun ih hok hrule
    cases hrule with
    | refused k nd memalign status hphase hprepare =>
      have hsame : u.setPhase k (u.phase k) = u := by simp [Clients.setPhase]
      have hset : DebtInv (log ++ [.entered k nd,.returned k status]) (u.setPhase k (u.phase k)) :=
        debtInv_setPhase ih rfl rfl fun _ _ _ _ _ howes => howes
      rwa [hsame] at hset
    | entered k nd memalign launch hphase hprepare =>
      exact debtInv_setPhase ih rfl rfl fun _ _ _ _ _ howes => by simp [hphase, Phase.Owes] at howes
    | uploaded k launch hphase =>
      exact debtInv_setPhase ih rfl rfl fun _ _ _ _ _ howes => by simp [hphase, Phase.Owes] at howes
    | uploadFailed k launch hphase =>
      exact debtInv_setPhase ih rfl rfl fun _ _ _ _ _ howes => by simp [hphase, Phase.Owes] at howes
    | uploadBroken k launch left hphase =>
      exact debtInv_setPhase ih rfl rfl fun _ _ _ _ _ howes => by simp [hphase, Phase.Owes] at howes
    | ioctl k launch io t hphase ht hready =>
      have hlog : ringLog (log ++ [.ring (.called t t.call)]) =
          ringLog log ++ [.called t t.call] := by simp [ringLog, ClientEvent.ring?]
      have hcon : consumedCount (ringLog log ++ [Event.called t t.call]) =
          consumedCount (ringLog log) := by simp [consumedCount]
      refine ⟨?_,?_⟩
      · rw [pubIn_append_called, hlog, hcon]
        intro p x hp hget
        have howes := ih.owes p x hp hget
        by_cases hk : x.1.client = k
        · -- the DOORBELL that has just begun will read a tail behind `p`
          rw [hk, hphase] at howes
          have hfresh := callInv_run (ring_run hrun.run) t
          rw [hready] at hfresh
          have hbefore : before (Event.tailReadBy t) (ringLog log ++ [.called t t.call]) =
              ringLog log ++ [.called t t.call] :=
            before_of_not_any (by simp [hfresh.1.2, Event.tailReadBy])
          have hbell : io = .doorbell := howes
          have hlt : p < publishedCount (ringLog log) := (List.getElem?_eq_some_iff.mp hget).1
          have hnow : (Phase.inside t).Owes (ringLog log ++ [.called t t.call]) x.1 p := by
            refine .inr ⟨by rw [ht, hbell],?_⟩
            rw [hbefore]
            simpa [publishedCount] using hlt
          simpa [Clients.setPhase, hk] using hnow
        · simpa [Clients.setPhase, hk] using howes.append _
      · rw [pubIn_append_called, hlog, hcon]
        exact ih.one
    | ring a ring' es ha hstep => exact debtInv_ring hrun ih (rule_of_step hstep)
    | result k t ret restart hphase hpc =>
      refine debtInv_setPhase ih (ringLog_result k _) rfl fun p x hp hget _ howes => ?_
      rw [hphase] at howes
      exact owes_afterIoctl hrun restart hphase hpc hp hget howes

end debt

/-! A run that fills the ring: every client loads a program of one word, and the
firmware takes none of them. -/

/-- A client that begins is soon in its LOAD_KERNEL. -/
theorem enter_load {u : Clients κ} {k : κ} (hphase : u.phase k = .idle)
    (hready : ∀ t : Ticket κ, t.client = k → u.ring.pc t = .ready) :
    ∃ u' es, (clientSystem κ 0).exec u [.enqueue k (oneWord 7 1) true,.dma k .ok,.ioctl k] =
        some (u',es) ∧
      u'.phase k = .inside ⟨k,u.calls k,.load,oneWordLaunch 7 1⟩ ∧
      u'.ring.pc ⟨k,u.calls k,.load,oneWordLaunch 7 1⟩ = .stage (oneWordLaunch 7 1).kbin 0 ∧
      u'.ring.ring = u.ring.ring ∧ u'.ring.globalLock = u.ring.globalLock ∧
      (∀ k', k' ≠ k → u'.phase k' = u.phase k') ∧
      ∀ t : Ticket κ, t.client ≠ k → u'.ring.pc t = u.ring.pc t := by
  have hprepare : prepare (oneWord 7 1) true = .ok (oneWordLaunch 7 1) := rfl
  have hentry : entry 0 (.loadKernel (some (oneWordLaunch 7 1).kbin)) =
      .stage (oneWordLaunch 7 1).kbin 0 := rfl
  have hown := hready ⟨k,u.calls k,.load,oneWordLaunch 7 1⟩ rfl
  have hne : ∀ t : Ticket κ, t.client ≠ k →
      t ≠ ⟨k,u.calls k,.load,oneWordLaunch 7 1⟩ := by
    rintro t ht rfl
    exact ht rfl
  simp +contextual [System.exec, clientSystem, Clients.step, hphase, hprepare, Clients.setPhase,
    Clients.upload, Clients.ringStep, step, hown, Ticket.call, hentry, State.setPc, hne]

/-- `n` loads are pending and nothing has been taken; the clients from `n` on have not begun. -/
structure Filled (f : Fin queueSize → κ) (n : Nat) (u : Clients κ) : Prop where
  head : u.ring.ring.head = slot 0
  tail : u.ring.ring.tail = slot n
  lock : u.ring.globalLock = none
  idle : ∀ i, n ≤ i.val → u.phase (f i) = .idle ∧
    ∀ t : Ticket κ, t.client = f i → u.ring.pc t = .ready

omit [DecidableEq κ] in
theorem freshClients_filled (f : Fin queueSize → κ) : Filled f 0 (freshClients κ) :=
  ⟨rfl,rfl,rfl,fun _ _ => ⟨rfl,fun _ _ => rfl⟩⟩

omit [DecidableEq κ] in
theorem untroubled_enter (k : κ) : ∀ a ∈ [ClientAction.enqueue k (oneWord 7 1) true,
    .dma k .ok,.ioctl k], ∀ log (u : Clients κ), Untroubled log u a := by
  intro a ha log u
  simp only [List.mem_cons, List.not_mem_nil, or_false] at ha
  rcases ha with rfl | rfl | rfl
  · rintro kernel program hkernel hprogram
    obtain rfl := Option.some.inj hkernel
    obtain rfl := Option.some.inj hprogram
    exact ⟨by decide,by decide⟩
  · rfl
  · trivial

omit [DecidableEq κ] in
theorem untroubled_access {t : Ticket κ} {acts : List (Action (Ticket κ))}
    (hacts : ∀ a ∈ acts, a = .access t) :
    ∀ a ∈ acts.map ClientAction.ring, ∀ log (u : Clients κ), Untroubled log u a := by
  intro a ha log u
  obtain ⟨b,hb,rfl⟩ := List.mem_map.mp ha
  rw [hacts b hb]
  trivial

theorem run_access {log : List (ClientEvent κ)} {u : Clients κ} {t : Ticket κ}
    {acts : List (Action (Ticket κ))} {r : State (Ticket κ)} {es : List (Event (Ticket κ))}
    (h : (clientSystem κ 0).RunWith Untroubled log u) (hacts : ∀ a ∈ acts, a = .access t)
    (hexec : (ringSystem (Ticket κ) 0).exec u.ring acts = some (r,es)) :
    (clientSystem κ 0).RunWith Untroubled (log ++ es.map .ring) {u with ring := r} := by
  refine h.exec _ (untroubled_access hacts) (clients_exec_ring (fun a ha => ?_) hexec)
  rw [hacts a ha]
  rfl

omit [DecidableEq κ] in
theorem mem_sectionSteps {t : Ticket κ} : ∀ a ∈ Action.access t :: sectionSteps t,
    a = .access t := by
  simp [sectionSteps]

theorem filled_reached {f : Fin queueSize → κ} (hf : Function.Injective f) {n : Nat}
    (hn : n < queueSize) :
    ∃ log u, (clientSystem κ 0).RunWith Untroubled log u ∧ Filled f n u := by
  induction n with
  | zero => exact ⟨[],_,.init (freshClients_init κ 0),freshClients_filled f⟩
  | succ n ih =>
    obtain ⟨log,u,hrun,hfilled⟩ := ih (by omega)
    have hlt : n < queueSize := by omega
    obtain ⟨hidle,hready⟩ := hfilled.idle ⟨n,hlt⟩ le_rfl
    obtain ⟨u₁,es₁,hexec₁,-,hstage,hring,hlock,hphase,hpc⟩ := enter_load hidle hready
    have hrun₁ := hrun.exec _ (untroubled_enter _) hexec₁
    have hroom : nextSlot u₁.ring.ring.tail ≠ u₁.ring.ring.head := by
      rw [hring, hfilled.tail, hfilled.head, nextSlot_slot, ne_eq, slot_eq_iff]
      simp only [queueSize] at hn ⊢
      omega
    obtain ⟨r,es,hexec,hhead,htail,hfree,hother⟩ := load_uncontended (w := 7) rfl rfl hstage
      (hlock.trans hfilled.lock) hroom
    refine ⟨_,_,run_access hrun₁ mem_sectionSteps hexec,?_,?_,hfree,fun i hi => ?_⟩
    · rw [hhead, hring, hfilled.head]
    · rw [htail, hring, hfilled.tail, nextSlot_slot]
    · have hne : f i ≠ f ⟨n,hlt⟩ := by
        intro heq
        have hval : i.val = n := congrArg Fin.val (hf heq)
        omega
      obtain ⟨hidle',hready'⟩ := hfilled.idle i (by omega)
      refine ⟨(hphase _ hne).trans hidle',fun t ht => ?_⟩
      have hclient : t.client ≠ f ⟨n,hlt⟩ := ht ▸ hne
      refine (hother t ?_).trans ((hpc t hclient).trans (hready' t ht))
      rintro rfl
      exact hclient rfl

/-- The 512th client is turned away. -/
theorem full_ring_refuses {f : Fin queueSize → κ} (hf : Function.Injective f) :
    ∃ log u k, (clientSystem κ 0).RunWith Untroubled log u ∧
      .returned k .CL_OUT_OF_RESOURCES ∈ log := by
  obtain ⟨log,u,hrun,hfilled⟩ := filled_reached hf (n := 511) (by decide)
  obtain ⟨hidle,hready⟩ := hfilled.idle ⟨511,by decide⟩ le_rfl
  generalize f ⟨511,by decide⟩ = k at hidle hready
  obtain ⟨u₁,es₁,hexec₁,hinside,hstage,hring,hlock,-,-⟩ := enter_load hidle hready
  have hrun₁ := hrun.exec _ (untroubled_enter _) hexec₁
  have hfull : nextSlot u₁.ring.ring.tail = u₁.ring.ring.head := by
    rw [hring, hfilled.tail, hfilled.head]
    decide
  obtain ⟨r,es,hexec,hdone⟩ := load_full (w := 7) rfl rfl hstage (hlock.trans hfilled.lock) hfull
  have hrun₂ := run_access hrun₁ (fun a ha => List.eq_of_mem_replicate ha) hexec
  have hresult : (clientSystem κ 0).step {u₁ with ring := r} (.result k false) =
      some ({u₁ with ring := r}.setPhase k .idle,[.returned k .CL_OUT_OF_RESOURCES]) := by
    simp [clientSystem, Clients.step, hinside, hdone, afterIoctl_err]
  have hok : Untroubled (log ++ es₁ ++ es.map .ring) {u₁ with ring := r}
      (.result k false) := trivial
  exact ⟨_,_,k,.step hrun₂ hok hresult,List.mem_append_right _ (by simp)⟩

variable [Fintype κ]

/-- The head that is compared with the tail is not too far behind. -/
def RoomInv (log : List (ClientEvent κ)) (u : Clients κ) : Prop :=
  ∀ t job head, u.ring.pc t = .readTail job head → ∃ n ≤ consumedCount (ringLog log),
    head = slot n ∧ publishedCount (ringLog log) < n + Fintype.card κ

section room
variable {log : List (ClientEvent κ)} {u : Clients κ}
  (h : (clientSystem κ 0).RunWith Untroubled log u)
include h

theorem pending_le_clients : pendingCount (ringLog log) ≤ Fintype.card κ :=
  pending_le_owners (fun x : Ticket κ × Job => x.1.client) (debtInv_run h).one

theorem roomInv_run : RoomInv log u := by
  refine client_invariant (I := RoomInv) ?_ ?_ h
  · intro u hu t job head hpc
    simp [hu.1.2.2.2.1 t] at hpc
  · intro log u a u' es hrun ih hok hrule t job head hpc
    have hring := ring_run hrun.run
    cases hrule with
    | refused | uploaded | uploadFailed | uploadBroken | entered => simpa using ih t job head hpc
    | result k t' ret restart hphase hdone =>
      rw [ringLog_append, ringLog_result, List.append_nil]
      exact ih t job head hpc
    | ioctl k launch io t' hphase ht hready =>
      have hlog : ringLog (log ++ [.ring (.called t' t'.call)]) =
          ringLog log ++ [.called t' t'.call] := by simp [ringLog, ClientEvent.ring?]
      have hrule : Rule 0 u.ring (.start t' t'.call) _ _ := .start t' t'.call hready
      rw [hlog]
      rcases hrule.readTail hpc with hold | ⟨-,-,hes⟩
      · simpa [publishedCount, consumedCount] using ih t job head hold
      · simp at hes
    | ring a ring' es ha hstep =>
      have hrule := rule_of_step hstep
      have hlog : ringLog (log ++ es.map .ring) = ringLog log ++ es := by simp
      rw [hlog]
      rcases hrule.readTail hpc with hold | ⟨hread,rfl,rfl⟩
      · -- whoever holds the lock is the only one to publish
        obtain ⟨n,hn,hhead,hlt⟩ := ih t job head hold
        refine ⟨n,hn.trans (consumedCount_append_le _ _),hhead,?_⟩
        rcases hrule.publishes with hnone | ⟨t',job',tail,hwrite,-⟩
        · simpa [publishedCount, hnone] using hlt
        · have heq : t = t' := section_unique hring (by simp [hold, Pc.InSection])
            (by simp [hwrite, Pc.InSection])
          simp [← heq, hold] at hwrite
      · have hinv := callInv_run hring t
        rw [hread] at hinv
        have hticket := ticketInv_run hrun.run
        have hphase : u.phase t.client = .inside t := by simpa [hread] using hticket.active t
        have hcall := hticket.called t _ ((hinv.2 _).mpr rfl)
        have hsettled := (debtInv_run hrun).settled hphase (publisher_ioctl hcall) hinv.1
        have hlt := pending_lt_owners (fun x : Ticket κ × Job => x.1.client)
          (debtInv_run hrun).one t.client hsettled
        obtain ⟨q,hrep,-,htaken,-⟩ := ring_represents hring
        refine ⟨consumedCount (ringLog log),consumedCount_append_le _ _,htaken ▸ hrep.head,?_⟩
        have hpub : (pubIn log).length = publishedCount (ringLog log) := rfl
        simp only [publishedCount, publishedIn_append, List.length_append] at hpub ⊢
        simp
        omega

/-- With a slot for every client and one more no call finds the ring full. -/
theorem never_busy (hcard : Fintype.card κ < queueSize) : ∀ t, ¬(u.ring.pc t).Busy := by
  refine client_invariant (I := fun _ u => ∀ t, ¬(u.ring.pc t).Busy) ?_ ?_ h
  · intro u hu t
    simp [hu.1.2.2.2.1 t, Pc.Busy]
  · intro log u a u' es hrun ih hok hrule t hbusy
    -- the comparison that would have to succeed
    have hfull : ¬∃ job, u.ring.pc t = .readTail job (nextSlot u.ring.ring.tail) := by
      rintro ⟨job,hpc⟩
      obtain ⟨n,hn,hhead,hlt⟩ := roomInv_run hrun t job _ hpc
      obtain ⟨q,hrep,hpub,htaken,-⟩ := ring_represents (ring_run hrun.run)
      have hle := q.taken_le
      rw [hpub, htaken] at hle
      rw [hrep.tail, hpub, nextSlot_slot, slot_eq_iff] at hhead
      have heq := eq_of_mod_eq hhead.symm (by omega) (by
        rw [publishedCount] at hlt
        omega)
      omega
    cases hrule with
    | refused | uploaded | uploadFailed | uploadBroken | entered | result => exact ih t hbusy
    | ioctl k launch io t' hphase ht hready =>
      have hstart : Rule 0 u.ring (.start t' t'.call) _ _ := .start t' t'.call hready
      exact (hstart.busy hbusy).elim (ih t) hfull
    | ring a ring' es ha hstep => exact ((rule_of_step hstep).busy hbusy).elim (ih t) hfull

/-- And so no call runs out of resources. -/
theorem never_out_of_resources (hcard : Fintype.card κ < queueSize) (k : κ) :
    .returned k .CL_OUT_OF_RESOURCES ∉ log := by
  intro hmem
  obtain ⟨pre,post,rfl⟩ := List.append_of_mem hmem
  refine h.event_of_step (P := fun _ e => ∀ k, e ≠ .returned k .CL_OUT_OF_RESOURCES) ?_
    pre _ post rfl k rfl
  rintro log u a u' es hrun hok hstep pre e post hes k rfl
  have hmem : .returned k .CL_OUT_OF_RESOURCES ∈ es := by simp [hes]
  cases clientRule_of_step hstep with
  | refused k' nd memalign status hphase hprepare =>
    obtain ⟨-,rfl⟩ : k = k' ∧ .CL_OUT_OF_RESOURCES = status := by simpa using hmem
    exact prepare_resources hprepare
  | uploadFailed => nomatch (hok : DmaResult.failed none = .ok)
  | uploadBroken k' launch left => nomatch (hok : DmaResult.failed (some left) = .ok)
  | result k' t ret restart hphase hpc =>
    cases ret with
    | ok =>
      rw [afterIoctl_ok] at hmem
      cases hio : t.ioctl <;> simp [hio] at hmem
      split at hmem <;> simp at hmem
    | err e =>
      obtain ⟨rfl,-⟩ := inside_refused hrun hphase hpc
      exact never_busy hrun hcard t (by simp [hpc, Pc.Busy])
  | ring a ring' es ha hring => simp at hmem
  | _ => simp at hmem

end room

/-- With programs that fit, uploads that succeed and waits that are not given up, no launch
ever runs out of resources exactly as long as there are fewer clients than slots. -/
theorem launches_never_refused_iff :
    (∀ log u, (clientSystem κ 0).RunWith Untroubled log u →
      ∀ k, .returned k .CL_OUT_OF_RESOURCES ∉ log) ↔ Fintype.card κ < queueSize := by
  constructor
  · intro h
    by_contra hcard
    have hle : Fintype.card (Fin queueSize) ≤ Fintype.card κ := by
      simpa using not_lt.mp hcard
    obtain ⟨f⟩ := Function.Embedding.nonempty_of_card_le hle
    obtain ⟨log,u,k,hrun,hmem⟩ := full_ring_refuses f.injective
    exact h log u hrun k hmem
  · intro hcard log u hrun k
    exact never_out_of_resources hrun hcard k

end FpgaGpu.Umd
