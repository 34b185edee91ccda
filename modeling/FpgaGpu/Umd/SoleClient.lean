import FpgaGpu.Umd.Isolation

/-! A client that has the device to itself. Calls that failed or timed out leave
descriptors behind, which the firmware still runs; a call that succeeds has
nevertheless run its own launch on its own program and arguments. -/
namespace FpgaGpu.Umd
open Driver Library

/-- The call in progress began after `pre`, with `nd`. -/
def Since (log pre : List (ClientEvent Unit)) (nd : NDRange) : Prop :=
  ∃ mid, log = pre ++ .entered () nd :: mid ∧ ∀ nd', .entered () nd' ∉ mid

/-- What the call has submitted, if anything: its launch is the only one
published since `pre`, no upload came after it, and where it was run it found
its own memories. -/
structure SubmitInv (log pre : List (ClientEvent Unit)) (sub : Option (Ticket Unit)) :
    Prop where
  start : consumedCount (ringLog pre) ≤ (pubIn pre).length
  only : ∀ (p : Nat) (t : Ticket Unit) (cmd : LaunchCmd), (pubIn pre).length ≤ p →
    (pubIn log)[p]? = some (t,.submit cmd) → sub = some t
  own : ∀ t, sub = some t → ¬Spoiled log t ∧ RanOwn log t ∧ ∀ job, (t,job) ∉ pubIn pre

def Prepared (nd : NDRange) (launch : Launch) : Prop :=
  ∃ memalign, prepare nd memalign = .ok launch

/-- The launch of the call is published. -/
def SubmittedAs (log : List (ClientEvent Unit)) (sub : Option (Ticket Unit)) (launch : Launch)
    (p : Nat) : Prop :=
  ∃ t cmd, sub = some t ∧ t.launch = launch ∧ (pubIn log)[p]? = some (t,.submit cmd)

def CallAt (log : List (ClientEvent Unit)) (nd : NDRange) (sub : Option (Ticket Unit)) :
    Phase Unit → Prop
  | .upload launch => Prepared nd launch ∧ sub = none
  | .issue launch io => Prepared nd launch ∧ match io with
    | .doorbell => ∃ p, SubmittedAs log sub launch p
    | _ => sub = none
  | .inside t => Prepared nd t.launch ∧ match t.ioctl with
    | .load => sub = none
    | .submit => sub = some t
    | .doorbell => ∃ p, SubmittedAs log sub t.launch p ∧
        p < publishedCount (before (Event.tailReadBy t) (ringLog log))
  | _ => False

def SoleInv (log : List (ClientEvent Unit)) (u : Clients Unit) : Prop :=
  u.phase () = .idle ∨ u.phase () = .crashed ∨
    ∃ pre nd sub, Since log pre nd ∧ SubmitInv log pre sub ∧ CallAt log nd sub (u.phase ())

theorem Since.append {log pre es : List (ClientEvent Unit)} {nd : NDRange}
    (h : Since log pre nd) (hes : ∀ nd', .entered () nd' ∉ es) : Since (log ++ es) pre nd := by
  obtain ⟨mid,hentered⟩ := h
  exact ⟨mid ++ es,Entered.append hentered hes⟩

theorem SubmitInv.quiet {log pre es : List (ClientEvent Unit)} {sub : Option (Ticket Unit)}
    (h : SubmitInv log pre sub) (hes : ringLog es = [])
    (hup : es.any ClientEvent.isUpload = false) : SubmitInv (log ++ es) pre sub := by
  refine ⟨h.start,?_,fun t ht => ?_⟩
  · rw [pubIn_append_quiet hes]
    exact h.only
  · obtain ⟨hclean,hran,hpre⟩ := h.own t ht
    exact ⟨fun hs => hclean (spoiled_of_append hup hs),hran.quiet hes,hpre⟩

/-- Before its SUBMIT_CMD the call has nothing an upload could spoil. -/
theorem SubmitInv.none_quiet {log pre es : List (ClientEvent Unit)}
    (h : SubmitInv log pre none) (hes : ringLog es = []) : SubmitInv (log ++ es) pre none := by
  refine ⟨h.start,?_,nofun⟩
  rw [pubIn_append_quiet hes]
  exact h.only

theorem SubmittedAs.append {log : List (ClientEvent Unit)} {sub : Option (Ticket Unit)}
    {launch : Launch} {p : Nat} (h : SubmittedAs log sub launch p) (es : List (ClientEvent Unit)) :
    SubmittedAs (log ++ es) sub launch p := by
  obtain ⟨t,cmd,hsub,hlaunch,hget⟩ := h
  refine ⟨t,cmd,hsub,hlaunch,?_⟩
  rw [pubIn, ringLog_append, publishedIn_append]
  exact (List.getElem?_append_left (List.getElem?_eq_some_iff.mp hget).1).trans hget

/-- A longer history takes nothing back. -/
theorem CallAt.append {log : List (ClientEvent Unit)} {nd : NDRange}
    {sub : Option (Ticket Unit)} {phase : Phase Unit} (h : CallAt log nd sub phase)
    (es : List (ClientEvent Unit)) : CallAt (log ++ es) nd sub phase := by
  cases phase with
  | idle | crashed => exact h
  | upload => exact h
  | issue launch io =>
    apply h.imp_right
    intro hio
    cases io with
    | load | submit => exact hio
    | doorbell => exact hio.imp fun p hp => hp.append es
  | inside t =>
    apply h.imp_right
    intro hio
    split at hio
    next => exact hio
    next => exact hio
    next =>
      refine hio.imp fun p hp => ⟨hp.1.append es,lt_of_lt_of_le hp.2 ?_⟩
      rw [ringLog_append]
      have hmono := before_mono (Event.tailReadBy t) (ringLog log) (ringLog es)
      exact filterMap_length_mono Event.published? hmono

/-- A call that has just begun has published nothing. -/
theorem submitInv_entered {queueMode : Int} {log : List (ClientEvent Unit)} {u : Clients Unit}
    (hrun : (clientSystem Unit queueMode).Run log u) (nd : NDRange) :
    SubmitInv (log ++ [.entered () nd]) log none := by
  have hring := ring_run hrun
  refine ⟨(consumed_le_executed hring).trans (executed_le_published hring),?_,nofun⟩
  intro p t cmd hp hget
  rw [pubIn_append_quiet rfl] at hget
  exact absurd (List.getElem?_eq_some_iff.mp hget).1 (not_lt.mpr hp)

/-- A step of the driver: only the call in progress publishes. -/
theorem SubmitInv.ring {queueMode : Int} {log pre : List (ClientEvent Unit)} {u : Clients Unit}
    {a : Action (Ticket Unit)} {ring' : State (Ticket Unit)} {es : List (Event (Ticket Unit))}
    {sub : Option (Ticket Unit)} (hrun : (clientSystem Unit queueMode).Run log u)
    (hrule : Rule queueMode u.ring a ring' es) (hpending : PendingInv log u)
    (hin : ∀ t, u.phase () = .inside t → t.ioctl = .submit → sub = some t)
    (h : SubmitInv log pre sub) : SubmitInv (log ++ es.map .ring) pre sub := by
  have hup : (es.map (ClientEvent.ring (κ := Unit))).any ClientEvent.isUpload = false := by
    simp [ClientEvent.isUpload]
  refine ⟨h.start,fun p t cmd hp hget => ?_,fun t ht => ?_⟩
  · rw [pubIn_append_ring] at hget
    rcases hrule.publishes with hnone | ⟨t',job,tail,hpc,hone⟩
    · exact h.only p t cmd hp (by simpa [hnone] using hget)
    · rw [hone] at hget
      rcases getElem?_concat_eq_some.mp hget with hold | ⟨-,hnew⟩
      · exact h.only p t cmd hp hold
      · obtain ⟨rfl,rfl⟩ := Prod.mk.inj hnew
        obtain ⟨hphase,hjob⟩ := publisher_inside hrun hpc
        exact hin t' hphase (call_eq_submit hjob).1
  · obtain ⟨hclean,hran,hpre⟩ := h.own t ht
    exact ⟨fun hs => hclean (spoiled_of_append hup hs),
      hran.ring hrun hrule hpending fun _ _ _ _ => hclean,hpre⟩

/-- The call makes its SUBMIT_CMD. -/
theorem SubmitInv.submitting {queueMode : Int} {log pre : List (ClientEvent Unit)}
    {u : Clients Unit} {nd : NDRange} {t : Ticket Unit}
    (hrun : (clientSystem Unit queueMode).Run log u) (hsince : Since log pre nd)
    (hready : u.ring.pc t = .ready) (h : SubmitInv log pre none) :
    SubmitInv (log ++ [.ring (.called t t.call)]) pre (some t) := by
  have hfresh := callInv_run (ring_run hrun) t
  rw [hready] at hfresh
  have hnone : ∀ job, (t,job) ∉ pubIn log := fun job => not_mem_publishedIn hfresh.1.1 job
  refine ⟨h.start,fun p t' cmd hp hget => ?_,?_⟩
  · rw [pubIn_append_called] at hget
    exact nomatch h.only p t' cmd hp hget
  · rintro t' ht'
    obtain rfl := Option.some.inj ht'
    refine ⟨not_spoiled_called hrun hready,fun p cmd desc dev hget => ?_,fun job hmem => ?_⟩
    · rw [pubIn_append_called] at hget
      exact absurd (List.mem_of_getElem? hget) (hnone _)
    · obtain ⟨mid,rfl,-⟩ := hsince
      exact hnone job (by simpa [pubIn] using .inl hmem)

/-- A failed SUBMIT_CMD has published nothing, so it can be made again. -/
theorem SubmitInv.failed {queueMode : Int} {log pre : List (ClientEvent Unit)}
    {u : Clients Unit} {t : Ticket Unit} {e : Errno}
    (hrun : (clientSystem Unit queueMode).Run log u) (hphase : u.phase () = .inside t)
    (hio : t.ioctl = .submit) (hpc : u.ring.pc t = .done (.err e))
    (h : SubmitInv log pre (some t)) : SubmitInv log pre none := by
  have hcall := callInv_run (ring_run hrun) t
  rw [hpc] at hcall
  have hfresh := hcall t.launch.cmd (by simpa [Ticket.call, hio] using inside_calledAs hrun hphase)
  refine ⟨h.start,fun p t' cmd hp hget => ?_,by simp⟩
  obtain rfl := Option.some.inj (h.only p t' cmd hp hget)
  exact absurd (List.mem_of_getElem? hget) (not_mem_publishedIn hfresh.1 _)

/-- A SUBMIT_CMD that returned 0 has published its launch. -/
theorem submittedAs_of_done {queueMode : Int} {log : List (ClientEvent Unit)}
    {u : Clients Unit} {t : Ticket Unit} (hrun : (clientSystem Unit queueMode).Run log u)
    (hphase : u.phase () = .inside t) (hio : t.ioctl = .submit)
    (hpc : u.ring.pc t = .done .ok) : ∃ p, SubmittedAs log (some t) t.launch p := by
  have hcalled := ((inside_calledAs hrun hphase) _).mpr rfl
  have hcall : t.call = .submitCmd t.launch.cmd := by simp [Ticket.call, hio]
  rw [hcall] at hcalled
  rcases awaited_of_done (ring_run hrun) hpc with
    ⟨⟨hbell,-⟩ | ⟨kbin,hload,-⟩,-⟩ | ⟨cmd,-,-,p,-,hget⟩
  · cases (hbell _).mp hcalled
  · cases (hload _).mp hcalled
  · exact ⟨p,t,cmd,rfl,rfl,(hget p _).mpr ⟨rfl,rfl⟩⟩

/-- Where the call goes when one of its ioctls returns. -/
theorem soleInv_result {queueMode : Int} {log es : List (ClientEvent Unit)} {u : Clients Unit}
    {t : Ticket Unit} {ret : Ret} (restart : Bool)
    (hrun : (clientSystem Unit queueMode).Run log u) (hphase : u.phase () = .inside t)
    (hpc : u.ring.pc t = .done ret) (h : SoleInv log u) (hes : ringLog es = [])
    (hup : es.any ClientEvent.isUpload = false) (hentered : ∀ nd, .entered () nd ∉ es) :
    SoleInv (log ++ es) (u.setPhase () (afterIoctl t ret restart).1) := by
  rcases h with hidle | hcrashed | ⟨pre,nd,sub,hsince,hsub,hat⟩
  · simp [hphase] at hidle
  · simp [hphase] at hcrashed
  · -- it is enough to say where the call goes and what it has submitted then
    suffices hnext : (afterIoctl t ret restart).1 = .idle ∨
        (afterIoctl t ret restart).1 = .crashed ∨
        ∃ sub', SubmitInv log pre sub' ∧ CallAt log nd sub' (afterIoctl t ret restart).1 by
      rw [SoleInv, Clients.setPhase_phase_self]
      refine hnext.imp_right (Or.imp_right ?_)
      rintro ⟨sub',hsub',hat'⟩
      exact ⟨pre,nd,sub',hsince.append hentered,hsub'.quiet hes hup,hat'.append es⟩
    rw [hphase] at hat
    obtain ⟨hprepared,hat⟩ := hat
    cases ret with
    | err e =>
      rw [afterIoctl_err]
      split
      · refine .inr (.inr ?_)
        cases hio : t.ioctl <;> simp only [hio] at hat
        · exact ⟨sub,hsub,hprepared,hat⟩
        · subst hat
          exact ⟨none,hsub.failed hrun hphase hio hpc,hprepared,rfl⟩
        · exact ⟨sub,hsub,hprepared,hat.imp fun p hp => hp.1⟩
      · exact .inl rfl
    | ok =>
      rw [afterIoctl_ok]
      cases hio : t.ioctl <;> simp only [hio] at hat ⊢
      · split
        · exact .inr (.inr ⟨sub,hsub,hprepared,hat⟩)
        · exact .inr (.inl rfl)
      · subst hat
        exact .inr (.inr ⟨some t,hsub,hprepared,submittedAs_of_done hrun hphase hio hpc⟩)
      · exact .inl trivial

theorem soleInv_run {queueMode : Int} {log : List (ClientEvent Unit)} {u : Clients Unit}
    (h : (clientSystem Unit queueMode).Run log u) :
    TransactionInv log u ∧ SoleInv log u := by
  have hserial : (clientSystem Unit queueMode).RunWith Serialised log u :=
    h.mono fun _ _ _ _ _ k _ _ _ k' hne => absurd rfl hne
  refine ⟨transactionInv_run hserial,client_invariant (I := SoleInv) ?_ ?_ hserial⟩
  · intro u hu
    exact .inl (hu.2.1 ())
  · intro log u a u' es hrun ih _ hrule
    have htrans := transactionInv_run hrun
    have hrun := hrun.run
    cases hrule with
    | refused k nd memalign status hphase hprepare => exact .inl hphase
    | entered k nd memalign launch hphase hprepare =>
      refine .inr (.inr ⟨log,nd,none,⟨[],rfl,nofun⟩,submitInv_entered hrun nd,?_⟩)
      rw [Clients.setPhase_phase_self]
      exact ⟨⟨memalign,hprepare⟩,rfl⟩
    | uploaded k launch hphase =>
      rcases ih with hidle | hcrashed | ⟨pre,nd,sub,hsince,hsub,hat⟩
      · simp [hphase] at hidle
      · simp [hphase] at hcrashed
      · rw [hphase] at hat
        obtain ⟨hprepared,rfl⟩ := hat
        refine .inr (.inr ⟨pre,nd,none,hsince.append (by simp),hsub.none_quiet rfl,?_⟩)
        rw [Clients.setPhase_phase_self]
        exact ⟨hprepared,rfl⟩
    | uploadFailed | uploadBroken => exact .inl (Clients.setPhase_phase_self _ _ _)
    | ioctl k launch io t hphase ht hready =>
      obtain ⟨hio,rfl⟩ : t.ioctl = io ∧ t.launch = launch := by simp [ht]
      have hrule : Rule queueMode u.ring (.start t t.call) _ [.called t t.call] :=
        .start t t.call hready
      have hphase' : (u.setPhase k (.inside t)).phase () = .inside t :=
        Clients.setPhase_phase_self _ _ _
      rcases ih with hidle | hcrashed | ⟨pre,nd,sub,hsince,hsub,hat⟩
      · simp [hphase] at hidle
      · simp [hphase] at hcrashed
      · have hkeep : SubmitInv (log ++ [.ring (.called t t.call)]) pre sub :=
          hsub.ring hrun hrule htrans.pending (by simp [hphase])
        rw [hphase] at hat
        obtain ⟨hprepared,hat⟩ := hat
        have hsince' : Since (log ++ [.ring (.called t t.call)]) pre nd := hsince.append (by simp)
        refine .inr (.inr ?_)
        change ∃ pre nd sub, Since _ pre nd ∧ SubmitInv _ pre sub ∧
          CallAt _ nd sub ((u.setPhase k (.inside t)).phase ())
        rw [hphase']
        cases io with
        | load => exact ⟨pre,nd,sub,hsince',hkeep,hprepared,by simpa [hio] using hat⟩
        | submit =>
          subst hat
          exact ⟨pre,nd,some t,hsince',hsub.submitting hrun hsince hready,hprepared,by simp [hio]⟩
        | doorbell =>
          refine ⟨pre,nd,sub,hsince',hkeep,hprepared,?_⟩
          obtain ⟨p,hp⟩ := hat
          simp only [hio]
          refine ⟨p,hp.append _,?_⟩
          -- the call has not read the tail yet
          have hfresh := callInv_run (ring_run hrun) t
          rw [hready] at hfresh
          obtain ⟨t',cmd,-,-,hget⟩ := hp
          rw [ringLog_append, before_of_not_any]
          · have hlt := (List.getElem?_eq_some_iff.mp hget).1
            simpa [publishedCount, pubIn, ringLog, ClientEvent.ring?] using hlt
          · rw [List.any_append, hfresh.1.2]
            rfl
    | ring a ring' es ha hstep =>
      rcases ih with hidle | hcrashed | ⟨pre,nd,sub,hsince,hsub,hat⟩
      · exact .inl hidle
      · exact .inr (.inl hcrashed)
      · refine .inr (.inr ⟨pre,nd,sub,hsince.append (by simp),
          hsub.ring hrun (rule_of_step hstep) htrans.pending ?_,hat.append _⟩)
        intro t hin hio
        rw [hin] at hat
        simpa [CallAt, hio] using hat.2
    | result k t ret restart hphase hpc =>
      apply soleInv_result restart hrun hphase hpc ih (ringLog_result k _)
      · cases (afterIoctl t ret restart).2 <;> rfl
      · cases (afterIoctl t ret restart).2 <;> simp

/-- The call that began after `pre` with `nd` has had its own launch run: it is
the one launch published since, it was consumed since, and it was run on the
program and the arguments the call was made with. -/
def LaunchedOwn (log pre : List (ClientEvent Unit)) (nd : NDRange) : Prop :=
  ∃ kernel program page globalSize cmd p dev,
    nd.kernel = some kernel ∧ kernel.program = some program ∧
    marshal kernel.args 0 (fun _ => 0) = some page ∧ nd.globalWorkSize = some globalSize ∧
    launchCmd nd globalSize = some cmd ∧
    (∃ t, (pubIn log)[p]? = some (t,.submit cmd)) ∧
    (∀ (p' : Nat) (t : Ticket Unit) (cmd' : LaunchCmd), (pubIn pre).length ≤ p' →
      (pubIn log)[p']? = some (t,.submit cmd') → p' = p) ∧
    consumedCount (ringLog pre) ≤ p ∧
    (consumedIn (ringLog log))[p]? = some (submitTask cmd).words ∧
    (executedIn (ringLog log))[p]? = some ((submitTask cmd).words,dev) ∧
    (∀ i < program.numInstructions.toNat, program.binaryWords[i]? = some (dev.iram i)) ∧
    ∀ i < kernargWords, dev.kernarg i = page i

/-- A DOORBELL that returns 0 ends a call that has had its own launch run. -/
theorem launchedOwn_of_done {queueMode : Int} {log pre : List (ClientEvent Unit)}
    {u : Clients Unit} {nd : NDRange} {sub : Option (Ticket Unit)} {t : Ticket Unit}
    (hrun : (clientSystem Unit queueMode).Run log u) (hphase : u.phase () = .inside t)
    (hio : t.ioctl = .doorbell) (hpc : u.ring.pc t = .done .ok) (hsince : Since log pre nd)
    (hsub : SubmitInv log pre sub) (hat : CallAt log nd sub (.inside t)) :
    LaunchedOwn log pre nd := by
  have hring := ring_run hrun
  simp only [CallAt, hio] at hat
  obtain ⟨⟨memalign,hprepare⟩,p,⟨t',cmd,rfl,hlaunch,hget⟩,hbefore⟩ := hat
  obtain ⟨kernel,globalSize,hkernel,hprogram,hargs,hglobal,hcmd⟩ := prepare_ok hprepare
  obtain ⟨hclean,hran,hpre⟩ := hsub.own t' rfl
  have hjob := published_ticket hrun (List.mem_of_getElem? hget)
  have hcalled : .called t .doorbell ∈ ringLog log := by
    simpa [Ticket.call, hio] using ((inside_calledAs hrun hphase) t.call).mpr rfl
  -- DOORBELL waited for the launch, so it has been run and taken out
  obtain ⟨c,job,hpub,hcon⟩ := (doorbell_sound hring hcalled hpc).2 p hbefore
  obtain ⟨rfl,rfl⟩ := Prod.mk.inj (Option.some.inj (hget.symm.trans hpub))
  have hexec := lt_of_lt_of_le (List.getElem?_eq_some_iff.mp hcon).1 (consumed_le_executed hring)
  obtain ⟨⟨desc,dev⟩,hdev⟩ : ∃ x, (executedIn (ringLog log))[p]? = some x :=
    ⟨_,List.getElem?_eq_getElem hexec⟩
  obtain ⟨c,job,hpub',rfl⟩ := executed_published hring hdev
  obtain ⟨rfl,rfl⟩ := Prod.mk.inj (Option.some.inj (hget.symm.trans hpub'))
  have howns := hran p cmd _ dev hget hdev
  have hfirst : (pubIn pre).length ≤ p := by
    by_contra hlt
    obtain ⟨mid,rfl,-⟩ := hsince
    have hlt : p < (publishedIn (ringLog pre)).length := not_le.mp hlt
    rw [pubIn, ringLog_append, publishedIn_append, List.getElem?_append_left hlt] at hget
    exact hpre _ (List.mem_of_getElem? hget)
  refine ⟨kernel,t.launch.program,t.launch.page,globalSize,cmd,p,dev,hkernel,hprogram,?_,hglobal,
    ?_,⟨t',hget⟩,?_,?_,hcon,hdev,?_,?_⟩
  · rw [← hargs]
    simp [Launch.page]
  · rw [← hcmd, ← hlaunch]
    exact (call_eq_submit hjob).2
  · intro p' t'' cmd' hp' hget'
    obtain rfl := Option.some.inj (hsub.only p' t'' cmd' hp' hget')
    exact published_once hring _ p' p _ _ hget' hget
  · exact hsub.start.trans hfirst
  · rw [← hlaunch]
    exact howns.1
  · rw [← hlaunch]
    exact howns.2

/-- Whatever earlier calls have left pending, a call that returns CL_SUCCESS has
had its own launch run once, on its own program and its own arguments. -/
theorem launch_success {queueMode : Int} {log : List (ClientEvent Unit)} {u : Clients Unit}
    (h : (clientSystem Unit queueMode).Run log u) :
    ∀ upto post, log = upto ++ .returned () .CL_SUCCESS :: post →
      ∃ pre nd mid, upto = pre ++ .entered () nd :: mid ∧ (∀ nd', .entered () nd' ∉ mid) ∧
        LaunchedOwn upto pre nd := by
  suffices hevents : ∀ upto e post, log = upto ++ e :: post → e = .returned () .CL_SUCCESS →
      ∃ pre nd, Since upto pre nd ∧ LaunchedOwn upto pre nd by
    intro upto post heq
    obtain ⟨pre,nd,⟨mid,hupto,hmid⟩,howns⟩ := hevents upto _ post heq rfl
    exact ⟨pre,nd,mid,hupto,hmid,howns⟩
  refine h.event_of_step (P := fun upto e => e = .returned () .CL_SUCCESS →
    ∃ pre nd, Since upto pre nd ∧ LaunchedOwn upto pre nd) ?_
  rintro log u a u' es hrun - hstep upto e post hes rfl
  have hmem : .returned () .CL_SUCCESS ∈ es := by simp [hes]
  obtain ⟨-,hsole⟩ := soleInv_run hrun
  cases clientRule_of_step hstep with
  | refused k nd memalign status hphase hprepare =>
    obtain rfl : status = .CL_SUCCESS := by simpa [eq_comm] using hmem
    exact absurd rfl (prepare_error hprepare)
  | result k t ret restart hphase hpc =>
    have hstatus : (afterIoctl t ret restart).2 = some .CL_SUCCESS := by simpa using hmem
    obtain ⟨hio,rfl⟩ := afterIoctl_success hstatus
    have hone : upto = [] ∧ post = [] := by
      rw [afterIoctl_ok, hio] at hes
      simpa [List.singleton_eq_append_iff] using hes
    obtain ⟨rfl,rfl⟩ := hone
    rw [List.append_nil]
    rcases hsole with hidle | hcrashed | ⟨pre,nd,sub,hsince,hsub,hat⟩
    · simp [hphase] at hidle
    · simp [hphase] at hcrashed
    · exact ⟨pre,nd,hsince,launchedOwn_of_done hrun hphase hio hpc hsince hsub (hphase ▸ hat)⟩
  | ring a ring' es ha hring => simp at hmem
  | _ => simp at hmem

/-- A first call whose LOAD_KERNEL is interrupted by a signal, and a second one
of another program: the load that was left behind is run in the middle of it. -/
def leftoverLoad : List (ClientAction Unit) :=
  let t : Ticket Unit := ⟨(),0,.load,oneWordLaunch 7 1⟩
  [ClientAction.enqueue () (oneWord 7 1) true,.dma () .ok,.ioctl (),.ring (.access t)] ++
    (sectionSteps t ++ [Action.access t,.interrupt t]).map ClientAction.ring ++
    [ClientAction.result () false] ++ [ClientAction.enqueue () (oneWord 8 2) true,.dma () .ok] ++
    firmwareTurn.map ClientAction.ring ++ loadSteps () 1 8 2 ++ launchSteps () 2 8 2

theorem leftoverLoad_runs :
    ((clientSystem Unit 0).exec (freshClients Unit) leftoverLoad).isSome = true := by
  decide +kernel

theorem launch_success_leftover : ∃ log u, (clientSystem Unit 0).Run log u ∧
    (executedIn (ringLog log)).length = 3 ∧
    ∃ upto post pre nd, log = upto ++ .returned () .CL_SUCCESS :: post ∧
      LaunchedOwn upto pre nd := by
  have hrun := System.Run.of_exec (S := clientSystem Unit 0) (freshClients_init Unit 0)
    leftoverLoad leftoverLoad_runs
  refine ⟨_,_,hrun,by decide +kernel,?_⟩
  have hsucceeded : (((clientSystem Unit 0).exec (freshClients Unit) leftoverLoad).get
      leftoverLoad_runs).2.any ClientEvent.succeeded = true := by
    decide +kernel
  obtain ⟨e,he,hret⟩ := List.any_eq_true.mp hsucceeded
  obtain ⟨upto,post,hlog⟩ := List.append_of_mem he
  cases e with
  | returned k status =>
    obtain rfl : status = .CL_SUCCESS := by simpa [ClientEvent.succeeded] using hret
    obtain ⟨pre,nd,-,-,-,howns⟩ := launch_success hrun upto post hlog
    exact ⟨upto,post,pre,nd,hlog,howns⟩
  | entered | uploaded | ring => nomatch hret

end FpgaGpu.Umd
