import FpgaGpu.Umd.Grid
import FpgaGpu.Umd.SoleClient

/-! What the calls of `clEnqueueNDRangeKernel` put into the ring, for any number
of clients: a call that succeeds submits one launch, computed from its sizes. -/
namespace FpgaGpu.Umd
open Driver Library

variable {κ : Type} [DecidableEq κ]

omit [DecidableEq κ] in
theorem pubIn_append (log es : List (ClientEvent κ)) :
    pubIn (log ++ es) = pubIn log ++ pubIn es := by
  simp [pubIn]

def launchBy (k : κ) : Ticket κ × Job → Option LaunchCmd
  | (t,.submit cmd) => if t.client = k then some cmd else none
  | (_,.load _) => none

/-- The launches client `k` has submitted. -/
def submittedBy (k : κ) (log : List (ClientEvent κ)) : List LaunchCmd :=
  (pubIn log).filterMap (launchBy k)

theorem submittedBy_append (k : κ) (log es : List (ClientEvent κ)) :
    submittedBy k (log ++ es) = submittedBy k log ++ submittedBy k es := by
  simp [submittedBy, pubIn_append]

/-- The last call of client `k` is the one with `nd`, and this is all it has submitted. -/
def InCall (log : List (ClientEvent κ)) (k : κ) (nd : NDRange) (cmds : List LaunchCmd) : Prop :=
  ∃ pre mid, Entered log pre k nd mid ∧ submittedBy k mid = cmds

theorem InCall.append {log es : List (ClientEvent κ)} {k : κ} {nd : NDRange}
    {cmds : List LaunchCmd} (h : InCall log k nd cmds) (hes : ∀ nd', .entered k nd' ∉ es) :
    InCall (log ++ es) k nd (cmds ++ submittedBy k es) := by
  obtain ⟨pre,mid,hentered,rfl⟩ := h
  exact ⟨pre,mid ++ es,hentered.append hes,submittedBy_append k mid es⟩

theorem InCall.quiet {log es : List (ClientEvent κ)} {k : κ} {nd : NDRange}
    {cmds : List LaunchCmd} (h : InCall log k nd cmds) (hes : ∀ nd', .entered k nd' ∉ es)
    (hsub : submittedBy k es = []) : InCall (log ++ es) k nd cmds := by
  have happend := h.append hes
  rwa [hsub, List.append_nil] at happend

theorem InCall.enter (log : List (ClientEvent κ)) (k : κ) (nd : NDRange) :
    InCall (log ++ [.entered k nd]) k nd [] :=
  ⟨log,[],⟨rfl,by simp⟩,rfl⟩

/-- The ioctl of this ticket has published its task. -/
def hasPublished (log : List (ClientEvent κ)) (t : Ticket κ) : Bool :=
  (pubIn log).any fun x => decide (x.1 = t)

theorem hasPublished_append (log es : List (ClientEvent κ)) (t : Ticket κ) :
    hasPublished (log ++ es) t = (hasPublished log t || hasPublished es t) := by
  unfold hasPublished
  rw [pubIn_append, List.any_append]

theorem hasPublished_of_fresh {log : List (ClientEvent κ)} {t : Ticket κ}
    (h : Fresh (ringLog log) t) : hasPublished log t = false := by
  apply List.any_eq_false.mpr
  intro x hx
  have hother := not_mem_publishedIn h.1 x.2
  simp only [decide_eq_true_eq]
  rintro rfl
  exact hother hx

/-- What a call has submitted while it is in the ioctl of this ticket. -/
def submittedIn (log : List (ClientEvent κ)) (t : Ticket κ) : List LaunchCmd :=
  match t.ioctl with
  | .load => []
  | .submit => if hasPublished log t then t.launch.cmd.toList else []
  | .doorbell => t.launch.cmd.toList

def SubmitsAt (log : List (ClientEvent κ)) (k : κ) : Phase κ → Prop
  | .idle | .crashed => True
  | .upload launch => ∃ nd, Prepared nd launch ∧ InCall log k nd []
  | .issue launch io =>
      (io = .doorbell → launch.cmd.isSome) ∧ ∃ nd, Prepared nd launch ∧
        InCall log k nd (if io = .doorbell then launch.cmd.toList else [])
  | .inside t =>
      (t.ioctl = .doorbell → t.launch.cmd.isSome) ∧ ∃ nd, Prepared nd t.launch ∧
        InCall log k nd (submittedIn log t)

theorem submittedIn_append {log es : List (ClientEvent κ)} {t : Ticket κ}
    (h : hasPublished es t = false) : submittedIn (log ++ es) t = submittedIn log t := by
  unfold submittedIn
  rw [hasPublished_append, h, Bool.or_false]

/-- Events in which `k` neither submits nor begins a call, nor the ioctl it is in
publishes, change nothing for `k`. -/
theorem SubmitsAt.frame {log es : List (ClientEvent κ)} {k : κ} {phase : Phase κ}
    (h : SubmitsAt log k phase) (hes : ∀ nd', .entered k nd' ∉ es)
    (hsub : submittedBy k es = []) (hin : ∀ t, phase = .inside t → hasPublished es t = false) :
    SubmitsAt (log ++ es) k phase := by
  cases phase with
  | idle | crashed => exact h
  | upload launch =>
    obtain ⟨nd,hprepared,hcall⟩ := h
    exact ⟨nd,hprepared,hcall.quiet hes hsub⟩
  | issue launch io =>
    obtain ⟨hsome,nd,hprepared,hcall⟩ := h
    exact ⟨hsome,nd,hprepared,hcall.quiet hes hsub⟩
  | inside t =>
    obtain ⟨hsome,nd,hprepared,hcall⟩ := h
    have hsame : submittedIn (log ++ es) t = submittedIn log t := submittedIn_append (hin t rfl)
    exact ⟨hsome,nd,hprepared,hsame ▸ hcall.quiet hes hsub⟩

/-- Events that publish nothing and begin no call of `k` change nothing for `k`. -/
theorem SubmitsAt.quiet {log es : List (ClientEvent κ)} {k : κ} {phase : Phase κ}
    (h : SubmitsAt log k phase) (hes : ∀ nd', .entered k nd' ∉ es) (hpub : pubIn es = []) :
    SubmitsAt (log ++ es) k phase := by
  apply h.frame hes
  · rw [submittedBy, hpub]
    rfl
  · intro t _
    rw [hasPublished, hpub]
    rfl

/-- A step of client `k` that publishes nothing. -/
theorem submitsAt_setPhase {log es : List (ClientEvent κ)} {u : Clients κ} {k : κ}
    {phase : Phase κ} (h : ∀ k', SubmitsAt log k' (u.phase k'))
    (hes : ∀ k' ≠ k, ∀ nd', .entered k' nd' ∉ es) (hpub : pubIn es = [])
    (hk : SubmitsAt (log ++ es) k phase) :
    ∀ k', SubmitsAt (log ++ es) k' ((u.setPhase k phase).phase k') := by
  intro k'
  by_cases hne : k' = k
  · subst hne
    rw [Clients.setPhase_phase_self]
    exact hk
  · rw [Clients.setPhase_phase_other _ _ _ hne]
    exact (h k').quiet (hes k' hne) hpub

/-- The step of the driver that publishes, seen from the call that it belongs to. -/
theorem SubmitsAt.publish {queueMode : Int} {log : List (ClientEvent κ)} {u : Clients κ}
    {es : List (Event (Ticket κ))} {t : Ticket κ} {job : Job} {tail : UInt32}
    (hrun : (clientSystem κ queueMode).Run log u) (hpc : u.ring.pc t = .writeTail job tail)
    (hpub : publishedIn es = [(t,job)]) (h : SubmitsAt log t.client (.inside t)) :
    SubmitsAt (log ++ es.map .ring) t.client (.inside t) := by
  obtain ⟨hsome,nd,hprepared,hcall⟩ := h
  obtain ⟨-,hjob⟩ := publisher_inside hrun hpc
  have hentered : ∀ nd', .entered t.client nd' ∉ es.map (ClientEvent.ring (κ := κ)) := by simp
  have hnew : pubIn (es.map ClientEvent.ring) = [(t,job)] := by rw [pubIn, ringLog_ring, hpub]
  have happend := hcall.append hentered
  refine ⟨hsome,nd,hprepared,?_⟩
  cases job with
  | load kbin =>
    have hio := (call_eq_load hjob).1
    have hnone : submittedBy t.client (es.map ClientEvent.ring) = [] := by
      rw [submittedBy, hnew]
      rfl
    rw [hnone, List.append_nil] at happend
    simpa [submittedIn, hio] using happend
  | submit cmd =>
    obtain ⟨hio,hcmd⟩ := call_eq_submit hjob
    have hfresh := callInv_run (ring_run hrun) t
    rw [hpc] at hfresh
    have hnone := hasPublished_of_fresh hfresh.1
    have hnow : hasPublished (log ++ es.map .ring) t = true := by
      rw [hasPublished_append]
      simp [hasPublished, hnew]
    have hone : submittedBy t.client (es.map ClientEvent.ring) = [cmd] := by
      simp [submittedBy, hnew, launchBy]
    rw [hone] at happend
    simpa [submittedIn, hio, hnone, hnow, hcmd] using happend

/-- A publication by another client's call. -/
theorem SubmitsAt.other {log : List (ClientEvent κ)} {es : List (Event (Ticket κ))}
    {t : Ticket κ} {job : Job} {k : κ} {phase : Phase κ} (h : SubmitsAt log k phase)
    (hk : t.client ≠ k) (hin : ∀ t', phase = .inside t' → t'.client = k)
    (hpub : publishedIn es = [(t,job)]) : SubmitsAt (log ++ es.map .ring) k phase := by
  have hentered : ∀ nd', .entered k nd' ∉ es.map (ClientEvent.ring (κ := κ)) := by simp
  have hnew : pubIn (es.map ClientEvent.ring) = [(t,job)] := by rw [pubIn, ringLog_ring, hpub]
  apply h.frame hentered
  · cases job <;> simp [submittedBy, hnew, launchBy, hk]
  · intro t' hphase
    have hne : t ≠ t' := by
      rintro rfl
      exact hk (hin t hphase)
    simp [hasPublished, hnew, hne]

/-- A SUBMIT_CMD that has returned published its launch if it returned 0, and
nothing otherwise. -/
theorem hasPublished_of_done {queueMode : Int} {log : List (ClientEvent κ)} {u : Clients κ}
    {k : κ} {t : Ticket κ} {ret : Ret} (hrun : (clientSystem κ queueMode).Run log u)
    (hphase : u.phase k = .inside t) (hio : t.ioctl = .submit) (hpc : u.ring.pc t = .done ret) :
    hasPublished log t = !ioctlFailed ret ∧ (ret = .ok → t.launch.cmd.isSome) := by
  have hcalled := ((inside_calledAs hrun hphase) _).mpr rfl
  have hcall : t.call = .submitCmd t.launch.cmd := by simp [Ticket.call, hio]
  rw [hcall] at hcalled
  cases ret with
  | ok =>
    rcases awaited_of_done (ring_run hrun) hpc with
      ⟨⟨hbell,-⟩ | ⟨kbin,hload,-⟩,-⟩ | ⟨cmd,hsubmit,-,p,-,hget⟩
    · cases (hbell _).mp hcalled
    · cases (hload _).mp hcalled
    · have hmem := List.mem_of_getElem? ((hget p _).mpr ⟨rfl,rfl⟩)
      have hcmd : t.launch.cmd = some cmd := Call.submitCmd.inj ((hsubmit _).mp hcalled)
      exact ⟨List.any_eq_true.mpr ⟨_,hmem,by simp⟩,fun _ => by simp [hcmd]⟩
  | err e =>
    have hinv := callInv_run (ring_run hrun) t
    rw [hpc] at hinv
    have hfresh := hinv t.launch.cmd (hcall ▸ inside_calledAs hrun hphase)
    exact ⟨hasPublished_of_fresh hfresh,by simp⟩

/-- Where a call goes when an ioctl of it returns. -/
theorem SubmitsAt.result {queueMode : Int} {log : List (ClientEvent κ)} {u : Clients κ} {k : κ}
    {t : Ticket κ} {ret : Ret} (restart : Bool) (hrun : (clientSystem κ queueMode).Run log u)
    (hphase : u.phase k = .inside t) (hpc : u.ring.pc t = .done ret)
    (h : SubmitsAt log k (.inside t)) : SubmitsAt log k (afterIoctl t ret restart).1 := by
  obtain ⟨hsome,nd,hprepared,hcall⟩ := h
  have hdone : t.ioctl = .submit → hasPublished log t = !ioctlFailed ret ∧
      (ret = .ok → t.launch.cmd.isSome) := fun hio => hasPublished_of_done hrun hphase hio hpc
  cases ret with
  | err e =>
    rw [afterIoctl_err]
    split
    · refine ⟨hsome,nd,hprepared,?_⟩
      cases hio : t.ioctl with
      | load => simpa [submittedIn, hio] using hcall
      | submit => simpa [submittedIn, hio, (hdone hio).1, ioctlFailed] using hcall
      | doorbell => simpa [submittedIn, hio] using hcall
    · trivial
  | ok =>
    rw [afterIoctl_ok]
    cases hio : t.ioctl with
    | load =>
      by_cases hcmd : t.launch.cmd.isSome
      · simp only [hcmd, ↓reduceIte]
        exact ⟨by simp,nd,hprepared,by simpa [submittedIn, hio] using hcall⟩
      · simp only [hcmd]
        trivial
    | submit =>
      obtain ⟨hpub,hcmd⟩ := hdone hio
      refine ⟨fun _ => hcmd rfl,nd,hprepared,?_⟩
      simpa [submittedIn, hio, hpub, ioctlFailed] using hcall
    | doorbell => trivial

theorem submitsAt_run {queueMode : Int} {log : List (ClientEvent κ)} {u : Clients κ}
    (h : (clientSystem κ queueMode).Run log u) : ∀ k, SubmitsAt log k (u.phase k) := by
  refine client_invariant (I := fun log u => ∀ k, SubmitsAt log k (u.phase k)) ?_ ?_ h
  · intro u hu k
    rw [hu.2.1 k]
    trivial
  · intro log u a u' es hrun ih _ hrule
    have hrun : (clientSystem κ queueMode).Run log u := hrun
    cases hrule with
    | refused k nd memalign status hphase hprepare =>
      intro k'
      by_cases hk : k' = k
      · rw [hk, hphase]
        trivial
      · exact (ih k').quiet (by simp [hk]) rfl
    | entered k nd memalign launch hphase hprepare =>
      apply submitsAt_setPhase ih
      · intro k' hk nd'
        simp [hk]
      · rfl
      · exact ⟨nd,⟨memalign,hprepare⟩,.enter log k nd⟩
    | uploaded k launch hphase =>
      have hown := ih k
      rw [hphase] at hown
      obtain ⟨nd,hprepared,hcall⟩ := hown
      apply submitsAt_setPhase (u := u.upload launch.page) ih
      · simp
      · rfl
      · exact ⟨by simp,nd,hprepared,hcall.quiet (by simp) rfl⟩
    | uploadFailed k launch hphase => exact submitsAt_setPhase ih (by simp) rfl trivial
    | uploadBroken k launch left hphase =>
      exact submitsAt_setPhase (u := u.upload left) ih (by simp) rfl trivial
    | ioctl k launch io t hphase ht hready =>
      have hown := ih k
      rw [hphase] at hown
      obtain ⟨hsome,nd,hprepared,hcall⟩ := hown
      have hnone : hasPublished log t = false := by
        have hinv := callInv_run (ring_run hrun) t
        rw [hready] at hinv
        exact hasPublished_of_fresh hinv.1
      have hinside : SubmitsAt log k (.inside t) := by
        subst ht
        refine ⟨hsome,nd,hprepared,?_⟩
        cases io <;> simpa [submittedIn, hnone] using hcall
      have hcalled : pubIn [ClientEvent.ring (.called t t.call)] = [] := rfl
      exact submitsAt_setPhase ih (by simp) hcalled (hinside.quiet (by simp) hcalled)
    | ring a ring' es ha hstep =>
      intro k'
      have hrule := rule_of_step hstep
      have hentered : ∀ nd', .entered k' nd' ∉ es.map (ClientEvent.ring (κ := κ)) := by simp
      rcases hrule.publishes with hnone | ⟨t,job,tail,hpc,hone⟩
      · exact (ih k').quiet hentered (by rw [pubIn, ringLog_ring, hnone])
      · obtain ⟨hin,-⟩ := publisher_inside hrun hpc
        by_cases hk : t.client = k'
        · subst hk
          have hown := ih t.client
          rw [hin] at hown ⊢
          exact hown.publish hrun hpc hone
        · exact (ih k').other hk
            (fun t' ht' => ((ticketInv_run hrun).inside k' t' ht').1) hone
    | result k t ret restart hphase hpc =>
      have hquiet :
          pubIn ((afterIoctl t ret restart).2.toList.map (ClientEvent.returned k)) = [] := by
        simp [pubIn]
      have hown := ih k
      rw [hphase] at hown
      apply submitsAt_setPhase ih (by simp) hquiet
      exact (hown.result restart hrun hphase hpc).quiet (by simp) hquiet

theorem writer_inside {queueMode : Int} {log : List (ClientEvent κ)} {u : Clients κ}
    {t : Ticket κ} {job : Job} {tail : UInt32} {j : Nat}
    (hrun : (clientSystem κ queueMode).Run log u) (hpc : u.ring.pc t = .writeCmd job tail j) :
    u.phase t.client = .inside t ∧ job.call = t.call := by
  have hticket := ticketInv_run hrun
  have hcall := callInv_run (ring_run hrun) t
  rw [hpc] at hcall
  refine ⟨?_,hticket.called t _ ((hcall.2 _).mpr rfl)⟩
  simpa [hpc] using hticket.active t

/-- The sizes of the call in progress are those its launch was computed from. -/
theorem inside_entered {queueMode : Int} {log : List (ClientEvent κ)} {u : Clients κ}
    {t : Ticket κ} (hrun : (clientSystem κ queueMode).Run log u)
    (hphase : u.phase t.client = .inside t) :
    ∃ pre nd mid globalSize, Entered log pre t.client nd mid ∧
      nd.globalWorkSize = some globalSize ∧ t.launch.cmd = launchCmd nd globalSize := by
  have hown := submitsAt_run hrun t.client
  rw [hphase] at hown
  obtain ⟨-,nd,⟨memalign,hprepare⟩,pre,mid,hentered,-⟩ := hown
  obtain ⟨kernel,globalSize,-,-,-,hglobal,hcmd⟩ := prepare_ok hprepare
  exact ⟨pre,nd,mid,globalSize,hentered,hglobal,hcmd⟩

/-- The accesses by which SUBMIT_CMD puts the task of `cmd` into the ring. -/
inductive PutsTask (t : Ticket κ) (cmd : LaunchCmd) : Event (Ticket κ) → Prop where
  | word (slot j : Nat) : PutsTask t cmd (.wrote t (.cmd slot j) ((submitTask cmd).word j))
  | published : PutsTask t cmd (.published t (.submit cmd))

/-- A write to a slot, or a publication. -/
def fillsSlot (t : Ticket κ) : Event (Ticket κ) → Prop
  | .wrote t' (.cmd _ _) _ | .published t' _ => t' = t
  | _ => False

theorem putsTask_of_rule {queueMode : Int} {log : List (ClientEvent κ)} {u : Clients κ}
    {a : Action (Ticket κ)} {ring' : State (Ticket κ)} {es : List (Event (Ticket κ))}
    {e : Event (Ticket κ)} {t : Ticket κ} (hrun : (clientSystem κ queueMode).Run log u)
    (hrule : Rule queueMode u.ring a ring' es) (hmem : e ∈ es) (hfills : fillsSlot t e)
    (hio : t.ioctl = .submit) :
    u.phase t.client = .inside t ∧ ∃ cmd, t.launch.cmd = some cmd ∧ PutsTask t cmd e := by
  have hof : ∀ {job : Job}, job.call = t.call → ∃ cmd, job = .submit cmd ∧
      t.launch.cmd = some cmd := by
    intro job hjob
    cases job with
    | load kbin => simp [(call_eq_load hjob).1] at hio
    | submit cmd => exact ⟨cmd,rfl,(call_eq_submit hjob).2⟩
  cases e with
  | wrote t' reg value =>
    cases reg with
    | cmd slot j =>
      obtain rfl : t' = t := hfills
      obtain ⟨job,tail,hpc,rfl⟩ := hrule.writes_cmd hmem
      obtain ⟨hin,hjob⟩ := writer_inside hrun hpc
      obtain ⟨cmd,rfl,hcmd⟩ := hof hjob
      exact ⟨hin,cmd,hcmd,.word slot j⟩
    | tail | irq | staging => exact absurd hfills id
  | published t' job =>
    obtain rfl : t' = t := hfills
    have hpub : (t',job) ∈ publishedIn es := List.mem_filterMap.mpr ⟨_,hmem,rfl⟩
    rcases hrule.publishes with hnone | ⟨t'',job',tail,hpc,hone⟩
    · simp [hnone] at hpub
    · obtain ⟨rfl,rfl⟩ : t' = t'' ∧ job = job' := by simpa [hone] using hpub
      obtain ⟨hin,hjob⟩ := publisher_inside hrun hpc
      obtain ⟨cmd,rfl,hcmd⟩ := hof hjob
      exact ⟨hin,cmd,hcmd,.published⟩
  | called | headRead | tailRead | tested | executed | consumed => exact absurd hfills id

/-- Whatever SUBMIT_CMD writes to a slot for a call is the task of the launch that
the call's own sizes give. -/
theorem slots_from_sizes {queueMode : Int} {log : List (ClientEvent κ)} {u : Clients κ}
    (h : (clientSystem κ queueMode).Run log u) :
    ∀ upto e post t, log = upto ++ .ring e :: post → fillsSlot t e → t.ioctl = .submit →
      ∃ pre nd mid globalSize cmd, Entered upto pre t.client nd mid ∧
        nd.globalWorkSize = some globalSize ∧ launchCmd nd globalSize = some cmd ∧
        PutsTask t cmd e := by
  suffices hevents : ∀ upto e post, log = upto ++ e :: post → ∀ r t, e = .ring r →
      fillsSlot t r → t.ioctl = .submit →
      ∃ pre nd mid globalSize cmd, Entered upto pre t.client nd mid ∧
        nd.globalWorkSize = some globalSize ∧ launchCmd nd globalSize = some cmd ∧
        PutsTask t cmd r from
    fun upto e post t heq => hevents upto _ post heq e t rfl
  refine h.event_of_step ?_
  rintro log u a u' es hrun - hstep upto e post hes r t rfl hfills hio
  have hmem : .ring r ∈ es := by simp [hes]
  cases clientRule_of_step hstep with
  | ring a ring' es' ha hring =>
    obtain ⟨r',hr',heq⟩ := List.mem_map.mp hmem
    obtain rfl := ClientEvent.ring.inj heq
    obtain ⟨hin,cmd,hcmd,hputs⟩ := putsTask_of_rule hrun (rule_of_step hring) hr' hfills hio
    obtain ⟨pre,nd,mid,globalSize,hentered,hglobal,hlaunch⟩ := inside_entered hrun hin
    have hquiet : ∀ nd', .entered t.client nd' ∉ upto := by
      intro nd' hnd'
      have hall : .entered t.client nd' ∈ es'.map (ClientEvent.ring (κ := κ)) := by
        rw [hes]
        exact List.mem_append_left _ hnd'
      simp at hall
    exact ⟨pre,nd,mid ++ upto,globalSize,cmd,hentered.append hquiet,hglobal,
      hlaunch.symm.trans hcmd,hputs⟩
  | ioctl k launch io t' hphase ht hready =>
    obtain rfl : r = .called t' t'.call := by simpa using hmem
    exact absurd hfills id
  | refused | entered | uploaded | uploadFailed | uploadBroken => simp at hmem
  | result k t' ret restart =>
    cases hafter : (afterIoctl t' ret restart).2 <;> simp [hafter] at hmem

/-- A range of one or two dimensions reaches the ring whole: whatever SUBMIT_CMD
writes to a slot for a call is the task of the one launch that the call's sizes give,
and it covers the range. -/
theorem ndrange_reaches_ring {queueMode : Int} {log : List (ClientEvent κ)} {u : Clients κ}
    (h : (clientSystem κ queueMode).Run log u) :
    ∀ upto e post t, log = upto ++ .ring e :: post → fillsSlot t e → t.ioctl = .submit →
      ∃ pre nd mid globalSize cmd, Entered upto pre t.client nd mid ∧
        nd.globalWorkSize = some globalSize ∧ launchCmd nd globalSize = some cmd ∧
        PutsTask t cmd e ∧ (nd.Flat globalSize → DispatchesWhole nd globalSize cmd) := by
  intro upto e post t hlog hfills hio
  obtain ⟨pre,nd,mid,globalSize,cmd,hentered,hglobal,hlaunch,hputs⟩ :=
    slots_from_sizes h upto e post t hlog hfills hio
  exact ⟨pre,nd,mid,globalSize,cmd,hentered,hglobal,hlaunch,hputs,flat_dispatches hlaunch⟩

/-- A call that succeeds has submitted one launch. Where its range is empty or has
three dimensions, the packet is faithful to it in one case only. -/
theorem ndrange_faithful_iff {queueMode : Int} {log : List (ClientEvent κ)} {u : Clients κ}
    (h : (clientSystem κ queueMode).Run log u) :
    ∀ upto post k, log = upto ++ .returned k .CL_SUCCESS :: post →
      ∃ pre nd mid globalSize cmd, Entered upto pre k nd mid ∧
        nd.globalWorkSize = some globalSize ∧ submittedBy k mid = [cmd] ∧
        (nd.Fits globalSize → nd.EmptyOrDeep globalSize →
          (DispatchesFaithfully nd globalSize cmd ↔ nd.OneLayer globalSize)) := by
  suffices hevents : ∀ upto e post, log = upto ++ e :: post → ∀ k, e = .returned k .CL_SUCCESS →
      ∃ pre nd mid globalSize cmd, Entered upto pre k nd mid ∧
        nd.globalWorkSize = some globalSize ∧ submittedBy k mid = [cmd] ∧
        (nd.Fits globalSize → nd.EmptyOrDeep globalSize →
          (DispatchesFaithfully nd globalSize cmd ↔ nd.OneLayer globalSize)) from
    fun upto post k heq => hevents upto _ post heq k rfl
  refine h.event_of_step ?_
  rintro log u a u' es hrun - hstep upto e post hes k rfl
  have hmem : .returned k .CL_SUCCESS ∈ es := by simp [hes]
  cases clientRule_of_step hstep with
  | refused k' nd memalign status hphase hprepare =>
    obtain ⟨rfl,rfl⟩ : k = k' ∧ .CL_SUCCESS = status := by simpa using hmem
    exact absurd rfl (prepare_error hprepare)
  | result k' t ret restart hphase hpc =>
    obtain ⟨hstatus,rfl⟩ : (afterIoctl t ret restart).2 = some .CL_SUCCESS ∧ k' = k := by
      simpa using hmem
    obtain ⟨hio,rfl⟩ := afterIoctl_success hstatus
    rw [hstatus] at hes
    obtain ⟨rfl,-⟩ : upto = [] ∧ post = [] := by simpa [List.singleton_eq_append_iff] using hes
    rw [List.append_nil]
    have hown := submitsAt_run hrun k'
    rw [hphase] at hown
    obtain ⟨hsome,nd,⟨memalign,hprepare⟩,pre,mid,hentered,hsub⟩ := hown
    obtain ⟨kernel,globalSize,-,-,-,hglobal,hcmd⟩ := prepare_ok hprepare
    obtain ⟨hdim,hthree⟩ := prepare_workDim hprepare
    obtain ⟨cmd,hlaunch⟩ := Option.isSome_iff_exists.mp (hsome hio)
    refine ⟨pre,nd,mid,globalSize,cmd,hentered,hglobal,?_,fun hfits hdomain => ?_⟩
    · simpa [submittedIn, hio, hlaunch] using hsub
    · exact faithfully_iff_oneLayer (hcmd.symm.trans hlaunch) hfits hdim hthree hdomain
  | ring a ring' es' ha hring => simp at hmem
  | entered | uploaded | uploadFailed | uploadBroken | ioctl => simp at hmem

/-- A call of a one-instruction kernel over a range. -/
def ranged (workDim : UInt32) (globalSize : Nat → UInt64) (localSize : Option (Nat → UInt64)) :
    NDRange :=
  ⟨true,some (oneWordKernel 7 1),workDim,some globalSize,localSize⟩

def rangedLaunch (nd : NDRange) (globalSize : Nat → UInt64) : Launch :=
  ⟨⟨true,[7],1,by simp⟩,[⟨true,1⟩],launchCmd nd globalSize,rfl,fun _ => launchCmd_opcode⟩

/-- The client has passed the checks of its call. -/
def rangedClients (nd : NDRange) (globalSize : Nat → UInt64) : Clients Unit :=
  (freshClients Unit).setPhase () (.upload (rangedLaunch nd globalSize))

/-- The rest of the call, with nobody in between. -/
def rangedSteps (launch : Launch) : List (ClientAction Unit) :=
  let t : Ticket Unit := ⟨(),0,.load,launch⟩
  let t' : Ticket Unit := ⟨(),1,.submit,launch⟩
  let t'' : Ticket Unit := ⟨(),2,.doorbell,launch⟩
  [ClientAction.dma () .ok,.ioctl (),.ring (.access t)] ++
    (sectionSteps t ++ firmwareTurn ++ [Action.access t]).map ClientAction.ring ++
    [ClientAction.result () false,.ioctl ()] ++
    (sectionSteps t' ++ firmwareTurn).map ClientAction.ring ++
    [ClientAction.result () false,.ioctl ()] ++
    [ClientAction.ring (.access t''),.ring (.access t''),.result () false]

/-- A call by itself, from its start. -/
theorem ranged_run {nd : NDRange} {globalSize : Nat → UInt64} {steps : List (ClientAction Unit)}
    (hprepare : prepare nd true = .ok (rangedLaunch nd globalSize))
    (hexec : ((clientSystem Unit 0).exec (rangedClients nd globalSize) steps).isSome = true) :
    (clientSystem Unit 0).Run ([.entered () nd] ++
      (((clientSystem Unit 0).exec (rangedClients nd globalSize) steps).get hexec).2)
      (((clientSystem Unit 0).exec (rangedClients nd globalSize) steps).get hexec).1 := by
  have hinit : (clientSystem Unit 0).Run [] (freshClients Unit) := .init (freshClients_init Unit 0)
  have hstep : (clientSystem Unit 0).step (freshClients Unit) (.enqueue () nd true) =
      some (rangedClients nd globalSize,[.entered () nd]) := by
    simp [clientSystem, Clients.step, freshClients, hprepare, rangedClients]
  have hentered : (clientSystem Unit 0).Run ([] ++ [.entered () nd])
      (rangedClients nd globalSize) := hinit.next hstep
  exact hentered.continue _ (fun _ _ _ _ => trivial) hexec

def ClientEvent.isEntered : ClientEvent Unit → Bool
  | .entered _ _ => true
  | _ => false

/-- In a history with one call the last call is that one. -/
theorem Entered.only {nd nd' : NDRange} {log upto post pre mid : List (ClientEvent Unit)}
    {e : ClientEvent Unit} (hentered : Entered upto pre () nd mid)
    (hlog : [.entered () nd'] ++ log = upto ++ e :: post)
    (hrest : log.any ClientEvent.isEntered = false) : nd = nd' := by
  have hmem : .entered () nd ∈ [ClientEvent.entered () nd'] ++ log := by
    rw [hlog, hentered.1]
    simp
  rcases List.mem_append.mp hmem with hfirst | hlater
  · simpa using hfirst
  · exact absurd rfl (List.any_eq_false.mp hrest _ hlater)

/-- Two rows of three items, in blocks of two by one. -/
def threeByTwo : Nat → UInt64 := fun i => if i = 0 then 3 else 2

def threeByTwoCall : NDRange := ranged 2 threeByTwo (some fun i => if i = 0 then 2 else 0)

theorem threeByTwo_flat : threeByTwoCall.Flat threeByTwo := by
  have hdim : threeByTwoCall.workDim.toNat = 2 := rfl
  refine ⟨.inr rfl,fun i hi => ?_,by decide,fun size hsize i hi => ?_⟩
  · rcases (by omega : i = 0 ∨ i = 1) with rfl | rfl <;> decide
  · obtain rfl := Option.some.inj hsize
    rcases (by omega : i = 0 ∨ i = 1) with rfl | rfl <;> decide

theorem threeByTwo_runs : ((clientSystem Unit 0).exec (rangedClients threeByTwoCall threeByTwo)
    (rangedSteps (rangedLaunch threeByTwoCall threeByTwo))).isSome = true := by
  decide +kernel

def ClientEvent.publishedLaunch : ClientEvent Unit → Bool
  | .ring (.published t (.submit _)) => decide (t.ioctl = .submit)
  | _ => false

theorem ndrange_reaches_ring_two_rows : ∃ log u, (clientSystem Unit 0).Run log u ∧
    log.any ClientEvent.publishedLaunch = true ∧
    ∀ upto t cmd post, log = upto ++ .ring (.published t (.submit cmd)) :: post →
      t.ioctl = .submit → DispatchesWhole threeByTwoCall threeByTwo cmd := by
  have hrun := ranged_run rfl threeByTwo_runs
  refine ⟨_,_,hrun,by decide +kernel,fun upto t cmd post hlog hio => ?_⟩
  obtain ⟨pre,nd,mid,globalSize,cmd',hin,hglobal,-,hputs,hwhole⟩ :=
    ndrange_reaches_ring hrun upto _ post t hlog rfl hio
  obtain rfl : nd = threeByTwoCall := hin.only hlog (by decide +kernel)
  obtain rfl : threeByTwo = globalSize := Option.some.inj hglobal
  cases hputs
  exact hwhole threeByTwo_flat

/-- One layer of three by two items. -/
def oneLayer : Nat → UInt64 := fun i => if i = 0 then 3 else if i = 1 then 2 else 1

def oneLayerCall : NDRange := ranged 3 oneLayer none

theorem oneLayer_runs : ((clientSystem Unit 0).exec (rangedClients oneLayerCall oneLayer)
    (rangedSteps (rangedLaunch oneLayerCall oneLayer))).isSome = true := by
  decide +kernel

theorem ndrange_faithful_one_layer : ∃ log u, (clientSystem Unit 0).Run log u ∧
    ∃ upto post, log = upto ++ .returned () .CL_SUCCESS :: post ∧
      ∃ cmd, DispatchesFaithfully oneLayerCall oneLayer cmd := by
  have hrun := ranged_run rfl oneLayer_runs
  have hsucceeded : (((clientSystem Unit 0).exec (rangedClients oneLayerCall oneLayer)
      (rangedSteps (rangedLaunch oneLayerCall oneLayer))).get oneLayer_runs).2.any
      ClientEvent.succeeded = true := by
    decide +kernel
  obtain ⟨e,he,hret⟩ := List.any_eq_true.mp hsucceeded
  obtain ⟨upto,post,hlog⟩ :=
    List.append_of_mem (List.mem_append_right [.entered () oneLayerCall] he)
  cases e with
  | returned k status =>
    obtain rfl : status = .CL_SUCCESS := by simpa [ClientEvent.succeeded] using hret
    obtain ⟨pre,nd,mid,globalSize,cmd,hin,hglobal,-,hiff⟩ :=
      ndrange_faithful_iff hrun upto post k hlog
    obtain rfl : nd = oneLayerCall := hin.only hlog (by decide +kernel)
    obtain rfl : oneLayer = globalSize := Option.some.inj hglobal
    have hfits : oneLayerCall.Fits oneLayer := by
      refine ⟨fun i hi => ?_,by simp [oneLayerCall, ranged]⟩
      rcases (by omega : i = 0 ∨ i = 1) with rfl | rfl <;> decide
    exact ⟨_,_,hrun,upto,post,hlog,cmd,
      (hiff hfits (.inr rfl)).mpr ⟨rfl,by decide,by decide,rfl⟩⟩
  | entered | uploaded | ring => simp [ClientEvent.succeeded] at hret

/-- A range of no items. -/
def noItem : Nat → UInt64 := fun _ => 0

def noItemCall : NDRange := ranged 1 noItem none

theorem noItem_runs : ((clientSystem Unit 0).exec (rangedClients noItemCall noItem)
    (rangedSteps (rangedLaunch noItemCall noItem))).isSome = true := by
  decide +kernel

/-- A call with no work-item returns CL_SUCCESS, and its packet has 32 blocks. -/
theorem empty_range_dispatches_blocks : ∃ log u cmd, (clientSystem Unit 0).Run log u ∧
    .entered () noItemCall ∈ log ∧ log.any ClientEvent.succeeded = true ∧
    submittedBy () log = [cmd] ∧ (submitTask cmd).blocks.card = 32 ∧
    noItemCall.EmptyOrDeep noItem ∧ ¬DispatchesFaithfully noItemCall noItem cmd := by
  have hrun := ranged_run rfl noItem_runs
  refine ⟨_,_,⟨1,0,1,2,1,0,0,0⟩,hrun,by simp,by decide +kernel,by decide +kernel,by decide,
    .inl ⟨0,by decide,rfl⟩,fun hfaithful => ?_⟩
  exact absurd (hfaithful.extent_pos (i := 0) (by decide)) (by decide)

end FpgaGpu.Umd
