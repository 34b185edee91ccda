import FpgaGpu.Umd.SoleClient

/-! A call that returned an error. The driver has no way to take a descriptor out
of the ring again, so what the call leaves behind depends on which ioctl failed:
without a DOORBELL it has launched nothing, and after one that failed its launch
is the firmware's. -/
namespace FpgaGpu.Umd
open Driver Library

section settled
variable {κ : Type} [DecidableEq κ]

/-- The client enters a call or leaves it. -/
def ClientEvent.outside (k : κ) : ClientEvent κ → Bool
  | .entered k' _ | .returned k' _ => decide (k' = k)
  | _ => false

/-- An ioctl that is over makes nothing happen any more. -/
theorem ClientRule.done {queueMode : Int} {u u' : Clients κ} {a : ClientAction κ}
    {es : List (ClientEvent κ)} (h : ClientRule queueMode u a u' es) {t : Ticket κ} {ret : Ret}
    (hpc : u.ring.pc t = .done ret) :
    u'.ring.pc t = .done ret ∧ ∀ e ∈ ringLog es, e.actor ≠ some t := by
  cases h with
  | ioctl k launch io t' hphase ht hready =>
    have hne : t ≠ t' := by
      rintro rfl
      simp [hready] at hpc
    refine ⟨(State.setPc_pc_other _ _ _ hne).trans hpc,?_⟩
    simp [ringLog, ClientEvent.ring?, Event.actor, hne.symm]
  | ring a ring' es ha hstep =>
    have hrule := rule_of_step hstep
    have hact : a.actor ≠ some t := fun hact => (ringOnly_actor hrule ha hact).2 ret hpc
    refine ⟨(hrule.pc_other hact).trans hpc,?_⟩
    rw [ringLog_ring]
    exact fun e he => hrule.events_actor e he ▸ hact
  | result k t' ret' restart =>
    exact ⟨hpc,by simp⟩
  | _ => exact ⟨hpc,by simp⟩

/-- A client that enters or leaves a call is inside no ioctl, and the driver sees nothing. -/
theorem ClientRule.outside {queueMode : Int} {u u' : Clients κ} {a : ClientAction κ}
    {es : List (ClientEvent κ)} (h : ClientRule queueMode u a u' es) {e : ClientEvent κ} {k : κ}
    (he : e ∈ es) (hout : e.outside k = true) :
    ringLog es = [] ∧ ∀ t, u'.phase k ≠ .inside t := by
  cases h with
  | refused k' nd memalign status hphase =>
    obtain rfl : k' = k := by
      simp only [List.mem_cons, List.not_mem_nil, or_false] at he
      rcases he with rfl | rfl <;> simpa [ClientEvent.outside] using hout
    exact ⟨rfl,by simp [hphase]⟩
  | entered k' | uploadFailed k' =>
    obtain rfl := List.mem_singleton.mp he
    obtain rfl : k' = k := by simpa [ClientEvent.outside] using hout
    exact ⟨rfl,by simp⟩
  | uploadBroken k' =>
    simp only [List.mem_cons, List.not_mem_nil, or_false] at he
    rcases he with rfl | rfl
    · simp [ClientEvent.outside] at hout
    · obtain rfl : k' = k := by simpa [ClientEvent.outside] using hout
      exact ⟨rfl,by simp⟩
  | result k' t ret restart =>
    obtain ⟨status,hstatus,rfl⟩ := List.mem_map.mp he
    obtain rfl : k' = k := by simpa [ClientEvent.outside] using hout
    refine ⟨ringLog_result k' _,fun t' => ?_⟩
    simpa using afterIoctl_not_inside t t' ret restart
  | uploaded | ioctl =>
    obtain rfl := List.mem_singleton.mp he
    simp [ClientEvent.outside] at hout
  | ring a ring' es =>
    obtain ⟨e,-,rfl⟩ := List.mem_map.mp he
    simp [ClientEvent.outside] at hout

/-- The ioctls of earlier calls are over and stay so. -/
def SettledInv (log : List (ClientEvent κ)) (u : Clients κ) : Prop :=
  ∀ upto e post t call, log = upto ++ e :: post → e.outside t.client = true →
    .called t call ∈ ringLog upto →
    (∃ ret, u.ring.pc t = .done ret) ∧ ∀ e' ∈ ringLog post, e'.actor ≠ some t

theorem settledInv_run {queueMode : Int} {log : List (ClientEvent κ)} {u : Clients κ}
    (h : (clientSystem κ queueMode).Run log u) : SettledInv log u := by
  refine h.invariant (I := SettledInv) ?_ ?_
  · intro u _ upto e post t call hlog
    simp at hlog
  · intro log u a u' es hrun ih _ hstep upto e post t call hlog hout hcalled
    have hrule := clientRule_of_step hstep
    rcases cut_append hlog with ⟨post',hold,rfl⟩ | ⟨es',hnew,rfl⟩
    · obtain ⟨⟨ret,hpc⟩,hquiet⟩ := ih upto e post' t call hold hout hcalled
      obtain ⟨hpc',hes⟩ := hrule.done hpc
      refine ⟨⟨ret,hpc'⟩,fun e' he' => ?_⟩
      rw [ringLog_append] at he'
      exact (List.mem_append.mp he').elim (hquiet e') (hes e')
    · obtain ⟨hes,hin⟩ := hrule.outside (k := t.client) (by simp [hnew]) hout
      have hrun' := hrun.run.next hstep
      have hcalled' : .called t call ∈ ringLog (log ++ es) := by
        rw [hlog, ringLog_append]
        exact List.mem_append_left _ hcalled
      refine ⟨?_,fun e' he' => ?_⟩
      · rcases (ticketInv_run hrun').active t with hready | hdone | hphase
        · have hfresh := callInv_run (ring_run hrun') t
          rw [hready] at hfresh
          exact absurd hcalled' (hfresh.2 call)
        · exact hdone
        · exact absurd hphase (hin t)
      · have hpost : e' ∈ ringLog es := by
          rw [hnew, ringLog_append]
          exact List.mem_append_right _ (List.filterMap_subset _ (List.subset_cons_self e post) he')
        simp [hes] at hpost

/-- A page is uploaded after `upto`, and then position `p` is run. -/
def UploadedBeforeRun (log upto : List (ClientEvent κ)) (p : Nat) : Prop :=
  ∃ later desc dev rest, log = upto ++ later ++ .ring (.executed desc dev) :: rest ∧
    ranIn (upto ++ later) = p ∧ later.any ClientEvent.isUpload = true

/-- A launch is run on its own program and arguments, or a page was uploaded
between its SUBMIT_CMD and its run. -/
def OwnOrSpoiled (log : List (ClientEvent κ)) : Prop :=
  ∀ (p : Nat) (t : Ticket κ) (cmd : LaunchCmd) (desc : List UInt32) (dev : Device),
    (pubIn log)[p]? = some (t,.submit cmd) → (executedIn (ringLog log))[p]? = some (desc,dev) →
    RunsOwn dev t.launch ∨
      ∃ a rest, log = a ++ .ring (.executed desc dev) :: rest ∧ ranIn a = p ∧ Spoiled a t

theorem ownOrSpoiled_run {queueMode : Int} {log : List (ClientEvent κ)} {u : Clients κ}
    (h : (clientSystem κ queueMode).RunWith Serialised log u) : OwnOrSpoiled log := by
  refine client_invariant (I := fun log _ => OwnOrSpoiled log) ?_ ?_ h
  · intro u _ p t cmd desc dev hget
    simp [pubIn] at hget
  · intro log u a u' es hrun ih _ hrule p t cmd desc dev hget hexec
    have grow (h : (pubIn log)[p]? = some (t,.submit cmd))
        (h' : (executedIn (ringLog log))[p]? = some (desc,dev)) : RunsOwn dev t.launch ∨
        ∃ a rest, log ++ es = a ++ .ring (.executed desc dev) :: rest ∧ ranIn a = p ∧
          Spoiled a t := by
      refine (ih p t cmd desc dev h h').imp_right ?_
      rintro ⟨a,rest,rfl,hran,hspoiled⟩
      exact ⟨a,rest ++ es,by simp,hran,hspoiled⟩
    cases hrule with
    | ring a ring' es ha hstep =>
      have hpending := (transactionInv_run hrun).pending
      obtain ⟨hpub,hold | ⟨rfl,rfl,rfl⟩⟩ :=
        executed_of_ring hrun.run (rule_of_step hstep) hget hexec
      · exact grow hpub hold
      · rcases hpending _ t cmd le_rfl hpub with hspoiled | ⟨harmed,-⟩
        · exact .inr ⟨log,[],rfl,rfl,hspoiled⟩
        · exact .inl harmed.1
    | ioctl k launch io t' =>
      rw [pubIn_append_called] at hget
      exact grow hget (by simpa [ringLog, ClientEvent.ring?] using hexec)
    | result k t' ret restart =>
      have hes := ringLog_result k (afterIoctl t' ret restart).2
      rw [pubIn_append_quiet hes] at hget
      exact grow hget (by simpa [hes] using hexec)
    | _ =>
      rw [pubIn_append_quiet rfl] at hget
      exact grow hget (by simpa using hexec)

end settled

def Makes (mid : List (ClientEvent Unit)) (t : Ticket Unit) : Prop :=
  ∃ call, .called t call ∈ ringLog mid

def RangDoorbell (mid : List (ClientEvent Unit)) : Prop :=
  ∃ t : Ticket Unit, t.ioctl = .doorbell ∧ Makes mid t

theorem makes_append {mid es : List (ClientEvent Unit)} {t : Ticket Unit} :
    Makes (mid ++ es) t ↔ Makes mid t ∨ Makes es t := by
  simp [Makes, exists_or]

theorem not_makes_quiet {es : List (ClientEvent Unit)} (h : ringLog es = []) (t : Ticket Unit) :
    ¬Makes es t := by
  simp [Makes, h]

theorem RangDoorbell.of_append {mid es : List (ClientEvent Unit)} (h : RangDoorbell (mid ++ es))
    (hes : ∀ t, t.ioctl = .doorbell → ¬Makes es t) : RangDoorbell mid := by
  obtain ⟨t,hio,hmakes⟩ := h
  exact ⟨t,hio,(makes_append.mp hmakes).resolve_right (hes t hio)⟩

/-- The call has come to its last ioctl, or is over. -/
def Phase.Ringing : Phase Unit → Prop
  | .upload _ => False
  | .issue _ io => io = .doorbell
  | .inside t => t.ioctl = .doorbell
  | .idle | .crashed => True

/-- A call rings the doorbell last, and every ioctl it is inside of is its own. -/
def CallInProgress (mid : List (ClientEvent Unit)) (phase : Phase Unit) : Prop :=
  (RangDoorbell mid → phase.Ringing) ∧ ∀ t, phase = .inside t → Makes mid t

theorem CallInProgress.quiet {mid es : List (ClientEvent Unit)} {phase phase' : Phase Unit}
    (h : CallInProgress mid phase) (hes : ringLog es = []) (hinside : ∀ t, phase' ≠ .inside t)
    (hringing : phase.Ringing → phase'.Ringing) : CallInProgress (mid ++ es) phase' :=
  ⟨fun hrang => hringing (h.1 (hrang.of_append fun t _ => not_makes_quiet hes t)),
    fun t ht => absurd ht (hinside t)⟩

theorem callInProgress_run {queueMode : Int} {log : List (ClientEvent Unit)} {u : Clients Unit}
    (h : (clientSystem Unit queueMode).Run log u) :
    ∀ pre nd mid, Entered log pre () nd mid → CallInProgress mid (u.phase ()) := by
  refine client_invariant (I := fun log u => ∀ pre nd mid, Entered log pre () nd mid →
    CallInProgress mid (u.phase ())) ?_ ?_ h
  · rintro u - pre nd mid ⟨hlog,-⟩
    simp at hlog
  · intro log u a u' es hrun ih _ hrule pre nd mid hcall
    cases hrule with
    | refused k nd' memalign status hphase =>
      rw [hphase]
      exact ⟨fun _ => trivial,nofun⟩
    | entered k nd' memalign launch hphase =>
      obtain ⟨-,-,rfl⟩ := hcall.unique (⟨rfl,nofun⟩ : Entered _ log () nd' [])
      rw [Clients.setPhase_phase_self]
      refine ⟨?_,nofun⟩
      rintro ⟨t,-,call,hmem⟩
      simp at hmem
    | uploaded k launch hphase =>
      obtain ⟨mid,hbefore,rfl⟩ := hcall.of_append (by simp)
      rw [Clients.setPhase_phase_self]
      exact (hphase ▸ ih pre nd mid hbefore).quiet rfl nofun False.elim
    | uploadFailed | uploadBroken =>
      rw [Clients.setPhase_phase_self]
      exact ⟨fun _ => trivial,nofun⟩
    | ioctl k launch io t hphase ht hready =>
      obtain ⟨mid,hbefore,rfl⟩ := hcall.of_append (by simp)
      obtain ⟨hringing,-⟩ := hphase ▸ ih pre nd mid hbefore
      have hio : t.ioctl = io := by rw [ht]
      change CallInProgress _ ((u.setPhase k (.inside t)).phase ())
      rw [Clients.setPhase_phase_self]
      constructor
      · rintro ⟨t',hio',hmakes⟩
        rcases makes_append.mp hmakes with hold | ⟨call,hnew⟩
        · exact hio.trans (hringing ⟨t',hio',hold⟩)
        · obtain ⟨rfl,-⟩ : t' = t ∧ _ := by simpa [ringLog, ClientEvent.ring?] using hnew
          exact hio'
      · rintro t' ⟨⟩
        exact makes_append.mpr (.inr ⟨t.call,by simp [ringLog, ClientEvent.ring?]⟩)
    | ring a ring' es ha hstep =>
      obtain ⟨mid,hbefore,rfl⟩ := hcall.of_append (by simp)
      obtain ⟨hringing,hinside⟩ := ih pre nd mid hbefore
      have hnone : ∀ t, ¬Makes (es.map .ring) t := by
        rintro t ⟨call,hmem⟩
        rw [ringLog_ring] at hmem
        exact ringOnly_not_called (rule_of_step hstep) ha t call hmem
      exact ⟨fun hrang => hringing (hrang.of_append fun t _ => hnone t),
        fun t ht => makes_append.mpr (.inl (hinside t ht))⟩
    | result k t ret restart hphase hpc =>
      obtain ⟨mid,hbefore,rfl⟩ :=
        hcall.of_append (by cases (afterIoctl t ret restart).2 <;> simp)
      rw [Clients.setPhase_phase_self]
      refine (hphase ▸ ih pre nd mid hbefore).quiet (ringLog_result k _)
        (afterIoctl_not_inside t · ret restart) fun hio => ?_
      -- a DOORBELL is made again, or the call is over
      change t.ioctl = .doorbell at hio
      unfold afterIoctl
      split
      · split
        · exact hio
        · trivial
      · rw [hio]
        trivial

/-- What a call that returns an error leaves behind: nothing, or one launch. -/
def LeftBehind (upto pre : List (ClientEvent Unit)) (nd : NDRange)
    (mid : List (ClientEvent Unit)) : Prop :=
  ¬RangDoorbell mid ∧ SubmitInv upto pre none ∨
  RangDoorbell mid ∧ ∃ (t : Ticket Unit) (cmd : LaunchCmd) (p : Nat),
    SubmitInv upto pre (some t) ∧ Prepared nd t.launch ∧ (pubIn upto)[p]? = some (t,.submit cmd)

/-- A call that fails in one of its ioctls, by the ioctl it is inside of. -/
theorem leftBehind_of_err {queueMode : Int} {log pre mid : List (ClientEvent Unit)}
    {u : Clients Unit} {nd : NDRange} {t : Ticket Unit} {e : Errno}
    (hrun : (clientSystem Unit queueMode).Run log u) (hphase : u.phase () = .inside t)
    (hpc : u.ring.pc t = .done (.err e)) (hcall : Entered log pre () nd mid) :
    LeftBehind log pre nd mid := by
  obtain ⟨hringing,hmakes⟩ := callInProgress_run hrun pre nd mid hcall
  rcases (soleInv_run hrun).2 with hidle | hcrashed | ⟨pre',nd',sub,⟨mid',hsince⟩,hsub,hat⟩
  · simp [hphase] at hidle
  · simp [hphase] at hcrashed
  · obtain ⟨rfl,rfl,rfl⟩ := hcall.unique hsince
    rw [hphase] at hringing hat
    obtain ⟨hprepared,hat⟩ := hat
    cases hio : t.ioctl with
    | load =>
      simp only [hio] at hat
      subst hat
      exact .inl ⟨fun hrang => by simpa [Phase.Ringing, hio] using hringing hrang,hsub⟩
    | submit =>
      simp only [hio] at hat
      subst hat
      exact .inl ⟨fun hrang => by simpa [Phase.Ringing, hio] using hringing hrang,
        hsub.failed hrun hphase hio hpc⟩
    | doorbell =>
      simp only [hio] at hat
      obtain ⟨p,⟨t',cmd,rfl,hlaunch,hget⟩,-⟩ := hat
      exact .inr ⟨⟨t,hio,hmakes t hphase⟩,t',cmd,p,hsub,hlaunch ▸ hprepared,hget⟩

/-- A call that has not got past its upload. -/
theorem leftBehind_of_upload {queueMode : Int} {log pre mid es : List (ClientEvent Unit)}
    {u : Clients Unit} {nd : NDRange} {launch : Launch}
    (hrun : (clientSystem Unit queueMode).Run log u) (hphase : u.phase () = .upload launch)
    (hes : ringLog es = []) (hentered : ∀ nd, .entered () nd ∉ es)
    (hcall : Entered (log ++ es) pre () nd mid) : LeftBehind (log ++ es) pre nd mid := by
  obtain ⟨mid,hbefore,rfl⟩ := hcall.of_append hentered
  obtain ⟨hringing,-⟩ := hphase ▸ callInProgress_run hrun pre nd mid hbefore
  rcases (soleInv_run hrun).2 with hidle | hcrashed | ⟨pre',nd',sub,⟨mid',hsince⟩,hsub,hat⟩
  · simp [hphase] at hidle
  · simp [hphase] at hcrashed
  · obtain ⟨rfl,rfl,rfl⟩ := hbefore.unique hsince
    rw [hphase] at hat
    obtain ⟨-,rfl⟩ := hat
    exact .inl ⟨fun hrang => hringing (hrang.of_append fun t _ => not_makes_quiet hes t),
      hsub.none_quiet hes⟩

theorem leftBehind_of_returned {queueMode : Int} {log : List (ClientEvent Unit)}
    {u : Clients Unit} (h : (clientSystem Unit queueMode).Run log u) :
    ∀ upto e post, log = upto ++ e :: post → ∀ status, e = .returned () status →
      status ≠ .CL_SUCCESS → ∀ pre nd mid, Entered upto pre () nd mid →
        LeftBehind upto pre nd mid := by
  refine h.event_of_step (P := fun upto e => ∀ status, e = .returned () status →
    status ≠ .CL_SUCCESS → ∀ pre nd mid, Entered upto pre () nd mid →
      LeftBehind upto pre nd mid) ?_
  rintro log u a u' es hrun - hstep new e post hes status rfl hne pre nd mid hcall
  have hmem : .returned () status ∈ es := by simp [hes]
  cases clientRule_of_step hstep with
  | refused k nd' memalign status' hphase hprepare =>
    obtain rfl : new = [.entered () nd'] := by
      cases new with
      | nil => simp at hes
      | cons e new => simp_all [List.cons_eq_append_iff]
    obtain ⟨rfl,rfl,rfl⟩ := hcall.unique (⟨rfl,nofun⟩ : Entered _ log () nd' [])
    refine .inl ⟨?_,submitInv_entered hrun _⟩
    rintro ⟨t,-,call,hmem⟩
    simp at hmem
  | uploadFailed k launch hphase =>
    obtain rfl : new = [] := by simp_all [List.singleton_eq_append_iff]
    exact leftBehind_of_upload hrun hphase rfl nofun hcall
  | uploadBroken k launch left hphase =>
    obtain rfl : new = [.uploaded ()] := by
      cases new with
      | nil => simp at hes
      | cons e new => simp_all [List.cons_eq_append_iff]
    exact leftBehind_of_upload hrun hphase rfl (by simp) hcall
  | result k t ret restart hphase hpc =>
    cases ret with
    | err e =>
      obtain rfl : new = [] := by
        rw [afterIoctl_err] at hes
        split at hes <;> simp_all [List.singleton_eq_append_iff]
      rw [List.append_nil] at hcall ⊢
      exact leftBehind_of_err hrun hphase hpc hcall
    | ok =>
      -- an ioctl that returned 0 ends the call only with CL_SUCCESS
      rw [afterIoctl_ok] at hmem
      cases hio : t.ioctl with
      | load =>
        simp only [hio] at hmem
        split at hmem <;> simp at hmem
      | submit => simp [hio] at hmem
      | doorbell => exact absurd (by simpa [hio] using hmem) hne
  | ring | entered | uploaded | ioctl => simp at hmem

/-- A call entered after `pre` with `nd` has returned an error. -/
structure Failed (log pre : List (ClientEvent Unit)) (nd : NDRange)
    (mid post : List (ClientEvent Unit)) (status : ClStatus) : Prop where
  history : log = pre ++ .entered () nd :: mid ++ .returned () status :: post
  inside : ∀ nd', .entered () nd' ∉ mid
  error : status ≠ .CL_SUCCESS

/-- Position `p` of the ring is a launch descriptor of the call. -/
def LaunchOf (log mid : List (ClientEvent Unit)) (p : Nat) : Prop :=
  ∃ (t : Ticket Unit) (cmd : LaunchCmd), (pubIn log)[p]? = some (t,.submit cmd) ∧ Makes mid t

/-- The firmware consumes no launch descriptor of the call once it has returned. -/
def LaunchesNothingLater (log upto mid : List (ClientEvent Unit)) : Prop :=
  ∀ p, LaunchOf log mid p → p < consumedCount (ringLog log) → p < consumedCount (ringLog upto)

/-- What becomes of a launch that was left behind: it was published by the return,
it is the only one of the call, and it is consumed and run once, like any other. -/
structure LeftLaunch (log upto : List (ClientEvent Unit)) (nd : NDRange)
    (mid : List (ClientEvent Unit)) (t : Ticket Unit) (cmd : LaunchCmd) (p : Nat) : Prop where
  prepared : Prepared nd t.launch
  published : (pubIn upto)[p]? = some (t,.submit cmd)
  only : ∀ p', LaunchOf log mid p' ↔ p' = p
  late : LaunchesNothingLater log upto mid ↔
    (p < consumedCount (ringLog log) → p < consumedCount (ringLog upto))
  consumed : p < consumedCount (ringLog log) →
    (consumedIn (ringLog log))[p]? = some (submitTask cmd).words
  ran : ∀ desc dev, (executedIn (ringLog log))[p]? = some (desc,dev) →
    desc = (submitTask cmd).words ∧ (RunsOwn dev t.launch ∨ UploadedBeforeRun log upto p)

section failed
variable {queueMode : Int} {log pre mid post : List (ClientEvent Unit)} {u : Clients Unit}
  {nd : NDRange} {status : ClStatus} (hrun : (clientSystem Unit queueMode).Run log u)
  (hfailed : Failed log pre nd mid post status)
include hrun hfailed

theorem Failed.leftBehind : LeftBehind (pre ++ .entered () nd :: mid) pre nd mid :=
  leftBehind_of_returned hrun _ _ post hfailed.history status rfl hfailed.error pre nd mid
    ⟨rfl,hfailed.inside⟩

/-- An ioctl of an earlier call takes no part in this one. -/
theorem Failed.earlier_over {t : Ticket Unit} {call : Call} (h : .called t call ∈ ringLog pre) :
    ∀ e ∈ ringLog mid, e.actor ≠ some t := by
  have hlog : log = pre ++ .entered () nd :: (mid ++ .returned () status :: post) := by
    rw [hfailed.history]
    simp
  intro e he
  apply (settledInv_run hrun pre _ _ t call hlog (by simp [ClientEvent.outside]) h).2 e
  rw [ringLog_append]
  exact List.mem_append_left _ he

/-- An ioctl of the call takes no part in anything after its return. -/
theorem Failed.own_over {t : Ticket Unit} (h : Makes mid t) :
    ∀ e ∈ ringLog post, e.actor ≠ some t := by
  obtain ⟨call,hcalled⟩ := h
  apply (settledInv_run hrun _ _ post t call hfailed.history (by simp [ClientEvent.outside]) ?_).2
  rw [ringLog_append]
  exact List.mem_append_right _ hcalled

theorem Failed.not_before {t : Ticket Unit} (h : Makes mid t) (job : Job) :
    (t,job) ∉ pubIn pre := by
  intro hmem
  obtain ⟨call,hcalled⟩ := h
  have hring := ring_run hrun
  rw [hfailed.history, List.append_assoc, ringLog_append] at hring
  exact hfailed.earlier_over hrun (published_called_append hring hmem) _ hcalled rfl

/-- What is published between the entry and the return is published by the call. -/
theorem Failed.makes {t : Ticket Unit} {job : Job}
    (h : (t,job) ∈ pubIn (pre ++ .entered () nd :: mid)) (hpre : (t,job) ∉ pubIn pre) :
    Makes mid t := by
  have hring := ring_run hrun
  rw [hfailed.history, ringLog_append] at hring
  have hcalled := published_called_append hring h
  rw [ringLog_append, ringLog_entered] at hcalled
  rcases List.mem_append.mp hcalled with hold | hnew
  · rw [pubIn, ringLog_append, publishedIn_append, ringLog_entered] at h
    obtain ⟨e,he,hpub⟩ := List.mem_filterMap.mp ((List.mem_append.mp h).resolve_left hpre)
    refine absurd ?_ (hfailed.earlier_over hrun hold e he)
    cases e <;> simp_all [Event.actor]
  · exact ⟨_,hnew⟩

/-- All launches of the call are published between its entry and its return. -/
theorem Failed.launch_inside {t : Ticket Unit} {cmd : LaunchCmd} {p : Nat}
    (hget : (pubIn log)[p]? = some (t,.submit cmd)) (hmakes : Makes mid t) :
    (pubIn pre).length ≤ p ∧ (pubIn (pre ++ .entered () nd :: mid))[p]? = some (t,.submit cmd) := by
  have hsplit : pubIn log = pubIn (pre ++ .entered () nd :: mid) ++ pubIn post := by
    rw [hfailed.history]
    simp [pubIn]
  have hpost (job : Job) : (t,job) ∉ pubIn post := by
    intro hmem
    obtain ⟨e,he,hpub⟩ := List.mem_filterMap.mp hmem
    refine absurd ?_ (hfailed.own_over hrun hmakes e he)
    cases e <;> simp_all [Event.actor]
  have hupto : (pubIn (pre ++ .entered () nd :: mid))[p]? = some (t,.submit cmd) := by
    rw [hsplit] at hget
    rcases lt_or_ge p (pubIn (pre ++ .entered () nd :: mid)).length with hlt | hge
    · rwa [List.getElem?_append_left hlt] at hget
    · rw [List.getElem?_append_right hge] at hget
      exact absurd (List.mem_of_getElem? hget) (hpost _)
  refine ⟨?_,hupto⟩
  by_contra hlt
  have hlt : p < (publishedIn (ringLog pre)).length := not_le.mp hlt
  rw [pubIn, ringLog_append, publishedIn_append, List.getElem?_append_left hlt] at hupto
  exact hfailed.not_before hrun hmakes _ (List.mem_of_getElem? hupto)

omit hrun in
/-- A launch spoiled when it is run was spoiled after the return. -/
theorem Failed.uploadedBeforeRun {t : Ticket Unit} {p : Nat} {a rest : List (ClientEvent Unit)}
    {desc : List UInt32} {dev : Device} (hmakes : Makes mid t)
    (hclean : ¬Spoiled (pre ++ .entered () nd :: mid) t)
    (hlog : log = a ++ .ring (.executed desc dev) :: rest) (hran : ranIn a = p)
    (hspoiled : Spoiled a t) : UploadedBeforeRun log (pre ++ .entered () nd :: mid) p := by
  rcases cut_append (hlog.symm.trans hfailed.history) with ⟨later,rfl,-⟩ | ⟨es,-,hupto⟩
  · have hcalled : (pre ++ .entered () nd :: mid).any (ClientEvent.calledBy t) = true := by
      simp [List.any_append, any_calledBy_iff.mpr hmakes]
    refine ⟨.returned () status :: later,desc,dev,rest,hlog,hran,?_⟩
    exact ((spoiled_append hcalled _).mp hspoiled).resolve_left hclean
  · rw [hupto] at hclean
    exact absurd (hspoiled.append es) hclean

/-- What the call leaves behind after a DOORBELL that failed. -/
theorem Failed.leftLaunch {t : Ticket Unit} {cmd : LaunchCmd} {p : Nat}
    (hsub : SubmitInv (pre ++ .entered () nd :: mid) pre (some t))
    (hprepared : Prepared nd t.launch)
    (hget : (pubIn (pre ++ .entered () nd :: mid))[p]? = some (t,.submit cmd)) :
    LeftLaunch log (pre ++ .entered () nd :: mid) nd mid t cmd p := by
  have hring := ring_run hrun
  obtain ⟨hclean,-,hpre⟩ := hsub.own t rfl
  have hmakes : Makes mid t := hfailed.makes hrun (List.mem_of_getElem? hget) (hpre _)
  have hlog : (pubIn log)[p]? = some (t,.submit cmd) := by
    rw [hfailed.history, pubIn, ringLog_append, publishedIn_append]
    exact (List.getElem?_append_left (List.getElem?_eq_some_iff.mp hget).1).trans hget
  have honly (p' : Nat) : LaunchOf log mid p' ↔ p' = p := by
    constructor
    · rintro ⟨t',cmd',hget',hmakes'⟩
      obtain ⟨hfirst,hupto⟩ := hfailed.launch_inside hrun hget' hmakes'
      obtain rfl := Option.some.inj (hsub.only p' t' cmd' hfirst hupto)
      exact published_once hring _ p' p _ _ hget' hlog
    · rintro rfl
      exact ⟨t,cmd,hlog,hmakes⟩
  refine ⟨hprepared,hget,honly,?_,fun hp => ?_,fun desc dev hexec => ⟨?_,?_⟩⟩
  · simp [LaunchesNothingLater, honly]
  · obtain ⟨c,job,hpub,hcon⟩ := consumedAt_of_lt hring hp
    obtain ⟨-,rfl⟩ := Prod.mk.inj (Option.some.inj (hlog.symm.trans hpub))
    exact hcon
  · obtain ⟨c,job,hpub,rfl⟩ := executed_published hring hexec
    obtain ⟨-,rfl⟩ := Prod.mk.inj (Option.some.inj (hlog.symm.trans hpub))
    rfl
  · have hserial : (clientSystem Unit queueMode).RunWith Serialised log u :=
      hrun.mono fun _ _ _ _ _ k _ _ _ k' hne => absurd rfl hne
    refine (ownOrSpoiled_run hserial p t cmd desc dev hlog hexec).imp_right ?_
    rintro ⟨a,rest,hsplit,hran,hspoiled⟩
    exact hfailed.uploadedBeforeRun hmakes hclean hsplit hran hspoiled

/-- A call that returns an error without having rung the doorbell has no launch in
the ring, then or later. One whose DOORBELL failed has exactly one, there already
when it returns; nothing takes it back, and the firmware alone can consume it. -/
theorem failed_enqueue_leaves :
    (¬RangDoorbell mid → ∀ p, ¬LaunchOf log mid p) ∧
    (RangDoorbell mid → ∃ t cmd p, LeftLaunch log (pre ++ .entered () nd :: mid) nd mid t cmd p ∧
      ∃ n u' es, (clientSystem Unit queueMode).exec u (List.replicate n (.ring .firmware)) =
        some (u',es) ∧ p < consumedCount (ringLog (log ++ es))) := by
  rcases hfailed.leftBehind hrun with ⟨hno,hsub⟩ | ⟨hrang,t,cmd,p,hsub,hprepared,hget⟩
  · refine ⟨?_,fun hrang => absurd hrang hno⟩
    rintro - p ⟨t,cmd,hget,hmakes⟩
    obtain ⟨hfirst,hupto⟩ := hfailed.launch_inside hrun hget hmakes
    exact nomatch hsub.only p t cmd hfirst hupto
  · refine ⟨fun hno => absurd hrang hno,fun _ => ?_⟩
    have hleft := hfailed.leftLaunch hrun hsub hprepared hget
    refine ⟨t,cmd,p,hleft,?_⟩
    obtain ⟨t',cmd',hlog,-⟩ := (hleft.only p).mpr rfl
    obtain ⟨n,s',es,hexec,hreached⟩ :=
      firmware_reaches (ring_run hrun) (List.getElem?_eq_some_iff.mp hlog).1
    refine ⟨n,{u with ring := s'},es.map .ring,?_,by simpa using hreached⟩
    rw [← List.map_replicate]
    exact clients_exec_ring (fun a ha => by rw [List.eq_of_mem_replicate ha]; rfl) hexec

end failed

/-- A DOORBELL that times out before the firmware has looked at the ring, a second
call that uploads its own argument, and then a turn of the firmware. -/
def timedOutLaunch : List (ClientAction Unit) :=
  let t : Ticket Unit := ⟨(),1,.submit,oneWordLaunch 7 1⟩
  let t' : Ticket Unit := ⟨(),2,.doorbell,oneWordLaunch 7 1⟩
  [ClientAction.enqueue () (oneWord 7 1) true,.dma () .ok] ++ loadSteps () 0 7 1 ++
    [ClientAction.ioctl ()] ++ (sectionSteps t).map ClientAction.ring ++
    [ClientAction.result () false,.ioctl (),.ring (.access t'),.ring (.access t'),
      .ring (.expire t'),.result () false] ++
    [ClientAction.enqueue () (oneWord 7 2) true,.dma () .ok] ++
    firmwareTurn.map ClientAction.ring

theorem timedOutLaunch_runs :
    ((clientSystem Unit 0).exec (freshClients Unit) timedOutLaunch).isSome = true := by
  decide +kernel

def timedOutLog : List (ClientEvent Unit) :=
  (((clientSystem Unit 0).exec (freshClients Unit) timedOutLaunch).get timedOutLaunch_runs).2

/-- The history of the call that timed out. -/
def timedOutCall : List (ClientEvent Unit) := (timedOutLog.take 52).drop 1

theorem timedOutLaunch_run : ∃ u, (clientSystem Unit 0).Run timedOutLog u :=
  ⟨_,System.Run.of_exec (S := clientSystem Unit 0) (freshClients_init Unit 0) timedOutLaunch
    timedOutLaunch_runs⟩

def ClientEvent.enters : ClientEvent Unit → Bool
  | .entered _ _ => true
  | _ => false

def ClientEvent.fails : ClientEvent Unit → Bool
  | .returned _ status => decide (status ≠ .CL_SUCCESS)
  | _ => false

theorem timedOutCall_failed : ∃ nd status,
    Failed timedOutLog [] nd timedOutCall (timedOutLog.drop 53) status := by
  have hentered : timedOutLog[0]?.any ClientEvent.enters = true := by decide +kernel
  have hfailed : timedOutLog[52]?.any ClientEvent.fails = true := by decide +kernel
  have hinside : timedOutCall.any ClientEvent.enters = false := by decide +kernel
  obtain ⟨e,hfirst,henters⟩ := (Option.any_eq_true _ _).mp hentered
  obtain ⟨e',hlast,hfails⟩ := (Option.any_eq_true _ _).mp hfailed
  have hcall : timedOutLog.take 52 = e :: timedOutCall := by
    rw [← List.drop_zero (l := timedOutLog.take 52), List.drop_eq_getElem?_toList_append,
      List.getElem?_take_of_lt (by decide), hfirst]
    rfl
  have hrest : timedOutLog.drop 52 = e' :: timedOutLog.drop 53 := by
    rw [List.drop_eq_getElem?_toList_append, hlast]
    rfl
  cases e with
  | entered k nd =>
    cases e' with
    | returned k' status =>
      refine ⟨nd,status,?_,fun nd' hmem => ?_,by simpa [ClientEvent.fails] using hfails⟩
      · rw [List.nil_append, ← hcall, ← hrest, List.take_append_drop]
      · exact List.any_eq_false.mp hinside _ hmem rfl
    | entered | uploaded | ring => nomatch hfails
  | returned | uploaded | ring => nomatch henters

theorem failed_enqueue_leaves_timed_out : ∃ u nd t cmd p,
    (clientSystem Unit 0).Run timedOutLog u ∧
    LeftLaunch timedOutLog (.entered () nd :: timedOutCall) nd timedOutCall t cmd p := by
  obtain ⟨u,hrun⟩ := timedOutLaunch_run
  obtain ⟨nd,status,hfailed⟩ := timedOutCall_failed
  have hrang : timedOutCall.any
      (ClientEvent.calledBy ⟨(),2,.doorbell,oneWordLaunch 7 1⟩) = true := by
    decide +kernel
  obtain ⟨t,cmd,p,hleft,-⟩ :=
    (failed_enqueue_leaves hrun hfailed).2 ⟨_,rfl,any_calledBy_iff.mp hrang⟩
  exact ⟨u,nd,t,cmd,p,hrun,hleft⟩

/-- The call has returned CL_OUT_OF_RESOURCES, and then its launch is run after all,
with the argument of the next call. -/
theorem timed_out_launch_runs_later : ∃ log u pre nd mid post status,
    (clientSystem Unit 0).Run log u ∧ Failed log pre nd mid post status ∧
    ¬LaunchesNothingLater log (pre ++ .entered () nd :: mid) mid ∧
    (oneWordLaunch 7 1).page 0 = 1 ∧
    (pubIn log)[1]?.map Prod.fst = some ⟨(),1,.submit,oneWordLaunch 7 1⟩ ∧
    (executedIn (ringLog log))[1]?.map (fun x => x.2.kernarg 0) = some 2 := by
  obtain ⟨u,hrun⟩ := timedOutLaunch_run
  obtain ⟨nd,status,hfailed⟩ := timedOutCall_failed
  have hsubmitted : (pubIn timedOutLog)[1]?.map Prod.fst =
      some ⟨(),1,.submit,oneWordLaunch 7 1⟩ := by
    decide +kernel
  have hmakes : timedOutCall.any
      (ClientEvent.calledBy ⟨(),1,.submit,oneWordLaunch 7 1⟩) = true := by
    decide +kernel
  have hbefore : consumedCount (ringLog timedOutCall) = 1 := by decide +kernel
  have hafter : consumedCount (ringLog timedOutLog) = 2 := by decide +kernel
  refine ⟨_,u,_,nd,_,_,status,hrun,hfailed,fun hnothing => ?_,by decide,hsubmitted,
    by decide +kernel⟩
  obtain ⟨⟨t,job⟩,hget,rfl⟩ := Option.map_eq_some_iff.mp hsubmitted
  have hcall := published_ticket hrun (List.mem_of_getElem? hget)
  cases job with
  | load kbin => exact nomatch hcall
  | submit cmd =>
    have hlate := hnothing 1 ⟨_,cmd,hget,any_calledBy_iff.mp hmakes⟩ (by rw [hafter]; decide)
    rw [List.nil_append, ringLog_entered, hbefore] at hlate
    exact absurd hlate (by decide)

end FpgaGpu.Umd
