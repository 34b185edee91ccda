import FpgaGpu.Umd.SoleClient

/-! The launches of any number of clients, counted call by call. Whatever the
others do, a call puts at most one launch into the ring, and one that returns
CL_SUCCESS has put exactly one there, behind the load of its program, and has
seen it run. Only the load can be made twice, by a restarted LOAD_KERNEL. -/
namespace FpgaGpu.Umd
open Driver Library

variable {κ : Type}

/-- Client `k` has filled position `p` with `job`, after the first `n` positions. -/
def PlacedSince (pub : List (Ticket κ × Job)) (n : Nat) (k : κ) (p : Nat) (job : Job) : Prop :=
  n ≤ p ∧ ∃ t : Ticket κ, t.client = k ∧ pub[p]? = some (t,job)

def NoLaunch (pub : List (Ticket κ × Job)) (n : Nat) (k : κ) : Prop :=
  ∀ p cmd, ¬PlacedSince pub n k p (.submit cmd)

def AtMostOneLaunch (pub : List (Ticket κ × Job)) (n : Nat) (k : κ) : Prop :=
  ∀ p p' cmd cmd', PlacedSince pub n k p (.submit cmd) →
    PlacedSince pub n k p' (.submit cmd') → p' = p

/-- The launch of the call is at position `p`, behind its program. -/
structure LaunchedAt (pub : List (Ticket κ × Job)) (n : Nat) (k : κ) (launch : Launch)
    (p : Nat) : Prop where
  start : n ≤ p
  placed : ∃ (t : Ticket κ) (cmd : LaunchCmd), t.client = k ∧ t.launch = launch ∧
    pub[p]? = some (t,.submit cmd)
  only : ∀ p' cmd, PlacedSince pub n k p' (.submit cmd) → p' = p
  loaded : ∃ q < p, PlacedSince pub n k q (.load launch.kbin)

/-- The call in progress publishes by `t` alone, behind the load of its program. -/
def PublishesBy (pub : List (Ticket κ × Job)) (n : Nat) (k : κ) (t : Ticket κ) : Prop :=
  ∃ q, PlacedSince pub n k q (.load t.launch.kbin) ∧
    ∀ p t' cmd, n ≤ p → t'.client = k → pub[p]? = some (t',.submit cmd) → t' = t ∧ q < p

/-- What the call that client `k` began after `pre` has published so far. -/
def CallStage (log pre : List (ClientEvent κ)) (k : κ) (nd : NDRange) [DecidableEq κ] :
    Phase κ → Prop
  | .idle | .crashed => AtMostOneLaunch (pubIn log) (pubIn pre).length k
  | .upload launch => Prepared nd launch ∧ NoLaunch (pubIn log) (pubIn pre).length k
  | .issue launch io => Prepared nd launch ∧ match io with
    | .load => NoLaunch (pubIn log) (pubIn pre).length k
    | .submit => NoLaunch (pubIn log) (pubIn pre).length k ∧
        ∃ q, PlacedSince (pubIn log) (pubIn pre).length k q (.load launch.kbin)
    | .doorbell => ∃ p, LaunchedAt (pubIn log) (pubIn pre).length k launch p
  | .inside t => Prepared nd t.launch ∧ (∀ job, (t,job) ∉ pubIn pre) ∧ match t.ioctl with
    | .load => NoLaunch (pubIn log) (pubIn pre).length k
    | .submit => PublishesBy (pubIn log) (pubIn pre).length k t
    | .doorbell => ∃ p, LaunchedAt (pubIn log) (pubIn pre).length k t.launch p ∧
        p < publishedCount (before (Event.tailReadBy t) (ringLog log))

theorem NoLaunch.atMostOne {pub : List (Ticket κ × Job)} {n : Nat} {k : κ}
    (h : NoLaunch pub n k) : AtMostOneLaunch pub n k :=
  fun p _ cmd _ hp => absurd hp (h p cmd)

theorem noLaunch_start (pub : List (Ticket κ × Job)) (k : κ) : NoLaunch pub pub.length k := by
  rintro p cmd ⟨hp,t,-,hget⟩
  exact absurd (List.getElem?_eq_some_iff.mp hget).1 (not_lt.mpr hp)

theorem pubIn_get_append {log : List (ClientEvent κ)} {p : Nat} {x : Ticket κ × Job}
    (h : (pubIn log)[p]? = some x) (es : List (ClientEvent κ)) :
    (pubIn (log ++ es))[p]? = some x := by
  rw [pubIn, ringLog_append, publishedIn_append]
  exact (List.getElem?_append_left (List.getElem?_eq_some_iff.mp h).1).trans h

theorem PlacedSince.append {log : List (ClientEvent κ)} {n : Nat} {k : κ} {p : Nat} {job : Job}
    (h : PlacedSince (pubIn log) n k p job) (es : List (ClientEvent κ)) :
    PlacedSince (pubIn (log ++ es)) n k p job := by
  obtain ⟨hp,t,hk,hget⟩ := h
  exact ⟨hp,t,hk,pubIn_get_append hget es⟩

/-- What a ticket of the call has published lies behind the call's beginning. -/
theorem Entered.start_le {log pre mid : List (ClientEvent κ)} {k : κ} {nd : NDRange}
    {t : Ticket κ} {p : Nat} {job : Job} (h : Entered log pre k nd mid)
    (hpre : ∀ job, (t,job) ∉ pubIn pre) (hget : (pubIn log)[p]? = some (t,job)) :
    (pubIn pre).length ≤ p := by
  by_contra hlt
  have hlt : p < (publishedIn (ringLog pre)).length := not_le.mp hlt
  rw [h.1, pubIn, ringLog_append, publishedIn_append, List.getElem?_append_left hlt] at hget
  exact hpre job (List.mem_of_getElem? hget)

variable [DecidableEq κ]

theorem CallStage.quiet {log pre es : List (ClientEvent κ)} {k : κ} {nd : NDRange} {p : Phase κ}
    (h : CallStage log pre k nd p) (hes : publishedIn (ringLog es) = []) :
    CallStage (log ++ es) pre k nd p := by
  have hpub : pubIn (log ++ es) = pubIn log := by simp [pubIn, hes]
  unfold CallStage at *
  rw [hpub]
  split at h
  next => exact h
  next => exact h
  next => exact h
  next => exact h
  next t =>
    refine h.imp_right (And.imp_right fun hio => ?_)
    split at hio
    next => exact hio
    next => exact hio
    next =>
      refine hio.imp fun p hp => ⟨hp.1,lt_of_lt_of_le hp.2 ?_⟩
      rw [ringLog_append]
      exact filterMap_length_mono Event.published? (before_mono _ (ringLog log) (ringLog es))

section step
variable {queueMode : Int} {log pre : List (ClientEvent κ)} {u : Clients κ}
  (hrun : (clientSystem κ queueMode).Run log u)
include hrun

section ring
variable {a : Action (Ticket κ)} {ring' : State (Ticket κ)} {es : List (Event (Ticket κ))}
  (hrule : Rule queueMode u.ring a ring' es)
include hrule

/-- A client publishes what it is inside of, at the end. -/
theorem published_ring {p : Nat} {t : Ticket κ} {job : Job}
    (hget : (pubIn (log ++ es.map .ring))[p]? = some (t,job)) :
    (pubIn log)[p]? = some (t,job) ∨
      p = (pubIn log).length ∧ u.phase t.client = .inside t ∧ job.call = t.call := by
  rw [pubIn_append_ring] at hget
  rcases hrule.publishes with hnone | ⟨t',job',tail,hpc,hone⟩
  · exact .inl (by simpa [hnone] using hget)
  · rw [hone] at hget
    refine (getElem?_concat_eq_some.mp hget).imp_right ?_
    rintro ⟨hp,hnew⟩
    obtain ⟨rfl,rfl⟩ := Prod.mk.inj hnew
    exact ⟨hp,publisher_inside hrun hpc⟩

/-- Outside SUBMIT_CMD a client publishes no launch. -/
theorem launch_of_ring {n : Nat} {k : κ} (hno : ∀ t, u.phase k = .inside t → t.ioctl ≠ .submit)
    {p : Nat} {cmd : LaunchCmd}
    (h : PlacedSince (pubIn (log ++ es.map .ring)) n k p (.submit cmd)) :
    PlacedSince (pubIn log) n k p (.submit cmd) := by
  obtain ⟨hp,t,rfl,hget⟩ := h
  rcases published_ring hrun hrule hget with hold | ⟨-,hin,hjob⟩
  · exact ⟨hp,t,rfl,hold⟩
  · exact absurd (call_eq_submit hjob).1 (hno t hin)

theorem LaunchedAt.ring {n : Nat} {k : κ} {launch : Launch} {p : Nat}
    (hno : ∀ t, u.phase k = .inside t → t.ioctl ≠ .submit)
    (h : LaunchedAt (pubIn log) n k launch p) :
    LaunchedAt (pubIn (log ++ es.map .ring)) n k launch p where
  start := h.start
  placed := by
    obtain ⟨t,cmd,hk,hlaunch,hget⟩ := h.placed
    exact ⟨t,cmd,hk,hlaunch,pubIn_get_append hget _⟩
  only p' cmd hp := h.only p' cmd (launch_of_ring hrun hrule hno hp)
  loaded := h.loaded.imp fun _ hq => hq.imp_right fun hq => hq.append _

theorem PublishesBy.ring {n : Nat} {k : κ} {t : Ticket κ} (hphase : u.phase k = .inside t)
    (h : PublishesBy (pubIn log) n k t) : PublishesBy (pubIn (log ++ es.map .ring)) n k t := by
  obtain ⟨q,hq,honly⟩ := h
  refine ⟨q,hq.append _,?_⟩
  rintro p t' cmd hp rfl hget
  rcases published_ring hrun hrule hget with hold | ⟨rfl,hin,-⟩
  · exact honly p t' cmd hp rfl hold
  · obtain ⟨-,_,-,hgetq⟩ := hq
    exact ⟨(Phase.inside.inj (hphase.symm.trans hin)).symm,(List.getElem?_eq_some_iff.mp hgetq).1⟩

theorem CallStage.ring {k : κ} {nd : NDRange} (h : CallStage log pre k nd (u.phase k)) :
    CallStage (log ++ es.map .ring) pre k nd (u.phase k) := by
  have quiet {n : Nat} (hno : ∀ t, u.phase k = .inside t → t.ioctl ≠ .submit)
      (hnone : NoLaunch (pubIn log) n k) : NoLaunch (pubIn (log ++ es.map .ring)) n k :=
    fun p cmd hp => hnone p cmd (launch_of_ring hrun hrule hno hp)
  cases hphase : u.phase k with
  | idle | crashed =>
    rw [hphase] at h
    have hno : ∀ t, u.phase k = .inside t → t.ioctl ≠ .submit := by simp [hphase]
    intro p p' cmd cmd' hp hp'
    exact h p p' cmd cmd' (launch_of_ring hrun hrule hno hp) (launch_of_ring hrun hrule hno hp')
  | upload launch =>
    rw [hphase] at h
    exact h.imp_right (quiet (by simp [hphase]))
  | issue launch io =>
    have hno : ∀ t, u.phase k = .inside t → t.ioctl ≠ .submit := by simp [hphase]
    rw [hphase] at h
    refine h.imp_right fun hio => ?_
    cases io with
    | load => exact quiet hno hio
    | submit => exact ⟨quiet hno hio.1,hio.2.imp fun q hq => hq.append _⟩
    | doorbell => exact hio.imp fun p hp => hp.ring hrun hrule hno
  | inside t =>
    rw [hphase] at h
    refine h.imp_right (And.imp_right fun hio => ?_)
    split at hio
    next hload =>
      refine quiet ?_ hio
      rintro t' hin
      obtain rfl := Phase.inside.inj (hphase.symm.trans hin)
      simp [hload]
    next => exact hio.ring hrun hrule hphase
    next hbell =>
      have hno : ∀ t, u.phase k = .inside t → t.ioctl ≠ .submit := by
        rintro t' hin
        obtain rfl := Phase.inside.inj (hphase.symm.trans hin)
        simp [hbell]
      refine hio.imp fun p hp => ⟨hp.1.ring hrun hrule hno,lt_of_lt_of_le hp.2 ?_⟩
      rw [ringLog_append]
      exact filterMap_length_mono Event.published? (before_mono _ (ringLog log) _)

end ring

variable {k : κ} {nd : NDRange} {mid : List (ClientEvent κ)} {t : Ticket κ}

/-- At any point the call has published at most one launch. -/
theorem CallStage.atMostOne {p : Phase κ} (h : CallStage log pre k nd p) :
    AtMostOneLaunch (pubIn log) (pubIn pre).length k := by
  have launched {launch : Launch} {p : Nat}
      (h : LaunchedAt (pubIn log) (pubIn pre).length k launch p) :
      AtMostOneLaunch (pubIn log) (pubIn pre).length k :=
    fun p₁ p₂ cmd₁ cmd₂ h₁ h₂ => (h.only p₂ cmd₂ h₂).trans (h.only p₁ cmd₁ h₁).symm
  cases p with
  | idle | crashed => exact h
  | upload => exact h.2.atMostOne
  | issue launch io =>
    obtain ⟨-,hio⟩ := h
    cases io with
    | load => exact hio.atMostOne
    | submit => exact hio.1.atMostOne
    | doorbell =>
      obtain ⟨p,hp⟩ := hio
      exact launched hp
  | inside t =>
    obtain ⟨-,-,hio⟩ := h
    split at hio
    next => exact hio.atMostOne
    next =>
      obtain ⟨q,-,honly⟩ := hio
      rintro p p' cmd cmd' ⟨hp,t₁,hk,hget⟩ ⟨hp',t₂,hk',hget'⟩
      obtain ⟨rfl,-⟩ := honly p t₁ cmd hp hk hget
      obtain ⟨rfl,-⟩ := honly p' t₂ cmd' hp' hk' hget'
      exact published_once (ring_run hrun) _ p' p _ _ hget' hget
    next =>
      obtain ⟨p,hp,-⟩ := hio
      exact launched hp

/-- The program that LOAD_KERNEL has loaded is the call's own, loaded since it began. -/
theorem placed_of_load (hphase : u.phase k = .inside t) (hio : t.ioctl = .load)
    (hpc : u.ring.pc t = .done .ok) (hentered : Entered log pre k nd mid)
    (hpre : ∀ job, (t,job) ∉ pubIn pre) :
    ∃ q, PlacedSince (pubIn log) (pubIn pre).length k q (.load t.launch.kbin) := by
  have hcalled : .called t (.loadKernel (some t.launch.kbin)) ∈ ringLog log := by
    simpa [Ticket.call, hio] using (inside_calledAs hrun hphase t.call).mpr rfl
  obtain ⟨q,hq,-⟩ := load_sound (ring_run hrun) hcalled hpc
  have hget := (hq q (.load t.launch.kbin)).mpr ⟨rfl,rfl⟩
  exact ⟨q,hentered.start_le hpre hget,t,((ticketInv_run hrun).inside k t hphase).1,hget⟩

/-- A SUBMIT_CMD that returned 0 has published the launch of the call. -/
theorem launchedAt_of_submit (hphase : u.phase k = .inside t) (hio : t.ioctl = .submit)
    (hpc : u.ring.pc t = .done .ok) (hentered : Entered log pre k nd mid)
    (hpre : ∀ job, (t,job) ∉ pubIn pre) (h : PublishesBy (pubIn log) (pubIn pre).length k t) :
    ∃ p, LaunchedAt (pubIn log) (pubIn pre).length k t.launch p := by
  obtain ⟨q,hq,honly⟩ := h
  have hclient := ((ticketInv_run hrun).inside k t hphase).1
  have hcalled := (inside_calledAs hrun hphase t.call).mpr rfl
  rw [Ticket.call, hio] at hcalled
  rcases awaited_of_done (ring_run hrun) hpc with
    ⟨⟨hbell,-⟩ | ⟨kbin,hload,-⟩,-⟩ | ⟨cmd,-,-,p,-,hget⟩
  · cases (hbell _).mp hcalled
  · cases (hload _).mp hcalled
  · have hget := (hget p (.submit cmd)).mpr ⟨rfl,rfl⟩
    have hp := hentered.start_le hpre hget
    refine ⟨p,hp,⟨t,cmd,hclient,rfl,hget⟩,?_,q,(honly p t cmd hp hclient hget).2,hq⟩
    rintro p' cmd' ⟨hp',t',hk',hget'⟩
    obtain ⟨rfl,-⟩ := honly p' t' cmd' hp' hk' hget'
    exact published_once (ring_run hrun) _ p' p _ _ hget' hget

/-- A SUBMIT_CMD that failed has published nothing, so it can be made again. -/
theorem noLaunch_of_err {e : Errno} (hphase : u.phase k = .inside t) (hio : t.ioctl = .submit)
    (hpc : u.ring.pc t = .done (.err e)) (h : PublishesBy (pubIn log) (pubIn pre).length k t) :
    NoLaunch (pubIn log) (pubIn pre).length k := by
  have hcall := callInv_run (ring_run hrun) t
  rw [hpc] at hcall
  have hfresh := hcall t.launch.cmd (by simpa [Ticket.call, hio] using inside_calledAs hrun hphase)
  obtain ⟨q,-,honly⟩ := h
  rintro p cmd ⟨hp,t',hk,hget⟩
  obtain ⟨rfl,-⟩ := honly p t' cmd hp hk hget
  exact not_mem_publishedIn hfresh.1 _ (List.mem_of_getElem? hget)

/-- Where the call goes when one of its ioctls returns. -/
theorem CallStage.result {ret : Ret} (restart : Bool) (hphase : u.phase k = .inside t)
    (hpc : u.ring.pc t = .done ret) (hentered : Entered log pre k nd mid)
    (h : CallStage log pre k nd (.inside t)) :
    CallStage log pre k nd (afterIoctl t ret restart).1 := by
  have honce := h.atMostOne hrun
  obtain ⟨hprepared,hpre,hio⟩ := h
  cases ret with
  | err e =>
    rw [afterIoctl_err]
    split
    next =>
      refine ⟨hprepared,?_⟩
      cases hcase : t.ioctl with
      | load => simpa [hcase] using hio
      | submit =>
        simp only [hcase] at hio
        exact ⟨noLaunch_of_err hrun hphase hcase hpc hio,hio.imp fun q hq => hq.1⟩
      | doorbell =>
        simp only [hcase] at hio
        exact hio.imp fun p hp => hp.1
    next => exact honce
  | ok =>
    rw [afterIoctl_ok]
    cases hcase : t.ioctl with
    | load =>
      simp only [hcase] at hio ⊢
      split
      next =>
        exact ⟨hprepared,hio,placed_of_load hrun hphase hcase hpc hentered hpre⟩
      next => exact honce
    | submit =>
      simp only [hcase] at hio ⊢
      exact ⟨hprepared,launchedAt_of_submit hrun hphase hcase hpc hentered hpre hio⟩
    | doorbell => exact honce

/-- The call makes its next ioctl. -/
theorem CallStage.ioctl {launch : Launch} {io : Ioctl} (ht : t = ⟨k,u.calls k,io,launch⟩)
    (hready : u.ring.pc t = .ready) (hentered : Entered log pre k nd mid)
    (h : CallStage log pre k nd (.issue launch io)) :
    CallStage log pre k nd (.inside t) := by
  obtain ⟨hio,rfl⟩ : t.ioctl = io ∧ t.launch = launch := by simp [ht]
  have hfresh := callInv_run (ring_run hrun) t
  rw [hready] at hfresh
  have hnone : ∀ job, (t,job) ∉ pubIn log := fun job => not_mem_publishedIn hfresh.1.1 job
  obtain ⟨hprepared,hstage⟩ := h
  refine ⟨hprepared,fun job hmem => hnone job ?_,?_⟩
  · rw [hentered.1, pubIn, ringLog_append, publishedIn_append]
    exact List.mem_append_left _ hmem
  · subst hio
    split at hstage
    next => exact hstage
    next =>
      obtain ⟨hno,q,hq⟩ := hstage
      refine ⟨q,hq,fun p t' cmd hp hk hget => ?_⟩
      exact absurd ⟨hp,t',hk,hget⟩ (hno p cmd)
    next =>
      refine hstage.imp fun p hp => ⟨hp,?_⟩
      -- the call has not read the tail yet
      obtain ⟨t',cmd,-,-,hget⟩ := hp.placed
      rw [before_of_not_any hfresh.1.2]
      exact (List.getElem?_eq_some_iff.mp hget).1

end step

/-- Every client is where its last call has brought it, or has not made one. -/
def EachInv (log : List (ClientEvent κ)) (u : Clients κ) : Prop :=
  ∀ k, u.phase k = .idle ∧ (∀ nd, .entered k nd ∉ log) ∨
    ∃ pre nd mid, Entered log pre k nd mid ∧ CallStage log pre k nd (u.phase k)

/-- A step of client `k` alone. -/
theorem EachInv.moved {log es : List (ClientEvent κ)} {u u' : Clients κ} {k : κ}
    (h : EachInv log u) (hes : publishedIn (ringLog es) = [])
    (hentered : ∀ k' nd, k' ≠ k → .entered k' nd ∉ es)
    (hother : ∀ k', k' ≠ k → u'.phase k' = u.phase k')
    (hown : ∃ pre nd mid, Entered (log ++ es) pre k nd mid ∧
      CallStage (log ++ es) pre k nd (u'.phase k)) : EachInv (log ++ es) u' := by
  intro k'
  by_cases hk : k' = k
  · exact .inr (hk ▸ hown)
  · rw [hother k' hk]
    rcases h k' with ⟨hidle,hnone⟩ | ⟨pre,nd,mid,hlast,hstage⟩
    · refine .inl ⟨hidle,fun nd hmem => ?_⟩
      exact (List.mem_append.mp hmem).elim (hnone nd) (hentered k' nd hk)
    · exact .inr ⟨pre,nd,_,hlast.append fun nd' => hentered k' nd' hk,hstage.quiet hes⟩

/-- A step of client `k` within its call. -/
theorem EachInv.within {log es : List (ClientEvent κ)} {u u' : Clients κ} {k : κ}
    (h : EachInv log u) (hphase : u.phase k ≠ .idle) (hes : publishedIn (ringLog es) = [])
    (hentered : ∀ k' nd, .entered k' nd ∉ es) (hother : ∀ k', k' ≠ k → u'.phase k' = u.phase k')
    (hstage : ∀ pre nd mid, Entered log pre k nd mid → CallStage log pre k nd (u.phase k) →
      CallStage log pre k nd (u'.phase k)) : EachInv (log ++ es) u' := by
  refine h.moved hes (fun k' nd _ => hentered k' nd) hother ?_
  rcases h k with ⟨hidle,-⟩ | ⟨pre,nd,mid,hlast,hold⟩
  · exact absurd hidle hphase
  · exact ⟨pre,nd,_,hlast.append (hentered k),(hstage pre nd mid hlast hold).quiet hes⟩

theorem eachInv_run {queueMode : Int} {log : List (ClientEvent κ)} {u : Clients κ}
    (h : (clientSystem κ queueMode).Run log u) : EachInv log u := by
  have hother (u : Clients κ) (k : κ) (p : Phase κ) : ∀ k', k' ≠ k →
      (u.setPhase k p).phase k' = u.phase k' := fun k' hk => Clients.setPhase_phase_other _ _ _ hk
  refine client_invariant (I := EachInv) ?_ ?_ h
  · exact fun u hu k => .inl ⟨hu.2.1 k,fun _ => List.not_mem_nil⟩
  · intro log u a u' es hrun ih _ hrule
    have hrun : (clientSystem κ queueMode).Run log u := hrun
    cases hrule with
    | refused k nd memalign status hphase hprepare =>
      refine ih.moved (k := k) rfl ?_ (fun _ _ => rfl) ⟨log,nd,_,⟨rfl,by simp⟩,?_⟩
      · rintro k' nd' hk
        simp [hk]
      · rw [hphase, CallStage, pubIn_append_quiet rfl]
        exact (noLaunch_start (pubIn log) k).atMostOne
    | entered k nd memalign launch hphase hprepare =>
      refine ih.moved (k := k) rfl ?_ (hother u k _) ⟨log,nd,_,⟨rfl,by simp⟩,?_⟩
      · rintro k' nd' hk
        simp [hk]
      · rw [Clients.setPhase_phase_self, CallStage, pubIn_append_quiet rfl]
        exact ⟨⟨memalign,hprepare⟩,noLaunch_start (pubIn log) k⟩
    | uploaded k launch hphase =>
      refine ih.within (k := k) (by simp [hphase]) rfl (by simp) (hother _ k _) ?_
      rintro pre nd mid - hstage
      rw [Clients.setPhase_phase_self]
      rw [hphase] at hstage
      exact hstage
    | uploadFailed k launch hphase | uploadBroken k launch left hphase =>
      refine ih.within (k := k) (by simp [hphase]) rfl (by simp) (hother _ k _) ?_
      rintro pre nd mid - hstage
      rw [Clients.setPhase_phase_self]
      exact hstage.atMostOne hrun
    | ioctl k launch io t hphase ht hready =>
      refine ih.within (k := k) (by simp [hphase]) rfl (by simp) (hother u k _) ?_
      intro pre nd mid hlast hstage
      rw [hphase] at hstage
      change CallStage log pre k nd ((u.setPhase k (.inside t)).phase k)
      rw [Clients.setPhase_phase_self]
      exact hstage.ioctl hrun ht hready hlast
    | ring a ring' es ha hstep =>
      intro k
      refine (ih k).imp (And.imp_right fun hnone nd hmem => ?_) ?_
      · rcases List.mem_append.mp hmem with hold | hnew
        · exact hnone nd hold
        · simp at hnew
      · rintro ⟨pre,nd,mid,hlast,hstage⟩
        exact ⟨pre,nd,_,hlast.append (by simp),hstage.ring hrun (rule_of_step hstep)⟩
    | result k t ret restart hphase hpc =>
      have hes : publishedIn (ringLog ((afterIoctl t ret restart).2.toList.map
          (ClientEvent.returned k))) = [] := by rw [ringLog_result, publishedIn_nil]
      refine ih.within (k := k) (by simp [hphase]) hes ?_ (hother u k _) ?_
      · cases (afterIoctl t ret restart).2 <;> simp
      · intro pre nd mid hlast hstage
        rw [Clients.setPhase_phase_self]
        rw [hphase] at hstage
        exact hstage.result hrun restart hphase hpc hlast

/-- The call that client `k` began after `pre` has had its launch run on the device
`dev`: the one launch it has put into the ring since, behind the load of its program. -/
def RanOnce (log pre : List (ClientEvent κ)) (k : κ) (nd : NDRange) (t : Ticket κ)
    (dev : Device) : Prop :=
  ∃ (cmd : LaunchCmd) (q p : Nat), t.client = k ∧ Prepared nd t.launch ∧ t.launch.cmd = some cmd ∧
    (pubIn log)[p]? = some (t,.submit cmd) ∧
    (∀ p' cmd', PlacedSince (pubIn log) (pubIn pre).length k p' (.submit cmd') ↔
      p' = p ∧ cmd' = cmd) ∧
    PlacedSince (pubIn log) (pubIn pre).length k q (.load t.launch.kbin) ∧ q < p ∧
    (executedIn (ringLog log))[p]? = some ((submitTask cmd).words,dev)

omit [DecidableEq κ] in
theorem RanOnce.runsOwn {log pre : List (ClientEvent κ)} {k : κ} {nd : NDRange} {t : Ticket κ}
    {dev : Device} (h : RanOnce log pre k nd t dev) (hisolated : Isolated log) :
    RunsOwn dev t.launch := by
  obtain ⟨cmd,q,p,-,-,-,hget,-,-,-,hexec⟩ := h
  exact hisolated t p cmd _ dev hget hexec

/-- A DOORBELL that returns 0 ends a call that has had its launch run. -/
theorem ranOnce_of_done {queueMode : Int} {log pre : List (ClientEvent κ)} {u : Clients κ}
    {k : κ} {nd : NDRange} {t : Ticket κ} (hrun : (clientSystem κ queueMode).Run log u)
    (hphase : u.phase k = .inside t) (hio : t.ioctl = .doorbell)
    (hpc : u.ring.pc t = .done .ok) (hstage : CallStage log pre k nd (.inside t)) :
    ∃ t' dev, RanOnce log pre k nd t' dev := by
  have hring := ring_run hrun
  simp only [CallStage, hio] at hstage
  obtain ⟨hprepared,-,p,hlaunched,hbefore⟩ := hstage
  obtain ⟨t',cmd,hclient,hlaunch,hget⟩ := hlaunched.placed
  obtain ⟨q,hqp,hq⟩ := hlaunched.loaded
  have hcalled : .called t .doorbell ∈ ringLog log := by
    simpa [Ticket.call, hio] using ((inside_calledAs hrun hphase) t.call).mpr rfl
  -- DOORBELL waited for the launch, so it has been run
  obtain ⟨c,job,-,hcon⟩ := (doorbell_sound hring hcalled hpc).2 p hbefore
  have hexec := lt_of_lt_of_le (List.getElem?_eq_some_iff.mp hcon).1 (consumed_le_executed hring)
  obtain ⟨⟨desc,dev⟩,hdev⟩ : ∃ x, (executedIn (ringLog log))[p]? = some x :=
    ⟨_,List.getElem?_eq_getElem hexec⟩
  obtain ⟨c,job,hpub,rfl⟩ := executed_published hring hdev
  obtain ⟨rfl,rfl⟩ := Prod.mk.inj (Option.some.inj (hget.symm.trans hpub))
  refine ⟨t',dev,cmd,q,p,hclient,hlaunch ▸ hprepared,?_,hget,?_,hlaunch ▸ hq,hqp,hdev⟩
  · exact (call_eq_submit (published_ticket hrun (List.mem_of_getElem? hget))).2
  · intro p' cmd'
    constructor
    · intro hp'
      obtain rfl := hlaunched.only p' cmd' hp'
      obtain ⟨-,t'',-,hget'⟩ := hp'
      obtain ⟨-,hjob⟩ := Prod.mk.inj (Option.some.inj (hget'.symm.trans hget))
      exact ⟨rfl,Job.submit.inj hjob⟩
    · rintro ⟨rfl,rfl⟩
      exact ⟨hlaunched.start,t',hclient,hget⟩

/-- However the calls of the clients interleave, and whichever of them fail, time out or
are restarted: a call puts at most one launch into the ring, and when one returns
CL_SUCCESS its launch has been run, once. It has met its own program and arguments if
no upload so far came into the launch of another. -/
theorem each_call_launches_once {queueMode : Int} {log : List (ClientEvent κ)} {u : Clients κ}
    (h : (clientSystem κ queueMode).Run log u) :
    (∀ k pre nd mid, Entered log pre k nd mid →
      AtMostOneLaunch (pubIn log) (pubIn pre).length k) ∧
    ∀ upto k post, log = upto ++ .returned k .CL_SUCCESS :: post →
      ∃ pre nd mid t dev, Entered upto pre k nd mid ∧ RanOnce upto pre k nd t dev ∧
        ∀ u', (clientSystem κ queueMode).RunWith Exclusive upto u' → RunsOwn dev t.launch := by
  constructor
  · intro k pre nd mid hlast
    rcases eachInv_run h k with ⟨-,hnone⟩ | ⟨pre',nd',mid',hlast',hstage⟩
    · exact absurd (by simp [hlast.1]) (hnone nd)
    · obtain ⟨rfl,-,-⟩ := hlast.unique hlast'
      exact hstage.atMostOne h
  · suffices hevents : ∀ upto e post, log = upto ++ e :: post → ∀ k,
        e = .returned k .CL_SUCCESS →
        ∃ pre nd mid t dev, Entered upto pre k nd mid ∧ RanOnce upto pre k nd t dev by
      intro upto k post heq
      obtain ⟨pre,nd,mid,t,dev,hlast,hran⟩ := hevents upto _ post heq k rfl
      exact ⟨pre,nd,mid,t,dev,hlast,hran,fun u' h' => hran.runsOwn (isolationInv_run h').isolated⟩
    refine h.event_of_step (P := fun upto e => ∀ k, e = .returned k .CL_SUCCESS →
      ∃ pre nd mid t dev, Entered upto pre k nd mid ∧ RanOnce upto pre k nd t dev) ?_
    rintro log u a u' es hrun - hstep upto e post hes k rfl
    have hmem : .returned k .CL_SUCCESS ∈ es := by simp [hes]
    cases clientRule_of_step hstep with
    | refused k' nd memalign status hphase hprepare =>
      obtain ⟨rfl,rfl⟩ : k = k' ∧ status = .CL_SUCCESS := by simpa [eq_comm] using hmem
      exact absurd rfl (prepare_error hprepare)
    | result k' t ret restart hphase hpc =>
      obtain ⟨status,hstatus,heq⟩ := List.mem_map.mp hmem
      obtain ⟨rfl,rfl⟩ : k' = k ∧ status = .CL_SUCCESS := by simpa using heq
      obtain ⟨hio,rfl⟩ := afterIoctl_success (Option.mem_toList.mp hstatus)
      have hone : upto = [] ∧ post = [] := by
        rw [afterIoctl_ok, hio] at hes
        simpa [List.singleton_eq_append_iff] using hes
      obtain ⟨rfl,rfl⟩ := hone
      rw [List.append_nil]
      rcases eachInv_run hrun k' with ⟨hidle,-⟩ | ⟨pre,nd,mid,hlast,hstage⟩
      · simp [hphase] at hidle
      · obtain ⟨t',dev,hran⟩ := ranOnce_of_done hrun hphase hio hpc (hphase ▸ hstage)
        exact ⟨pre,nd,mid,t',dev,hlast,hran⟩
    | ring a ring' es ha hring => simp at hmem
    | _ => simp at hmem

def ClientEvent.success? : ClientEvent κ → Option κ
  | .returned k .CL_SUCCESS => some k
  | _ => none

/-- The LOAD_KERNEL of client 0 is interrupted and restarted, so its program is loaded
twice; client 1 makes its call in the middle of that of client 0. -/
def restartedAndCrossed : List (ClientAction Nat) :=
  let t : Ticket Nat := ⟨0,0,.load,oneWordLaunch 7 1⟩
  [ClientAction.enqueue 0 (oneWord 7 1) true,.dma 0 .ok,.ioctl 0,.ring (.access t)] ++
    (sectionSteps t ++ [Action.access t,.interrupt t]).map ClientAction.ring ++
    [ClientAction.result 0 true,.enqueue 1 (oneWord 8 2) true,.dma 1 .ok] ++
    firmwareTurn.map ClientAction.ring ++ loadSteps 0 1 7 1 ++ loadSteps 1 0 8 2 ++
    launchSteps 0 2 7 1 ++ launchSteps 1 1 8 2

theorem restartedAndCrossed_runs :
    ((clientSystem Nat 0).exec (freshClients Nat) restartedAndCrossed).isSome = true := by
  decide +kernel

theorem each_call_launches_once_crossed : ∃ log u, (clientSystem Nat 0).Run log u ∧
    (executedIn (ringLog log)).length = 5 ∧ ∀ k ∈ [0,1], ∃ upto post pre nd mid t dev,
      log = upto ++ .returned k .CL_SUCCESS :: post ∧ Entered upto pre k nd mid ∧
      RanOnce upto pre k nd t dev := by
  have hrun := System.Run.of_exec (S := clientSystem Nat 0) (freshClients_init Nat 0)
    restartedAndCrossed restartedAndCrossed_runs
  have hsuccesses : (((clientSystem Nat 0).exec (freshClients Nat) restartedAndCrossed).get
      restartedAndCrossed_runs).2.filterMap ClientEvent.success? = [0,1] := by
    decide +kernel
  refine ⟨_,_,hrun,by decide +kernel,fun k hk => ?_⟩
  rw [← hsuccesses] at hk
  obtain ⟨e,he,hsuccess⟩ := List.mem_filterMap.mp hk
  obtain rfl : e = .returned k .CL_SUCCESS := by
    unfold ClientEvent.success? at hsuccess
    split at hsuccess <;> simp_all
  obtain ⟨upto,post,hlog⟩ := List.append_of_mem he
  obtain ⟨pre,nd,mid,t,dev,hlast,hran,-⟩ := (each_call_launches_once hrun).2 upto k post hlog
  exact ⟨upto,post,pre,nd,mid,t,dev,hlog,hlast,hran⟩

end FpgaGpu.Umd
