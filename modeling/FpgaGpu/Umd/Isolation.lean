import FpgaGpu.Umd.Transaction

/-! Launches of different clients on one device. There is one kernel argument
page and one I-RAM for all of them, so a launch is safe only from the upload of
its arguments to the moment the next upload starts. -/
namespace FpgaGpu.Umd
open Driver Library

variable {κ : Type}

/-- The launches of a call were run on its own program and arguments. -/
def RanOwn (log : List (ClientEvent κ)) (t : Ticket κ) : Prop :=
  ∀ (p : Nat) (cmd : LaunchCmd) (desc : List UInt32) (dev : Device),
    (pubIn log)[p]? = some (t,.submit cmd) →
    (executedIn (ringLog log))[p]? = some (desc,dev) → RunsOwn dev t.launch

/-- Every launch descriptor is run while I-RAM holds the program and the page
the arguments of the call that submitted it. -/
def Isolated (log : List (ClientEvent κ)) : Prop := ∀ t, RanOwn log t

/-- An upload meets no other client in the middle of a launch, and no launch
that is still to be run. -/
def Exclusive (log : List (ClientEvent κ)) (u : Clients κ) (a : ClientAction κ) : Prop :=
  ∀ k result, a = .dma k result → result ≠ .failed none → Alone u k ∧
    ∀ (p : Nat) (t : Ticket κ) (cmd : LaunchCmd), ranIn log ≤ p →
      (pubIn log)[p]? ≠ some (t,.submit cmd)

def ClientEvent.succeeded : ClientEvent κ → Bool
  | .returned _ status => decide (status = .CL_SUCCESS)
  | _ => false

theorem RanOwn.quiet {log es : List (ClientEvent κ)} {t : Ticket κ} (h : RanOwn log t)
    (hes : ringLog es = []) : RanOwn (log ++ es) t := by
  rw [RanOwn, pubIn_append_quiet hes, ringLog_append, hes, List.append_nil]
  exact h

variable [DecidableEq κ]

/-- What a step of the driver runs was published before, and is run on the memories it finds. -/
theorem executed_of_ring {queueMode : Int} {log : List (ClientEvent κ)} {u : Clients κ}
    {a : Action (Ticket κ)} {ring' : State (Ticket κ)} {es : List (Event (Ticket κ))}
    (hrun : (clientSystem κ queueMode).Run log u) (hrule : Rule queueMode u.ring a ring' es)
    {p : Nat} {x : Ticket κ × Job} {desc : List UInt32} {dev : Device}
    (hget : (pubIn (log ++ es.map .ring))[p]? = some x)
    (hexec : (executedIn (ringLog (log ++ es.map .ring)))[p]? = some (desc,dev)) :
    (pubIn log)[p]? = some x ∧ ((executedIn (ringLog log))[p]? = some (desc,dev) ∨
      p = ranIn log ∧ es = [.executed desc dev] ∧ dev = u.ring.dev) := by
  have hring := ring_run hrun
  rw [pubIn_append_ring] at hget
  rw [ringLog_append, ringLog_ring, executedIn_append] at hexec
  have hold (h : (executedIn (ringLog log))[p]? = some (desc,dev)) : (pubIn log)[p]? = some x := by
    obtain ⟨t,job,hpub,-⟩ := executed_published hring h
    have hlt : p < (pubIn log).length := (List.getElem?_eq_some_iff.mp hpub).1
    rwa [List.getElem?_append_left hlt] at hget
  rcases hrule.executes with hnone | ⟨head,desc',hfw,rfl,-⟩
  · rw [hnone, List.append_nil] at hexec
    exact ⟨hold hexec,.inl hexec⟩
  · rcases getElem?_concat_eq_some.mp hexec with hexec | ⟨rfl,hnew⟩
    · exact ⟨hold hexec,.inl hexec⟩
    · obtain ⟨rfl,rfl⟩ := Prod.mk.inj hnew
      exact ⟨by simpa using hget,.inr ⟨rfl,rfl,rfl⟩⟩

/-- A launch that no upload has spoiled is run on its own program and arguments. -/
theorem RanOwn.ring {queueMode : Int} {log : List (ClientEvent κ)} {u : Clients κ}
    {a : Action (Ticket κ)} {ring' : State (Ticket κ)} {es : List (Event (Ticket κ))}
    {t : Ticket κ} (hrun : (clientSystem κ queueMode).Run log u)
    (hrule : Rule queueMode u.ring a ring' es) (hpending : PendingInv log u)
    (hclean : ∀ (p : Nat) (cmd : LaunchCmd), ranIn log ≤ p →
      (pubIn log)[p]? = some (t,.submit cmd) → ¬Spoiled log t)
    (h : RanOwn log t) : RanOwn (log ++ es.map .ring) t := by
  intro p cmd desc dev hget hexec
  obtain ⟨hget,hold | ⟨rfl,-,rfl⟩⟩ := executed_of_ring hrun hrule hget hexec
  · exact h p cmd desc dev hget hold
  · rcases hpending _ t cmd le_rfl hget with hspoiled | ⟨harmed,-⟩
    · exact absurd hspoiled (hclean _ cmd le_rfl hget)
    · exact harmed.1

/-- Launches submitted and not yet run have had no upload after them. -/
structure IsolationInv (log : List (ClientEvent κ)) (u : Clients κ) : Prop where
  inside : ∀ k t, u.phase k = .inside t → t.ioctl = .submit → ¬Spoiled log t
  pending : ∀ (p : Nat) (t : Ticket κ) (cmd : LaunchCmd), ranIn log ≤ p →
    (pubIn log)[p]? = some (t,.submit cmd) → ¬Spoiled log t
  isolated : Isolated log

/-- A step that neither uploads nor reaches the driver. -/
private theorem isolation_quiet {log es : List (ClientEvent κ)} {u u' : Clients κ}
    (h : IsolationInv log u) (hes : ringLog es = []) (hup : es.any ClientEvent.isUpload = false)
    (hphase : ∀ k t, u'.phase k = .inside t → u.phase k = .inside t) :
    IsolationInv (log ++ es) u' := by
  refine ⟨fun k t hin hio hs => ?_,fun p t cmd hp hget hs => ?_,fun t => (h.isolated t).quiet hes⟩
  · exact h.inside k t (hphase k t hin) hio (spoiled_of_append hup hs)
  · rw [pubIn_append_quiet hes] at hget
    rw [ranIn_append_quiet hes] at hp
    exact h.pending p t cmd hp hget (spoiled_of_append hup hs)

private theorem inside_setPhase {u : Clients κ} {k : κ} {p : Phase κ} (hp : ∀ t, p ≠ .inside t)
    (k' : κ) (t : Ticket κ) (h : (u.setPhase k p).phase k' = .inside t) :
    u.phase k' = .inside t := by
  by_cases hk : k' = k
  · subst hk
    exact absurd (by simpa using h) (hp t)
  · simpa [hk] using h

/-- An upload that meets no launch in progress has nothing to spoil. -/
private theorem isolation_upload {log es : List (ClientEvent κ)} {u u' : Clients κ} {k : κ}
    (h : IsolationInv log u) (hes : ringLog es = []) (halone : Alone u k)
    (hnone : ∀ (p : Nat) (t : Ticket κ) (cmd : LaunchCmd), ranIn log ≤ p →
      (pubIn log)[p]? ≠ some (t,.submit cmd))
    (hother : ∀ k', k' ≠ k → u'.phase k' = u.phase k') (hself : ∀ t, u'.phase k ≠ .inside t) :
    IsolationInv (log ++ es) u' := by
  refine ⟨fun k' t hin hio => ?_,fun p t cmd hp hget => ?_,fun t => (h.isolated t).quiet hes⟩
  · by_cases hk : k' = k
    · exact absurd (hk ▸ hin) (hself t)
    · rw [hother k' hk] at hin
      exact absurd (by simp [hin, Phase.Launching, hio]) (halone k' hk)
  · rw [pubIn_append_quiet hes] at hget
    rw [ranIn_append_quiet hes] at hp
    exact absurd hget (hnone p t cmd hp)

theorem isolationInv_run {queueMode : Int} {log : List (ClientEvent κ)} {u : Clients κ}
    (h : (clientSystem κ queueMode).RunWith Exclusive log u) : IsolationInv log u := by
  refine client_invariant (I := IsolationInv) ?_ ?_ h
  · intro u hu
    refine ⟨fun k t hin => by simp [hu.2.1 k] at hin,
      fun p t cmd _ hget => by simp [pubIn] at hget,?_⟩
    intro t p cmd desc dev hget
    simp [pubIn] at hget
  · intro log u a u' es hrun ih hok hrule
    have htrans := transactionInv_run (hrun.mono fun log u a _ hok k result ha hr =>
      (hok k result ha hr).1)
    have hrun := hrun.run
    cases hrule with
    | refused k nd memalign status hphase hprepare =>
      exact isolation_quiet ih rfl rfl fun _ _ => id
    | entered k nd memalign launch hphase hprepare =>
      exact isolation_quiet ih rfl rfl (inside_setPhase (by simp))
    | uploaded k launch hphase =>
      obtain ⟨halone,hnone⟩ := hok k .ok rfl (by simp)
      exact isolation_upload ih rfl halone hnone
        (fun k' hk => Clients.setPhase_phase_other _ _ _ hk) (by simp)
    | uploadFailed k launch hphase => exact isolation_quiet ih rfl rfl (inside_setPhase (by simp))
    | uploadBroken k launch left hphase =>
      obtain ⟨halone,hnone⟩ := hok k _ rfl (by simp)
      exact isolation_upload ih rfl halone hnone
        (fun k' hk => Clients.setPhase_phase_other _ _ _ hk) (by simp)
    | ioctl k launch io t hphase ht hready =>
      refine ⟨fun k' t' hin hio hs => ?_,fun p t' cmd hp hget hs => ?_,fun t' => ?_⟩
      · by_cases hk : k' = k
        · subst hk
          obtain rfl : t = t' := by simpa [Clients.setPhase] using hin
          exact not_spoiled_called hrun hready hs
        · exact ih.inside k' t' (by simpa [Clients.setPhase, hk] using hin) hio
            (spoiled_of_append rfl hs)
      · rw [ranIn_append_called] at hp
        rw [pubIn_append_called] at hget
        exact ih.pending p t' cmd hp hget (spoiled_of_append rfl hs)
      · have hran : RanOwn (log ++ [Event.called t t.call].map .ring) t' :=
          (ih.isolated t').ring hrun (.start t t.call hready) htrans.pending
            fun p cmd => ih.pending p t' cmd
        exact hran
    | ring a ring' es ha hstep =>
      have hrule := rule_of_step hstep
      have hup : (es.map (ClientEvent.ring (κ := κ))).any ClientEvent.isUpload = false := by
        simp [ClientEvent.isUpload]
      refine ⟨fun k t hin hio hs => ?_,fun p t cmd hp hget hs => ?_,fun t => ?_⟩
      · exact ih.inside k t hin hio (spoiled_of_append hup hs)
      · have hs := spoiled_of_append hup hs
        rw [ranIn_append_ring] at hp
        rw [pubIn_append_ring] at hget
        rcases hrule.publishes with hnone | ⟨t',job,tail,hpc,hone⟩
        · rw [hnone, List.append_nil] at hget
          exact ih.pending p t cmd (by omega) hget hs
        · rw [hone] at hget
          rcases getElem?_concat_eq_some.mp hget with hget | ⟨-,hnew⟩
          · exact ih.pending p t cmd (by omega) hget hs
          · obtain ⟨rfl,rfl⟩ := Prod.mk.inj hnew
            obtain ⟨hin,hjob⟩ := publisher_inside hrun hpc
            exact ih.inside _ t' hin (call_eq_submit hjob).1 hs
      · exact (ih.isolated t).ring hrun hrule htrans.pending fun p cmd => ih.pending p t cmd
    | result k t ret restart hphase hpc =>
      refine isolation_quiet ih (ringLog_result k _) ?_
        (inside_setPhase fun t' => afterIoctl_not_inside t t' ret restart)
      cases (afterIoctl t ret restart).2 <;> rfl

/-- Launches stay isolated when every upload waits until no other client is in
the middle of a launch and no launch is left to be run. -/
theorem launches_isolated {queueMode : Int} {log : List (ClientEvent κ)} {u : Clients κ}
    (h : (clientSystem κ queueMode).RunWith Exclusive log u) : Isolated log :=
  (isolationInv_run h).isolated

/-- A program of one instruction, called with one argument. -/
def oneWordKernel (instruction arg : UInt32) : Kernel :=
  ⟨some ⟨true,[instruction],1,by simp⟩,[⟨true,arg⟩],by simp [maxArgs]⟩

def oneWord (instruction arg : UInt32) : NDRange :=
  ⟨true,some (oneWordKernel instruction arg),1,some fun _ => 2,none⟩

def oneWordLaunch (instruction arg : UInt32) : Launch :=
  ⟨⟨true,[instruction],1,by simp⟩,[⟨true,arg⟩],launchCmd (oneWord instruction arg) fun _ => 2,
    rfl,fun _ => launchCmd_opcode⟩

/-- The clients from the start, with a device whose memories are cleared. -/
def freshClients (κ : Type) : Clients κ := ⟨probed (Ticket κ),fun _ => .idle,fun _ => 0⟩

theorem freshClients_init (κ : Type) [DecidableEq κ] (queueMode : Int) :
    (clientSystem κ queueMode).init (freshClients κ) :=
  ⟨probed_init _,fun _ => rfl,fun _ => rfl⟩

/-- The LOAD_KERNEL of client `k`, its `n`th ioctl, up to its return. -/
def loadSteps (k : κ) (n : Nat) (instruction arg : UInt32) : List (ClientAction κ) :=
  let t : Ticket κ := ⟨k,n,.load,oneWordLaunch instruction arg⟩
  [.ioctl k,.ring (.access t)] ++
    (sectionSteps t ++ firmwareTurn ++ [Action.access t]).map .ring ++ [.result k false]

/-- The rest of the call, up to its return. -/
def launchSteps (k : κ) (n : Nat) (instruction arg : UInt32) : List (ClientAction κ) :=
  let t : Ticket κ := ⟨k,n,.submit,oneWordLaunch instruction arg⟩
  let t' : Ticket κ := ⟨k,n + 1,.doorbell,oneWordLaunch instruction arg⟩
  [ClientAction.ioctl k] ++ (sectionSteps t ++ firmwareTurn).map ClientAction.ring ++
    [ClientAction.result k false,.ioctl k] ++
    [ClientAction.ring (.access t'),.ring (.access t'),.result k false]

/-- An upload waits until the other client is not launching and the ring is run empty. -/
def uploadsWait (s : List (ClientEvent (Fin 2)) × Clients (Fin 2)) : ClientAction (Fin 2) → Bool
  | .dma k _ => decide ((∀ k', k' ≠ k → ¬(s.2.phase k').Launching) ∧ (pubIn s.1).length ≤ ranIn s.1)
  | _ => true

theorem exclusive_of_uploadsWait {log : List (ClientEvent (Fin 2))} {u : Clients (Fin 2)}
    {a : ClientAction (Fin 2)} (h : uploadsWait (log,u) a = true) : Exclusive log u a := by
  rintro k result rfl -
  obtain ⟨halone,hempty⟩ := of_decide_eq_true h
  refine ⟨halone,fun p t cmd hp hget => ?_⟩
  have hlt : p < (pubIn log).length := (List.getElem?_eq_some_iff.mp hget).1
  exact absurd (hlt.trans_le hempty) (Nat.not_lt.mpr hp)

/-- Clients `k` and `k'` launch one after the other. -/
def launchesInTurn (k k' : κ) : List (ClientAction κ) :=
  [ClientAction.enqueue k (oneWord 7 1) true,.dma k .ok] ++ loadSteps k 0 7 1 ++
    launchSteps k 1 7 1 ++ [ClientAction.enqueue k' (oneWord 9 2) true,.dma k' .ok] ++
    loadSteps k' 0 9 2 ++ launchSteps k' 1 9 2

theorem launchesInTurn_run : (((clientSystem (Fin 2) 0).recorded.guarded uploadsWait).exec
    ([],freshClients (Fin 2)) (launchesInTurn 0 1)).isSome = true := by
  decide +kernel

theorem launches_isolated_in_turn : ∃ log u,
    (clientSystem (Fin 2) 0).RunWith Exclusive log u ∧
    (log.filter ClientEvent.succeeded).length = 2 ∧
    (executedIn (ringLog log)).map (fun x => x.2.kernarg 0) = [1,1,2,2] ∧ Isolated log := by
  have hrun : (clientSystem (Fin 2) 0).RunWith Exclusive _ _ :=
    .of_recorded_exec (freshClients_init (Fin 2) 0) (launchesInTurn 0 1) launchesInTurn_run
      fun log u a => exclusive_of_uploadsWait
  exact ⟨_,_,hrun,by decide +kernel,by decide +kernel,launches_isolated hrun⟩

/-- Client 1 uploads its arguments between the LOAD and the SUBMIT of client 0. -/
def crossedUploads : List (ClientAction Nat) :=
  [ClientAction.enqueue 0 (oneWord 7 1) true,.dma 0 .ok] ++ loadSteps 0 0 7 1 ++
    [ClientAction.enqueue 1 (oneWord 7 2) true,.dma 1 .ok] ++ launchSteps 0 1 7 1

theorem crossedUploads_runs :
    ((clientSystem Nat 0).exec (freshClients Nat) crossedUploads).isSome = true := by
  decide +kernel

/-- Client 0 is told CL_SUCCESS, and its launch has run with the argument of client 1. -/
theorem crossed_upload_runs_foreign_argument : ∃ log u, (clientSystem Nat 0).Run log u ∧
    (pubIn log)[1]?.map Prod.fst = some ⟨0,1,.submit,oneWordLaunch 7 1⟩ ∧
    (executedIn (ringLog log))[1]?.map (fun x => x.2.kernarg 0) = some 2 ∧
    (oneWordLaunch 7 1).page 0 = 1 ∧ log.any ClientEvent.succeeded = true ∧ ¬Isolated log := by
  have hrun := System.Run.of_exec (S := clientSystem Nat 0) (freshClients_init Nat 0)
    crossedUploads crossedUploads_runs
  have hpage : (oneWordLaunch 7 1).page 0 = 1 := by decide
  have hsubmitted : (pubIn (((clientSystem Nat 0).exec (freshClients Nat) crossedUploads).get
      crossedUploads_runs).2)[1]?.map Prod.fst = some ⟨0,1,.submit,oneWordLaunch 7 1⟩ := by
    decide +kernel
  have hran : (executedIn (ringLog (((clientSystem Nat 0).exec (freshClients Nat)
      crossedUploads).get crossedUploads_runs).2))[1]?.map (fun x => x.2.kernarg 0) = some 2 := by
    decide +kernel
  refine ⟨_,_,hrun,hsubmitted,hran,hpage,by decide +kernel,fun hisolated => ?_⟩
  obtain ⟨⟨t,job⟩,hget,rfl⟩ := Option.map_eq_some_iff.mp hsubmitted
  obtain ⟨⟨desc,dev⟩,hexec,hword⟩ := Option.map_eq_some_iff.mp hran
  have hcall := published_ticket hrun (List.mem_of_getElem? hget)
  cases job with
  | load kbin => exact nomatch hcall
  | submit cmd =>
    have hkernarg := (hisolated _ 1 cmd desc dev hget hexec).2 0 (by decide)
    rw [hpage] at hkernarg
    exact absurd (hkernarg.symm.trans hword) (by decide)

end FpgaGpu.Umd
