import FpgaGpu.Driver.Staging
import FpgaGpu.Umd.ClientRules

/-! What a launch transaction has achieved at each of its stages, as long as no
client uploads its arguments while another is between its upload and its
SUBMIT_CMD. Descriptors left over from calls that failed may still be pending. -/
namespace FpgaGpu.Umd
open Driver Library

/-- I-RAM holds the program. -/
def Loaded (dev : Device) (kbin : KernelBinary) : Prop :=
  ∀ i < kbin.instrSize.toNat, kbin.userInstr i = some (dev.iram i)

/-- The page at `FPGAGPU_KERNARG_BASE` holds the arguments. -/
def PageHeld (dev : Device) (launch : Launch) : Prop :=
  ∀ i < kernargWords, dev.kernarg i = launch.page i

/-- The memories a launch descriptor has to be run on. -/
def RunsOwn (dev : Device) (launch : Launch) : Prop :=
  Loaded dev launch.kbin ∧ PageHeld dev launch

variable {κ : Type}

/-- What the clients have published. -/
def pubIn (log : List (ClientEvent κ)) : List (Ticket κ × Job) := publishedIn (ringLog log)

/-- How many of the published tasks have been run. -/
def ranIn (log : List (ClientEvent κ)) : Nat := executedCount (ringLog log)

theorem pubIn_append_ring (log : List (ClientEvent κ)) (es : List (Event (Ticket κ))) :
    pubIn (log ++ es.map .ring) = pubIn log ++ publishedIn es := by
  simp [pubIn]

theorem ranIn_append_ring (log : List (ClientEvent κ)) (es : List (Event (Ticket κ))) :
    ranIn (log ++ es.map .ring) = ranIn log + (executedIn es).length := by
  simp [ranIn, executedCount]

theorem pubIn_append_quiet {log es : List (ClientEvent κ)} (h : ringLog es = []) :
    pubIn (log ++ es) = pubIn log := by
  simp [pubIn, h]

theorem ranIn_append_quiet {log es : List (ClientEvent κ)} (h : ringLog es = []) :
    ranIn (log ++ es) = ranIn log := by
  simp [ranIn, h]

/-- A call that is being made has neither published nor run anything. -/
theorem pubIn_append_called (log : List (ClientEvent κ)) (t : Ticket κ) (call : Call) :
    pubIn (log ++ [.ring (.called t call)]) = pubIn log := by
  simpa using pubIn_append_ring log [.called t call]

theorem ranIn_append_called (log : List (ClientEvent κ)) (t : Ticket κ) (call : Call) :
    ranIn (log ++ [.ring (.called t call)]) = ranIn log := by
  simpa using ranIn_append_ring log [.called t call]

/-- From position `ran` on nothing but launches is published. -/
def NoLoad (pub : List (Ticket κ × Job)) (ran : Nat) : Prop :=
  ∀ (p : Nat) (t : Ticket κ) (kbin : KernelBinary), ran ≤ p → pub[p]? ≠ some (t,.load kbin)

/-- The memories are what the launch needs and will stay so. -/
def Armed (dev : Device) (pub : List (Ticket κ × Job)) (ran : Nat) (launch : Launch) : Prop :=
  RunsOwn dev launch ∧ NoLoad pub ran

/-- A client is between its upload and the return of its SUBMIT_CMD. -/
def Phase.Launching : Phase κ → Prop
  | .issue _ io => io ≠ .doorbell
  | .inside t => t.ioctl ≠ .doorbell
  | _ => False

instance (p : Phase κ) : Decidable p.Launching :=
  match p with
  | .issue _ io => inferInstanceAs (Decidable (io ≠ .doorbell))
  | .inside t => inferInstanceAs (Decidable (t.ioctl ≠ .doorbell))
  | .idle | .upload _ | .crashed => inferInstanceAs (Decidable False)

/-- A client is about to load its program or is loading it. -/
def Phase.Loading : Phase κ → Prop
  | .issue _ io => io = .load
  | .inside t => t.ioctl = .load
  | _ => False

theorem Phase.Loading.launching {p : Phase κ} (h : p.Loading) : p.Launching := by
  cases p <;> simp_all [Phase.Loading, Phase.Launching]

/-- No other client is in the middle of a launch. -/
def Alone (u : Clients κ) (k : κ) : Prop := ∀ k', k' ≠ k → ¬(u.phase k').Launching

/-- How far a LOAD_KERNEL has got: its words are in the staging area until its
descriptor has been run, and then in I-RAM. -/
structure LoadInv (dev : Device) (pub : List (Ticket κ × Job)) (ran : Nat) (t : Ticket κ)
    (pc : Pc) : Prop where
  staging : ∀ kbin n, pc.staged = some (kbin,n) → Staged dev kbin n
  last : ∀ p kbin, pub[p]? = some (t,.load kbin) → NoLoad pub (p + 1)
  pending : ∀ p kbin, pub[p]? = some (t,.load kbin) → ran ≤ p →
    Staged dev kbin kbin.instrSize.toNat
  loaded : ∀ p kbin, pub[p]? = some (t,.load kbin) → p < ran → Loaded dev kbin

def Phase.Facts (dev : Device) (pub : List (Ticket κ × Job)) (ran : Nat)
    (pc : Ticket κ → Pc) (alone : Prop) : Phase κ → Prop
  | .issue launch .load => PageHeld dev launch ∧ alone
  | .issue launch .submit => Armed dev pub ran launch ∧ alone
  | .inside t => match t.ioctl with
    | .load => PageHeld dev t.launch ∧ LoadInv dev pub ran t (pc t) ∧ alone
    | .submit => Armed dev pub ran t.launch ∧ alone
    | .doorbell => True
  | _ => True

def PhaseInv (u : Clients κ) (pub : List (Ticket κ × Job)) (ran : Nat) (k : κ) : Prop :=
  (u.phase k).Facts u.ring.dev pub ran u.ring.pc (Alone u k)

def ClientEvent.isUpload : ClientEvent κ → Bool
  | .uploaded _ => true
  | _ => false

variable [DecidableEq κ]

def ClientEvent.calledBy (t : Ticket κ) : ClientEvent κ → Bool
  | .ring (.called t' _) => decide (t' = t)
  | _ => false

/-- A page has been uploaded since the call was made. -/
def Spoiled (log : List (ClientEvent κ)) (t : Ticket κ) : Prop :=
  (after (ClientEvent.calledBy t) log).any ClientEvent.isUpload = true

/-- Every pending launch finds what it needs, unless its page is overwritten. -/
def PendingInv (log : List (ClientEvent κ)) (u : Clients κ) : Prop :=
  ∀ (p : Nat) (t : Ticket κ) (cmd : LaunchCmd), ranIn log ≤ p →
    (pubIn log)[p]? = some (t,.submit cmd) →
    Spoiled log t ∨ Armed u.ring.dev (pubIn log) (ranIn log) t.launch ∧
      ∀ k, ¬(u.phase k).Loading

/-- An upload meets no other client in the middle of a launch. -/
def Serialised (_ : List (ClientEvent κ)) (u : Clients κ) (a : ClientAction κ) : Prop :=
  ∀ k result, a = .dma k result → result ≠ .failed none → Alone u k

omit [DecidableEq κ] in
theorem call_eq_load {t : Ticket κ} {kbin : KernelBinary}
    (h : (Job.load kbin).call = t.call) : t.ioctl = .load ∧ kbin = t.launch.kbin := by
  unfold Ticket.call at h
  split at h <;> simp_all [Job.call]

omit [DecidableEq κ] in
theorem call_eq_submit {t : Ticket κ} {cmd : LaunchCmd}
    (h : (Job.submit cmd).call = t.call) : t.ioctl = .submit ∧ t.launch.cmd = some cmd := by
  unfold Ticket.call at h
  split at h <;> simp_all [Job.call]

omit [DecidableEq κ] in
/-- While one client is loading, it alone stages and publishes. -/
theorem loader_only {u : Clients κ} {k : κ} {t : Ticket κ} (hphase : u.phase k = .inside t)
    (halone : Alone u k) {t' : Ticket κ} (hin : u.phase t'.client = .inside t')
    (hio : t'.ioctl ≠ .doorbell) : t' = t := by
  have hk : t'.client = k := by
    by_contra hne
    exact halone t'.client hne (by simpa [hin, Phase.Launching] using hio)
  rw [hk, hphase] at hin
  exact (Phase.inside.inj hin).symm

omit [DecidableEq κ] in
theorem Phase.facts_of_not_launching {dev : Device} {pub : List (Ticket κ × Job)} {ran : Nat}
    {pc : Ticket κ → Pc} {alone : Prop} {p : Phase κ} (h : ¬p.Launching) :
    p.Facts dev pub ran pc alone := by
  unfold Phase.Facts
  split
  next => simp [Phase.Launching] at h
  next => simp [Phase.Launching] at h
  next t =>
    split
    next hio => simp [Phase.Launching, hio] at h
    next hio => simp [Phase.Launching, hio] at h
    next => trivial
  next => trivial

omit [DecidableEq κ] in
/-- What a phase guarantees depends on the memories, the client's own call, and
the others staying out of the way. -/
theorem PhaseInv.congr {u u' : Clients κ} {pub : List (Ticket κ × Job)} {ran : Nat} {k : κ}
    (h : PhaseInv u pub ran k) (hphase : u'.phase k = u.phase k)
    (hdev : u'.ring.dev = u.ring.dev)
    (hpc : ∀ t, u.phase k = .inside t → u'.ring.pc t = u.ring.pc t)
    (halone : Alone u k → Alone u' k) : PhaseInv u' pub ran k := by
  unfold PhaseInv Phase.Facts at *
  rw [hphase, hdev]
  split at h
  next => exact h.imp_right halone
  next => exact h.imp_right halone
  next t hin =>
    rw [hpc t hin]
    split at h
    next => exact h.imp_right (And.imp_right halone)
    next => exact h.imp_right halone
    next => trivial
  next => trivial

/-- A client whose phase changes without entering a launch disturbs no other. -/
theorem alone_setPhase {u : Clients κ} {k k' : κ} {p : Phase κ} (hne : k' ≠ k)
    (hp : p.Launching → (u.phase k).Launching) (h : Alone u k') :
    Alone (u.setPhase k p) k' := by
  intro k'' hne' hlaunch
  by_cases hk : k'' = k
  · subst hk
    exact h k'' hne' (hp (by simpa using hlaunch))
  · exact h k'' hne' (by simpa [hk] using hlaunch)

/-- The client that moves finds the others where they were. -/
theorem alone_setPhase_self {u : Clients κ} {k : κ} {p : Phase κ} (h : Alone u k) :
    Alone (u.setPhase k p) k := by
  intro k' hne
  rw [Clients.setPhase_phase_other _ _ _ hne]
  exact h k' hne

theorem phases_setPhase {u : Clients κ} {pub : List (Ticket κ × Job)} {ran : Nat} {k : κ}
    {p : Phase κ} (h : ∀ k, PhaseInv u pub ran k) (hp : p.Launching → (u.phase k).Launching)
    (hown : PhaseInv (u.setPhase k p) pub ran k) : ∀ k', PhaseInv (u.setPhase k p) pub ran k' := by
  intro k'
  by_cases hk : k' = k
  · exact hk ▸ hown
  · exact (h k').congr (by simp [hk]) rfl (fun _ _ => rfl) (alone_setPhase hk hp)

theorem spoiled_append {log : List (ClientEvent κ)} {t : Ticket κ}
    (h : log.any (ClientEvent.calledBy t) = true) (es : List (ClientEvent κ)) :
    Spoiled (log ++ es) t ↔ Spoiled log t ∨ es.any ClientEvent.isUpload = true := by
  rw [Spoiled, after_append_of_any h, List.any_append, Bool.or_eq_true, Spoiled]

theorem spoiled_of_append {log es : List (ClientEvent κ)} {t : Ticket κ}
    (hes : es.any ClientEvent.isUpload = false) (h : Spoiled (log ++ es) t) : Spoiled log t := by
  by_cases hcalled : log.any (ClientEvent.calledBy t) = true
  · simpa [hes] using (spoiled_append hcalled es).mp h
  · rw [Spoiled, after_append_of_not_any (by simpa using hcalled)] at h
    obtain ⟨e,he,hup⟩ := List.any_eq_true.mp h
    exact absurd hup (List.any_eq_false.mp hes e ((List.dropWhile_sublist _).subset he))

theorem any_calledBy_iff {log : List (ClientEvent κ)} {t : Ticket κ} :
    log.any (ClientEvent.calledBy t) = true ↔ ∃ call, .called t call ∈ ringLog log := by
  constructor
  · intro h
    obtain ⟨e,he,hby⟩ := List.any_eq_true.mp h
    cases e with
    | ring e =>
      cases e with
      | called t' call =>
        obtain rfl : t' = t := by simpa [ClientEvent.calledBy] using hby
        exact ⟨call,List.mem_filterMap.mpr ⟨_,he,rfl⟩⟩
      | _ => nomatch hby
    | _ => nomatch hby
  · rintro ⟨call,hmem⟩
    obtain ⟨e,he,hring⟩ := List.mem_filterMap.mp hmem
    refine List.any_eq_true.mpr ⟨e,he,?_⟩
    cases e <;> simp_all [ClientEvent.ring?, ClientEvent.calledBy]

theorem Spoiled.append {log : List (ClientEvent κ)} {t : Ticket κ} (h : Spoiled log t)
    (es : List (ClientEvent κ)) : Spoiled (log ++ es) t := by
  have hcalled : log.any (ClientEvent.calledBy t) = true := by
    by_contra hnone
    have hafter := after_append_of_not_any (by simpa using hnone) []
    rw [List.append_nil] at hafter
    rw [Spoiled, hafter] at h
    simp [after] at h
  exact (spoiled_append hcalled es).mpr (.inl h)

section step
variable {queueMode : Int} {log : List (ClientEvent κ)} {u : Clients κ}
  (hrun : (clientSystem κ queueMode).Run log u)
include hrun

theorem published_ticket {t : Ticket κ} {job : Job} (h : (t,job) ∈ pubIn log) :
    job.call = t.call :=
  (ticketInv_run hrun).called t _ (published_called (ring_run hrun) t job h)

theorem published_calledBy {t : Ticket κ} {job : Job} (h : (t,job) ∈ pubIn log) :
    log.any (ClientEvent.calledBy t) = true :=
  any_calledBy_iff.mpr ⟨_,published_called (ring_run hrun) t job h⟩

/-- A call that is just being made has had no upload after it. -/
theorem not_spoiled_called {t : Ticket κ} (hready : u.ring.pc t = .ready) :
    ¬Spoiled (log ++ [.ring (.called t t.call)]) t := by
  have hfresh := callInv_run (ring_run hrun) t
  rw [hready] at hfresh
  have hnone : log.any (ClientEvent.calledBy t) = false := by
    by_contra hany
    obtain ⟨call,hmem⟩ := any_calledBy_iff.mp (by simpa using hany)
    exact hfresh.2 call hmem
  rw [Spoiled, after_append_of_not_any hnone]
  simp [after, ClientEvent.calledBy, ClientEvent.isUpload]

/-- A launch that is published was built as a launch. -/
theorem published_isLaunch {t : Ticket κ} {cmd : LaunchCmd} (h : (t,.submit cmd) ∈ pubIn log) :
    cmd.opcode = opcodeLaunchKernel :=
  t.launch.isLaunch cmd (call_eq_submit (published_ticket hrun h)).2

theorem publisher_inside {t : Ticket κ} {job : Job} {tail : UInt32}
    (hpc : u.ring.pc t = .writeTail job tail) :
    u.phase t.client = .inside t ∧ job.call = t.call := by
  have hticket := ticketInv_run hrun
  have hcall := callInv_run (ring_run hrun) t
  rw [hpc] at hcall
  refine ⟨?_,hticket.called t _ ((hcall.2 _).mpr rfl)⟩
  simpa [hpc] using hticket.active t

theorem stager_inside {t : Ticket κ} {kbin : KernelBinary} {i : Nat}
    (hpc : u.ring.pc t = .stage kbin i) :
    u.phase t.client = .inside t ∧ t.ioctl = .load := by
  have hticket := ticketInv_run hrun
  have hcall := callInv_run (ring_run hrun) t
  rw [hpc] at hcall
  refine ⟨by simpa [hpc] using hticket.active t,?_⟩
  exact (call_eq_load (hticket.called t _ ((hcall.2 _).mpr rfl))).1

variable {a : Action (Ticket κ)} {ring' : State (Ticket κ)} {es : List (Event (Ticket κ))}
  (hrule : Rule queueMode u.ring a ring' es)
include hrule

/-- Only a client that is loading publishes a LOAD. -/
theorem no_load_published
    (hno : ∀ t : Ticket κ, u.phase t.client = .inside t → t.ioctl ≠ .load) :
    ∀ (t : Ticket κ) (kbin : KernelBinary), (t,.load kbin) ∉ publishedIn es := by
  intro t kbin hmem
  rcases hrule.publishes with hnone | ⟨t',job,tail,hpc,hone⟩
  · simp [hnone] at hmem
  · rw [hone, List.mem_singleton] at hmem
    obtain ⟨rfl,rfl⟩ := Prod.mk.inj hmem
    obtain ⟨hin,hjob⟩ := publisher_inside hrun hpc
    exact hno t hin (call_eq_load hjob).1

variable (ha : ringOnly a = true)
include ha

theorem kernarg_step : ring'.dev.kernarg = u.ring.dev.kernarg := by
  rcases hrule.device (ring_run hrun) (by rintro page rfl; simp [ringOnly] at ha) with
    ⟨-,hdev⟩ | ⟨t,kbin,i,w,-,-,rfl,-⟩ | ⟨t,job,-,-,-,hdev⟩
  · rw [hdev]
  · rfl
  · rw [hdev, Device.execute]
    split <;> rfl

/-- The part of I-RAM a finished LOAD has filled changes only by another LOAD. -/
theorem loaded_step {kbin : KernelBinary} (h : Loaded u.ring.dev kbin)
    (hno : NoLoad (pubIn log) (ranIn log)) : Loaded ring'.dev kbin := by
  rcases hrule.device (ring_run hrun) (by rintro page rfl; simp [ringOnly] at ha) with
    ⟨-,hdev⟩ | ⟨t,kbin',i,w,-,-,rfl,-⟩ | ⟨t,job,hget,-,-,hdev⟩
  · rwa [hdev]
  · exact h
  · cases job with
    | load kbin' => exact absurd hget (hno _ t kbin' le_rfl)
    | submit cmd =>
      rwa [hdev, execute_launch _ (published_isLaunch hrun (List.mem_of_getElem? hget))]

/-- A step that publishes no LOAD leaves the memories of a launch alone. -/
theorem Armed.step {launch : Launch} (h : Armed u.ring.dev (pubIn log) (ranIn log) launch)
    (hnone : ∀ t kbin, (t,.load kbin) ∉ publishedIn es) :
    Armed ring'.dev (pubIn (log ++ es.map .ring)) (ranIn (log ++ es.map .ring)) launch := by
  obtain ⟨⟨hloaded,hpage⟩,hno⟩ := h
  refine ⟨⟨loaded_step hrun hrule ha hloaded hno,by rwa [PageHeld, kernarg_step hrun hrule ha]⟩,?_⟩
  intro p t kbin hp hget
  rw [pubIn_append_ring] at hget
  rw [ranIn_append_ring] at hp
  rcases lt_or_ge p (pubIn log).length with hlt | hge
  · rw [List.getElem?_append_left hlt] at hget
    exact hno p t kbin (by omega) hget
  · rw [List.getElem?_append_right hge] at hget
    exact hnone t kbin (List.mem_of_getElem? hget)

theorem LoadInv.step {k : κ} {t : Ticket κ} (hphase : u.phase k = .inside t)
    (halone : Alone u k) (hload : t.ioctl = .load)
    (h : LoadInv u.ring.dev (pubIn log) (ranIn log) t (u.ring.pc t)) :
    LoadInv ring'.dev (pubIn (log ++ es.map .ring)) (ranIn (log ++ es.map .ring)) t
      (ring'.pc t) := by
  have hring := ring_run hrun
  have hcall := callInv_run hring t
  rw [pubIn_append_ring, ranIn_append_ring]
  rcases hrule.staging_frame with ⟨t',kbin,i,w,-,hpc,hw,rfl,rfl⟩ | ⟨hstaging,hstaged⟩
  · -- the call stages a word, so it has not published
    obtain ⟨hin,hio⟩ := stager_inside hrun hpc
    obtain rfl := loader_only hphase halone hin (by simp [hio])
    rw [hpc] at hcall
    have hnone : ∀ (p : Nat) (kbin : KernelBinary), (pubIn log)[p]? ≠ some (t',.load kbin) :=
      fun p kbin hget => not_mem_publishedIn hcall.1.1 _ (List.mem_of_getElem? hget)
    have hlt := (stageInv_run hring t' kbin i hpc).1
    simp only [publishedIn_cons, Event.published?, publishedIn_nil, Option.toList_none,
      List.append_nil]
    refine ⟨fun kbin' n hn => ?_,fun p kbin' hget => absurd hget (hnone p kbin'),
      fun p kbin' hget => absurd hget (hnone p kbin'),
      fun p kbin' hget => absurd hget (hnone p kbin')⟩
    rw [State.setPc_pc_self, staged_stageFrom (by omega)] at hn
    obtain ⟨rfl,rfl⟩ := Prod.mk.inj (Option.some.inj hn)
    exact (h.staging kbin i (by rw [hpc]; rfl)).succ hw
  · have hkeep : ∀ kbin n, (ring'.pc t).staged = some (kbin,n) → Staged ring'.dev kbin n := by
      intro kbin n hn
      rcases hstaged t kbin n hn with hold | rfl
      · exact (h.staging kbin n hold).congr hstaging
      · exact staged_zero _ _
    rcases hrule.publishes with hnone | ⟨t',job,tail,hpc,hone⟩
    · rw [hnone, List.append_nil]
      refine ⟨hkeep,h.last,?_,?_⟩
      · intro p kbin hget hp
        exact (h.pending p kbin hget (by omega)).congr hstaging
      · intro p kbin hget hp
        rcases lt_or_ge p (ranIn log) with hlt | hge
        · -- run before this step: the later descriptors are launches
          exact loaded_step hrun hrule ha (h.loaded p kbin hget hlt)
            fun p' t' kbin' hp' => h.last p kbin hget p' t' kbin' (by omega)
        · rcases hrule.device hring (by rintro page rfl; simp [ringOnly] at ha) with
            ⟨hexec,-⟩ | ⟨_,_,_,_,-,-,-,rfl⟩ | ⟨t',job,hjob,rfl,-,hdev⟩
          · simp only [hexec, List.length_nil] at hp
            omega
          · simp only [executedIn_cons, Event.executed?, executedIn_nil, Option.toList_none,
              List.append_nil, List.length_nil] at hp
            omega
          · -- this step runs the descriptor of the call itself
            obtain rfl : p = ranIn log := by simp at hp; omega
            obtain ⟨rfl,rfl⟩ := Prod.mk.inj (Option.some.inj (hjob.symm.trans hget))
            intro i hi
            rw [hdev, execute_load]
            simpa [hi] using h.pending _ kbin hget le_rfl i hi
    · obtain ⟨hin,hjob⟩ := publisher_inside hrun hpc
      have hio : t'.ioctl ≠ .doorbell := by
        cases job with
        | load kbin => simp [(call_eq_load hjob).1]
        | submit cmd => simp [(call_eq_submit hjob).1]
      obtain rfl := loader_only hphase halone hin hio
      rw [hpc] at hcall
      have hfirst : ∀ (p : Nat) (kbin : KernelBinary),
          (pubIn log ++ publishedIn es)[p]? = some (t',.load kbin) →
          p = (pubIn log).length ∧ job = .load kbin := by
        intro p kbin hget
        rw [hone] at hget
        rcases getElem?_concat_eq_some.mp hget with hold | ⟨hp,hnew⟩
        · exact absurd (List.mem_of_getElem? hold) (not_mem_publishedIn hcall.1.1 _)
        · exact ⟨hp,(Prod.mk.inj hnew).2⟩
      have hran : ranIn log ≤ (pubIn log).length := executed_le_published hring
      refine ⟨hkeep,?_,?_,?_⟩
      · intro p kbin hget p' t'' kbin' hp' hget'
        obtain ⟨rfl,-⟩ := hfirst p kbin hget
        have hlt := (List.getElem?_eq_some_iff.mp hget').1
        simp [hone] at hlt
        omega
      · intro p kbin hget _
        obtain ⟨-,rfl⟩ := hfirst p kbin hget
        exact (h.staging kbin _ (by rw [hpc]; rfl)).congr hstaging
      · intro p kbin hget hp
        obtain ⟨rfl,-⟩ := hfirst p kbin hget
        have hexec : executedIn es = [] := by
          rcases hrule.executes with hexec | ⟨_,_,-,rfl,-⟩
          · exact hexec
          · simp at hone
        simp only [hexec, List.length_nil] at hp
        omega

theorem phases_ring (h : ∀ k, PhaseInv u (pubIn log) (ranIn log) k) (k : κ) :
    PhaseInv {u with ring := ring'} (pubIn (log ++ es.map .ring)) (ranIn (log ++ es.map .ring))
      k := by
  have hpage : ∀ launch, PageHeld u.ring.dev launch → PageHeld ring'.dev launch := by
    intro launch hpage
    rwa [PageHeld, kernarg_step hrun hrule ha]
  have hk := h k
  change (u.phase k).Facts _ _ _ _ (Alone u k) at hk
  change (u.phase k).Facts ring'.dev _ _ ring'.pc (Alone u k)
  cases hphase : u.phase k with
  | idle | upload | crashed => trivial
  | issue launch io =>
    rw [hphase] at hk
    cases io with
    | doorbell => trivial
    | load => exact ⟨hpage launch hk.1,hk.2⟩
    | submit =>
      obtain ⟨harmed,halone⟩ := hk
      refine ⟨harmed.step hrun hrule ha (no_load_published hrun hrule ?_),halone⟩
      intro t hin hload
      by_cases hkt : t.client = k
      · simp [hkt, hphase] at hin
      · exact halone t.client hkt (by simp [hin, Phase.Launching, hload])
  | inside t =>
    rw [hphase] at hk
    cases hio : t.ioctl with
    | doorbell => simp [Phase.Facts, hio]
    | load =>
      simp only [Phase.Facts, hio] at hk ⊢
      obtain ⟨hheld,hload,halone⟩ := hk
      exact ⟨hpage t.launch hheld,hload.step hrun hrule ha hphase halone hio,halone⟩
    | submit =>
      simp only [Phase.Facts, hio] at hk ⊢
      obtain ⟨harmed,halone⟩ := hk
      refine ⟨harmed.step hrun hrule ha (no_load_published hrun hrule ?_),halone⟩
      intro t' hin hload
      obtain rfl := loader_only hphase halone hin (by simp [hload])
      simp [hload] at hio

theorem pending_ring (h : ∀ k, PhaseInv u (pubIn log) (ranIn log) k) (hpending : PendingInv log u) :
    PendingInv (log ++ es.map .ring) {u with ring := ring'} := by
  intro p t cmd hp hget
  rw [ranIn_append_ring] at hp
  rw [pubIn_append_ring] at hget
  have hold : (pubIn log)[p]? = some (t,.submit cmd) →
      Spoiled (log ++ es.map .ring) t ∨ Armed ring'.dev (pubIn (log ++ es.map .ring))
        (ranIn (log ++ es.map .ring)) t.launch ∧ ∀ k, ¬(u.phase k).Loading := by
    intro hget
    rcases hpending p t cmd (by omega) hget with hspoiled | ⟨harmed,hnone⟩
    · have hcalled := published_calledBy hrun (List.mem_of_getElem? hget)
      exact .inl ((spoiled_append hcalled _).mpr (.inl hspoiled))
    · refine .inr ⟨harmed.step hrun hrule ha (no_load_published hrun hrule ?_),hnone⟩
      intro t' hin hload
      exact hnone t'.client (by simp [hin, Phase.Loading, hload])
  rcases hrule.publishes with hnone | ⟨t',job,tail,hpc,hone⟩
  · exact hold (by simpa [hnone] using hget)
  · rw [hone] at hget
    rcases getElem?_concat_eq_some.mp hget with hget | ⟨-,hnew⟩
    · exact hold hget
    · -- the call that publishes its launch found everything in place
      obtain ⟨rfl,rfl⟩ := Prod.mk.inj hnew
      obtain ⟨hin,hjob⟩ := publisher_inside hrun hpc
      have hsubmit := (call_eq_submit hjob).1
      have hphase := h t'.client
      simp only [PhaseInv, Phase.Facts, hin, hsubmit] at hphase
      obtain ⟨harmed,halone⟩ := hphase
      refine .inr ⟨harmed.step hrun hrule ha (by simp [hone]),?_⟩
      intro k hloading
      by_cases hk : k = t'.client
      · simp [hk, hin, Phase.Loading, hsubmit] at hloading
      · exact halone k hk hloading.launching

end step

structure TransactionInv (log : List (ClientEvent κ)) (u : Clients κ) : Prop where
  phases : ∀ k, PhaseInv u (pubIn log) (ranIn log) k
  pending : PendingInv log u

/-- LOAD_KERNEL returned 0, so its program is in I-RAM for good. -/
theorem LoadInv.done {queueMode : Int} {log : List (ClientEvent κ)} {u : Clients κ}
    (hrun : (clientSystem κ queueMode).Run log u) {t : Ticket κ} (hio : t.ioctl = .load)
    (hcalled : .called t t.call ∈ ringLog log) (hpc : u.ring.pc t = .done .ok)
    (h : LoadInv u.ring.dev (pubIn log) (ranIn log) t (u.ring.pc t)) :
    Loaded u.ring.dev t.launch.kbin ∧ NoLoad (pubIn log) (ranIn log) := by
  have hring := ring_run hrun
  have hcall : t.call = .loadKernel (some t.launch.kbin) := by simp [Ticket.call, hio]
  obtain ⟨p,hpub,_,_,-,hcon⟩ := load_sound hring (hcall ▸ hcalled) hpc
  have hget : (pubIn log)[p]? = some (t,.load t.launch.kbin) := (hpub p _).mpr ⟨rfl,rfl⟩
  have hp : p < ranIn log :=
    lt_of_lt_of_le (List.getElem?_eq_some_iff.mp hcon).1 (consumed_le_executed hring)
  exact ⟨h.loaded p _ hget hp,fun p' t' kbin hp' => h.last p _ hget p' t' kbin (by omega)⟩

/-- A step of one client that leaves the memories alone. -/
private theorem pending_quiet {queueMode : Int} {log es : List (ClientEvent κ)}
    {u u' : Clients κ} (hrun : (clientSystem κ queueMode).Run log u) (h : PendingInv log u)
    (hpub : pubIn (log ++ es) = pubIn log) (hran : ranIn (log ++ es) = ranIn log)
    (hdev : u'.ring.dev = u.ring.dev)
    (hloading : ∀ k, (u'.phase k).Loading → (u.phase k).Loading) : PendingInv (log ++ es) u' := by
  intro p t cmd hp hget
  rw [hpub, hran, hdev] at *
  rcases h p t cmd hp hget with hspoiled | ⟨harmed,hnone⟩
  · have hcalled := published_calledBy hrun (List.mem_of_getElem? hget)
    exact .inl ((spoiled_append hcalled es).mpr (.inl hspoiled))
  · exact .inr ⟨harmed,fun k hk => hnone k (hloading k hk)⟩

/-- An upload spoils whatever is pending. -/
private theorem pending_upload {queueMode : Int} {log es : List (ClientEvent κ)}
    {u u' : Clients κ} (hrun : (clientSystem κ queueMode).Run log u)
    (hpub : pubIn (log ++ es) = pubIn log) (hes : es.any ClientEvent.isUpload = true) :
    PendingInv (log ++ es) u' := by
  intro p t cmd hp hget
  rw [hpub] at hget
  have hcalled := published_calledBy hrun (List.mem_of_getElem? hget)
  exact .inl ((spoiled_append hcalled es).mpr (.inr hes))

private theorem loading_setPhase {u : Clients κ} {k : κ} {p : Phase κ}
    (hp : p.Loading → (u.phase k).Loading) (k' : κ) (h : ((u.setPhase k p).phase k').Loading) :
    (u.phase k').Loading := by
  by_cases hk : k' = k
  · subst hk
    exact hp (by simpa using h)
  · simpa [hk] using h

omit [DecidableEq κ] in
theorem upload_pageHeld (u : Clients κ) (launch : Launch) :
    PageHeld (u.upload launch.page).ring.dev launch := by
  intro i hi
  simp [Clients.upload, Device.upload, hi]

/-- After an upload that met no other client in a launch, no other is in one. -/
private theorem phases_upload {u : Clients κ} {pub : List (Ticket κ × Job)} {ran : Nat} {k : κ}
    {p : Phase κ} (page : Nat → UInt32) (halone : Alone u k)
    (hown : PhaseInv ((u.upload page).setPhase k p) pub ran k) :
    ∀ k', PhaseInv ((u.upload page).setPhase k p) pub ran k' := by
  intro k'
  by_cases hk : k' = k
  · exact hk ▸ hown
  · apply Phase.facts_of_not_launching
    rw [Clients.setPhase_phase_other _ _ _ hk]
    exact halone k' hk

omit [DecidableEq κ] in
theorem afterIoctl_launching {t : Ticket κ} {ret : Ret} {restart : Bool}
    (h : (afterIoctl t ret restart).1.Launching) : t.ioctl ≠ .doorbell := by
  unfold afterIoctl at h
  intro hio
  split at h
  · split at h <;> simp [Phase.Launching, hio] at h
  · simp [Phase.Launching, hio] at h

omit [DecidableEq κ] in
theorem afterIoctl_loading {t : Ticket κ} {ret : Ret} {restart : Bool}
    (h : (afterIoctl t ret restart).1.Loading) : t.ioctl = .load := by
  unfold afterIoctl at h
  split at h
  · split at h <;> simp_all [Phase.Loading]
  · repeat' split at h
    all_goals simp_all [Phase.Loading]

/-- What a call has achieved when its ioctl returns carries over to what it does next. -/
theorem facts_afterIoctl {queueMode : Int} {log : List (ClientEvent κ)} {u : Clients κ}
    (hrun : (clientSystem κ queueMode).Run log u) {k : κ} {t : Ticket κ} {ret : Ret}
    {alone : Prop} (restart : Bool) (hphase : u.phase k = .inside t)
    (hpc : u.ring.pc t = .done ret) (halone : Alone u k → alone)
    (h : PhaseInv u (pubIn log) (ranIn log) k) :
    (afterIoctl t ret restart).1.Facts u.ring.dev (pubIn log) (ranIn log) u.ring.pc alone := by
  rw [PhaseInv, hphase] at h
  cases hio : t.ioctl with
  | doorbell => exact Phase.facts_of_not_launching fun hl => afterIoctl_launching hl hio
  | load =>
    simp only [Phase.Facts, hio] at h
    obtain ⟨hpage,hload,hothers⟩ := h
    cases ret with
    | err e =>
      rw [afterIoctl_err, hio]
      split
      · exact ⟨hpage,halone hothers⟩
      · trivial
    | ok =>
      have hcalled := ((ticketInv_run hrun).inside k t hphase).2
      obtain ⟨hloaded,hno⟩ := hload.done hrun hio hcalled hpc
      simp only [afterIoctl_ok, hio]
      split
      · exact ⟨⟨⟨hloaded,hpage⟩,hno⟩,halone hothers⟩
      · trivial
  | submit =>
    simp only [Phase.Facts, hio] at h
    cases ret with
    | err e =>
      rw [afterIoctl_err, hio]
      split
      · exact h.imp_right halone
      · trivial
    | ok => simp [afterIoctl_ok, hio, Phase.Facts]

theorem transactionInv_run {queueMode : Int} {log : List (ClientEvent κ)} {u : Clients κ}
    (h : (clientSystem κ queueMode).RunWith Serialised log u) : TransactionInv log u := by
  refine client_invariant (I := TransactionInv) ?_ ?_ h
  · intro u hu
    refine ⟨fun k => Phase.facts_of_not_launching (by simp [hu.2.1 k, Phase.Launching]),?_⟩
    intro p t cmd _ hget
    simp [pubIn] at hget
  · intro log u a u' es hrun ih hok hrule
    have hrun := hrun.run
    obtain ⟨hphases,hpending⟩ := ih
    cases hrule with
    | refused k nd memalign status hphase hprepare =>
      have hes : ringLog [ClientEvent.entered k nd,.returned k status] = [] := rfl
      refine ⟨?_,pending_quiet hrun hpending (pubIn_append_quiet hes) (ranIn_append_quiet hes) rfl
        fun _ => id⟩
      rw [pubIn_append_quiet hes, ranIn_append_quiet hes]
      exact hphases
    | entered k nd memalign launch hphase hprepare =>
      have hes : ringLog [ClientEvent.entered k nd] = [] := rfl
      refine ⟨?_,pending_quiet hrun hpending (pubIn_append_quiet hes) (ranIn_append_quiet hes) rfl
        (loading_setPhase nofun)⟩
      rw [pubIn_append_quiet hes, ranIn_append_quiet hes]
      exact phases_setPhase hphases nofun (Phase.facts_of_not_launching (by simp [Phase.Launching]))
    | uploaded k launch hphase =>
      have hes : ringLog [ClientEvent.uploaded k] = [] := rfl
      have halone := hok k .ok rfl (by simp)
      refine ⟨phases_upload launch.page halone ?_,
        pending_upload hrun (pubIn_append_quiet hes) rfl⟩
      rw [PhaseInv, Clients.setPhase_phase_self]
      exact ⟨upload_pageHeld u launch,alone_setPhase_self (u := u.upload launch.page) halone⟩
    | uploadFailed k launch hphase =>
      have hes : ringLog [ClientEvent.returned k .CL_OUT_OF_RESOURCES] = [] := rfl
      refine ⟨?_,pending_quiet hrun hpending (pubIn_append_quiet hes) (ranIn_append_quiet hes) rfl
        (loading_setPhase nofun)⟩
      rw [pubIn_append_quiet hes, ranIn_append_quiet hes]
      exact phases_setPhase hphases nofun (Phase.facts_of_not_launching (by simp [Phase.Launching]))
    | uploadBroken k launch left hphase =>
      have hes : ringLog [ClientEvent.uploaded k,.returned k .CL_OUT_OF_RESOURCES] = [] := rfl
      exact ⟨phases_upload left (hok k _ rfl (by simp))
        (Phase.facts_of_not_launching (by simp [Phase.Launching])),
        pending_upload hrun (pubIn_append_quiet hes) rfl⟩
    | ioctl k launch io t hphase ht hready =>
      have hio : t.ioctl = io ∧ t.launch = launch := by simp [ht]
      have hclient : t.client = k := by rw [ht]
      have hpub := pubIn_append_called log t t.call
      have hran := ranIn_append_called log t t.call
      refine ⟨fun k' => ?_,pending_quiet hrun hpending hpub hran rfl ?_⟩
      · rw [hpub, hran]
        by_cases hk : k' = k
        · subst hk
          have hown := hphases k'
          have halone : Alone u k' → Alone (u.setPhase k' (.inside t)) k' := alone_setPhase_self
          rw [PhaseInv, hphase] at hown
          change ((u.setPhase k' (.inside t)).phase k').Facts _ _ _ _ (Alone (u.setPhase k' _) k')
          rw [Clients.setPhase_phase_self]
          cases io with
          | doorbell => simp [Phase.Facts, hio.1]
          | submit => simpa [Phase.Facts, hio] using hown.imp_right halone
          | load =>
            simp only [Phase.Facts, hio]
            have hfresh := callInv_run (ring_run hrun) t
            rw [hready] at hfresh
            have hnone : ∀ (p : Nat) (kbin : KernelBinary), (pubIn log)[p]? ≠ some (t,.load kbin) :=
              fun p kbin hget => not_mem_publishedIn hfresh.1.1 _ (List.mem_of_getElem? hget)
            refine ⟨hown.1,⟨fun kbin n hn => ?_,fun p kbin hget => absurd hget (hnone p kbin),
              fun p kbin hget => absurd hget (hnone p kbin),
              fun p kbin hget => absurd hget (hnone p kbin)⟩,halone hown.2⟩
            rw [State.setPc_pc_self] at hn
            obtain rfl := staged_entry hn
            exact staged_zero _ _
        · refine (hphases k').congr (by simp [Clients.setPhase, hk]) rfl (fun t' hin => ?_) ?_
          · have hc := ((ticketInv_run hrun).inside k' t' hin).1
            exact State.setPc_pc_other _ _ _ fun htt => hk (by rw [← hc, htt, hclient])
          · apply alone_setPhase hk
            intro hl
            simpa [hphase, Phase.Launching, hio.1] using hl
      · apply loading_setPhase
        intro hl
        simpa [hphase, Phase.Loading, hio.1] using hl
    | ring a ring' es ha hstep =>
      have hrule := rule_of_step hstep
      exact ⟨phases_ring hrun hrule ha hphases,pending_ring hrun hrule ha hphases hpending⟩
    | result k t ret restart hphase hpc =>
      have hes := ringLog_result k (afterIoctl t ret restart).2
      refine ⟨?_,pending_quiet hrun hpending (pubIn_append_quiet hes) (ranIn_append_quiet hes) rfl
        (loading_setPhase fun hl => ?_)⟩
      · rw [pubIn_append_quiet hes, ranIn_append_quiet hes]
        refine phases_setPhase hphases (fun hl => ?_) ?_
        · simpa [hphase, Phase.Launching] using afterIoctl_launching hl
        · rw [PhaseInv, Clients.setPhase_phase_self]
          exact facts_afterIoctl hrun restart hphase hpc alone_setPhase_self (hphases k)
      · simpa [hphase, Phase.Loading] using afterIoctl_loading hl

end FpgaGpu.Umd
