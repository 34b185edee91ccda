import FpgaGpu.Driver.RingRefinement
import FpgaGpu.Library.History

/-! What the history says about one call: what it was called with, whether it
has published or read the tail, and the position it waits for. -/
namespace FpgaGpu.Driver
open Library

def Job.call : Job → Call
  | .submit cmd => .submitCmd (some cmd)
  | .load kbin => .loadKernel (some kbin)

variable {ι : Type}

/-- The history has `c` called once, with `call`. -/
def CalledAs (log : List (Event ι)) (c : ι) (call : Call) : Prop :=
  ∀ call', .called c call' ∈ log ↔ call' = call

variable [DecidableEq ι]

/-- The call has neither published nor read the tail for DOORBELL. -/
def Fresh (log : List (Event ι)) (c : ι) : Prop :=
  log.any (Event.publishedBy c) = false ∧ log.any (Event.tailReadBy c) = false

/-- The position up to which a call waits: all that was published before
DOORBELL read the tail, or all up to the caller's own descriptor. -/
def awaited (log : List (Event ι)) (c : ι) : Nat :=
  if log.any (Event.tailReadBy c) then publishedCount (before (Event.tailReadBy c) log)
  else publishedCount (before (Event.publishedBy c) log) + 1

/-- The call published `job` and nothing else, just before the position it is
to wait for. -/
def PublishedAs (log : List (Event ι)) (c : ι) (job : Job) : Prop :=
  log.any (Event.publishedBy c) = true ∧
    ∃ p, awaited log c = p + 1 ∧
      ∀ p' job', (publishedIn log)[p']? = some (c,job') ↔ p' = p ∧ job' = job

/-- The call is one that waits, and its target is fixed. -/
def Awaiting (log : List (Event ι)) (c : ι) : Prop :=
  CalledAs log c .doorbell ∧ log.any (Event.tailReadBy c) = true ∨
    ∃ kbin, CalledAs log c (.loadKernel (some kbin)) ∧ PublishedAs log c (.load kbin)

def CallInv (log : List (Event ι)) (c : ι) : Pc → Prop
  | .ready => Fresh log c ∧ ∀ call, .called c call ∉ log
  | .stage kbin _ => Fresh log c ∧ CalledAs log c (.loadKernel (some kbin))
  | .lock job | .readHead job | .unlockBusy job | .readTail job _ | .writeCmd job _ _
  | .writeTail job _ => Fresh log c ∧ CalledAs log c job.call
  | .ringIrq job tail | .unlock job tail =>
      CalledAs log c job.call ∧ PublishedAs log c job ∧ nextSlot tail = slot (awaited log c) ∧
        awaited log c < consumedCount log + queueSize
  | .snapshot => Fresh log c ∧ CalledAs log c .doorbell
  | .wait target =>
      Awaiting log c ∧ target = slot (awaited log c) ∧
        awaited log c < consumedCount log + queueSize
  | .done .ok =>
      Awaiting log c ∧ awaited log c ≤ consumedCount log ∨
        ∃ cmd, CalledAs log c (.submitCmd (some cmd)) ∧ PublishedAs log c (.submit cmd)
  | .done (.err _) => ∀ arg, CalledAs log c (.submitCmd arg) → Fresh log c

/-- Events that say nothing about the calls, publications and snapshots of `c`. -/
def QuietFor (c : ι) (es : List (Event ι)) : Prop :=
  es.any (Event.publishedBy c) = false ∧ es.any (Event.tailReadBy c) = false ∧
    ∀ call, .called c call ∉ es

theorem quietFor_of_actor {c : ι} {es : List (Event ι)} (h : ∀ e ∈ es, e.actor ≠ some c) :
    QuietFor c es := by
  refine ⟨?_,?_,fun call hmem => h _ hmem rfl⟩
  · refine List.any_eq_false.mpr fun e he hby => h e he ?_
    cases e <;> simp_all [Event.publishedBy, Event.actor]
  · refine List.any_eq_false.mpr fun e he hby => h e he ?_
    cases e <;> simp_all [Event.tailReadBy, Event.actor]

theorem not_mem_publishedIn {log : List (Event ι)} {c : ι}
    (h : log.any (Event.publishedBy c) = false) (job : Job) : (c,job) ∉ publishedIn log := by
  intro hmem
  obtain ⟨e,he,hpub⟩ := List.mem_filterMap.mp hmem
  apply List.any_eq_false.mp h e he
  cases e <;> simp_all [Event.published?, Event.publishedBy]

/-- Publications of others do not change where `c` published what. -/
theorem publishedIn_append_getElem? {log es : List (Event ι)} {c : ι}
    (h : es.any (Event.publishedBy c) = false) (p : Nat) (job : Job) :
    (publishedIn (log ++ es))[p]? = some (c,job) ↔ (publishedIn log)[p]? = some (c,job) := by
  rw [publishedIn_append]
  rcases lt_or_ge p (publishedIn log).length with hp | hp
  · rw [List.getElem?_append_left hp]
  · rw [List.getElem?_append_right hp, List.getElem?_eq_none hp]
    refine iff_of_false (fun hget => ?_) (fun hget => nomatch hget)
    exact not_mem_publishedIn h job (List.mem_of_getElem? hget)

section frame
variable {log es : List (Event ι)} {c : ι} (hes : QuietFor c es)
include hes

theorem CalledAs.append {call : Call} (h : CalledAs log c call) :
    CalledAs (log ++ es) c call := by
  intro call'
  rw [List.mem_append, ← h call']
  exact or_iff_left (hes.2.2 call')

theorem CalledAs.of_append {call : Call} (h : CalledAs (log ++ es) c call) :
    CalledAs log c call := by
  intro call'
  rw [← h call', List.mem_append]
  exact (or_iff_left (hes.2.2 call')).symm

theorem Fresh.append (h : Fresh log c) : Fresh (log ++ es) c := by
  simp [Fresh, List.any_append, h.1, h.2, hes.1, hes.2.1]

theorem awaited_append (h : log.any (Event.tailReadBy c) = true ∨
    log.any (Event.publishedBy c) = true) : awaited (log ++ es) c = awaited log c := by
  rw [awaited, awaited, List.any_append, hes.2.1, Bool.or_false]
  split
  next htail => rw [before_append_of_any htail]
  next htail => rw [before_append_of_any (h.resolve_left htail)]

theorem PublishedAs.append {job : Job} (h : PublishedAs log c job) :
    PublishedAs (log ++ es) c job := by
  obtain ⟨hany,p,hp,hget⟩ := h
  refine ⟨by rw [List.any_append, hany, Bool.true_or],p,?_,?_⟩
  · rw [awaited_append hes (.inr hany), hp]
  · intro p' job'
    rw [publishedIn_append_getElem? hes.1, hget p' job']

theorem Awaiting.append (h : Awaiting log c) :
    Awaiting (log ++ es) c ∧ awaited (log ++ es) c = awaited log c := by
  rcases h with ⟨hcalled,hany⟩ | ⟨kbin,hcalled,hpub⟩
  · exact ⟨.inl ⟨hcalled.append hes,by rw [List.any_append, hany, Bool.true_or]⟩,
      awaited_append hes (.inl hany)⟩
  · exact ⟨.inr ⟨kbin,hcalled.append hes,hpub.append hes⟩,awaited_append hes (.inr hpub.1)⟩

theorem CallInv.append {p : Pc} (h : CallInv log c p) : CallInv (log ++ es) c p := by
  have hle := consumedCount_append_le log es
  cases p with
  | ready =>
    refine ⟨h.1.append hes,fun call hmem => ?_⟩
    rcases List.mem_append.mp hmem with hold | hnew
    · exact h.2 call hold
    · exact hes.2.2 call hnew
  | stage | lock | readHead | unlockBusy | readTail | writeCmd | writeTail | snapshot =>
    exact ⟨h.1.append hes,h.2.append hes⟩
  | ringIrq | unlock =>
    obtain ⟨hcalled,hpub,htail,hclose⟩ := h
    have hawaited := awaited_append hes (.inr hpub.1)
    refine ⟨hcalled.append hes,hpub.append hes,?_,?_⟩
    · rwa [hawaited]
    · rw [hawaited]
      omega
  | wait target =>
    obtain ⟨hawaiting,htarget,hclose⟩ := h
    obtain ⟨hawaiting',hawaited⟩ := hawaiting.append hes
    refine ⟨hawaiting',?_,?_⟩
    · rwa [hawaited]
    · rw [hawaited]
      omega
  | done ret =>
    cases ret with
    | err e => exact fun arg hcalled => (h arg (hcalled.of_append hes)).append hes
    | ok =>
      rcases h with ⟨hawaiting,hpassed⟩ | ⟨cmd,hcalled,hpub⟩
      · obtain ⟨hawaiting',hawaited⟩ := hawaiting.append hes
        exact .inl ⟨hawaiting',by rw [hawaited]; omega⟩
      · exact .inr ⟨cmd,hcalled.append hes,hpub.append hes⟩

end frame

theorem callInv_stageFrom {log : List (Event ι)} {c : ι} {kbin : KernelBinary} (i : Nat)
    (hf : Fresh log c) (hc : CalledAs log c (.loadKernel (some kbin))) :
    CallInv log c (stageFrom kbin i) := by
  unfold stageFrom
  split <;> exact ⟨hf,hc⟩

theorem callInv_entry {log : List (Event ι)} {c : ι} {call : Call} (queueMode : Int)
    (hf : Fresh log c) (hc : CalledAs log c call) : CallInv log c (entry queueMode call) := by
  have herr : ∀ e, CallInv log c (.done (.err e)) := fun _ _ _ => hf
  unfold entry
  split
  next => exact herr _
  next cmd =>
    split
    · exact ⟨hf,hc⟩
    · exact herr _
  next =>
    split
    · exact ⟨hf,hc⟩
    · exact herr _
  next => exact herr _
  next kbin =>
    split
    · exact herr _
    · exact callInv_stageFrom 0 hf hc

/-- What was called with something else is no SUBMIT_CMD. -/
theorem callInv_err {log : List (Event ι)} {c : ι} {call : Call} (e : Errno)
    (hc : CalledAs log c call) (hne : ∀ arg, call ≠ .submitCmd arg) :
    CallInv log c (.done (.err e)) := by
  intro arg hcalled
  exact absurd ((hcalled call).mp ((hc call).mpr rfl)) (hne arg)

theorem Awaiting.err {log : List (Event ι)} {c : ι} (e : Errno) (h : Awaiting log c) :
    CallInv log c (.done (.err e)) := by
  rcases h with ⟨hcalled,-⟩ | ⟨kbin,hcalled,-⟩
  · exact callInv_err e hcalled nofun
  · exact callInv_err e hcalled nofun

/-- The tail update fixes the descriptor of the call and the position behind it. -/
theorem publishedAs_first {log : List (Event ι)} {c : ι} (job : Job) (v : UInt32)
    (hf : Fresh log c) : PublishedAs (log ++ [.wrote c .tail v,.published c job]) c job ∧
      awaited (log ++ [.wrote c .tail v,.published c job]) c = publishedCount log + 1 := by
  have hfirst : before (Event.publishedBy c) (log ++ [.wrote c .tail v] ++ [.published c job]) =
      log ++ [.wrote c .tail v] :=
    before_append_first (by simp [List.any_append, hf.1, Event.publishedBy])
      (by simp [Event.publishedBy]) []
  rw [List.append_assoc, List.singleton_append] at hfirst
  have hawaited : awaited (log ++ [.wrote c .tail v,.published c job]) c =
      publishedCount log + 1 := by
    rw [awaited, hfirst, if_neg (by simp [List.any_append, hf.2, Event.tailReadBy])]
    simp [publishedCount, publishedIn, Event.published?]
  refine ⟨⟨by simp [Event.publishedBy],publishedCount log,hawaited,?_⟩,hawaited⟩
  intro p' job'
  have hpub : publishedIn (log ++ [.wrote c .tail v,.published c job]) =
      publishedIn log ++ [(c,job)] := by simp
  rw [hpub, getElem?_concat_eq_some, publishedCount]
  constructor
  · rintro (hget | ⟨rfl,hjob⟩)
    · exact absurd (List.mem_of_getElem? hget) (not_mem_publishedIn hf.1 job')
    · exact ⟨rfl,(Prod.mk.inj hjob).2.symm⟩
  · rintro ⟨rfl,rfl⟩
    exact .inr ⟨rfl,rfl⟩

theorem awaited_snapshot {log : List (Event ι)} {c : ι} (hf : Fresh log c) :
    awaited (log ++ [.tailRead c]) c = publishedCount log := by
  rw [awaited, if_pos (by simp [Event.tailReadBy]),
    before_append_first hf.2 (by simp [Event.tailReadBy])]

theorem callInv_run {queueMode : Int} {log : List (Event ι)} {s : State ι}
    (h : (ringSystem ι queueMode).Run log s) : ∀ c, CallInv log c (s.pc c) := by
  refine ring_invariant (I := fun log s => ∀ c, CallInv log c (s.pc c)) ?_ ?_ h
  · intro s hs c
    rw [hs.2.2.2.1 c]
    exact ⟨⟨rfl,rfl⟩,fun _ => List.not_mem_nil⟩
  · intro log s a s' es hrun ih _ hrule c
    have hrun : (ringSystem ι queueMode).Run log s := hrun
    by_cases hact : a.actor = some c
    case neg =>
      rw [hrule.pc_other hact]
      exact (ih c).append (quietFor_of_actor fun e he => hrule.events_actor e he ▸ hact)
    obtain ⟨q,hrep,hpub,htaken,-⟩ := ring_represents hrun
    have hroom := lt_room q
    rw [hpub, htaken, ← publishedCount] at hroom
    have hown := ih c
    have hcall := hrep.call c
    cases hrule with
    | start c' call hpc =>
      obtain rfl := Option.some.inj hact
      rw [hpc] at hown
      rw [State.setPc_pc_self]
      obtain ⟨hfresh,hnone⟩ := hown
      apply callInv_entry queueMode
      · simpa [Fresh, List.any_append, Event.publishedBy, Event.tailReadBy] using hfresh
      · intro call'
        simp [hnone call']
    | stageFault c' kbin i hpc hw =>
      obtain rfl := Option.some.inj hact
      rw [hpc] at hown
      rw [State.setPc_pc_self, List.append_nil]
      exact callInv_err _ hown.2 (by simp)
    | stageWord c' kbin i w hpc hw =>
      obtain rfl := Option.some.inj hact
      rw [hpc] at hown
      rw [State.setPc_pc_self]
      have hes : QuietFor c' [.wrote c' (.staging i) w] := ⟨rfl,rfl,by simp⟩
      exact callInv_stageFrom (i + 1) (hown.1.append hes) (hown.2.append hes)
    | lock c' job hpc hfree =>
      obtain rfl := Option.some.inj hact
      rw [hpc] at hown
      rw [State.setPc_pc_self]
      exact hown.append (p := .lock job) ⟨rfl,rfl,by simp⟩
    | readHead c' job hpc =>
      obtain rfl := Option.some.inj hact
      rw [hpc] at hown
      rw [State.setPc_pc_self]
      exact hown.append (p := .readHead job) ⟨rfl,rfl,by simp⟩
    | readTailFull c' job head hpc hfull =>
      obtain rfl := Option.some.inj hact
      rw [hpc] at hown
      rw [State.setPc_pc_self]
      exact hown.append (p := .readTail job head) ⟨rfl,rfl,by simp⟩
    | readTailRoom c' job head hpc hroom =>
      obtain rfl := Option.some.inj hact
      rw [hpc] at hown
      rw [State.setPc_pc_self]
      exact hown.append (p := .readTail job head) ⟨rfl,rfl,by simp⟩
    | writeCmd c' job tail j hpc =>
      obtain rfl := Option.some.inj hact
      rw [hpc] at hown
      rw [State.setPc_pc_self]
      split <;> exact hown.append (p := .writeCmd job tail j) ⟨rfl,rfl,by simp⟩
    | writeTail c' job tail hpc =>
      obtain rfl := Option.some.inj hact
      rw [hpc] at hown hcall
      rw [State.setPc_pc_self]
      obtain ⟨hfresh,hcalled⟩ := hown
      obtain ⟨htail,hspace,-⟩ := hcall
      rw [hpub, ← publishedCount] at htail hspace
      rw [htaken] at hspace
      obtain ⟨hpublished,hawaited⟩ := publishedAs_first job (nextSlot tail) hfresh
      refine ⟨?_,hpublished,?_,?_⟩
      · intro call'
        simpa using hcalled call'
      · rw [hawaited, htail, nextSlot_slot]
      · rw [hawaited]
        exact lt_of_lt_of_le hspace (Nat.add_le_add_right (consumedCount_append_le _ _) _)
    | ringIrq c' job tail hpc =>
      obtain rfl := Option.some.inj hact
      rw [hpc] at hown
      rw [State.setPc_pc_self]
      exact hown.append (p := .ringIrq job tail) ⟨rfl,rfl,by simp⟩
    | unlock c' job tail hpc =>
      obtain rfl := Option.some.inj hact
      rw [hpc] at hown
      rw [State.setPc_pc_self, List.append_nil]
      obtain ⟨hcalled,hpublished,htail,hclose⟩ := hown
      cases job with
      | submit cmd => exact .inr ⟨cmd,hcalled,hpublished⟩
      | load kbin => exact ⟨.inr ⟨kbin,hcalled,hpublished⟩,htail,hclose⟩
    | unlockBusy c' job hpc =>
      obtain rfl := Option.some.inj hact
      rw [hpc] at hown
      rw [State.setPc_pc_self, List.append_nil]
      exact fun _ _ => hown.1
    | snapshot c' hpc =>
      obtain rfl := Option.some.inj hact
      rw [hpc] at hown
      rw [State.setPc_pc_self]
      obtain ⟨hfresh,hcalled⟩ := hown
      have hawaited := awaited_snapshot hfresh
      refine ⟨.inl ⟨?_,by simp [Event.tailReadBy]⟩,?_,?_⟩
      · intro call'
        simpa using hcalled call'
      · rw [hawaited, hrep.tail, hpub, publishedCount]
      · rw [hawaited]
        exact lt_of_lt_of_le hroom (Nat.add_le_add_right (consumedCount_append_le _ _) _)
    | testTrue c' target a otherwise hpc ha hheld =>
      obtain rfl := Option.some.inj (ha.actor.symm.trans hact)
      rw [hpc] at hown
      rw [State.setPc_pc_self]
      obtain ⟨hawaiting,htarget,hclose⟩ := hown
      -- the head equals the target, so the firmware stands at it or whole turns beyond
      have hslot : consumedCount log % queueSize = awaited log c' % queueSize := by
        rw [← slot_eq_iff, ← htarget, ← hheld, hrep.head, htaken]
      have hpassed : CallInv log c' (.done .ok) :=
        .inl ⟨hawaiting,target_le_of_mod_eq hclose hslot⟩
      exact hpassed.append ⟨rfl,rfl,by simp⟩
    | testFalse c' target a otherwise hpc ha hheld =>
      obtain rfl := Option.some.inj (ha.actor.symm.trans hact)
      rw [hpc] at hown
      rw [State.setPc_pc_self]
      have hes : QuietFor c' [.tested c' false] := ⟨rfl,rfl,by simp⟩
      cases ha with
      | retry => exact hown.append (p := .wait target) hes
      | expire => exact (hown.1.append hes).1.err _
      | interrupt => exact (hown.1.append hes).1.err _
    | fwHead | fwEmpty | fwTask | fwFetch | fwFetchLast | fwExec | fwCommit | upload =>
      simp [Action.actor] at hact

/-- Only what a call was asked to publish before is published under its name. -/
theorem called_before_published {queueMode : Int} {log : List (Event ι)} {s : State ι}
    (h : (ringSystem ι queueMode).Run log s) : ∀ pre e post, log = pre ++ e :: post →
      ∀ c job, e.published? = some (c,job) → .called c job.call ∈ pre := by
  refine h.event_of_step (P := fun pre e => ∀ c job, e.published? = some (c,job) →
    .called c job.call ∈ pre) ?_
  rintro log s a s' es hrun - hstep pre e post rfl c job he
  apply List.mem_append_left pre
  have hmem : (c,job) ∈ publishedIn (pre ++ e :: post) :=
    List.mem_filterMap.mpr ⟨e,by simp,he⟩
  rcases (rule_of_step hstep).publishes with hnone | ⟨c',job',tail,hpc,hone⟩
  · simp [hnone] at hmem
  · rw [hone, List.mem_singleton] at hmem
    obtain ⟨rfl,rfl⟩ := Prod.mk.inj hmem
    have hinv := callInv_run hrun c
    rw [hpc] at hinv
    exact (hinv.2 job.call).mpr rfl

/-- Every beginning of a history has the calls of its publications. -/
theorem published_called_append {queueMode : Int} {log log' : List (Event ι)} {s : State ι}
    (h : (ringSystem ι queueMode).Run (log ++ log') s) {c : ι} {job : Job}
    (hmem : (c,job) ∈ publishedIn log) : .called c job.call ∈ log := by
  obtain ⟨e,he,hpub⟩ := List.mem_filterMap.mp hmem
  obtain ⟨pre,post,rfl⟩ := List.append_of_mem he
  apply List.mem_append_left
  exact called_before_published h pre e (post ++ log') (by simp) c job hpub

theorem published_called {queueMode : Int} {log : List (Event ι)} {s : State ι}
    (h : (ringSystem ι queueMode).Run log s) (c : ι) (job : Job)
    (hmem : (c,job) ∈ publishedIn log) : .called c job.call ∈ log := by
  rw [← List.append_nil log] at h
  exact published_called_append h hmem

/-- A call publishes at most one descriptor. -/
theorem published_once {queueMode : Int} {log : List (Event ι)} {s : State ι}
    (h : (ringSystem ι queueMode).Run log s) : ∀ (c : ι) (p p' : Nat) (job job' : Job),
    (publishedIn log)[p]? = some (c,job) → (publishedIn log)[p']? = some (c,job') → p = p' := by
  refine ring_invariant (I := fun log _ => ∀ (c : ι) (p p' : Nat) (job job' : Job),
    (publishedIn log)[p]? = some (c,job) → (publishedIn log)[p']? = some (c,job') → p = p') ?_ ?_ h
  · intro s _ c p p' job job' hget
    simp at hget
  · intro log s a s' es hrun ih _ hrule c p p' job job' hget hget'
    rw [publishedIn_append] at hget hget'
    rcases hrule.publishes with hnone | ⟨c',job₀,tail,hpc,hone⟩
    · rw [hnone, List.append_nil] at hget hget'
      exact ih c p p' job job' hget hget'
    · -- the publisher has not published before
      have hfresh := callInv_run hrun c'
      rw [hpc] at hfresh
      rw [hone] at hget hget'
      rcases getElem?_concat_eq_some.mp hget with hold | ⟨hp,hnew⟩ <;>
        rcases getElem?_concat_eq_some.mp hget' with hold' | ⟨hp',hnew'⟩
      · exact ih c p p' job job' hold hold'
      · obtain ⟨rfl,-⟩ := Prod.mk.inj hnew'
        exact absurd (List.mem_of_getElem? hold) (not_mem_publishedIn hfresh.1.1 job)
      · obtain ⟨rfl,-⟩ := Prod.mk.inj hnew
        exact absurd (List.mem_of_getElem? hold') (not_mem_publishedIn hfresh.1.1 job')
      · exact hp.trans hp'.symm

end FpgaGpu.Driver
