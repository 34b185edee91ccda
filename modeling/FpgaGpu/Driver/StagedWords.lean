import FpgaGpu.Driver.Staging

/-! What a LOAD_KERNEL writes to the staging area: the words of its program, one after
the other, and all of them before its descriptor is published. -/
namespace FpgaGpu.Driver
open Library

variable {ι : Type} [DecidableEq ι]

def Event.stagingWrite? (c : ι) : Event ι → Option (Nat × UInt32)
  | .wrote c' (.staging i) w => if c' = c then some (i,w) else none
  | _ => none

/-- The staging words that a call has written, in order, each with its place. -/
def stagingWrites (c : ι) (log : List (Event ι)) : List (Nat × UInt32) :=
  log.filterMap (Event.stagingWrite? c)

@[simp] theorem stagingWrites_append (c : ι) (log es : List (Event ι)) :
    stagingWrites c (log ++ es) = stagingWrites c log ++ stagingWrites c es :=
  List.filterMap_append

theorem stagingWrites_of_actor {c : ι} {es : List (Event ι)} (h : ∀ e ∈ es, e.actor ≠ some c) :
    stagingWrites c es = [] := by
  apply List.filterMap_eq_nil_iff.mpr
  intro e he
  unfold Event.stagingWrite?
  split
  next c' i w => exact if_neg fun hc => h _ he (congrArg some hc)
  next => rfl

/-- The call has written the first `n` words of its program, and no others. -/
def StagedInOrder (log : List (Event ι)) (c : ι) (kbin : KernelBinary) (n : Nat) : Prop :=
  ∃ words : List UInt32, words.length = n ∧
    (∀ (j : Nat) (w : UInt32), words[j]? = some w → kbin.userInstr j = some w) ∧
    stagingWrites c log = words.mapIdx Prod.mk

theorem StagedInOrder.zero {log : List (Event ι)} {c : ι} (kbin : KernelBinary)
    (h : stagingWrites c log = []) : StagedInOrder log c kbin 0 :=
  ⟨[],rfl,by simp,h⟩

theorem StagedInOrder.append {log es : List (Event ι)} {c : ι} {kbin : KernelBinary} {n : Nat}
    (h : StagedInOrder log c kbin n) (hes : stagingWrites c es = []) :
    StagedInOrder (log ++ es) c kbin n := by
  obtain ⟨words,hlength,hread,hwrote⟩ := h
  exact ⟨words,hlength,hread,by rw [stagingWrites_append, hes, List.append_nil, hwrote]⟩

theorem StagedInOrder.succ {log : List (Event ι)} {c : ι} {kbin : KernelBinary} {i : Nat}
    {w : UInt32} (h : StagedInOrder log c kbin i) (hw : kbin.userInstr i = some w) :
    StagedInOrder (log ++ [.wrote c (.staging i) w]) c kbin (i + 1) := by
  obtain ⟨words,rfl,hread,hwrote⟩ := h
  refine ⟨words ++ [w],by simp,fun j w' hget => ?_,?_⟩
  · rcases getElem?_concat_eq_some.mp hget with hold | ⟨rfl,rfl⟩
    · exact hread j w' hold
    · exact hw
  · simp [stagingWrites, Event.stagingWrite?, ← hwrote]

/-- What the history says about the staging writes of a call. -/
structure StageOrder (log : List (Event ι)) (c : ι) (p : Pc) : Prop where
  ready : p = .ready → stagingWrites c log = []
  staged : ∀ kbin n, p.staged = some (kbin,n) → StagedInOrder log c kbin n
  published : ∀ kbin, (c,.load kbin) ∈ publishedIn log →
    StagedInOrder log c kbin kbin.instrSize.toNat

/-- A step that neither stages nor publishes. -/
theorem StageOrder.quiet {log es : List (Event ι)} {c : ι} {p p' : Pc} (h : StageOrder log c p)
    (hes : stagingWrites c es = []) (hpub : ∀ job, (c,job) ∉ publishedIn es)
    (hready : p' = .ready → p = .ready) (hstaged : p'.staged = none ∨ p'.staged = p.staged) :
    StageOrder (log ++ es) c p' where
  ready heq := by rw [stagingWrites_append, hes, h.ready (hready heq), List.append_nil]
  staged kbin n heq := by
    rcases hstaged with hnone | hsame
    · rw [hnone] at heq
      contradiction
    · exact (h.staged kbin n (hsame ▸ heq)).append hes
  published kbin hmem := by
    rw [publishedIn_append] at hmem
    rcases List.mem_append.mp hmem with hold | hnew
    · exact (h.published kbin hold).append hes
    · exact absurd hnew (hpub _)

theorem entry_ne_ready (queueMode : Int) (call : Call) : entry queueMode call ≠ .ready := by
  unfold entry
  split
  next => simp
  next => split <;> simp
  next => split <;> simp
  next => simp
  next =>
    split
    next => simp
    next =>
      unfold stageFrom
      split <;> simp

theorem stageOrder_run {queueMode : Int} {log : List (Event ι)} {s : State ι}
    (h : (ringSystem ι queueMode).Run log s) : ∀ c, StageOrder log c (s.pc c) := by
  refine ring_invariant (I := fun log s => ∀ c, StageOrder log c (s.pc c)) ?_ ?_ h
  · intro s hs c
    exact ⟨fun _ => rfl,fun kbin n hstaged => by simp [hs.2.2.2.1 c, Pc.staged] at hstaged,by simp⟩
  · intro log s a s' es hrun ih _ hrule c
    have hrun : (ringSystem ι queueMode).Run log s := hrun
    have hown := ih c
    by_cases hact : a.actor = some c
    case neg =>
      have hactors : ∀ e ∈ es, e.actor ≠ some c := fun e he => hrule.events_actor e he ▸ hact
      rw [hrule.pc_other hact]
      refine hown.quiet (stagingWrites_of_actor hactors) (fun job => ?_) id (.inr rfl)
      exact not_mem_publishedIn (quietFor_of_actor hactors).1 job
    cases hrule with
    | start c' call hpc =>
      obtain rfl := Option.some.inj hact
      have hnone := hown.ready hpc
      rw [State.setPc_pc_self]
      refine ⟨fun heq => absurd heq (entry_ne_ready _ _),fun kbin n hstaged => ?_,?_⟩
      · obtain rfl := staged_entry hstaged
        exact .zero kbin (by simpa [stagingWrites, Event.stagingWrite?] using hnone)
      · intro kbin hmem
        exact (hown.published kbin (by simpa using hmem)).append rfl
    | stageWord c' kbin i w hpc hw =>
      obtain rfl := Option.some.inj hact
      have hlt := (stageInv_run hrun c' kbin i hpc).1
      have hfresh := callInv_run hrun c'
      rw [hpc] at hown hfresh
      have hstaged : (stageFrom kbin (i + 1)).staged = some (kbin,i + 1) :=
        staged_stageFrom (by omega)
      rw [State.setPc_pc_self]
      refine ⟨fun heq => ?_,fun kbin' n hnext => ?_,fun kbin' hmem => ?_⟩
      · rw [heq] at hstaged
        contradiction
      · obtain ⟨rfl,rfl⟩ := Prod.mk.inj (Option.some.inj (hstaged.symm.trans hnext))
        exact (hown.staged kbin i rfl).succ hw
      · exact absurd (by simpa using hmem) (not_mem_publishedIn hfresh.1.1 _)
    | writeTail c' job tail hpc =>
      obtain rfl := Option.some.inj hact
      rw [hpc] at hown
      rw [State.setPc_pc_self]
      refine ⟨by simp,by simp [Pc.staged],fun kbin hmem => ?_⟩
      rw [publishedIn_append] at hmem
      rcases List.mem_append.mp hmem with hold | hnew
      · exact (hown.published kbin hold).append rfl
      · obtain rfl : .load kbin = job := by simpa using hnew
        exact (hown.staged kbin _ rfl).append rfl
    | writeCmd c' job tail j hpc =>
      obtain rfl := Option.some.inj hact
      rw [hpc] at hown
      rw [State.setPc_pc_self]
      split
      next => exact hown.quiet rfl (by simp) (by simp) (.inr rfl)
      next => exact hown.quiet rfl (by simp) (by simp) (.inr rfl)
    | lock c' job hpc | readHead c' job hpc | readTailRoom c' job head hpc =>
      obtain rfl := Option.some.inj hact
      rw [hpc] at hown
      rw [State.setPc_pc_self]
      exact hown.quiet rfl (by simp) (by simp) (.inr rfl)
    | unlock c' job tail hpc =>
      obtain rfl := Option.some.inj hact
      rw [hpc] at hown
      rw [State.setPc_pc_self]
      cases job <;> exact hown.quiet rfl (by simp) (by simp [afterUnlock]) (.inl rfl)
    | testFalse c' target a otherwise hpc ha =>
      obtain rfl := Option.some.inj (ha.actor.symm.trans hact)
      rw [hpc] at hown
      rw [State.setPc_pc_self]
      cases ha <;> exact hown.quiet rfl (by simp) (by simp) (.inl rfl)
    | testTrue c' target a otherwise hpc ha =>
      obtain rfl := Option.some.inj (ha.actor.symm.trans hact)
      rw [State.setPc_pc_self]
      exact hown.quiet rfl (by simp) (by simp) (.inl rfl)
    | stageFault c' | readTailFull c' | ringIrq c' | unlockBusy c' | snapshot c' =>
      obtain rfl := Option.some.inj hact
      rw [State.setPc_pc_self]
      exact hown.quiet rfl (by simp) (by simp) (.inl rfl)
    | _ => simp [Action.actor] at hact

/-- A LOAD descriptor is published when its program has been staged to the end. -/
theorem staged_before_published {queueMode : Int} {log : List (Event ι)} {s : State ι}
    (h : (ringSystem ι queueMode).Run log s) : ∀ pre e post, log = pre ++ e :: post →
      ∀ c kbin, e = .published c (.load kbin) → StagedInOrder pre c kbin kbin.instrSize.toNat := by
  refine h.event_of_step (P := fun pre e => ∀ c kbin, e = .published c (.load kbin) →
    StagedInOrder pre c kbin kbin.instrSize.toNat) ?_
  rintro log s a s' es hrun - hstep pre e post hes c kbin rfl
  have hmem : .published c (.load kbin) ∈ es := by simp [hes]
  cases rule_of_step hstep with
  | writeTail c' job tail hpc =>
    obtain ⟨rfl,rfl⟩ : c = c' ∧ .load kbin = job := by simpa using hmem
    have hown := (stageOrder_run hrun c).staged kbin _ (by rw [hpc]; rfl)
    cases pre with
    | nil => simp at hes
    | cons x pre =>
      obtain ⟨rfl,hes⟩ := List.cons.inj hes
      obtain ⟨rfl,-⟩ : pre = [] ∧ _ := by simpa [List.singleton_eq_append_iff] using hes
      exact hown.append rfl
  | _ => simp at hmem

end FpgaGpu.Driver
