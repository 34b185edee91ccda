import FpgaGpu.Driver.Staging
import FpgaGpu.Driver.Windows

/-! What is left of SUBMIT_CMD and LOAD_KERNEL calls that return an error before
they publish: nothing in the ring, and in the staging area the words that were
copied before the refusal. -/
namespace FpgaGpu.Driver
open Library

/-- LOAD_KERNEL answers -EINVAL to this size. -/
def KernelBinary.BadSize (kbin : KernelBinary) : Prop :=
  kbin.instrSize = 0 ∨ 1024 < kbin.instrSize

instance (kbin : KernelBinary) : Decidable kbin.BadSize :=
  inferInstanceAs (Decidable (kbin.instrSize = 0 ∨ 1024 < kbin.instrSize))

/-- Each word that the call copies, up to the first it cannot read, is already in
its place. -/
def AlreadyStaged (dev : Device) : Call → Prop
  | .loadKernel (some kbin) => ¬kbin.BadSize → ∀ j < kbin.instrSize.toNat,
      (∀ i ≤ j, (kbin.userInstr i).isSome = true) → kbin.userInstr j = some (dev.staging j)
  | _ => True

/-- The first `n` words of the staging area are written, and no others. -/
structure CopiedTo (dev dev' : Device) (kbin : KernelBinary) (n : Nat) : Prop where
  staged : Staged dev' kbin n
  beyond : ∀ i, n ≤ i → dev'.staging i = dev.staging i

/-- The copy loop of the call is over: all words are copied, or the next is unreadable. -/
def CopyOver (dev dev' : Device) : Call → Prop
  | .loadKernel (some kbin) => kbin.BadSize ∧ dev'.staging = dev.staging ∨
      ¬kbin.BadSize ∧ ∃ n ≤ kbin.instrSize.toNat, CopiedTo dev dev' kbin n ∧
        (n < kbin.instrSize.toNat → kbin.userInstr n = none)
  | _ => dev'.staging = dev.staging

theorem CopiedTo.zero (dev : Device) (kbin : KernelBinary) : CopiedTo dev dev kbin 0 :=
  ⟨staged_zero dev kbin,fun _ _ => rfl⟩

theorem CopiedTo.succ {dev dev' : Device} {kbin : KernelBinary} {i : Nat} {w : UInt32}
    (h : CopiedTo dev dev' kbin i) (hw : kbin.userInstr i = some w) :
    CopiedTo dev (dev'.stage i w) kbin (i + 1) := by
  refine ⟨h.staged.succ hw,fun j hj => ?_⟩
  have hne : j ≠ i := by omega
  simpa [Device.stage, hne] using h.beyond j (by omega)

theorem CopiedTo.staging_eq_iff {dev dev' : Device} {kbin : KernelBinary} {n : Nat}
    (h : CopiedTo dev dev' kbin n) : dev'.staging = dev.staging ↔ Staged dev kbin n := by
  constructor
  · intro hsame
    exact h.staged.congr hsame.symm
  · intro hstaged
    funext i
    rcases Nat.lt_or_ge i n with hlt | hge
    · exact Option.some.inj ((h.staged i hlt).symm.trans (hstaged i hlt))
    · exact h.beyond i hge

/-- The words that were copied are those before the first that cannot be read. -/
theorem copyOver_iff {dev dev' : Device} {call : Call} (h : CopyOver dev dev' call) :
    dev'.staging = dev.staging ↔ AlreadyStaged dev call := by
  cases call with
  | submitCmd arg => exact iff_of_true h trivial
  | doorbell => exact iff_of_true h trivial
  | loadKernel arg =>
    cases arg with
    | none => exact iff_of_true h trivial
    | some kbin =>
      rcases h with ⟨hbad,hsame⟩ | ⟨hsize,n,hn,hcopied,hstop⟩
      · exact iff_of_true hsame fun hnot => absurd hbad hnot
      · rw [hcopied.staging_eq_iff]
        constructor
        · intro hstaged _ j hj hread
          refine hstaged j (Nat.lt_of_not_le fun hle => ?_)
          have hnone := hread n hle
          rw [hstop (Nat.lt_of_le_of_lt hle hj)] at hnone
          exact absurd hnone (by decide)
        · intro hplace j hj
          apply hplace hsize j (Nat.lt_of_lt_of_le hj hn)
          intro i hi
          rw [hcopied.staged i (Nat.lt_of_le_of_lt hi hj)]
          rfl

variable {ι : Type}

/-- The call is past the last of its checks and has not yet stored the tail. -/
def Pc.Writing : Pc → Prop
  | .writeCmd _ _ _ | .writeTail _ _ => True
  | _ => False

/-- The call has written nothing but staging words. -/
def OnlyStages (log : List (Event ι)) (c : ι) : Prop :=
  ∀ reg v, .wrote c reg v ∈ log → ∃ i, reg = .staging i

theorem OnlyStages.append {log es : List (Event ι)} {c : ι} (h : OnlyStages log c)
    (hes : OnlyStages es c) : OnlyStages (log ++ es) c := by
  intro reg v hmem
  rcases List.mem_append.mp hmem with hold | hnew
  · exact h reg v hold
  · exact hes reg v hnew

theorem onlyStages_of_actor {es : List (Event ι)} {c : ι}
    (h : ∀ e ∈ es, e.actor ≠ some c) : OnlyStages es c :=
  fun _ _ hmem => absurd rfl (h _ hmem)

variable [DecidableEq ι]

/-- The lock is held by a call in the section only. -/
theorem holder_inSection {queueMode : Int} {log : List (Event ι)} {s : State ι}
    (h : (ringSystem ι queueMode).Run log s) :
    ∀ c, s.globalLock = some c → (s.pc c).InSection := by
  have hset : ∀ (s : State ι) (c : ι) (p : Pc),
      (∀ c', c' ≠ c → s.globalLock = some c' → (s.pc c').InSection) →
      (s.globalLock = some c → p.InSection) →
      ∀ c', (s.setPc c p).globalLock = some c' → ((s.setPc c p).pc c').InSection := by
    intro s c p hother hown c' hlock
    by_cases hcc : c' = c
    · subst hcc
      rw [State.setPc_pc_self]
      exact hown hlock
    · rw [State.setPc_pc_other _ _ _ hcc]
      exact hother c' hcc hlock
  refine ring_invariant (I := fun _ s => ∀ c, s.globalLock = some c → (s.pc c).InSection) ?_ ?_ h
  · intro s hs c hlock
    rw [hs.2.2.1] at hlock
    contradiction
  · intro log s a s' es _ ih _ hrule
    have hout : ∀ {c : ι} {p : Pc}, s.pc c = p → ¬p.InSection → s.globalLock ≠ some c := by
      rintro c p rfl hp hlock
      exact hp (ih c hlock)
    cases hrule with
    | start c call hpc =>
      exact hset _ _ _ (fun c' _ => ih c') fun hlock => absurd hlock (hout hpc id)
    | stageFault c kbin i hpc =>
      exact hset _ _ _ (fun c' _ => ih c') fun hlock => absurd hlock (hout hpc id)
    | stageWord c kbin i w hpc =>
      exact hset {s with dev := _} _ _ (fun c' _ => ih c') fun hlock => absurd hlock (hout hpc id)
    | lock c job hpc hfree =>
      refine hset {s with globalLock := some c} _ _ (fun c' hne hlock => ?_) fun _ => trivial
      exact absurd (Option.some.inj hlock).symm hne
    | readHead | readTailFull | readTailRoom | ringIrq =>
      exact hset _ _ _ (fun c' _ => ih c') fun _ => trivial
    | writeCmd c job tail j hpc =>
      apply hset {s with ring := _} _ _ (fun c' _ => ih c')
      intro _
      split <;> trivial
    | writeTail => exact hset {s with ring := _} _ _ (fun c' _ => ih c') fun _ => trivial
    | unlock | unlockBusy => exact hset {s with globalLock := none} _ _ (by simp) (by simp)
    | snapshot c hpc => exact hset _ _ _ (fun c' _ => ih c') fun hlock => absurd hlock (hout hpc id)
    | testTrue c target a otherwise hpc | testFalse c target a otherwise hpc =>
      exact hset _ _ _ (fun c' _ => ih c') fun hlock => absurd hlock (hout hpc id)
    | _ => exact ih

/-- Until a call writes its descriptor it writes staging words only. -/
theorem stages_or_publishes {queueMode : Int} {log : List (Event ι)} {s : State ι}
    (h : (ringSystem ι queueMode).Run log s) :
    ∀ c, (s.pc c).Writing ∨ log.any (Event.publishedBy c) = true ∨ OnlyStages log c := by
  refine ring_invariant (I := fun log s => ∀ c, (s.pc c).Writing ∨
    log.any (Event.publishedBy c) = true ∨ OnlyStages log c) ?_ ?_ h
  · intro s _ c
    exact .inr (.inr fun _ _ hmem => absurd hmem List.not_mem_nil)
  · intro log s a s' es hrun ih _ hrule c
    have hrun : (ringSystem ι queueMode).Run log s := hrun
    by_cases hact : a.actor = some c
    case neg =>
      have hes := onlyStages_of_actor fun e he => hrule.events_actor e he ▸ hact
      rw [hrule.pc_other hact, List.any_append]
      exact (ih c).imp id (.imp (fun hpub => by rw [hpub]; rfl) fun hstages => hstages.append hes)
    have hkeep : ∀ es : List (Event ι), ¬(s.pc c).Writing → OnlyStages es c →
        (s'.pc c).Writing ∨ (log ++ es).any (Event.publishedBy c) = true ∨
          OnlyStages (log ++ es) c := by
      intro es hpc hes
      rw [List.any_append]
      exact .inr (((ih c).resolve_left hpc).imp (fun hpub => by rw [hpub]; rfl)
        fun hstages => hstages.append hes)
    cases hrule with
    | start c' call hpc =>
      obtain rfl := Option.some.inj hact
      exact hkeep _ (by simp [hpc, Pc.Writing]) (by simp [OnlyStages])
    | stageFault c' kbin i hpc =>
      obtain rfl := Option.some.inj hact
      exact hkeep _ (by simp [hpc, Pc.Writing]) (by simp [OnlyStages])
    | stageWord c' kbin i w hpc =>
      obtain rfl := Option.some.inj hact
      exact hkeep _ (by simp [hpc, Pc.Writing]) (by simp [OnlyStages])
    | lock c' job hpc | readHead c' job hpc | readTailFull c' job head hpc
    | unlock c' job tail hpc | unlockBusy c' job hpc | snapshot c' hpc =>
      obtain rfl := Option.some.inj hact
      exact hkeep _ (by simp [hpc, Pc.Writing]) (by simp [OnlyStages])
    | readTailRoom c' job head hpc =>
      obtain rfl := Option.some.inj hact
      rw [State.setPc_pc_self]
      exact .inl trivial
    | writeCmd c' job tail j hpc =>
      obtain rfl := Option.some.inj hact
      rw [State.setPc_pc_self]
      left
      split <;> trivial
    | writeTail c' job tail hpc =>
      obtain rfl := Option.some.inj hact
      exact .inr (.inl (by simp [List.any_append, Event.publishedBy]))
    | ringIrq c' job tail hpc =>
      obtain rfl := Option.some.inj hact
      have hpub := callInv_run hrun c'
      rw [hpc] at hpub
      exact .inr (.inl (by rw [List.any_append, hpub.2.1.1]; rfl))
    | testTrue c' target a otherwise hpc ha | testFalse c' target a otherwise hpc ha =>
      obtain rfl := Option.some.inj (ha.actor.symm.trans hact)
      exact hkeep _ (by simp [hpc, Pc.Writing]) (by simp [OnlyStages])
    | _ => simp [Action.actor] at hact

/-- The steps of one call by itself, from a state in which it has not begun. -/
def callSystem (queueMode : Int) (s : State ι) (c : ι) (call : Call) :
    System (State ι) (Action ι) (Event ι) where
  init t := t = s.setPc c (entry queueMode call)
  step t a := if a.actor = some c then step queueMode t a else none

/-- A call by itself is one of the ways the device can go on. -/
theorem callSystem_run {queueMode : Int} {log es : List (Event ι)} {s t : State ι} {c : ι}
    {call : Call} (h : (ringSystem ι queueMode).Run log s) (hready : s.pc c = .ready)
    (hcall : (callSystem queueMode s c call).Run es t) :
    (ringSystem ι queueMode).Run (log ++ [.called c call] ++ es) t := by
  induction hcall with
  | init hinit =>
    obtain rfl := hinit
    have hstep : (ringSystem ι queueMode).step s (.start c call) =
        some (s.setPc c (entry queueMode call),[.called c call]) := by
      simp [ringSystem, step, hready]
    simpa using h.next hstep
  | @step es t a t' es' _ _ hstep ih =>
    rw [← List.append_assoc]
    apply ih.next (a := a)
    simp only [callSystem] at hstep
    split at hstep
    · exact hstep
    · contradiction

theorem callSystem_actor {queueMode : Int} {es : List (Event ι)} {s t : State ι} {c : ι}
    {call : Call} (hcall : (callSystem queueMode s c call).Run es t) :
    ∀ e ∈ es, e.actor = some c := by
  refine hcall.invariant (I := fun es _ => ∀ e ∈ es, e.actor = some c) (by simp) ?_
  intro es t a t' es' _ ih _ hstep e he
  simp only [callSystem] at hstep
  split at hstep
  next hact =>
    rcases List.mem_append.mp he with hold | hnew
    · exact ih e hold
    · exact ((rule_of_step hstep).events_actor e hnew).trans hact
  next => contradiction

/-- How far a call that has not been accepted has copied its words. -/
def SoFar (dev dev' : Device) (call : Call) : Pc → Prop
  | .stage kbin i => call = .loadKernel (some kbin) ∧ ¬kbin.BadSize ∧
      i < kbin.instrSize.toNat ∧ CopiedTo dev dev' kbin i
  | .lock _ | .readHead _ | .readTail _ _ | .unlockBusy _ | .snapshot | .wait _ | .done _ =>
      CopyOver dev dev' call
  | _ => False

theorem soFar_stageFrom {dev dev' : Device} {kbin : KernelBinary} {i : Nat}
    (hsize : ¬kbin.BadSize) (hi : i ≤ kbin.instrSize.toNat) (h : CopiedTo dev dev' kbin i) :
    SoFar dev dev' (.loadKernel (some kbin)) (stageFrom kbin i) := by
  unfold stageFrom
  split
  next hlt => exact ⟨rfl,hsize,hlt,h⟩
  next hge => exact .inr ⟨hsize,i,hi,h,fun hlt => absurd hlt hge⟩

theorem soFar_entry (queueMode : Int) (dev : Device) (call : Call) :
    SoFar dev dev call (entry queueMode call) := by
  unfold entry
  split
  next => rfl
  next => split <;> rfl
  next => split <;> rfl
  next => rfl
  next kbin =>
    split
    next hbad => exact .inl ⟨hbad,rfl⟩
    next hsize => exact soFar_stageFrom hsize (Nat.zero_le _) (.zero dev kbin)

/-- The device but for the words copied, while a call by itself is not accepted. -/
structure Untouched (s t : State ι) (c : ι) (call : Call) : Prop where
  ring : t.ring = s.ring
  lockFree : (t.pc c).InSection → s.globalLock = none
  lockKept : ¬(t.pc c).InSection → t.globalLock = s.globalLock
  soFar : SoFar s.dev t.dev call (t.pc c)

theorem untouched_entry (queueMode : Int) (s : State ι) (c : ι) (call : Call) :
    Untouched s (s.setPc c (entry queueMode call)) c call := by
  refine ⟨rfl,fun hin => ?_,fun _ => rfl,?_⟩
  · rw [State.setPc_pc_self] at hin
    exact absurd hin (entry_not_inSection queueMode call)
  · rw [State.setPc_pc_self]
    exact soFar_entry queueMode s.dev call

/-- A step outside the section, and one inside it that changes the pc only. -/
theorem Untouched.outside {s t : State ι} {c : ι} {call : Call} {p : Pc} {dev : Device}
    (h : Untouched s t c call) (hout : ¬(t.pc c).InSection) (hp : ¬p.InSection)
    (hsoFar : SoFar s.dev dev call p) : Untouched s ({t with dev := dev}.setPc c p) c call := by
  refine ⟨h.ring,fun hin => ?_,fun _ => h.lockKept hout,?_⟩
  · rw [State.setPc_pc_self] at hin
    exact absurd hin hp
  · rwa [State.setPc_pc_self]

theorem Untouched.inside {s t : State ι} {c : ι} {call : Call} {p : Pc}
    (h : Untouched s t c call) (hin : (t.pc c).InSection) (hp : p.InSection)
    (hsoFar : SoFar s.dev t.dev call p) : Untouched s (t.setPc c p) c call := by
  refine ⟨h.ring,fun _ => h.lockFree hin,fun hout => ?_,?_⟩
  · rw [State.setPc_pc_self] at hout
    exact absurd hp hout
  · rwa [State.setPc_pc_self]

theorem untouched_step {queueMode : Int} {s t t' : State ι} {c : ι} {call : Call} {a : Action ι}
    {es : List (Event ι)} (hact : a.actor = some c) (hrule : Rule queueMode t a t' es)
    (h : (t.pc c).Writing ∨ Untouched s t c call) :
    (t'.pc c).Writing ∨ es.any (Event.publishedBy c) = true ∨ Untouched s t' c call := by
  have hat : ∀ p, t.pc c = p → ¬p.Writing → Untouched s t c call ∧ SoFar s.dev t.dev call p := by
    rintro p rfl hp
    exact ⟨h.resolve_left hp,(h.resolve_left hp).soFar⟩
  cases hrule with
  | start c' call' hpc =>
    obtain rfl := Option.some.inj hact
    exact absurd (hat _ hpc id).2 id
  | stageFault c' kbin i hpc hw =>
    obtain rfl := Option.some.inj hact
    obtain ⟨hown,rfl,hsize,hlt,hcopied⟩ := hat _ hpc id
    exact .inr (.inr (hown.outside (by simp [hpc, Pc.InSection]) id
      (.inr ⟨hsize,i,Nat.le_of_lt hlt,hcopied,fun _ => hw⟩)))
  | stageWord c' kbin i w hpc hw =>
    obtain rfl := Option.some.inj hact
    obtain ⟨hown,rfl,hsize,hlt,hcopied⟩ := hat _ hpc id
    exact .inr (.inr (hown.outside (by simp [hpc, Pc.InSection]) (stageFrom_not_inSection _ _)
      (soFar_stageFrom hsize hlt (hcopied.succ hw))))
  | lock c' job hpc hfree =>
    obtain rfl := Option.some.inj hact
    obtain ⟨hown,hsoFar⟩ := hat _ hpc id
    have hlock := hown.lockKept (by simp [hpc, Pc.InSection])
    refine .inr (.inr ⟨hown.ring,fun _ => hlock.symm.trans hfree,fun hout => ?_,?_⟩)
    · simp [Pc.InSection] at hout
    · simpa [SoFar] using hsoFar
  | readHead c' job hpc =>
    obtain rfl := Option.some.inj hact
    obtain ⟨hown,hsoFar⟩ := hat _ hpc id
    exact .inr (.inr (hown.inside (by simp [hpc, Pc.InSection]) trivial hsoFar))
  | readTailFull c' job head hpc =>
    obtain rfl := Option.some.inj hact
    obtain ⟨hown,hsoFar⟩ := hat _ hpc id
    exact .inr (.inr (hown.inside (by simp [hpc, Pc.InSection]) trivial hsoFar))
  | readTailRoom c' job head hpc =>
    obtain rfl := Option.some.inj hact
    rw [State.setPc_pc_self]
    exact .inl trivial
  | writeCmd c' job tail j hpc =>
    obtain rfl := Option.some.inj hact
    rw [State.setPc_pc_self]
    left
    split <;> trivial
  | writeTail c' job tail hpc =>
    obtain rfl := Option.some.inj hact
    exact .inr (.inl (by simp [Event.publishedBy]))
  | ringIrq c' job tail hpc | unlock c' job tail hpc =>
    obtain rfl := Option.some.inj hact
    exact absurd (hat _ hpc id).2 id
  | unlockBusy c' job hpc =>
    obtain rfl := Option.some.inj hact
    obtain ⟨hown,hsoFar⟩ := hat _ hpc id
    have hlock := hown.lockFree (by simp [hpc, Pc.InSection])
    refine .inr (.inr ⟨hown.ring,fun hin => ?_,fun _ => hlock.symm,?_⟩)
    · simp [Pc.InSection] at hin
    · simpa [SoFar] using hsoFar
  | snapshot c' hpc =>
    obtain rfl := Option.some.inj hact
    obtain ⟨hown,hsoFar⟩ := hat _ hpc id
    exact .inr (.inr (hown.outside (by simp [hpc, Pc.InSection]) id hsoFar))
  | testTrue c' target a otherwise hpc ha =>
    obtain rfl := Option.some.inj (ha.actor.symm.trans hact)
    obtain ⟨hown,hsoFar⟩ := hat _ hpc id
    exact .inr (.inr (hown.outside (by simp [hpc, Pc.InSection]) id hsoFar))
  | testFalse c' target a otherwise hpc ha =>
    obtain rfl := Option.some.inj (ha.actor.symm.trans hact)
    obtain ⟨hown,hsoFar⟩ := hat _ hpc id
    refine .inr (.inr (hown.outside (by simp [hpc, Pc.InSection]) ha.not_inSection ?_))
    cases ha <;> exact hsoFar
  | _ => simp [Action.actor] at hact

theorem untouched_run {queueMode : Int} {es : List (Event ι)} {s t : State ι} {c : ι} {call : Call}
    (hcall : (callSystem queueMode s c call).Run es t) :
    (t.pc c).Writing ∨ es.any (Event.publishedBy c) = true ∨ Untouched s t c call := by
  refine hcall.invariant (I := fun es t => (t.pc c).Writing ∨
    es.any (Event.publishedBy c) = true ∨ Untouched s t c call) ?_ ?_
  · rintro t rfl
    exact .inr (.inr (untouched_entry queueMode s c call))
  · intro es t a t' es' _ ih _ hstep
    simp only [callSystem] at hstep
    split at hstep
    next hact =>
      rw [List.any_append]
      have hnext (hown : (t.pc c).Writing ∨ Untouched s t c call) : (t'.pc c).Writing ∨
          es'.any (Event.publishedBy c) = true ∨ Untouched s t' c call :=
        untouched_step hact (rule_of_step hstep) hown
      rcases ih with hwriting | hpub | huntouched
      · exact (hnext (.inl hwriting)).imp id (.imp (fun hpub => by simp [hpub]) id)
      · exact .inr (.inl (by rw [hpub]; rfl))
      · exact (hnext (.inr huntouched)).imp id (.imp (fun hpub => by simp [hpub]) id)
    next => contradiction

/-- What the call leaves when it returns: the ring, the staging area and the lock as
they were, the last not its own, and no write of it reaches the interrupt register. -/
structure LeftAsItWas (s t : State ι) (c : ι) (es : List (Event ι)) : Prop where
  head : t.ring.head = s.ring.head
  tail : t.ring.tail = s.ring.tail
  cmds : t.ring.cmds = s.ring.cmds
  staging : t.dev.staging = s.dev.staging
  irq : irqWrites es = []
  lock : t.globalLock = s.globalLock ∧ t.globalLock ≠ some c

/-- No staging word lies on the interrupt register. -/
theorem irqWrites_of_onlyStages {queueMode : Int} {log es : List (Event ι)} {s : State ι} {c : ι}
    (h : (ringSystem ι queueMode).Run (log ++ es) s) (hactor : ∀ e ∈ es, e.actor = some c)
    (hstages : OnlyStages es c) : irqWrites es = [] := by
  apply List.filter_eq_nil_iff.mpr
  intro e he hhits
  cases e with
  | wrote c' reg v =>
    obtain rfl := Option.some.inj (hactor _ he)
    obtain ⟨i,rfl⟩ := hstages reg v he
    have hplaced := writes_placed h c' _ v (List.mem_append_right log he)
    have hirq := (hplaced.hits_irq (by simp)).mp ((hitsIrq_wrote c' _ v).mp hhits)
    contradiction
  | _ => simp [Event.hitsIrq] at hhits

/-- Among other calls, one that is refused writes staging words only and does not
keep the lock. By itself it leaves the device as it was if and only if each word that
it copied was there before. -/
theorem refused_leaves_iff {queueMode : Int} {log : List (Event ι)} {s : State ι}
    (h : (ringSystem ι queueMode).Run log s) :
    (∀ c e, s.pc c = .done (.err e) → log.any (Event.publishedBy c) = false →
      OnlyStages log c ∧ s.globalLock ≠ some c) ∧
    ∀ c call es t e, s.pc c = .ready → (callSystem queueMode s c call).Run es t →
      t.pc c = .done (.err e) → es.any (Event.publishedBy c) = false →
      (LeftAsItWas s t c es ↔ AlreadyStaged s.dev call) := by
  have hstages : ∀ {log : List (Event ι)} {s : State ι} {c e},
      (ringSystem ι queueMode).Run log s → s.pc c = .done (.err e) →
      log.any (Event.publishedBy c) = false → OnlyStages log c ∧ s.globalLock ≠ some c := by
    intro log s c e h hdone hpub
    constructor
    · rcases stages_or_publishes h c with hwriting | hpublished | hstages
      · simp [hdone, Pc.Writing] at hwriting
      · rw [hpub] at hpublished
        contradiction
      · exact hstages
    · intro hlock
      have hin := holder_inSection h c hlock
      simp [hdone, Pc.InSection] at hin
  refine ⟨fun c e => hstages h,fun c call es t e hready hcall hdone hpub => ?_⟩
  have hrun := callSystem_run h hready hcall
  have hfresh : log.any (Event.publishedBy c) = false := by
    have hinv := callInv_run h c
    rw [hready] at hinv
    exact hinv.1.1
  obtain ⟨honly,hlock⟩ := hstages hrun hdone (by simp [List.any_append, hfresh, hpub,
    Event.publishedBy])
  have hnew : OnlyStages es c := fun reg v hmem => honly reg v (List.mem_append_right _ hmem)
  have huntouched : Untouched s t c call := by
    rcases untouched_run hcall with hwriting | hpublished | huntouched
    · simp [hdone, Pc.Writing] at hwriting
    · rw [hpub] at hpublished
      contradiction
    · exact huntouched
  have hsoFar := huntouched.soFar
  have hkept := huntouched.lockKept (by simp [hdone, Pc.InSection])
  rw [hdone] at hsoFar
  rw [← copyOver_iff hsoFar]
  constructor
  · exact LeftAsItWas.staging
  · intro hsame
    have hring := huntouched.ring
    exact ⟨congrArg RingBuffer.head hring,congrArg RingBuffer.tail hring,
      congrArg RingBuffer.cmds hring,hsame,
      irqWrites_of_onlyStages hrun (callSystem_actor hcall) hnew,hkept,hlock⟩

/-- A program of two words, the second of which cannot be read. -/
def halfRead (w : UInt32) : Call :=
  .loadKernel (some ⟨fun i => if i = 0 then some w else none,2,1⟩)

/-- Call 0 loads a word; its descriptor is in the ring, and the firmware has not run. -/
def loadPublished : List (Action Nat) :=
  [.start 0 (.loadKernel (some ⟨fun _ => some 7,1,1⟩)),.access 0] ++ sectionSteps 0

theorem loadPublished_runs :
    ((ringSystem Nat 0).exec (probed Nat) loadPublished).isSome = true := by
  decide

/-- The device in which a load is pending. -/
def loadPending : State Nat :=
  (((ringSystem Nat 0).exec (probed Nat) loadPublished).get loadPublished_runs).1

theorem loadPending_run : ∃ log, (ringSystem Nat 0).Run log loadPending ∧
    PendingLoad log 0 ⟨fun _ => some 7,1,1⟩ := by
  have hrun := System.Run.of_exec (S := ringSystem Nat 0) (probed_init Nat) loadPublished
    loadPublished_runs
  exact ⟨_,hrun,0,by decide,rfl⟩

theorem halfRead_seven_runs : ((callSystem 0 loadPending 1 (halfRead 7)).exec
    (loadPending.setPc 1 (entry 0 (halfRead 7))) [.access 1,.access 1]).isSome = true := by
  decide

theorem halfRead_seven_staged : AlreadyStaged loadPending.dev (halfRead 7) := by
  intro _ j hj hread
  have hsize : j < 2 := hj
  rcases (by omega : j = 0 ∨ j = 1) with rfl | rfl
  · decide
  · exact absurd (hread 1 (Nat.le_refl 1)) (by decide)

/-- A call refused with -EFAULT has written the word of a pending load over itself. -/
theorem refused_leaves_pending : ∃ log es t, (ringSystem Nat 0).Run log loadPending ∧
    PendingLoad log 0 ⟨fun _ => some 7,1,1⟩ ∧
    (callSystem 0 loadPending 1 (halfRead 7)).Run es t ∧ t.pc 1 = .done (.err .EFAULT) ∧
    .wrote 1 (.staging 0) 7 ∈ es ∧ LeftAsItWas loadPending t 1 es := by
  obtain ⟨log,hload,hpending⟩ := loadPending_run
  have hrun := System.Run.of_exec (S := callSystem 0 loadPending 1 (halfRead 7)) rfl
    [.access 1,.access 1] halfRead_seven_runs
  refine ⟨log,_,_,hload,hpending,hrun,rfl,List.mem_cons_self,?_⟩
  exact ((refused_leaves_iff hload).2 1 _ _ _ _ rfl hrun rfl (by decide)).mpr
    halfRead_seven_staged

theorem halfRead_nine_runs : ((callSystem 0 loadPending 1 (halfRead 9)).exec
    (loadPending.setPc 1 (entry 0 (halfRead 9))) [.access 1,.access 1]).isSome = true := by
  decide

/-- A call refused with -EFAULT has replaced the word of a pending load. -/
theorem refused_load_replaces_word : ∃ log es t, (ringSystem Nat 0).Run log loadPending ∧
    PendingLoad log 0 ⟨fun _ => some 7,1,1⟩ ∧
    (callSystem 0 loadPending 1 (halfRead 9)).Run es t ∧ t.pc 1 = .done (.err .EFAULT) ∧
    es.any (Event.publishedBy 1) = false ∧ loadPending.dev.staging 0 = 7 ∧
    t.dev.staging 0 = 9 ∧ ¬LeftAsItWas loadPending t 1 es := by
  obtain ⟨log,hload,hpending⟩ := loadPending_run
  have hrun := System.Run.of_exec (S := callSystem 0 loadPending 1 (halfRead 9)) rfl
    [.access 1,.access 1] halfRead_nine_runs
  refine ⟨log,_,_,hload,hpending,hrun,rfl,by decide,by decide,by decide,fun hleft => ?_⟩
  have hword := congrFun hleft.staging 0
  exact absurd hword (by decide)

end FpgaGpu.Driver
