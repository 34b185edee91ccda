import Mathlib.Logic.Function.Basic

/-! Step functions with visible events, and the runs they have. A run keeps the
events made so far, so that a property of a history is a property of a list. -/
namespace FpgaGpu.Library

/-- A step that is not enabled gives `none`; an enabled one gives the next
state and, in order, the events it makes visible. -/
structure System (σ α ε : Type) where
  init : σ → Prop
  step : σ → α → Option (σ × List ε)

variable {σ τ α β ε δ : Type}

/-- The runs all of whose steps satisfy `ok`, which may look at the history,
the state before the step and the action. -/
inductive System.RunWith (S : System σ α ε) (ok : List ε → σ → α → Prop) :
    List ε → σ → Prop where
  | init : S.init s → S.RunWith ok [] s
  | step : S.RunWith ok log s → ok log s a → S.step s a = some (s',es) →
      S.RunWith ok (log ++ es) s'

/-- Runs without any restriction on their steps. -/
abbrev System.Run (S : System σ α ε) : List ε → σ → Prop :=
  S.RunWith fun _ _ _ => True

theorem System.Run.next {S : System σ α ε} (h : S.Run log s)
    (hstep : S.step s a = some (s',es)) : S.Run (log ++ es) s' :=
  .step h trivial hstep

theorem System.RunWith.mono {S : System σ α ε} {ok ok' : List ε → σ → α → Prop}
    (himp : ∀ log s a, S.RunWith ok log s → ok log s a → ok' log s a)
    (h : S.RunWith ok log s) : S.RunWith ok' log s := by
  induction h with
  | init hs => exact .init hs
  | step hrun hok hstep ih => exact .step ih (himp _ _ _ hrun hok) hstep

theorem System.RunWith.run {S : System σ α ε} {ok : List ε → σ → α → Prop}
    (h : S.RunWith ok log s) : S.Run log s :=
  h.mono fun _ _ _ _ _ => trivial

/-- The invariant rule. A step may use that the state it starts from is
reachable, hence every invariant proved before. -/
theorem System.RunWith.invariant {S : System σ α ε} {ok : List ε → σ → α → Prop}
    {I : List ε → σ → Prop} (hinit : ∀ s, S.init s → I [] s)
    (hstep : ∀ log s a s' es, S.RunWith ok log s → I log s → ok log s a →
      S.step s a = some (s',es) → I (log ++ es) s')
    (h : S.RunWith ok log s) : I log s := by
  induction h with
  | init hs => exact hinit _ hs
  | step hrun hok hs ih => exact hstep _ _ _ _ _ hrun ih hok hs

/-- An event of a history that has grown is an old one or a new one. -/
theorem cut_append {log es pre post : List ε} {e : ε} (h : log ++ es = pre ++ e :: post) :
    (∃ post', log = pre ++ e :: post' ∧ post = post' ++ es) ∨
      ∃ es', es = es' ++ e :: post ∧ pre = log ++ es' := by
  rcases List.append_eq_append_iff.mp h with ⟨mid,hpre,hes⟩ | ⟨mid,hlog,hmid⟩
  · exact .inr ⟨mid,hes,hpre⟩
  · cases mid with
    | nil => exact .inr ⟨[],hmid.symm,by simpa using hlog.symm⟩
    | cons x mid =>
      obtain ⟨rfl,hpost⟩ := List.cons.inj hmid
      exact .inl ⟨mid,hlog,hpost⟩

/-- What every single step guarantees of the events it adds holds of all
events of a run. -/
theorem System.RunWith.event_of_step {S : System σ α ε} {ok : List ε → σ → α → Prop}
    {P : List ε → ε → Prop}
    (hstep : ∀ log s a s' es, S.RunWith ok log s → ok log s a →
      S.step s a = some (s',es) → ∀ pre e post, es = pre ++ e :: post → P (log ++ pre) e)
    (h : S.RunWith ok log s) : ∀ pre e post, log = pre ++ e :: post → P pre e := by
  induction h with
  | init => intro pre e post h; simp at h
  | @step log s a s' es hrun hok hs ih =>
    intro pre e post heq
    rcases cut_append heq with ⟨post',hlog,-⟩ | ⟨es',hes,rfl⟩
    · exact ih pre e post' hlog
    · exact hstep _ _ _ _ _ hrun hok hs es' e post hes

/-- A run as another system sees it, which knows less of the states and of the events:
what it cannot do in one step it does not notice. -/
theorem System.RunWith.image {C : System σ α ε} {A : System τ β δ}
    {ok : List ε → σ → α → Prop} {ok' : List δ → τ → β → Prop} (view : σ → τ) (f : ε → Option δ)
    (hinit : ∀ s, C.init s → A.init (view s))
    (hstep : ∀ log s a s' es, C.RunWith ok log s → ok log s a → C.step s a = some (s',es) →
      (view s' = view s ∧ es.filterMap f = []) ∨
        ∃ b, ok' (log.filterMap f) (view s) b ∧ A.step (view s) b = some (view s',es.filterMap f))
    (h : C.RunWith ok log s) : A.RunWith ok' (log.filterMap f) (view s) := by
  induction h with
  | init hs => exact .init (hinit _ hs)
  | step hrun hok hs ih =>
    rw [List.filterMap_append]
    rcases hstep _ _ _ _ _ hrun hok hs with ⟨hview,hes⟩ | ⟨b,hb,hs'⟩
    · rwa [hview, hes, List.append_nil]
    · exact .step ih hb hs'

/-- Executing a list of actions one after the other. -/
def System.exec (S : System σ α ε) : σ → List α → Option (σ × List ε)
  | s, [] => some (s,[])
  | s, a :: rest =>
      match S.step s a with
      | none => none
      | some (s₁,es) =>
        match S.exec s₁ rest with
        | none => none
        | some (s₂,es') => some (s₂,es ++ es')

theorem System.RunWith.exec {S : System σ α ε} {ok : List ε → σ → α → Prop}
    (h : S.RunWith ok log s) (acts : List α) (hok : ∀ a ∈ acts, ∀ log s, ok log s a)
    (hexec : S.exec s acts = some (s',es)) : S.RunWith ok (log ++ es) s' := by
  induction acts generalizing s log es with
  | nil =>
    obtain ⟨rfl,rfl⟩ := Prod.mk.inj (Option.some.inj hexec)
    simpa using h
  | cons a rest ih =>
    rw [System.exec] at hexec
    cases hs : S.step s a with
    | none => simp [hs] at hexec
    | some p =>
      obtain ⟨s₁,es₁⟩ := p
      cases hr : S.exec s₁ rest with
      | none => simp [hs, hr] at hexec
      | some q =>
        simp only [hs, hr] at hexec
        obtain ⟨rfl,rfl⟩ := Prod.mk.inj (Option.some.inj hexec)
        rw [← List.append_assoc]
        exact ih (.step h (hok a List.mem_cons_self _ _) hs)
          (fun a ha => hok a (List.mem_cons_of_mem _ ha)) hr

theorem System.Run.exec {S : System σ α ε} (h : S.Run log s) (acts : List α)
    (hexec : S.exec s acts = some (s',es)) : S.Run (log ++ es) s' :=
  RunWith.exec h acts (fun _ _ _ _ => trivial) hexec

/-- A run goes on with any list of actions that can be executed. -/
theorem System.RunWith.continue {S : System σ α ε} {ok : List ε → σ → α → Prop}
    (h : S.RunWith ok log s) (acts : List α) (hok : ∀ a ∈ acts, ∀ log s, ok log s a)
    (hexec : (S.exec s acts).isSome) :
    S.RunWith ok (log ++ ((S.exec s acts).get hexec).2) ((S.exec s acts).get hexec).1 :=
  h.exec acts hok (Option.some_get hexec).symm

/-- A list of actions that can be executed from an initial state is a run. -/
theorem System.Run.of_exec {S : System σ α ε} (hs : S.init s) (acts : List α)
    (hexec : (S.exec s acts).isSome) :
    S.Run ((S.exec s acts).get hexec).2 ((S.exec s acts).get hexec).1 := by
  have hrun : S.Run [] s := .init hs
  simpa using hrun.continue acts (fun _ _ _ _ => trivial) hexec

/-- The system that makes only the steps that pass a test. -/
def System.guarded (S : System σ α ε) (check : σ → α → Bool) : System σ α ε where
  init := S.init
  step s a := if check s a then S.step s a else none

theorem System.RunWith.of_guarded {S : System σ α ε} {check : σ → α → Bool}
    (h : (S.guarded check).Run log s) : S.RunWith (fun _ s a => check s a = true) log s := by
  induction h with
  | init hs => exact .init hs
  | @step log s a s' es _ _ hstep ih =>
    rw [System.guarded] at hstep
    simp only at hstep
    split at hstep
    next hcheck => exact .step ih hcheck hstep
    next => contradiction

/-- A list of actions that can be executed and pass the test is a run under any
condition that the test ensures. -/
theorem System.RunWith.of_guarded_exec {S : System σ α ε} {check : σ → α → Bool}
    {ok : List ε → σ → α → Prop} (hs : S.init s) (acts : List α)
    (hexec : ((S.guarded check).exec s acts).isSome)
    (hcheck : ∀ log s a, check s a = true → ok log s a) :
    S.RunWith ok (((S.guarded check).exec s acts).get hexec).2
      (((S.guarded check).exec s acts).get hexec).1 := by
  have hrun : (S.guarded check).Run _ _ := Run.of_exec (S := S.guarded check) hs acts hexec
  exact (of_guarded hrun).mono fun log s a _ => hcheck log s a

/-- The system whose states keep the history of the run. -/
def System.recorded (S : System σ α ε) : System (List ε × σ) α ε where
  init s := s.1 = [] ∧ S.init s.2
  step s a := (S.step s.2 a).map fun r => ((s.1 ++ r.2,r.1),r.2)

theorem System.RunWith.of_recorded {S : System σ α ε} {check : List ε × σ → α → Bool}
    {s : List ε × σ} (h : (S.recorded.guarded check).Run log s) :
    log = s.1 ∧ S.RunWith (fun log s a => check (log,s) a = true) s.1 s.2 := by
  have hrun := of_guarded h
  clear h
  induction hrun with
  | init hs => exact ⟨hs.1.symm,hs.1 ▸ .init hs.2⟩
  | @step log s a s' es _ hcheck hstep ih =>
    obtain ⟨rfl,hrun⟩ := ih
    obtain ⟨⟨s₁,es₁⟩,hs,heq⟩ := Option.map_eq_some_iff.mp hstep
    obtain ⟨rfl,rfl⟩ := Prod.mk.inj heq
    exact ⟨rfl,.step hrun hcheck hs⟩

/-- The same as `of_guarded_exec`, with a test that may look at the history. -/
theorem System.RunWith.of_recorded_exec {S : System σ α ε} {check : List ε × σ → α → Bool}
    {ok : List ε → σ → α → Prop} (hs : S.init s) (acts : List α)
    (hexec : ((S.recorded.guarded check).exec ([],s) acts).isSome)
    (hcheck : ∀ log s a, check (log,s) a = true → ok log s a) :
    S.RunWith ok (((S.recorded.guarded check).exec ([],s) acts).get hexec).1.1
      (((S.recorded.guarded check).exec ([],s) acts).get hexec).1.2 := by
  have hrun : (S.recorded.guarded check).Run _ _ :=
    Run.of_exec (S := S.recorded.guarded check) ⟨rfl,hs⟩ acts hexec
  exact (of_recorded hrun).2.mono fun log s a _ => hcheck log s a

/-- A concrete system refines an abstract one when a relation between their
histories and states is established at the start and every concrete step is
answered by some list of abstract steps. -/
structure Refinement (C : System σ α ε) (A : System τ β δ)
    (R : List ε → σ → List δ → τ → Prop) : Prop where
  init : ∀ s, C.init s → ∃ t, A.init t ∧ R [] s [] t
  step : ∀ log s a s' es dlog t, C.Run log s → A.Run dlog t → R log s dlog t →
    C.step s a = some (s',es) →
    ∃ acts t' ds, A.exec t acts = some (t',ds) ∧ R (log ++ es) s' (dlog ++ ds) t'

/-- Every concrete run has an abstract run related to it. -/
theorem Refinement.run {C : System σ α ε} {A : System τ β δ}
    {R : List ε → σ → List δ → τ → Prop} (r : Refinement C A R) (h : C.Run log s) :
    ∃ dlog t, A.Run dlog t ∧ R log s dlog t := by
  induction h with
  | init hs =>
    obtain ⟨t,ht,hR⟩ := r.init _ hs
    exact ⟨[],t,.init ht,hR⟩
  | step hrun _ hs ih =>
    obtain ⟨dlog,t,ht,hR⟩ := ih
    obtain ⟨acts,t',ds,hexec,hR'⟩ := r.step _ _ _ _ _ _ _ hrun ht hR hs
    exact ⟨dlog ++ ds,t',ht.exec acts hexec,hR'⟩

end FpgaGpu.Library
