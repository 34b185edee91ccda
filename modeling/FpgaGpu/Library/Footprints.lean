import FpgaGpu.Library.System

/-! Processes on one store, each of which keeps to names of its own: what one of them
does among the others it would do alone. -/
namespace FpgaGpu.Library

variable {ι σ ν β α ε : Type}

/-- A process with the store it works on. -/
structure Solo (σ ν β : Type) where
  own : σ
  store : ν → β

/-- Many of them, with one store. -/
structure Shared (ι σ ν β : Type) where
  own : ι → σ
  store : ν → β

abbrev Behaviour (ι σ ν β α ε : Type) := ι → Solo σ ν β → α → Option (Solo σ ν β × List ε)

/-- No name has two owners, and a process neither writes nor reads what it does not own. -/
structure Confined (owns : ι → ν → Prop) (step : Behaviour ι σ ν β α ε) : Prop where
  apart : ∀ p q name, owns p name → owns q name → p = q
  writes : ∀ p s a s' es name, step p s a = some (s',es) → ¬owns p name →
    s'.store name = s.store name
  reads : ∀ p s a s' es store, step p s a = some (s',es) →
    (∀ name, owns p name → store name = s.store name) →
    ∃ store', step p ⟨s.own,store⟩ a = some (⟨s'.own,store'⟩,es) ∧
      ∀ name, owns p name → store' name = s'.store name

inductive SharedAction (ι ν β α : Type) where
  | process (p : ι) (a : α)
  | other (name : ν) (value : β)

/-- One process by itself. -/
def soloSystem (start : σ → Prop) (store₀ : ν → β)
    (step : Solo σ ν β → α → Option (Solo σ ν β × List ε)) : System (Solo σ ν β) α ε where
  init s := start s.own ∧ s.store = store₀
  step := step

/-- The rest of the world writes to names that no process owns. -/
def Respects (owns : ι → ν → Prop) (ok : α → Prop) (_ : List (ι × ε)) (_ : Shared ι σ ν β) :
    SharedAction ι ν β α → Prop
  | .process _ a => ok a
  | .other name _ => ∀ p, ¬owns p name

variable [DecidableEq ι]

/-- What process `p` has made visible. -/
def eventsOf (p : ι) (log : List (ι × ε)) : List ε :=
  log.filterMap fun e => if e.1 = p then some e.2 else none

@[simp] theorem eventsOf_append (p : ι) (log es : List (ι × ε)) :
    eventsOf p (log ++ es) = eventsOf p log ++ eventsOf p es := List.filterMap_append ..

theorem mem_eventsOf {p : ι} {e : ε} {log : List (ι × ε)} :
    e ∈ eventsOf p log ↔ (p,e) ∈ log := by
  constructor
  · intro h
    obtain ⟨⟨q,e'⟩,hmem,heq⟩ := List.mem_filterMap.mp h
    split at heq
    next hq =>
      obtain rfl := Option.some.inj heq
      exact hq ▸ hmem
    next => contradiction
  · intro h
    exact List.mem_filterMap.mpr ⟨(p,e),h,if_pos rfl⟩

theorem eventsOf_self (p : ι) (es : List ε) : eventsOf p (es.map (Prod.mk p)) = es := by
  induction es with
  | nil => rfl
  | cons e es ih =>
    rw [eventsOf] at ih ⊢
    rw [List.map_cons, List.filterMap_cons, ih]
    simp

theorem eventsOf_other {p q : ι} (h : q ≠ p) (es : List ε) :
    eventsOf p (es.map (Prod.mk q)) = [] := by
  simp [eventsOf, h]

variable [DecidableEq ν]

def Shared.step (step : Behaviour ι σ ν β α ε) (s : Shared ι σ ν β) :
    SharedAction ι ν β α → Option (Shared ι σ ν β × List (ι × ε))
  | .process p a =>
      match step p ⟨s.own p,s.store⟩ a with
      | none => none
      | some (t,es) => some (⟨Function.update s.own p t.own,t.store⟩,es.map (Prod.mk p))
  | .other name value => some ({s with store := Function.update s.store name value},[])

def sharedSystem (start : ι → σ → Prop) (store₀ : ν → β) (step : Behaviour ι σ ν β α ε) :
    System (Shared ι σ ν β) (SharedAction ι ν β α) (ι × ε) where
  init s := (∀ p, start p (s.own p)) ∧ s.store = store₀
  step := Shared.step step

/-- Whatever the others do, a confined process makes a run of its own. -/
theorem Confined.alone {owns : ι → ν → Prop} {start : ι → σ → Prop} {store₀ : ν → β}
    {step : Behaviour ι σ ν β α ε} {ok : α → Prop} (hconf : Confined owns step)
    {log : List (ι × ε)} {s : Shared ι σ ν β}
    (h : (sharedSystem start store₀ step).RunWith (Respects owns ok) log s) (p : ι) :
    ∃ store, (soloSystem (start p) store₀ (step p)).RunWith (fun _ _ a => ok a) (eventsOf p log)
      ⟨s.own p,store⟩ ∧ ∀ name, owns p name → store name = s.store name := by
  induction h with
  | init hs => exact ⟨store₀,.init ⟨hs.1 p,rfl⟩,fun name _ => (congrFun hs.2 name).symm⟩
  | @step log s a s' es hrun hok hstep ih =>
    obtain ⟨store,hsolo,hsame⟩ := ih
    cases a with
    | other name value =>
      cases hstep
      refine ⟨store,by simpa [eventsOf] using hsolo,fun name' hname' => ?_⟩
      have hne : name' ≠ name := by
        rintro rfl
        exact hok p hname'
      simpa [Function.update_of_ne hne] using hsame name' hname'
    | process q a =>
      simp only [sharedSystem, Shared.step] at hstep
      split at hstep
      next => contradiction
      next t es' hown =>
        cases hstep
        rw [eventsOf_append]
        by_cases hq : q = p
        · subst hq
          obtain ⟨store',hstep',hsame'⟩ := hconf.reads _ _ _ _ _ _ hown hsame
          rw [eventsOf_self]
          simp only [Function.update_self]
          exact ⟨store',.step hsolo hok hstep',hsame'⟩
        · rw [eventsOf_other hq, List.append_nil]
          simp only [Function.update_of_ne (Ne.symm hq)]
          refine ⟨store,hsolo,fun name hname => ?_⟩
          have hother : ¬owns q name := fun hbad => hq (hconf.apart q p name hbad hname)
          exact (hsame name hname).trans (hconf.writes _ _ _ _ _ _ hown hother).symm

end FpgaGpu.Library
