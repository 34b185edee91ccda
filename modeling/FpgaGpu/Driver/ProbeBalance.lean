import FpgaGpu.Driver.ProbeLedger
import FpgaGpu.Library.History

/-! Probe and remove on any number of devices: between calls exactly the bound
devices hold anything, as long as no probe fails where its label does not fit. -/
namespace FpgaGpu.Driver
open Library

variable {δ : Type} [DecidableEq δ] {P : Platform δ}

/-- What an event says about a device being bound. -/
def DriverEvent.bindsTo (pdev : δ) : DriverEvent δ → Option Bool
  | .probeReturned p result => if p = pdev then some (decide (result = 0)) else none
  | .removeReturned p => if p = pdev then some false else none
  | _ => none

/-- The last probe of the device returned 0, and it was not removed since. -/
def BoundIn (log : List (DriverEvent δ)) (pdev : δ) : Prop :=
  lastOf (DriverEvent.bindsTo pdev) log = some true

def PciPhase.Attached : PciPhase → Prop
  | .bound _ | .removing _ _ => True
  | _ => False

theorem boundIn_append {log es : List (DriverEvent δ)} {pdev : δ}
    (h : ∀ e ∈ es, e.bindsTo pdev = none) : BoundIn (log ++ es) pdev ↔ BoundIn log pdev := by
  have hnone : lastOf (DriverEvent.bindsTo pdev) es = none := by
    unfold lastOf
    rw [List.filterMap_eq_nil_iff.mpr h]
    rfl
  unfold BoundIn
  rw [lastOf_append, hnone, Option.none_or]

theorem bound_run {log : List (DriverEvent δ)} {s : DriverState δ}
    (h : (driverSystem P).Run log s) : ∀ pdev, BoundIn log pdev ↔ (s.phase pdev).Attached := by
  refine h.invariant (I := fun log s => ∀ pdev, BoundIn log pdev ↔ (s.phase pdev).Attached) ?_ ?_
  · intro s hs pdev
    rw [hs]
    exact ⟨fun h => by contradiction,fun h => h.elim⟩
  · intro log s a s' es hrun ih _ hstep
    -- a step of one device that says nothing about being bound
    have hquiet : ∀ {t : DriverState δ} {pdev p p'}, t.phase = s.phase → s.phase pdev = p →
        (p'.Attached ↔ p.Attached) → (∀ e ∈ es, ∀ q, e.bindsTo q = none) →
        ∀ q, BoundIn (log ++ es) q ↔ ((t.goto pdev p').phase q).Attached := by
      intro t pdev p p' ht hphase hsame hes q
      rw [boundIn_append fun e he => hes e he q, ih q]
      by_cases hq : q = pdev
      · subst hq
        rw [DriverState.goto_phase_self, hphase]
        exact hsame.symm
      · rw [DriverState.goto_phase_other t p' hq, ht]
    -- a call that returns
    have hreturn : ∀ {pdev p' e b}, es = [e] →
        (∀ q, DriverEvent.bindsTo q e = if pdev = q then some b else none) →
        (p'.Attached ↔ b = true) →
        ∀ q, BoundIn (log ++ es) q ↔ ((s.goto pdev p').phase q).Attached := by
      intro pdev p' e b hes hbinds hb q
      subst hes
      by_cases hq : q = pdev
      · subst hq
        rw [DriverState.goto_phase_self]
        unfold BoundIn
        rw [lastOf_append]
        simp [lastOf, hbinds, hb]
      · rw [DriverState.goto_phase_other s p' hq, ← ih q]
        apply boundIn_append
        intro e' he'
        rw [List.mem_singleton] at he'
        rw [he', hbinds]
        exact if_neg fun heq => hq heq.symm
    cases driverRule_of_step hstep with
    | probe pdev hphase => exact hquiet rfl hphase Iff.rfl (by simp)
    | remove pdev d hphase => exact hquiet rfl hphase Iff.rfl (by simp)
    | kzalloc pdev d hphase =>
      exact hquiet (t := {s with held := _,nextAddr := _}) rfl hphase Iff.rfl
        (by simp [DriverEvent.bindsTo])
    | minor pdev d hphase =>
      exact hquiet (t := {s with minorCounter := _}) rfl hphase Iff.rfl (by simp)
    | noMinor pdev d hphase =>
      exact hquiet (t := {s with minorCounter := _}) rfl hphase Iff.rfl (by simp)
    | silent pdev d step step' hphase => exact hquiet rfl hphase Iff.rfl (by simp)
    | acquire pdev d step step' kind hphase =>
      exact hquiet (t := {s with held := _}) rfl hphase Iff.rfl (by simp [DriverEvent.bindsTo])
    | finish pdev d hphase =>
      exact hreturn rfl (fun q => rfl) (by simp [PciPhase.Attached])
    | failed pdev d step e hphase => exact hquiet rfl hphase Iff.rfl (by simp)
    | release pdev d step p p' hphase hpops =>
      apply hquiet (release_phase P s pdev d step) hphase
      · cases hpops <;> rfl
      · unfold DriverState.release
        split
        next => simp
        next =>
          simp only
          split <;> simp [DriverEvent.bindsTo]
    | failedReturn pdev d result hphase =>
      have hsound : (PciPhase.unwinding d [] result).Sound := hphase ▸ sound_run hrun pdev
      exact hreturn rfl (fun q => rfl) (by simp [PciPhase.Attached, Int.ne_of_lt hsound.1])
    | removed pdev d hphase =>
      exact hreturn rfl (fun q => rfl) (by simp [PciPhase.Attached])

/-- No probe fails at a statement whose label does not fit. -/
def LabelFits (_ : List (DriverEvent δ)) (s : DriverState δ) (a : DriverAction δ) : Prop :=
  ∀ pdev e d step, a = .step pdev (some e) → s.phase pdev = .probing d step → step.leaks = false

theorem ledger_all {log : List (DriverEvent δ)} {s : DriverState δ}
    (h : (driverSystem P).RunWith LabelFits log s) : LedgerInv (fun _ => true) P log s := by
  refine ledger_run rfl ?_ h
  intro log s pdev e d step hok hphase hfallible d' hd'
  rw [label_drops hd' (.inl hfallible) (hok pdev e d step rfl hphase)]

/-- No call of probe or remove is going on. -/
def DriverState.BetweenCalls (s : DriverState δ) : Prop :=
  ∀ pdev, s.phase pdev = .unbound ∨ ∃ d, s.phase pdev = .bound d

/-- Nothing is released that is not handed out, no handler is registered for a
struct that was freed, and between calls the bound devices hold the eleven
resources each, once, and nothing else is held. -/
theorem resources_balance {log : List (DriverEvent δ)} {s : DriverState δ}
    (h : (driverSystem P).RunWith LabelFits log s) :
    (∀ r, .stray r ∉ log) ∧
      (∀ addr, ⟨.irqHandler,.dev addr⟩ ∈ s.held → ⟨.dev,.dev addr⟩ ∈ s.held) ∧
      (s.BetweenCalls → s.held.Nodup ∧
        (∀ pdev, BoundIn log pdev ↔ ∃ d, s.phase pdev = .bound d) ∧
        ∀ r, r ∈ s.held ↔ ∃ pdev d k,
          BoundIn log pdev ∧ s.phase pdev = .bound d ∧ r = Kind.resource P pdev d k) := by
  have hledger := ledger_all h
  refine ⟨fun r => hledger.no_stray r rfl,?_,fun hbetween => ?_⟩
  · intro addr hheld
    obtain ⟨q,hk,howner⟩ := hledger.owner rfl hheld
    have haddr : addr = (s.phase q).dev.addr := Owner.dev.inj howner
    rw [haddr]
    exact hledger.held ((sound_run h.run q).dev_mem hk rfl) rfl
  · have hbound : ∀ pdev, BoundIn log pdev ↔ ∃ d, s.phase pdev = .bound d := by
      intro pdev
      rw [bound_run h.run pdev]
      rcases hbetween pdev with hphase | ⟨d,hphase⟩
      · rw [hphase]
        simp [PciPhase.Attached]
      · rw [hphase]
        simp [PciPhase.Attached]
    have hnodup := hledger.shares.nodup
    rw [DriverState.heldOf, List.filter_true] at hnodup
    refine ⟨hnodup,hbound,?_⟩
    intro r
    constructor
    · intro hheld
      obtain ⟨q,hk,howner⟩ := hledger.owner rfl hheld
      rcases hbetween q with hphase | ⟨d,hphase⟩
      · rw [hphase] at hk
        contradiction
      · refine ⟨q,d,r.kind,(hbound q).mpr ⟨d,hphase⟩,hphase,?_⟩
        rw [hphase] at howner
        exact congrArg (Resource.mk r.kind) howner
    · rintro ⟨q,d,k,-,hphase,rfl⟩
      have hk : k ∈ (s.phase q).kinds := by
        rw [hphase]
        exact mem_allKinds k
      have hheld := hledger.held hk rfl
      rwa [hphase] at hheld

/-- Two devices with interrupts 40 and 41. -/
def twoDevices : Platform (Fin 2) := ⟨240,fun pdev => 40 + pdev,fun _ => by simp⟩

/-- Both devices are probed, the first cannot get its descriptor ring. -/
def probeTwo : List (DriverAction (Fin 2)) :=
  .probe 0 :: .probe 1 ::
    (List.replicate 8 (.step 0 none) ++ [.step 0 (some enomem)] ++
      List.replicate 16 (.step 1 none) ++ List.replicate 9 (.step 0 none))

def labelFits (s : DriverState (Fin 2)) : DriverAction (Fin 2) → Bool
  | .step pdev (some _) =>
      match s.phase pdev with
      | .probing _ step => !step.leaks
      | _ => true
  | _ => true

theorem labelFits_sound (log : List (DriverEvent (Fin 2))) (s : DriverState (Fin 2))
    (a : DriverAction (Fin 2)) (h : labelFits s a = true) : LabelFits log s a := by
  intro pdev e d step ha hphase
  subst ha
  simpa [labelFits, hphase] using h

theorem probeTwo_runs :
    (((driverSystem twoDevices).guarded labelFits).exec (loaded _) probeTwo).isSome = true := by
  decide +kernel

theorem probeTwo_ends :
    let s := ((((driverSystem twoDevices).guarded labelFits).exec (loaded _) probeTwo).get
      probeTwo_runs).1
    s.phase 0 = .unbound ∧ s.phase 1 = .bound ⟨1,1,true,true,41,true,true⟩ ∧
      s.held.length = 11 := by
  decide +kernel

theorem resources_balance_two : ∃ log s, (driverSystem twoDevices).RunWith LabelFits log s ∧
    s.held.length = 11 ∧ BoundIn log 1 ∧ ¬BoundIn log 0 ∧ (∀ r, .stray r ∉ log) ∧
      ∀ r, r ∈ s.held ↔ ∃ pdev d k, BoundIn log pdev ∧ s.phase pdev = .bound d ∧
        r = Kind.resource twoDevices pdev d k := by
  have hrun := System.RunWith.of_guarded_exec (S := driverSystem twoDevices) rfl probeTwo
    probeTwo_runs labelFits_sound
  have hends := probeTwo_ends
  generalize (((driverSystem twoDevices).guarded labelFits).exec (loaded _) probeTwo).get
    probeTwo_runs = r at hrun hends
  obtain ⟨hzero,hone,hlength⟩ := hends
  have hbetween : r.1.BetweenCalls := by
    intro pdev
    rcases (by decide : ∀ pdev : Fin 2, pdev = 0 ∨ pdev = 1) pdev with rfl | rfl
    · exact .inl hzero
    · exact .inr ⟨_,hone⟩
  have hbalance := resources_balance hrun
  obtain ⟨-,hbound,hheld⟩ := hbalance.2.2 hbetween
  refine ⟨_,_,hrun,hlength,(hbound 1).mpr ⟨_,hone⟩,?_,hbalance.1,hheld⟩
  rw [hbound 0, hzero]
  simp

/-- The first device cannot add its cdev. -/
def failCdev : List (DriverAction (Fin 2)) :=
  .probe 0 :: (List.replicate 13 (.step 0 none) ++ [.step 0 (some enomem)] ++
    List.replicate 7 (.step 0 none))

theorem failCdev_runs : ((driverSystem twoDevices).exec (loaded _) failCdev).isSome = true := by
  decide +kernel

theorem failCdev_ends :
    let s := (((driverSystem twoDevices).exec (loaded _) failCdev).get failCdev_runs).1
    s.phase 0 = .unbound ∧ s.phase 1 = .unbound ∧
      s.held = [⟨.irqHandler,.dev 0⟩,⟨.pinnedPages,.dev 0⟩,⟨.descRing,.dev 0⟩] := by
  decide +kernel

theorem failed_cdev_add_leaks : ∃ log s, (driverSystem twoDevices).Run log s ∧ s.BetweenCalls ∧
    (∀ pdev, ¬BoundIn log pdev) ∧ ⟨.irqHandler,.dev 0⟩ ∈ s.held ∧ ⟨.dev,.dev 0⟩ ∉ s.held := by
  have hrun := System.Run.of_exec (S := driverSystem twoDevices) rfl failCdev failCdev_runs
  have hends := failCdev_ends
  generalize ((driverSystem twoDevices).exec (loaded _) failCdev).get failCdev_runs = r
    at hrun hends
  obtain ⟨hzero,hone,hheld⟩ := hends
  have hunbound : ∀ pdev, r.1.phase pdev = .unbound := by
    intro pdev
    rcases (by decide : ∀ pdev : Fin 2, pdev = 0 ∨ pdev = 1) pdev with rfl | rfl
    · exact hzero
    · exact hone
  refine ⟨_,_,hrun,fun pdev => .inl (hunbound pdev),?_,?_,?_⟩
  · intro pdev
    rw [bound_run hrun pdev, hunbound pdev]
    exact id
  · rw [hheld]
    decide
  · rw [hheld]
    decide

end FpgaGpu.Driver
