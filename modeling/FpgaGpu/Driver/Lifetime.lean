import FpgaGpu.Driver.DevFiles
import FpgaGpu.Driver.ProbeLedger

/-! How long a `struct fpgagpu_dev` and its BARs are there for the files and the
interrupt handler that have a pointer to it. -/
namespace FpgaGpu.Driver
open Library

variable {δ : Type} [DecidableEq δ] {P : Platform δ}

/-- What `fpgagpu_open` finds and what files reach. -/
def Kind.ofFile : Kind → Bool
  | .dev | .csrBase | .dmaBase | .cdev => true
  | _ => false

theorem fitsOn_ofFile {step : ProbeStep} (hfallible : step.fallible = true) :
    step.FitsOn Kind.ofFile := by
  intro d hd
  rw [label_drops_at hd]
  cases step <;> revert hfallible <;> decide

theorem file_ledger {ok : List (DriverEvent δ) → DriverState δ → DriverAction δ → Prop}
    {log : List (DriverEvent δ)} {s : DriverState δ} (h : (driverSystem P).RunWith ok log s) :
    LedgerInv Kind.ofFile P log s :=
  ledger_run rfl (fun _ _ _ _ _ _ _ _ hfallible => fitsOn_ofFile hfallible) h

theorem Touch.kind_ofFile (t : Touch) : t.kind.ofFile = true := by
  cases t <;> rfl

/-- Behind a device file there are the struct and both BARs. -/
theorem touch_of_cdev {log : List (DriverEvent δ)} {s : DriverState δ}
    (h : (driverSystem P).Run log s) {addr : Nat} (hcdev : ⟨.cdev,.dev addr⟩ ∈ s.held)
    (t : Touch) : ⟨t.kind,.dev addr⟩ ∈ s.held := by
  have hledger := file_ledger h
  obtain ⟨pdev,hkind,howner⟩ := hledger.owner rfl hcdev
  have hordered := (sound_run h pdev).ordered
  have hmem : t.kind ∈ (s.phase pdev).kinds := by
    cases t with
    | struct => exact mem_of_keeps hordered.dev hkind rfl
    | bar0 => exact mem_of_keeps hordered.csrBase hkind rfl
    | bar1 => exact mem_of_keeps hordered.dmaBase hkind rfl
  have haddr : addr = (s.phase pdev).dev.addr := Owner.dev.inj howner
  have hheld := hledger.held hmem t.kind_ofFile
  rw [haddr]
  cases t <;> exact hheld

/-- No probe fails in `cdev_add`. -/
def CdevAdded (_ : List (DriverEvent δ)) (s : DriverState δ) (a : DriverAction δ) : Prop :=
  ∀ pdev e d, a = .step pdev (some e) → s.phase pdev ≠ .probing d .cdevAdd

/-- A handler is registered once, for the struct of a device that has it registered. -/
structure HandlerInv (s : DriverState δ) : Prop where
  once : ∀ addr, s.held.count ⟨.irqHandler,.dev addr⟩ ≤ 1
  owner : ∀ addr, ⟨.irqHandler,.dev addr⟩ ∈ s.held →
    ∃ pdev, .irqHandler ∈ (s.phase pdev).kinds ∧ (s.phase pdev).dev.addr = addr

theorem HandlerInv.keep {s t : DriverState δ} {pdev : δ} {p p' : PciPhase} (h : HandlerInv s)
    (hcount : ∀ addr, t.held.count ⟨.irqHandler,.dev addr⟩ ≤
      s.held.count ⟨.irqHandler,.dev addr⟩)
    (hphases : t.phase = s.phase) (hphase : s.phase pdev = p)
    (hmoves : .irqHandler ∈ p.kinds →
      (.irqHandler ∈ p'.kinds ∧ p'.dev.addr = p.dev.addr) ∨
        t.held.count ⟨.irqHandler,.dev p.dev.addr⟩ = 0) : HandlerInv (t.goto pdev p') := by
  constructor
  · intro addr
    exact Nat.le_trans (hcount addr) (h.once addr)
  · intro addr hheld
    have hpos : 0 < t.held.count ⟨.irqHandler,.dev addr⟩ := List.count_pos_iff.mpr hheld
    obtain ⟨q,hkind,haddr⟩ := h.owner addr
      (List.count_pos_iff.mp (Nat.lt_of_lt_of_le hpos (hcount addr)))
    refine ⟨q,?_⟩
    by_cases hq : q = pdev
    · subst hq
      rw [DriverState.goto_phase_self]
      rw [hphase] at hkind haddr
      rcases hmoves hkind with hmoved | hgone
      · exact ⟨hmoved.1,hmoved.2.trans haddr⟩
      · rw [haddr] at hgone
        exact absurd hgone (Nat.pos_iff_ne_zero.mp hpos)
    · rw [DriverState.goto_phase_other t p' hq, hphases]
      exact ⟨hkind,haddr⟩

theorem release_held_sublist (s : DriverState δ) (pdev : δ) (d : FpgagpuDev) (step : ReleaseStep) :
    (s.release P pdev d step).1.held.Sublist s.held := by
  unfold DriverState.release
  split
  next => exact List.Sublist.refl _
  next =>
    simp only
    split
    next => exact List.erase_sublist
    next => exact List.Sublist.refl _

/-- What is handed out once is gone after its release. -/
theorem release_gone {s : DriverState δ} {pdev : δ} {d : FpgagpuDev} {step : ReleaseStep}
    {kind : Kind} (hdrops : step.drops d = some kind)
    (honce : s.held.count (kind.resource P pdev d) ≤ 1) :
    (s.release P pdev d step).1.held.count (kind.resource P pdev d) = 0 := by
  unfold DriverState.release
  rw [hdrops]
  simp only
  split
  next =>
    rw [List.count_erase_self]
    omega
  next hheld => exact List.count_eq_zero.mpr hheld

/-- Of the statements that can fail after `request_irq`, only one leaves the handler. -/
theorem label_frees_irq {d : FpgagpuDev} {step : ProbeStep} (hfallible : step.fallible = true)
    (hbefore : .irqHandler ∈ step.before) (hstep : step ≠ .cdevAdd) :
    .irqHandler ∈ step.label.filterMap (ReleaseStep.drops d) := by
  have hlabel : .freeIrq ∈ step.label := by
    revert hfallible hbefore hstep
    cases step <;> decide
  exact List.mem_filterMap.mpr ⟨_,hlabel,rfl⟩

omit [DecidableEq δ] in
theorem addr_store (pdev : δ) (d : FpgagpuDev) (step : ProbeStep) :
    (step.store P pdev d).addr = d.addr := by
  cases step <;> rfl

theorem handler_run {log : List (DriverEvent δ)} {s : DriverState δ}
    (h : (driverSystem P).RunWith CdevAdded log s) : HandlerInv s := by
  refine h.invariant (I := fun _ s => HandlerInv s) ?_ ?_
  · intro s hs
    rw [hs]
    exact ⟨fun _ => Nat.zero_le _,fun _ hheld => by contradiction⟩
  · intro log s a s' es hrun ih hok hstep
    have hledger := file_ledger hrun
    have hsound := sound_run hrun.run
    have hsame : ∀ addr, s.held.count ⟨.irqHandler,.dev addr⟩ ≤
      s.held.count ⟨.irqHandler,.dev addr⟩ := fun _ => Nat.le_refl _
    cases driverRule_of_step hstep with
    | probe pdev hphase => exact ih.keep hsame rfl hphase fun h => by contradiction
    | remove pdev d hphase =>
      have hd : (PciPhase.bound d).Sound := hphase ▸ hsound pdev
      refine ih.keep hsame rfl hphase fun _ => .inl ⟨?_,rfl⟩
      exact (remove_drops_perm hd).mem_iff.mpr (mem_allKinds _)
    | kzalloc pdev d hphase =>
      refine ih.keep (t := {s with held := _,nextAddr := _}) ?_ rfl hphase ?_
      · intro addr
        simp
      · intro hkind
        have hbefore : .irqHandler ∈ ProbeStep.kzallocDev.before := hkind
        exact absurd hbefore (by decide)
    | minor pdev d hphase | noMinor pdev d hphase =>
      refine ih.keep (t := {s with minorCounter := _}) hsame rfl hphase ?_
      intro hkind
      have hbefore : .irqHandler ∈ ProbeStep.takeMinor.before := hkind
      exact absurd hbefore (by decide)
    | silent pdev d step step' hphase htakes hnext =>
      refine ih.keep hsame rfl hphase fun hkind => .inl ⟨?_,addr_store pdev d step⟩
      rw [PciPhase.kinds, before_next hnext]
      exact List.mem_append_right _ hkind
    | acquire pdev d step step' kind hphase hkzalloc htakes hnext =>
      have hkinds : (PciPhase.probing (step.store P pdev d) step').kinds =
          kind :: step.before := by
        rw [PciPhase.kinds, before_next hnext, htakes]
        rfl
      by_cases hirq : kind = .irqHandler
      · subst hirq
        have hdev : .dev ∈ (s.phase pdev).kinds := by
          rw [hphase]
          exact dev_before htakes rfl hkzalloc
        have hfree : ⟨.irqHandler,.dev d.addr⟩ ∉ s.held := by
          intro hheld
          obtain ⟨q,hkind,haddr⟩ := ih.owner d.addr hheld
          have hq : q = pdev := by
            apply hledger.same_dev rfl ((hsound q).dev_mem hkind rfl) hdev
            rw [hphase]
            exact haddr
          subst hq
          rw [hphase] at hkind
          exact takes_not_before htakes hkind
        constructor
        · intro addr
          by_cases haddr : addr = d.addr
          · subst haddr
            exact Nat.le_of_eq (List.count_cons_self.trans
              (congrArg (· + 1) (List.count_eq_zero.mpr hfree)))
          · refine Nat.le_trans (Nat.le_of_eq (List.count_cons_of_ne ?_)) (ih.once addr)
            intro heq
            exact haddr (Owner.dev.inj (Resource.mk.inj heq).2).symm
        · intro addr hheld
          rcases List.mem_cons.mp hheld with heq | hheld
          · refine ⟨pdev,?_⟩
            rw [DriverState.goto_phase_self, hkinds]
            refine ⟨List.mem_cons_self,(addr_store pdev d step).trans ?_⟩
            exact (Owner.dev.inj (Resource.mk.inj heq).2).symm
          · obtain ⟨q,hkind,haddr⟩ := ih.owner addr hheld
            have hq : q ≠ pdev := by
              rintro rfl
              rw [hphase] at hkind
              exact takes_not_before htakes hkind
            refine ⟨q,?_⟩
            rw [DriverState.goto_phase_other _ _ hq]
            exact ⟨hkind,haddr⟩
      · refine ih.keep (t := {s with held := _}) ?_ rfl hphase ?_
        · intro addr
          refine Nat.le_of_eq (List.count_cons_of_ne ?_)
          intro heq
          exact hirq (Resource.mk.inj heq).1
        · intro hkind
          rw [hkinds]
          exact .inl ⟨List.mem_cons_of_mem _ hkind,addr_store pdev d step⟩
    | finish pdev d hphase =>
      exact ih.keep hsame rfl hphase fun _ => .inl ⟨mem_allKinds _,rfl⟩
    | failed pdev d step e hphase hfallible he =>
      refine ih.keep hsame rfl hphase fun hkind => .inl ⟨?_,rfl⟩
      apply label_frees_irq hfallible hkind
      rintro rfl
      exact hok pdev e d rfl hphase
    | release pdev d step p p' hphase hpops =>
      have hdev : p.dev = d ∧ p'.dev = d := by
        cases hpops <;> exact ⟨rfl,rfl⟩
      refine ih.keep (fun addr => (release_held_sublist s pdev d step).count_le _)
        (release_phase P s pdev d step) hphase ?_
      intro hkind
      rw [hpops.kinds] at hkind
      rw [hdev.1, hdev.2]
      rcases List.mem_append.mp hkind with hdrops | hkind
      · exact .inr (release_gone (Option.mem_toList.mp hdrops) (ih.once d.addr))
      · exact .inl ⟨hkind,rfl⟩
    | failedReturn pdev d result hphase =>
      exact ih.keep hsame rfl hphase fun h => by contradiction
    | removed pdev d hphase => exact ih.keep hsame rfl hphase fun h => by contradiction

/-- A handler that is registered has its struct. -/
theorem dev_of_handler {log : List (DriverEvent δ)} {s : DriverState δ}
    (h : (driverSystem P).RunWith CdevAdded log s) {addr : Nat}
    (hheld : ⟨.irqHandler,.dev addr⟩ ∈ s.held) : ⟨.dev,.dev addr⟩ ∈ s.held := by
  obtain ⟨pdev,hkind,rfl⟩ := (handler_run h).owner addr hheld
  exact (file_ledger h).held ((sound_run h.run pdev).dev_mem hkind rfl) rfl

/-- What is no longer handed out after a step was released in it. -/
theorem DriverRule.released {s s' : DriverState δ} {a : DriverAction δ}
    {es : List (DriverEvent δ)} (h : DriverRule P s a s' es) {r : Resource δ} (hr : r ∈ s.held)
    (hgone : r ∉ s'.held) : ∃ step, s.statement a = some (.release step) ∧
      step.drops (s.phase a.pdev).dev = some r.kind ∧
      r.owner = r.kind.owner P a.pdev (s.phase a.pdev).dev := by
  cases h with
  | kzalloc pdev d hphase | acquire pdev d step step' kind hphase =>
    exact absurd (List.mem_cons_of_mem _ hr) hgone
  | release pdev d step p p' hphase hpops =>
    have hdev : p.dev = d := by
      cases hpops <;> rfl
    have hheld : r ∉ (s.release P pdev d step).1.held := hgone
    simp only [DriverState.statement, DriverAction.pdev, hphase, hpops.statement, hdev]
    refine ⟨step,rfl,?_⟩
    unfold DriverState.release at hheld
    split at hheld
    next => contradiction
    next kind hdrops =>
      simp only at hheld
      split at hheld
      next =>
        have hsame : r = kind.resource P pdev d := by
          by_contra hne
          exact hheld ((List.mem_erase_of_ne hne).mpr hr)
        subst hsame
        exact ⟨hdrops,rfl⟩
      next => contradiction
  | _ => exact absurd hr hgone

end FpgaGpu.Driver
