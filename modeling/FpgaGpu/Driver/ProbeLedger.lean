import FpgaGpu.Driver.ProbeRules
import FpgaGpu.Library.Ledger

/-! The books of probe and remove: what is handed out is what the phases of the
devices say, for any choice of the kinds of resources that are looked at. -/
namespace FpgaGpu.Driver
open Library

variable {δ : Type} [DecidableEq δ] {P : Platform δ}

theorem goto_sound {s : DriverState δ} (h : ∀ pdev, (s.phase pdev).Sound) {pdev : δ}
    {p : PciPhase} (hp : p.Sound) : ∀ q, ((s.goto pdev p).phase q).Sound := by
  intro q
  by_cases hq : q = pdev
  · subst hq
    rw [DriverState.goto_phase_self]
    exact hp
  · rw [DriverState.goto_phase_other s p hq]
    exact h q

theorem ProbeStep.result_neg {e : Int} (he : e < 0) (step : ProbeStep) : step.result e < 0 := by
  have henomem : enomem < 0 := by decide
  cases step <;> first | exact he | exact henomem

theorem sound_run {log : List (DriverEvent δ)} {s : DriverState δ}
    (h : (driverSystem P).Run log s) : ∀ pdev, (s.phase pdev).Sound := by
  refine h.invariant (I := fun _ s => ∀ pdev, (s.phase pdev).Sound) ?_ ?_
  · intro s hs pdev
    rw [hs]
    trivial
  · intro log s a s' es _ ih _ hstep
    have hsound : ∀ {pdev p}, s.phase pdev = p → p.Sound := fun hphase => hphase ▸ ih _
    cases driverRule_of_step hstep with
    | probe pdev => exact goto_sound ih (FpgagpuDev.At.zeroed 0)
    | remove pdev d hphase =>
      have hd : d.Complete := hsound hphase
      have hordered : Ordered (removeSteps.filterMap (ReleaseStep.drops d)) := by
        rw [remove_drops hd]
        exact ⟨by decide,by decide,by decide⟩
      exact goto_sound ih hordered
    | kzalloc pdev d hphase =>
      exact goto_sound ih ⟨rfl,rfl,rfl,rfl,fun h => absurd h (by decide)⟩
    | minor pdev d hphase =>
      have hd : d.At .takeMinor := hsound hphase
      have hnext : (ProbeStep.takeMinor.store P pdev d).At .allocDescRing := hd.store rfl
      exact goto_sound ih ⟨hnext.csrBase,hnext.dmaBase,hnext.descRing,hnext.pinnedPages,hnext.irq⟩
    | noMinor pdev d hphase =>
      have hd : d.At .takeMinor := hsound hphase
      have hminor : ({d with minor := s.minorCounter} : FpgagpuDev).At .takeMinor :=
        ⟨hd.csrBase,hd.dmaBase,hd.descRing,hd.pinnedPages,hd.irq⟩
      exact goto_sound ih ⟨by decide,ordered_label hminor⟩
    | silent pdev d step step' hphase _ hnext =>
      have hd : d.At step := hsound hphase
      exact goto_sound ih (hd.store hnext)
    | acquire pdev d step step' kind hphase _ _ hnext =>
      have hd : d.At step := hsound hphase
      exact goto_sound ih (hd.store hnext)
    | finish pdev d hphase =>
      have hd : d.At .readVersion := hsound hphase
      exact goto_sound ih hd.complete
    | failed pdev d step e hphase _ he =>
      have hd : d.At step := hsound hphase
      exact goto_sound ih ⟨step.result_neg he,ordered_label hd⟩
    | release pdev d step p p' hphase hpops =>
      refine goto_sound ?_ (hpops.sound (hsound hphase))
      rw [release_phase]
      exact ih
    | failedReturn pdev d result hphase => exact goto_sound ih trivial
    | removed pdev d hphase => exact goto_sound ih trivial

omit [DecidableEq δ] in
theorem Kind.owner_ofDev {k : Kind} (h : k.ofDev = true) (pdev : δ) (d : FpgagpuDev) :
    k.owner P pdev d = .dev d.addr := by
  cases k <;> first | rfl | contradiction

section Ledger
variable (K : Kind → Bool)

/-- What a phase has of the kinds in `K`. -/
def PciPhase.owned (P : Platform δ) (pdev : δ) (p : PciPhase) : List (Resource δ) :=
  (p.kinds.filter K).map (Kind.resource P pdev p.dev)

def DriverState.owned (P : Platform δ) (s : DriverState δ) (pdev : δ) : List (Resource δ) :=
  (s.phase pdev).owned K P pdev

def DriverState.heldOf (s : DriverState δ) : List (Resource δ) := s.held.filter fun r => K r.kind

theorem owned_goto (s : DriverState δ) (pdev : δ) (p : PciPhase) :
    (s.goto pdev p).owned K P = Function.update (s.owned K P) pdev (p.owned K P pdev) := by
  funext q
  by_cases hq : q = pdev
  · subst hq
    rw [Function.update_self, DriverState.owned, DriverState.goto_phase_self]
  · rw [Function.update_of_ne hq, DriverState.owned, DriverState.goto_phase_other s p hq]
    rfl

/-- What is handed out of the kinds in `K` is what the phases say, no struct is
older than the counter of allocations, and nothing of these kinds was released that
was not handed out. -/
structure LedgerInv (P : Platform δ) (log : List (DriverEvent δ)) (s : DriverState δ) : Prop where
  shares : Shares (s.heldOf K) (s.owned K P)
  fresh : ∀ r ∈ s.held, ∀ addr, r.owner = .dev addr → addr < s.nextAddr
  no_stray : ∀ r : Resource δ, K r.kind = true → .stray r ∉ log

variable {K} {log es : List (DriverEvent δ)} {s t : DriverState δ} {pdev : δ} {p p' : PciPhase}

omit [DecidableEq δ] in
theorem mem_heldOf {r : Resource δ} (hr : K r.kind = true) : r ∈ s.heldOf K ↔ r ∈ s.held := by
  simp [DriverState.heldOf, hr]

omit [DecidableEq δ] in
theorem mem_owned {k : Kind} (hk : k ∈ p.kinds) (hK : K k = true) :
    k.resource P pdev p.dev ∈ p.owned K P pdev :=
  List.mem_map_of_mem (List.mem_filter.mpr ⟨hk,hK⟩)

omit [DecidableEq δ] in
theorem LedgerInv.owner (h : LedgerInv K P log s) {r : Resource δ} (hK : K r.kind = true)
    (hr : r ∈ s.held) : ∃ pdev, r.kind ∈ (s.phase pdev).kinds ∧
      r.owner = r.kind.owner P pdev (s.phase pdev).dev := by
  obtain ⟨pdev,howned⟩ := (h.shares.mem_iff r).mp ((mem_heldOf hK).mpr hr)
  obtain ⟨k,hmem,rfl⟩ := List.mem_map.mp howned
  exact ⟨pdev,(List.mem_filter.mp hmem).1,rfl⟩

omit [DecidableEq δ] in
theorem LedgerInv.held (h : LedgerInv K P log s) {k : Kind} (hk : k ∈ (s.phase pdev).kinds)
    (hK : K k = true) : k.resource P pdev (s.phase pdev).dev ∈ s.held :=
  (mem_heldOf hK).mp (h.shares.owns (mem_owned hk hK))

/-- A step that hands nothing out and takes nothing back. -/
theorem LedgerInv.quiet (h : LedgerInv K P log s) (hheld : t.held = s.held)
    (haddr : t.nextAddr = s.nextAddr) (hphases : t.phase = s.phase)
    (hphase : s.phase pdev = p) (hkinds : (p'.kinds.filter K).Perm (p.kinds.filter K))
    (hsame : ∀ k ∈ p'.kinds.filter K, k.resource P pdev p'.dev = k.resource P pdev p.dev)
    (hes : ∀ r, .stray r ∉ es) : LedgerInv K P (log ++ es) (t.goto pdev p') := by
  have howned : t.owned K P = s.owned K P := by
    funext q
    rw [DriverState.owned, DriverState.owned, hphases]
  have hperm : (p'.owned K P pdev).Perm (s.owned K P pdev) := by
    rw [DriverState.owned, hphase, PciPhase.owned, PciPhase.owned, List.map_congr_left hsame]
    exact hkinds.map _
  have hsameHeld : (t.goto pdev p').heldOf K = s.heldOf K := by
    unfold DriverState.heldOf
    rw [← hheld]
    rfl
  constructor
  · rw [owned_goto, howned, hsameHeld]
    exact h.shares.perm hperm
  · intro r hr addr howner
    exact haddr ▸ h.fresh r (hheld ▸ hr) addr howner
  · intro r hK hr
    rcases List.mem_append.mp hr with hr | hr
    · exact h.no_stray r hK hr
    · exact hes r hr

/-- A step that hands something out. -/
theorem LedgerInv.take {r : Resource δ} {next : Nat} (h : LedgerInv K P log s)
    (hfree : K r.kind = true → r ∉ s.held)
    (howned : p'.owned K P pdev =
      if K r.kind = true then r :: s.owned K P pdev else s.owned K P pdev)
    (hnext : s.nextAddr ≤ next) (haddr : ∀ addr, r.owner = .dev addr → addr < next) :
    LedgerInv K P (log ++ [.took r])
      ({s with held := r :: s.held,nextAddr := next}.goto pdev p') := by
  constructor
  · rw [owned_goto, howned]
    unfold DriverState.heldOf
    by_cases hK : K r.kind = true
    · have hheldOf : (r :: s.held).filter (fun r => K r.kind) = r :: s.heldOf K :=
        List.filter_cons_of_pos hK
      rw [if_pos hK]
      change Shares ((r :: s.held).filter fun r => K r.kind) _
      rw [hheldOf]
      exact h.shares.take fun hmem => hfree hK ((mem_heldOf hK).mp hmem)
    · have hheldOf : (r :: s.held).filter (fun r => K r.kind) = s.heldOf K :=
        List.filter_cons_of_neg hK
      rw [if_neg hK]
      change Shares ((r :: s.held).filter fun r => K r.kind) _
      rw [hheldOf]
      exact h.shares.perm (List.Perm.refl _)
  · intro r' hr' addr howner
    rcases List.mem_cons.mp hr' with rfl | hr'
    · exact haddr addr howner
    · exact Nat.lt_of_lt_of_le (h.fresh r' hr' addr howner) hnext
  · intro r' hK hr'
    rcases List.mem_append.mp hr' with hr' | hr'
    · exact h.no_stray r' hK hr'
    · simp at hr'

/-- A release of something that the device has. -/
theorem LedgerInv.release {d : FpgagpuDev} {step : ReleaseStep} (h : LedgerInv K P log s)
    (hphase : s.phase pdev = p) (hpops : Pops p d step p') :
    LedgerInv K P (log ++ (s.release P pdev d step).2)
      ((s.release P pdev d step).1.goto pdev p') := by
  have hkinds := hpops.kinds
  have hdev : p.dev = d ∧ p'.dev = d := by
    cases hpops <;> exact ⟨rfl,rfl⟩
  have hsame : ∀ k ∈ p'.kinds.filter K, k.resource P pdev p'.dev = k.resource P pdev p.dev := by
    intro k _
    rw [hdev.1, hdev.2]
  unfold DriverState.release
  cases hdrops : step.drops d with
  | none =>
    rw [hdrops] at hkinds
    refine h.quiet rfl rfl rfl hphase ?_ hsame (by simp)
    rw [hkinds]
    exact List.Perm.refl _
  | some kind =>
    rw [hdrops] at hkinds
    by_cases hK : K kind = true
    · have howned : s.owned K P pdev = kind.resource P pdev d :: p'.owned K P pdev := by
        rw [DriverState.owned, hphase, PciPhase.owned, PciPhase.owned, hkinds, hdev.1, hdev.2]
        simp [hK]
      have hheld : kind.resource P pdev d ∈ s.held :=
        (mem_heldOf hK).mp (h.shares.owns (p := pdev) (by rw [howned]; exact List.mem_cons_self))
      simp only [if_pos hheld]
      constructor
      · have hheldOf : (s.held.erase (kind.resource P pdev d)).filter (fun r => K r.kind) =
            (s.heldOf K).erase (kind.resource P pdev d) :=
          filter_erase_of_pos (f := fun r : Resource δ => K r.kind) hK s.held
        rw [owned_goto]
        change Shares ((s.held.erase _).filter fun r => K r.kind) _
        rw [hheldOf]
        exact h.shares.drop howned
      · intro r hr addr howner
        exact h.fresh r (List.mem_of_mem_erase hr) addr howner
      · intro r hr hmem
        rcases List.mem_append.mp hmem with hmem | hmem
        · exact h.no_stray r hr hmem
        · simp at hmem
    · have hperm : (p'.kinds.filter K).Perm (p.kinds.filter K) := by
        rw [hkinds]
        simp [hK]
      by_cases hheld : kind.resource P pdev d ∈ s.held
      · simp only [if_pos hheld]
        have hgave : ∀ r, .stray r ∉ [DriverEvent.gave (kind.resource P pdev d)] := by simp
        have hquiet := h.quiet rfl rfl rfl hphase hperm hsame hgave
        refine ⟨?_,fun r hr => h.fresh r (List.mem_of_mem_erase hr),hquiet.no_stray⟩
        have hheldOf : (s.held.erase (kind.resource P pdev d)).filter (fun r => K r.kind) =
            s.heldOf K := filter_erase_of_neg (f := fun r : Resource δ => K r.kind) hK s.held
        have hshares := hquiet.shares
        change Shares ((s.held.erase _).filter fun r => K r.kind) _
        rw [hheldOf]
        exact hshares
      · simp only [if_neg hheld]
        have hnone : ∀ r : Resource δ, .stray r ∉ ([] : List (DriverEvent δ)) := by simp
        have hquiet := h.quiet rfl rfl rfl hphase hperm hsame hnone
        refine ⟨hquiet.shares,hquiet.fresh,?_⟩
        intro r hr hmem
        rcases List.mem_append.mp hmem with hmem | hmem
        · exact h.no_stray r hr hmem
        · rw [List.mem_singleton, DriverEvent.stray.injEq] at hmem
          subst hmem
          exact hK hr

theorem dev_before {step : ProbeStep} {kind : Kind} (htakes : step.takes = some kind)
    (hdev : kind.ofDev = true) (hstep : step ≠ .kzallocDev) : .dev ∈ step.before := by
  cases step <;> cases htakes <;> first | contradiction | decide

omit [DecidableEq δ] in
/-- The struct of a device that has one is on the list. -/
theorem dev_owned {d : FpgagpuDev} (hK : K .dev = true) (hphase : s.phase pdev = p)
    (hd : p.dev = d) (hdev : .dev ∈ p.kinds) : ⟨.dev,.dev d.addr⟩ ∈ s.owned K P pdev := by
  subst hd
  rw [DriverState.owned, hphase]
  exact mem_owned hdev hK

omit [DecidableEq δ] in
/-- A struct belongs to one device. -/
theorem LedgerInv.same_dev (h : LedgerInv K P log s) (hK : K .dev = true) {q r : δ}
    (hq : .dev ∈ (s.phase q).kinds) (hr : .dev ∈ (s.phase r).kinds)
    (haddr : (s.phase q).dev.addr = (s.phase r).dev.addr) : q = r := by
  have hqowned := dev_owned (P := P) hK rfl rfl hq
  have hrowned := dev_owned (P := P) hK rfl rfl hr
  rw [haddr] at hqowned
  exact h.shares.apart _ q r hqowned hrowned

/-- What a statement acquires is not handed out yet. -/
theorem LedgerInv.free {d : FpgagpuDev} {step : ProbeStep} {kind : Kind}
    (h : LedgerInv K P log s) (hdevK : K .dev = true) (hsound : ∀ q, (s.phase q).Sound)
    (hphase : s.phase pdev = .probing d step) (hstep : step ≠ .kzallocDev)
    (htakes : step.takes = some kind)
    (hnode : kind = .deviceNode → kind.resource P pdev d ∉ s.held) (hK : K kind = true) :
    kind.resource P pdev d ∉ s.held := by
  intro hheld
  obtain ⟨q,hk,howner⟩ := h.owner hK hheld
  by_cases hqp : q = pdev
  · subst hqp
    rw [hphase] at hk
    exact takes_not_before htakes hk
  · by_cases hdev : kind.ofDev = true
    · have hmine : .dev ∈ (s.phase pdev).kinds := by
        rw [hphase]
        exact dev_before htakes hdev hstep
      refine hqp (h.same_dev hdevK ((hsound q).dev_mem hk hdev) hmine ?_)
      have hsame : kind.owner P pdev d = kind.owner P q (s.phase q).dev := howner
      rw [Kind.owner_ofDev hdev, Kind.owner_ofDev hdev, Owner.dev.injEq] at hsame
      rw [hphase]
      exact hsame.symm
    · cases kind with
      | deviceNode => exact hnode rfl hheld
      | pciEnable | pciRegions | irqVectors => exact hqp (Owner.pci.inj howner).symm
      | _ => exact hdev rfl

end Ledger

omit [DecidableEq δ] in
/-- No statement stores to the fields that name a resource. -/
theorem resource_store (pdev : δ) (d : FpgagpuDev) (step : ProbeStep) (k : Kind) :
    k.resource P pdev (step.store P pdev d) = k.resource P pdev d := by
  cases step <;> rfl

/-- Of the kinds in `K`, the label gives back what is held. -/
def ProbeStep.FitsOn (K : Kind → Bool) (step : ProbeStep) : Prop :=
  ∀ d : FpgagpuDev, d.At step →
    (step.label.filterMap (ReleaseStep.drops d)).filter K = step.before.filter K

theorem ledger_run {K : Kind → Bool} (hdevK : K .dev = true)
    {ok : List (DriverEvent δ) → DriverState δ → DriverAction δ → Prop}
    (hfits : ∀ log s pdev e d step, ok log s (.step pdev (some e)) →
      s.phase pdev = .probing d step → step.fallible = true → step.FitsOn K)
    {log : List (DriverEvent δ)} {s : DriverState δ} (h : (driverSystem P).RunWith ok log s) :
    LedgerInv K P log s := by
  refine h.invariant (I := fun log s => LedgerInv K P log s) ?_ ?_
  · intro s hs
    rw [hs]
    exact ⟨.empty,fun r hr => by contradiction,fun r _ hr => by contradiction⟩
  · intro log s a s' es hrun ih hok hstep
    have hsound := sound_run hrun.run
    have hat : ∀ {pdev d step}, s.phase pdev = .probing d step → d.At step := by
      intro pdev d step hphase
      have hphases := hsound pdev
      rw [hphase] at hphases
      exact hphases
    cases driverRule_of_step hstep with
    | probe pdev hphase =>
      refine ih.quiet rfl rfl rfl hphase (List.Perm.refl _) ?_ (by simp)
      intro k hk
      contradiction
    | remove pdev d hphase =>
      have hcomplete : (PciPhase.bound d).Sound := hphase ▸ hsound pdev
      exact ih.quiet rfl rfl rfl hphase ((remove_drops_perm hcomplete).filter _)
        (fun _ _ => rfl) (by simp)
    | kzalloc pdev d hphase =>
      refine ih.take ?_ ?_ (Nat.le_succ _) ?_
      · intro _ hheld
        exact Nat.lt_irrefl _ (ih.fresh _ hheld _ rfl)
      · rw [if_pos hdevK, DriverState.owned, hphase]
        have hkinds : ProbeStep.ioremapBar0.before.filter K =
            .dev :: ProbeStep.kzallocDev.before.filter K := List.filter_cons_of_pos hdevK
        have hpci : ∀ k ∈ ProbeStep.kzallocDev.before.filter K,
            k.resource P pdev (.zeroed s.nextAddr) = k.resource P pdev d := by
          intro k hk
          have hbefore := (List.mem_filter.mp hk).1
          cases k with
          | pciEnable | pciRegions | irqVectors => rfl
          | _ => exact absurd hbefore (by decide)
        simp only [PciPhase.owned, PciPhase.kinds, PciPhase.dev]
        rw [hkinds, List.map_cons, List.map_congr_left hpci]
        rfl
      · intro addr howner
        cases howner
        exact Nat.lt_succ_self _
    | minor pdev d hphase =>
      refine ih.quiet rfl rfl rfl hphase (List.Perm.refl _) ?_ (by simp)
      intro k hk
      have hbefore : k ∈ ProbeStep.allocDescRing.before := (List.mem_filter.mp hk).1
      cases k with
      | deviceNode => exact absurd hbefore (by decide)
      | _ => rfl
    | noMinor pdev d hphase =>
      have hlabel := label_drops (hat hphase) (.inr rfl) rfl
      refine ih.quiet rfl rfl rfl hphase ?_ ?_ (by simp)
      · exact (List.Perm.of_eq hlabel).filter _
      · intro k hk
        have hbefore : k ∈ ProbeStep.takeMinor.before := hlabel ▸ (List.mem_filter.mp hk).1
        cases k with
        | deviceNode => exact absurd hbefore (by decide)
        | _ => rfl
    | silent pdev d step step' hphase htakes hnext =>
      refine ih.quiet rfl rfl rfl hphase ?_ ?_ (by simp)
      · apply List.Perm.of_eq
        simp [PciPhase.kinds, before_next hnext, htakes]
      · intro k _
        exact resource_store pdev d step k
    | acquire pdev d step step' kind hphase hkzalloc htakes hnext hnode =>
      have hfree := ih.free hdevK hsound hphase hkzalloc htakes hnode
      refine ih.take hfree ?_ (Nat.le_refl _) ?_
      · rw [DriverState.owned, hphase]
        have hstore : Kind.resource P pdev (step.store P pdev d) = Kind.resource P pdev d := by
          funext k
          exact resource_store pdev d step k
        simp only [PciPhase.owned, PciPhase.kinds, PciPhase.dev, before_next hnext, htakes,
          hstore, Option.toList_some, List.singleton_append]
        change _ = if K kind = true then _ else _
        by_cases hK : K kind = true
        · rw [List.filter_cons_of_pos hK, if_pos hK]
          rfl
        · rw [List.filter_cons_of_neg hK, if_neg hK]
      · intro addr howner
        by_cases hdev : kind.ofDev = true
        · have hmine : ⟨.dev,.dev d.addr⟩ ∈ s.owned K P pdev :=
            dev_owned hdevK hphase rfl (dev_before htakes hdev hkzalloc)
          have hsame : kind.owner P pdev d = .dev addr := howner
          rw [Kind.owner_ofDev hdev, Owner.dev.injEq] at hsame
          have hheld := (mem_heldOf hdevK).mp (ih.shares.owns hmine)
          exact ih.fresh _ hheld addr (by rw [hsame])
        · cases kind <;> contradiction
    | finish pdev d hphase =>
      exact ih.quiet rfl rfl rfl hphase (List.Perm.refl _) (fun _ _ => rfl) (by simp)
    | failed pdev d step e hphase hfallible he =>
      have hlabel := hfits log s pdev e d step hok hphase hfallible d (hat hphase)
      exact ih.quiet rfl rfl rfl hphase (List.Perm.of_eq hlabel) (fun _ _ => rfl) (by simp)
    | release pdev d step p p' hphase hpops => exact ih.release hphase hpops
    | failedReturn pdev d result hphase =>
      refine ih.quiet rfl rfl rfl hphase (List.Perm.refl _) ?_ (by simp)
      intro k hk
      contradiction
    | removed pdev d hphase =>
      refine ih.quiet rfl rfl rfl hphase (List.Perm.refl _) ?_ (by simp)
      intro k hk
      contradiction

end FpgaGpu.Driver
