import FpgaGpu.Driver.ProbeBalance
import Mathlib.Algebra.Group.Nat.Defs

/-! The minor numbers. Every probe that gets so far takes one from the counter, and
no label and no remove gives one back. -/
namespace FpgaGpu.Driver
open Library

/-- The events of the driver, and what the minor statement of a probe comes to. -/
inductive MinorEvent (δ : Type) where
  | driver (e : DriverEvent δ)
  | numbered (pdev : δ)
  | refused (pdev : δ)
  deriving DecidableEq

def MinorEvent.driver? {δ : Type} : MinorEvent δ → Option (DriverEvent δ)
  | .driver e => some e
  | _ => none

/-- The counter went up. -/
def MinorEvent.takes {δ : Type} : MinorEvent δ → Bool
  | .driver _ => false
  | .numbered _ | .refused _ => true

variable {δ : Type} [DecidableEq δ] {P : Platform δ}

/-- What a step to `s'` does about numbers. -/
def DriverState.numbering (s : DriverState δ) (a : DriverAction δ) (s' : DriverState δ) :
    List (MinorEvent δ) :=
  if s.statement a = some (.probe .takeMinor) then
    match s'.phase a.pdev with
    | .unwinding _ _ _ => [.refused a.pdev]
    | _ => [.numbered a.pdev]
  else []

def minorSystem (P : Platform δ) : System (DriverState δ) (DriverAction δ) (MinorEvent δ) where
  init s := s = loaded δ
  step s a := (s.step P a).map fun r => (r.1,s.numbering a r.1 ++ r.2.map .driver)

/-- How many probes came to the minor statement. -/
def takenIn (log : List (MinorEvent δ)) : Nat := log.countP MinorEvent.takes

/-- A device is bound, by the calls that have returned. -/
def BoundAfter (log : List (MinorEvent δ)) (pdev : δ) : Prop :=
  BoundIn (log.filterMap MinorEvent.driver?) pdev

/-- As many devices are bound as the driver has numbers for. -/
def AllBound (log : List (MinorEvent δ)) : Prop :=
  ∃ pdevs : List δ, pdevs.Nodup ∧ (pdevs.length : Int) = maxDevices.toInt ∧
    ∀ pdev ∈ pdevs, BoundAfter log pdev

/-- The bound devices have numbers of their own, and a probe is refused one only where
none is left. -/
structure MinorsKept (log : List (MinorEvent δ)) (s : DriverState δ) : Prop where
  distinct : ∀ p q, BoundAfter log p → BoundAfter log q →
    (s.phase p).dev.minor = (s.phase q).dev.minor → p = q
  range : ∀ p, BoundAfter log p →
    0 ≤ (s.phase p).dev.minor ∧ (s.phase p).dev.minor < maxDevices
  refused : ∀ pre pdev post, log = pre ++ .refused pdev :: post → AllBound pre

/-- A probe comes to the minor statement while a number was never taken, or while all
are in use and the counter has not run over. -/
def NumberLeft (log : List (MinorEvent δ)) (s : DriverState δ) (a : DriverAction δ) : Prop :=
  s.statement a = some (.probe .takeMinor) →
    (takenIn log : Int) < maxDevices.toInt ∨ AllBound log ∧ takenIn log < 2 ^ 31

/-- The statements that come after the minor is stored. -/
def ProbeStep.numbered (step : ProbeStep) : Bool :=
  (probeSteps.takeWhile (· ≠ step)).contains .takeMinor

/-- The number that a device of the driver has. -/
def PciPhase.number : PciPhase → Option Int32
  | .probing d step => if step.numbered then some d.minor else none
  | .bound d | .removing d _ => some d.minor
  | .unbound | .unwinding _ _ _ => none

theorem numbered_next {step step' : ProbeStep} (h : step.next = some step')
    (hminor : step ≠ .takeMinor) : step'.numbered = step.numbered := by
  cases step <;> cases h <;> first | rfl | exact absurd rfl hminor

omit [DecidableEq δ] in
theorem store_minor (P : Platform δ) (pdev : δ) (d : FpgagpuDev) (step : ProbeStep) :
    (step.store P pdev d).minor = d.minor := by
  cases step <;> rfl

theorem Pops.number {p p' : PciPhase} {d : FpgagpuDev} {step : ReleaseStep}
    (h : Pops p d step p') : p'.number = p.number := by
  cases h <;> rfl

theorem release_minorCounter (P : Platform δ) (s : DriverState δ) (pdev : δ) (d : FpgagpuDev)
    (step : ReleaseStep) : (s.release P pdev d step).1.minorCounter = s.minorCounter := by
  unfold DriverState.release
  split
  next => rfl
  next =>
    simp only
    split <;> rfl

/-- Apart from the minor statement a step leaves the counter alone, and a device has
the number it had, or none. -/
theorem DriverRule.number {s s' : DriverState δ} {a : DriverAction δ}
    {es : List (DriverEvent δ)} (h : DriverRule P s a s' es)
    (hminor : s.statement a ≠ some (.probe .takeMinor)) :
    s'.minorCounter = s.minorCounter ∧
      ((s'.phase a.pdev).number = none ∨
        (s'.phase a.pdev).number = (s.phase a.pdev).number) := by
  cases h with
  | probe pdev hphase =>
    refine ⟨rfl,.inl ?_⟩
    simp only [DriverAction.pdev, DriverState.goto_phase_self]
    rfl
  | remove pdev d hphase =>
    refine ⟨rfl,.inr ?_⟩
    simp only [DriverAction.pdev, DriverState.goto_phase_self, hphase]
    rfl
  | kzalloc pdev d hphase =>
    refine ⟨rfl,.inl ?_⟩
    simp only [DriverAction.pdev, DriverState.goto_phase_self]
    rfl
  | minor pdev d hphase | noMinor pdev d hphase =>
    exact absurd (by rw [DriverState.statement, hphase]; rfl) hminor
  | silent pdev d step step' hphase htakes hnext
  | acquire pdev d step step' kind hphase _ _ hnext =>
    have hstep : step ≠ .takeMinor := by
      rintro rfl
      exact hminor (by rw [DriverState.statement, hphase]; rfl)
    refine ⟨rfl,.inr ?_⟩
    simp only [DriverAction.pdev, DriverState.goto_phase_self, hphase, PciPhase.number,
      numbered_next hnext hstep, store_minor]
  | finish pdev d hphase =>
    refine ⟨rfl,.inr ?_⟩
    simp only [DriverAction.pdev, DriverState.goto_phase_self, hphase]
    rfl
  | failed pdev d step e hphase | failedReturn pdev d result hphase | removed pdev d hphase =>
    refine ⟨rfl,.inl ?_⟩
    simp only [DriverAction.pdev, DriverState.goto_phase_self]
    rfl
  | release pdev d step p p' hphase hpops =>
    refine ⟨release_minorCounter P s pdev d step,.inr ?_⟩
    simp only [DriverAction.pdev, DriverState.goto_phase_self, hphase, hpops.number]

/-- The minor statement. -/
theorem takeMinor_step {s s' : DriverState δ} {a : DriverAction δ} {es : List (DriverEvent δ)}
    (hminor : s.statement a = some (.probe .takeMinor)) (h : s.step P a = some (s',es)) :
    ∃ d : FpgagpuDev, es = [] ∧ s' = {s with minorCounter := s.minorCounter + 1}.goto a.pdev
      (if maxDevices ≤ s.minorCounter then
        .unwinding {d with minor := s.minorCounter} errIounmap enospc
      else .probing {d with minor := s.minorCounter} .allocDescRing) := by
  obtain ⟨pdev,d,rfl,hphase⟩ := statement_probe hminor
  simp only [DriverState.step, hphase, DriverState.succeed] at h
  obtain ⟨rfl,rfl⟩ := Prod.mk.inj (Option.some.inj h)
  exact ⟨d,rfl,rfl⟩

/-- Seen without the numbers, the system is the driver. -/
theorem minor_run {ok : List (MinorEvent δ) → DriverState δ → DriverAction δ → Prop}
    {log : List (MinorEvent δ)} {s : DriverState δ} (h : (minorSystem P).RunWith ok log s) :
    (driverSystem P).Run (log.filterMap MinorEvent.driver?) s := by
  refine h.image id MinorEvent.driver? (fun s hs => hs) ?_
  intro log s a s' es _ _ hstep
  obtain ⟨r,hr,hrest⟩ := Option.map_eq_some_iff.mp hstep
  obtain ⟨rfl,rfl⟩ := Prod.mk.inj hrest
  have hnumbering : (s.numbering a r.1).filterMap MinorEvent.driver? = [] := by
    unfold DriverState.numbering
    split
    · split <;> rfl
    · rfl
  have hdriver : (r.2.map MinorEvent.driver).filterMap MinorEvent.driver? = r.2 := by
    simp [List.filterMap_map, MinorEvent.driver?, Function.comp_def]
  rw [List.filterMap_append, hnumbering, hdriver, List.nil_append]
  exact .inr ⟨a,trivial,hr⟩

omit [DecidableEq δ] in
theorem takenIn_append (log es : List (MinorEvent δ)) :
    takenIn (log ++ es) = takenIn log + takenIn es := List.countP_append

omit [DecidableEq δ] in
theorem takenIn_driver (es : List (DriverEvent δ)) : takenIn (es.map .driver) = 0 := by
  simp [takenIn, List.countP_map, MinorEvent.takes, Function.comp_def]

/-- The ways a step can be about numbers. -/
inductive NumberStep (s : DriverState δ) (a : DriverAction δ) (s' : DriverState δ)
    (es : List (MinorEvent δ)) : Prop where
  | other : s.statement a ≠ some (.probe .takeMinor) → takenIn es = 0 →
      (∀ pdev, .refused pdev ∉ es) → s'.minorCounter = s.minorCounter →
      ((s'.phase a.pdev).number = none ∨
        (s'.phase a.pdev).number = (s.phase a.pdev).number) → NumberStep s a s' es
  | numbered : s.statement a = some (.probe .takeMinor) → es = [.numbered a.pdev] →
      s'.minorCounter = s.minorCounter + 1 → s.minorCounter < maxDevices →
      (s'.phase a.pdev).number = some s.minorCounter → NumberStep s a s' es
  | refused : s.statement a = some (.probe .takeMinor) → es = [.refused a.pdev] →
      s'.minorCounter = s.minorCounter + 1 → maxDevices ≤ s.minorCounter →
      (s'.phase a.pdev).number = none → NumberStep s a s' es

theorem minorSystem_step {s s' : DriverState δ} {a : DriverAction δ}
    {es : List (MinorEvent δ)} (h : (minorSystem P).step s a = some (s',es)) :
    NumberStep s a s' es ∧ ∀ q, q ≠ a.pdev → s'.phase q = s.phase q := by
  obtain ⟨⟨s₁,es₁⟩,hr,hrest⟩ := Option.map_eq_some_iff.mp h
  obtain ⟨rfl,rfl⟩ := Prod.mk.inj hrest
  have hrule := driverRule_of_step hr
  refine ⟨?_,fun q hq => hrule.other hq⟩
  by_cases hminor : s.statement a = some (.probe .takeMinor)
  · obtain ⟨d,rfl,rfl⟩ := takeMinor_step hminor hr
    by_cases hfull : maxDevices ≤ s.minorCounter
    · refine .refused hminor ?_ rfl hfull ?_
      · simp [DriverState.numbering, hminor, hfull]
      · simp [PciPhase.number, hfull]
    · refine .numbered hminor ?_ rfl (Int32.not_le.mp hfull) ?_
      · simp [DriverState.numbering, hminor, hfull]
      · simp only [if_neg hfull, DriverState.goto_phase_self]
        rfl
  · obtain ⟨hcounter,hnumber⟩ := hrule.number hminor
    have hnumbering : s.numbering a s₁ = [] := if_neg hminor
    refine .other hminor ?_ ?_ hcounter hnumber
    · rw [hnumbering]
      exact takenIn_driver es₁
    · rw [hnumbering]
      simp

/-- A device that has a number has one that was taken, and has it alone. -/
structure NumberInv (log : List (MinorEvent δ)) (s : DriverState δ) : Prop where
  counter : s.minorCounter = Int32.ofNat (takenIn log)
  taken_le : takenIn log ≤ 2 ^ 31
  number : ∀ p m, (s.phase p).number = some m →
    0 ≤ m.toInt ∧ m.toInt < maxDevices.toInt ∧ m.toInt < takenIn log
  apart : ∀ p q m, (s.phase p).number = some m → (s.phase q).number = some m → p = q

omit [DecidableEq δ] in
/-- A step that leaves every number where it is or drops it. -/
theorem NumberInv.keeps {log es : List (MinorEvent δ)} {s s' : DriverState δ}
    (h : NumberInv log s) (hcounter : s'.minorCounter = Int32.ofNat (takenIn (log ++ es)))
    (htaken : takenIn (log ++ es) ≤ 2 ^ 31)
    (hnumber : ∀ p, (s'.phase p).number = none ∨ (s'.phase p).number = (s.phase p).number) :
    NumberInv (log ++ es) s' := by
  have hold : ∀ p m, (s'.phase p).number = some m → (s.phase p).number = some m := by
    intro p m hm
    rcases hnumber p with hnone | hsame
    · rw [hnone] at hm
      contradiction
    · rw [← hsame, hm]
  refine ⟨hcounter,htaken,fun p m hm => ?_,fun p q m hp hq =>
    h.apart p q m (hold p m hp) (hold q m hq)⟩
  obtain ⟨hnonneg,hmax,hlt⟩ := h.number p m (hold p m hm)
  rw [takenIn_append]
  exact ⟨hnonneg,hmax,by omega⟩

theorem counter_toInt {taken : Nat} (h : taken < 2 ^ 31) :
    (Int32.ofNat taken).toInt = taken := Int32.toInt_ofNat_of_lt h

/-- Where a number is left the counter does not run over. -/
theorem NumberLeft.lt {log : List (MinorEvent δ)} {s : DriverState δ} {a : DriverAction δ}
    (h : NumberLeft log s a) (hminor : s.statement a = some (.probe .takeMinor)) :
    takenIn log < 2 ^ 31 := by
  rcases h hminor with hless | ⟨_,hless⟩
  · have hmax : maxDevices.toInt = 4 := by decide
    omega
  · exact hless

theorem NumberInv.step {log es : List (MinorEvent δ)} {s s' : DriverState δ}
    {a : DriverAction δ} (h : NumberInv log s) (hok : NumberLeft log s a)
    (hstep : NumberStep s a s' es) (hother : ∀ q, q ≠ a.pdev → s'.phase q = s.phase q) :
    NumberInv (log ++ es) s' := by
  have hall : ∀ {o : Option Int32}, (s'.phase a.pdev).number = o →
      o = none ∨ o = (s.phase a.pdev).number →
      ∀ p, (s'.phase p).number = none ∨ (s'.phase p).number = (s.phase p).number := by
    intro o ho hself p
    by_cases hp : p = a.pdev
    · subst hp
      rwa [ho]
    · rw [hother p hp]
      exact .inr rfl
  have hnext : (Int32.ofNat (takenIn log) + 1 : Int32) = Int32.ofNat (takenIn log + 1) :=
    (Int32.ofNat_add _ _).symm
  cases hstep with
  | other hminor htaken _ hcounter hnumber =>
    refine h.keeps ?_ ?_ (hall rfl hnumber)
    · rw [hcounter, h.counter, takenIn_append, htaken, Nat.add_zero]
    · rw [takenIn_append, htaken]
      exact h.taken_le
  | refused hminor hes hcounter hfull hnumber =>
    have hmore : takenIn (log ++ es) = takenIn log + 1 := by rw [takenIn_append, hes]; rfl
    have hlt := hok.lt hminor
    refine h.keeps ?_ ?_ (hall hnumber (.inl rfl))
    · rw [hcounter, h.counter, hmore, hnext]
    · omega
  | numbered hminor hes hcounter hroom hnumber =>
    have hmore : takenIn (log ++ es) = takenIn log + 1 := by rw [takenIn_append, hes]; rfl
    have hlt := hok.lt hminor
    have hvalue : s.minorCounter.toInt = takenIn log := by
      rw [h.counter, counter_toInt hlt]
    rw [Int32.lt_iff_toInt_lt] at hroom
    -- the new number is above those that were taken before
    have hfresh : ∀ q m, q ≠ a.pdev → (s'.phase q).number = some m →
        m.toInt < takenIn log ∧ m ≠ s.minorCounter := by
      intro q m hq hm
      rw [hother q hq] at hm
      have hbelow := (h.number q m hm).2.2
      refine ⟨hbelow,?_⟩
      rintro rfl
      omega
    constructor
    case counter => rw [hcounter, h.counter, hmore, hnext]
    case taken_le => omega
    case number =>
      intro p m hm
      rw [hmore]
      by_cases hp : p = a.pdev
      · subst hp
        obtain rfl := Option.some.inj (hnumber.symm.trans hm)
        refine ⟨?_,hroom,?_⟩ <;> omega
      · rw [hother p hp] at hm
        obtain ⟨hnonneg,hmax,hbelow⟩ := h.number p m hm
        exact ⟨hnonneg,hmax,by omega⟩
    case apart =>
      intro p q m hp hq
      by_cases hpa : p = a.pdev
      · by_cases hqa : q = a.pdev
        · rw [hpa, hqa]
        · subst hpa
          obtain rfl := Option.some.inj (hnumber.symm.trans hp)
          exact absurd rfl (hfresh q _ hqa hq).2
      · by_cases hqa : q = a.pdev
        · subst hqa
          obtain rfl := Option.some.inj (hnumber.symm.trans hq)
          exact absurd rfl (hfresh p _ hpa hp).2
        · rw [hother p hpa] at hp
          rw [hother q hqa] at hq
          exact h.apart p q m hp hq

theorem number_run {log : List (MinorEvent δ)} {s : DriverState δ}
    (h : (minorSystem P).RunWith NumberLeft log s) : NumberInv log s := by
  refine h.invariant (I := NumberInv) ?_ ?_
  · intro s hs
    have hnone : ∀ p, (s.phase p).number = none := by
      intro p
      rw [hs]
      rfl
    exact ⟨by rw [hs]; rfl,Nat.zero_le _,fun p m hm => by simp [hnone] at hm,
      fun p q m hm => by simp [hnone] at hm⟩
  · intro log s a s' es _ ih hok hstep
    obtain ⟨hnumber,hother⟩ := minorSystem_step hstep
    exact ih.step hok hnumber hother

/-- In such a run a number is refused only where all are in use. -/
theorem refused_allBound {log : List (MinorEvent δ)} {s : DriverState δ}
    (h : (minorSystem P).RunWith NumberLeft log s) :
    ∀ pre pdev post, log = pre ++ .refused pdev :: post → AllBound pre := by
  have hevents := h.event_of_step (P := fun pre e => ∀ pdev, e = .refused pdev → AllBound pre) ?_
  · intro pre pdev post hlog
    exact hevents pre _ post hlog pdev rfl
  · intro log s a s' es hrun hok hstep pre e post hes pdev he
    subst he
    have hinv := number_run hrun
    cases (minorSystem_step hstep).1 with
    | other _ _ hquiet => exact absurd (by rw [hes]; simp) (hquiet pdev)
    | numbered _ hone =>
      rw [hes] at hone
      cases pre <;> simp at hone
    | refused hminor hone _ hfull =>
      rw [hes] at hone
      obtain rfl : pre = [] := by
        cases pre with
        | nil => rfl
        | cons x pre => simp at hone
      rw [List.append_nil]
      rcases hok hminor with hless | ⟨hbound,_⟩
      · have hmax : maxDevices.toInt = 4 := by decide
        rw [Int32.le_iff_toInt_le, hinv.counter, counter_toInt (by omega)] at hfull
        omega
      · exact hbound

/-- The minors are kept apart as long as a probe finds a number left. -/
theorem minors_kept {log : List (MinorEvent δ)} {s : DriverState δ}
    (h : (minorSystem P).RunWith NumberLeft log s) : MinorsKept log s := by
  have hinv := number_run h
  have hnumber : ∀ p, BoundAfter log p → (s.phase p).number = some (s.phase p).dev.minor := by
    intro p hbound
    have hattached : (s.phase p).Attached := (bound_run (minor_run h) p).mp hbound
    cases hphase : s.phase p with
    | bound d | removing d rest => rfl
    | unbound | probing d step | unwinding d rest result =>
      rw [hphase] at hattached
      exact hattached.elim
  refine ⟨fun p q hp hq heq => ?_,fun p hp => ?_,refused_allBound h⟩
  · exact hinv.apart p q _ (hnumber p hp) (heq ▸ hnumber q hq)
  · obtain ⟨hnonneg,hmax,-⟩ := hinv.number p _ (hnumber p hp)
    exact ⟨Int32.le_iff_toInt_le.mpr hnonneg,Int32.lt_iff_toInt_lt.mpr hmax⟩

/-- Where no number is left a probe is refused with devices to spare. -/
theorem refused_of_not_left {log : List (MinorEvent δ)} {s s' : DriverState δ}
    {a : DriverAction δ} {es : List (MinorEvent δ)}
    (h : (minorSystem P).RunWith NumberLeft log s) (hleft : ¬NumberLeft log s a)
    (htaken : takenIn log < 2 ^ 31) (hstep : (minorSystem P).step s a = some (s',es)) :
    es = [.refused a.pdev] ∧ ¬AllBound log := by
  obtain ⟨hminor,hnone⟩ := Classical.not_imp.mp hleft
  obtain ⟨hall,hbound⟩ := not_or.mp hnone
  refine ⟨?_,fun hfull => hbound ⟨hfull,htaken⟩⟩
  cases (minorSystem_step hstep).1 with
  | other hother => exact absurd hminor hother
  | refused _ hes => exact hes
  | numbered _ _ _ hroom =>
    rw [Int32.lt_iff_toInt_lt, (number_run h).counter, counter_toInt htaken] at hroom
    exact absurd hroom hall

/-- The first probes always find a number. -/
theorem numberLeft_of_few {log : List (MinorEvent δ)} {s : DriverState δ}
    (h : (minorSystem P).Run log s) (hfew : (takenIn log : Int) ≤ maxDevices.toInt) :
    (minorSystem P).RunWith NumberLeft log s := by
  induction h with
  | init hs => exact .init hs
  | @step log s a s' es hrun _ hstep ih =>
    rw [takenIn_append, Int.natCast_add] at hfew
    refine .step (ih (by omega)) (fun hminor => .inl ?_) hstep
    have hone : takenIn es = 1 := by
      cases (minorSystem_step hstep).1 with
      | other hother => exact absurd hminor hother
      | numbered _ hes | refused _ hes =>
        rw [hes]
        rfl
    omega

/-- The first `n` statements of a probe. -/
def probing (pdev : δ) (n : Nat) : List (DriverAction δ) :=
  .probe pdev :: List.replicate n (.step pdev none)

/-- Both devices are probed. -/
def bindTwo : List (DriverAction (Fin 2)) :=
  probing ⟨0,Nat.two_pos⟩ 16 ++ probing ⟨1,Nat.one_lt_two⟩ 16

theorem bindTwo_runs : ((minorSystem twoDevices).exec (loaded _) bindTwo).isSome = true := by
  decide +kernel

theorem bindTwo_ends :
    let r := ((minorSystem twoDevices).exec (loaded _) bindTwo).get bindTwo_runs
    (takenIn r.2 : Int) ≤ maxDevices.toInt ∧
      r.1.phase 0 = .bound ⟨0,0,true,true,40,true,true⟩ ∧
      r.1.phase 1 = .bound ⟨1,1,true,true,41,true,true⟩ := by
  decide +kernel

theorem minors_kept_two : ∃ log s, (minorSystem twoDevices).RunWith NumberLeft log s ∧
    s.phase 0 = .bound ⟨0,0,true,true,40,true,true⟩ ∧
    s.phase 1 = .bound ⟨1,1,true,true,41,true,true⟩ ∧ MinorsKept log s := by
  have hrun := System.Run.of_exec (S := minorSystem twoDevices) rfl bindTwo bindTwo_runs
  obtain ⟨hfew,hzero,hone⟩ := bindTwo_ends
  have hleft := numberLeft_of_few hrun hfew
  exact ⟨_,_,hleft,hzero,hone,minors_kept hleft⟩

/-- A device is bound and removed four times, and probed once more. -/
def rebind : List (DriverAction (Fin 2)) :=
  let pdev : Fin 2 := ⟨0,Nat.two_pos⟩
  (List.replicate 4
    (probing pdev 16 ++ .remove pdev :: List.replicate 12 (.step pdev none))).flatten ++
    probing pdev 8

theorem rebind_runs : ((minorSystem twoDevices).exec (loaded _) rebind).isSome = true := by
  decide +kernel

theorem rebind_ends :
    let r := ((minorSystem twoDevices).exec (loaded _) rebind).get rebind_runs
    r.2.getLast? = some (.refused 0) ∧
      r.1.phase 0 = .unwinding ⟨4,4,true,true,40,false,false⟩ errIounmap enospc ∧
      r.1.phase 1 = .unbound := by
  decide +kernel

/-- The fifth probe is refused while no device is bound. -/
theorem rebound_device_refused : ∃ log s pre, (minorSystem twoDevices).Run log s ∧
    log = pre ++ [.refused 0] ∧ (∀ pdev, ¬BoundAfter pre pdev) ∧ ¬MinorsKept log s := by
  have hrun := System.Run.of_exec (S := minorSystem twoDevices) rfl rebind rebind_runs
  have hends := rebind_ends
  generalize ((minorSystem twoDevices).exec (loaded _) rebind).get rebind_runs = r at hrun hends
  obtain ⟨hlast,hzero,hone⟩ := hends
  obtain ⟨pre,hlog⟩ := List.getLast?_eq_some_iff.mp hlast
  have hunbound : ∀ pdev, ¬BoundAfter pre pdev := by
    intro pdev hbound
    have hafter : BoundAfter r.2 pdev := by
      rw [hlog, BoundAfter, List.filterMap_append]
      exact (boundIn_append (by simp [MinorEvent.driver?])).mpr hbound
    have hattached : (r.1.phase pdev).Attached := (bound_run (minor_run hrun) pdev).mp hafter
    rcases (by decide : ∀ pdev : Fin 2, pdev = 0 ∨ pdev = 1) pdev with rfl | rfl
    · rw [hzero] at hattached
      exact hattached
    · rw [hone] at hattached
      exact hattached
  refine ⟨_,_,pre,hrun,hlog,hunbound,fun hkept => ?_⟩
  obtain ⟨pdevs,-,hlength,hbound⟩ := hkept.refused pre 0 [] hlog
  cases pdevs with
  | nil => exact absurd hlength (by decide)
  | cons pdev rest => exact hunbound pdev (hbound pdev List.mem_cons_self)

end FpgaGpu.Driver
