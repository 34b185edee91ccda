import FpgaGpu.Driver.DmaCalls
import FpgaGpu.Driver.DmaTally

/-! What each DMA_TRANSFER call took and gave back. Calls that do not overlap
give back what they took and copy their own range; calls that overlap need not,
for the list of pages and the scatterlist they find in the device may be another's. -/
namespace FpgaGpu.Driver
open Library

variable {ι : Type} [DecidableEq ι]

/-- What call `c` did of one kind, in order. -/
def ofCall (c : ι) (kind : DmaEffect → Option Nat) (log : List (DmaEvent ι)) : List Nat :=
  log.filterMap fun
    | .effect c' e => if c' = c then kind e else none
    | _ => none

omit [DecidableEq ι] in
/-- The scatterlists that were freed, by whichever call. -/
def freedIn (log : List (DmaEvent ι)) : List Nat :=
  log.filterMap fun
    | .effect _ e => sglFreed e
    | _ => none

/-- The range of call `c` was copied, in one piece, after the call had begun. -/
def Transferred (log : List (DmaEvent ι)) (c : ι) : Prop :=
  ∃ pre t pages mid before, log = pre ++ .entered c t pages :: mid ∧
    .ran before (t.copy pages before) ∈ mid

/-- What the calls that returned have done. -/
structure Undisturbed (log : List (DmaEvent ι)) : Prop where
  pages : ∀ c ret, .returned c ret ∈ log → ofCall c pageDropped log = ofCall c pageTaken log
  sgls : ∀ c ret, .returned c ret ∈ log → ofCall c sglFreed log = ofCall c sglAllocated log
  freed : (freedIn log).Nodup
  copied : ∀ pre c post, log = pre ++ .returned c .ok :: post → Transferred pre c

/-- A request gets to the device only while no other call holds anything. -/
def Apart (_ : List (DmaEvent ι)) (s : DmaCalls ι) (a : DmaAction ι) : Prop :=
  ∀ c p gup t, a = .pin c (some p) gup → dmaCheck p = .ok t →
    ∀ c', c' ≠ c → ¬(s.phase c').Holding

theorem ofCall_append (c : ι) (kind : DmaEffect → Option Nat) (log es : List (DmaEvent ι)) :
    ofCall c kind (log ++ es) = ofCall c kind log ++ ofCall c kind es :=
  List.filterMap_append

@[simp] theorem ofCall_phaseEvents (c : ι) (kind : DmaEffect → Option Nat) (r : PhaseResult) :
    ofCall c kind (phaseEvents c r) = r.2.1.filterMap kind := by
  simp [ofCall, phaseEvents, List.filterMap_append, List.filterMap_map]

theorem ofCall_phaseEvents_other {c c' : ι} (h : c' ≠ c) (kind : DmaEffect → Option Nat)
    (r : PhaseResult) : ofCall c' kind (phaseEvents c r) = [] := by
  simp [ofCall, phaseEvents, Ne.symm h]

omit [DecidableEq ι] in
theorem freedIn_append (log es : List (DmaEvent ι)) :
    freedIn (log ++ es) = freedIn log ++ freedIn es :=
  List.filterMap_append

omit [DecidableEq ι] in
@[simp] theorem freedIn_phaseEvents (c : ι) (r : PhaseResult) :
    freedIn (phaseEvents c r) = r.2.1.filterMap sglFreed := by
  simp [freedIn, phaseEvents, List.filterMap_append, List.filterMap_map]

omit [DecidableEq ι] in
theorem returned_mem_phaseEvents {c c' : ι} {ret : Ret} {r : PhaseResult}
    (h : .returned c' ret ∈ phaseEvents c r) : c' = c ∧ r.2.2 = some ret := by
  simpa [phaseEvents, and_comm, eq_comm] using h

omit [DecidableEq ι] in
theorem freedIn_phase {log : List (DmaEvent ι)} {c : ι} {r : PhaseResult}
    {taken dropped allocated freed : List Nat}
    (htally : Tally r.2.1 taken dropped allocated freed) :
    freedIn (log ++ phaseEvents c r) = freedIn log ++ freed := by
  rw [freedIn_append, freedIn_phaseEvents, htally.freed]

/-- What call `c` has taken and not yet given back. -/
structure Books (log : List (DmaEvent ι)) (c : ι) (pages sgls : List Nat) : Prop where
  pages : ofCall c pageTaken log = ofCall c pageDropped log ++ pages
  sgls : ofCall c sglAllocated log = ofCall c sglFreed log ++ sgls

theorem Books.append {log es : List (DmaEvent ι)} {c : ι} {pages pages' sgls sgls' : List Nat}
    (h : Books log c pages sgls)
    (hpages : pages ++ ofCall c pageTaken es = ofCall c pageDropped es ++ pages')
    (hsgls : sgls ++ ofCall c sglAllocated es = ofCall c sglFreed es ++ sgls') :
    Books (log ++ es) c pages' sgls' := by
  obtain ⟨hp,hs⟩ := h
  constructor
  · rw [ofCall_append, ofCall_append, hp, List.append_assoc, hpages, List.append_assoc]
  · rw [ofCall_append, ofCall_append, hs, List.append_assoc, hsgls, List.append_assoc]

/-- A phase of the call itself. -/
theorem Books.phase {log : List (DmaEvent ι)} {c : ι} {r : PhaseResult}
    {pages pages' sgls sgls' taken dropped allocated freed : List Nat}
    (h : Books log c pages sgls) (htally : Tally r.2.1 taken dropped allocated freed)
    (hpages : pages ++ taken = dropped ++ pages') (hsgls : sgls ++ allocated = freed ++ sgls') :
    Books (log ++ phaseEvents c r) c pages' sgls' := by
  apply h.append
  · rw [ofCall_phaseEvents, ofCall_phaseEvents, htally.taken, htally.dropped, hpages]
  · rw [ofCall_phaseEvents, ofCall_phaseEvents, htally.allocated, htally.freed, hsgls]

/-- A step of another call. -/
theorem Books.frame {log es : List (DmaEvent ι)} {c : ι} {pages sgls : List Nat}
    (h : Books log c pages sgls) (hes : ∀ kind, ofCall c kind es = []) :
    Books (log ++ es) c pages sgls :=
  h.append (by simp [hes]) (by simp [hes])

omit [DecidableEq ι] in
theorem Transferred.append {log : List (DmaEvent ι)} {c : ι} (h : Transferred log c)
    (es : List (DmaEvent ι)) : Transferred (log ++ es) c := by
  obtain ⟨pre,t,pages,mid,before,rfl,hran⟩ := h
  exact ⟨pre,t,pages,mid ++ es,before,by simp,List.mem_append_left _ hran⟩

/-- The pages of a transfer are the ones the device lists. -/
structure DmaDev.Pinned (d : DmaDev) (t : Transfer) (pages : List Nat) : Prop where
  listed : d.pages = pages
  count : pages.length = t.numPages
  num : d.numPinnedPages = t.numPages

theorem Transfer.numPages_pos (t : Transfer) : 0 < t.numPages := by
  have hsize := t.size_pos
  rw [t.numPages_eq, pageSize]
  omega

theorem DmaDev.Pinned.num_ne_zero {d : DmaDev} {t : Transfer} {pages : List Nat}
    (h : d.Pinned t pages) : d.numPinnedPages ≠ 0 := by
  have hpos := t.numPages_pos
  rw [h.num]
  omega

def DmaDev.Quiet (d : DmaDev) : Prop := ∀ dir, d.busy dir = false

theorem DmaDev.busy_setStatus_zero (d : DmaDev) (dir dir' : DmaDirection) :
    (d.setStatus 0 dir).busy dir' = true ↔ d.busy dir' = true ∧ dir' ≠ dir := by
  cases dir <;> cases dir' <;>
    simp [busy, setStatus, DmaDirection.channel, xdmaH2cChan0, xdmaC2hChan0]

theorem DmaDev.busy_start (d : DmaDev) (t : Transfer) (dir : DmaDirection) :
    (d.start t).1.busy dir = true ↔ d.busy dir = true ∨ dir = t.dir := by
  cases hdir : t.dir <;> cases dir <;>
    simp [busy, start, iowrite32, setStatus, hdir, DmaDirection.channel, xdmaH2cChan0, xdmaC2hChan0]

theorem DmaDev.busy_teardown (d : DmaDev) (t : Transfer) (timeout : Bool) (dir : DmaDirection) :
    (d.teardown t timeout).1.busy dir = true ↔ d.busy dir = true ∧ dir ≠ t.dir := by
  cases hdir : t.dir <;> cases dir <;>
    simp [busy, teardown, iowrite32, setStatus, hdir, DmaDirection.channel, xdmaH2cChan0,
      xdmaC2hChan0]

/-- Call `c` is at work on `t`: it has begun, and holds `pages` and `sgls`. -/
structure AtWork (log : List (DmaEvent ι)) (s : DmaCalls ι) (c : ι) (t : Transfer)
    (pages sgls : List Nat) : Prop where
  entered : .entered c t pages ∈ log
  books : Books log c pages sgls
  pinned : s.dev.Pinned t pages
  unfreed : ∀ sgl ∈ sgls, sgl ∉ freedIn log ∧ sgl < s.nextSgl

/-- Where a call stands that has the device to itself. -/
def Stands (log : List (DmaEvent ι)) (s : DmaCalls ι) (c : ι) : DmaPhase → Prop
  | .idle | .done => Books log c [] []
  | .pinned t => ∃ pages, AtWork log s c t pages [] ∧ s.dev.Quiet
  | .mapped t => ∃ pages sgl, AtWork log s c t pages [sgl.id] ∧
      s.dev.Listed t pages s.bus sgl ∧ s.dev.Quiet
  | .started t => ∃ pages sgl, AtWork log s c t pages [sgl.id] ∧ s.dev.sgl = some sgl ∧
      (∀ dir, s.dev.busy dir = true → dir = t.dir) ∧
      (s.dev.busy t.dir = true →
        ∀ mem, s.dev.runChain s.bus t.dir mem = some (t.copy pages mem)) ∧
      (s.dev.busy t.dir = false → Transferred log c)
  | .crashed => False

structure DmaInv (log : List (DmaEvent ι)) (s : DmaCalls ι) : Prop where
  stands : ∀ c, Stands log s c (s.phase c)
  alone : ∀ c c', (s.phase c).Holding → (s.phase c').Holding → c = c'
  quiet : (∀ c, ¬(s.phase c).Holding) → s.dev.Quiet
  freed : (freedIn log).Nodup
  fresh : ∀ sgl ∈ freedIn log, sgl < s.nextSgl
  returned : ∀ c ret, .returned c ret ∈ log → s.phase c = .done

/-- A call that does nothing stays where it stands. -/
theorem Stands.frame {log es : List (DmaEvent ι)} {s s' : DmaCalls ι} {c : ι} {ph : DmaPhase}
    (h : Stands log s c ph) (hdev : s'.dev = s.dev) (hbus : s'.bus = s.bus)
    (hnext : s'.nextSgl = s.nextSgl) (hes : ∀ kind, ofCall c kind es = [])
    (hfreed : freedIn es = []) : Stands (log ++ es) s' c ph := by
  have hwork : ∀ {t pages sgls}, AtWork log s c t pages sgls →
      AtWork (log ++ es) s' c t pages sgls := by
    rintro t pages sgls ⟨hentered,hbooks,hpinned,hunfreed⟩
    refine ⟨List.mem_append_left es hentered,hbooks.frame hes,hdev ▸ hpinned,?_⟩
    rw [freedIn_append, hfreed, List.append_nil, hnext]
    exact hunfreed
  cases ph with
  | idle => exact Books.frame h hes
  | done => exact Books.frame h hes
  | pinned t =>
    obtain ⟨pages,h,hquiet⟩ := h
    exact ⟨pages,hwork h,hdev ▸ hquiet⟩
  | mapped t =>
    obtain ⟨pages,sgl,h,hlisted,hquiet⟩ := h
    refine ⟨pages,sgl,hwork h,?_,hdev ▸ hquiet⟩
    rw [hdev, hbus]
    exact hlisted
  | started t =>
    obtain ⟨pages,sgl,h,hsgl,honly,hrun,hdone⟩ := h
    refine ⟨pages,sgl,hwork h,hdev ▸ hsgl,hdev ▸ honly,?_,?_⟩
    · rw [hdev, hbus]
      exact hrun
    · rw [hdev]
      exact fun hbusy => (hdone hbusy).append es
  | crashed => exact h

theorem stands_iff_books {log : List (DmaEvent ι)} {s : DmaCalls ι} {c : ι} {ph : DmaPhase}
    (h : ¬ph.Holding) : Stands log s c ph ↔ Books log c [] [] := by
  cases ph with
  | idle | done => exact Iff.rfl
  | pinned | mapped | started | crashed => exact absurd trivial h

/-- A step of a call while no other call holds anything. -/
theorem DmaInv.call {log es : List (DmaEvent ι)} {s s' : DmaCalls ι} {c : ι} {ph : DmaPhase}
    (h : DmaInv log s) (hothers : ∀ c', c' ≠ c → ¬(s.phase c').Holding)
    (hopen : s.phase c ≠ .done) (hphase : s'.phase = Function.update s.phase c ph)
    (hes : ∀ c', c' ≠ c → ∀ kind, ofCall c' kind es = [])
    (hret : ∀ c' ret, .returned c' ret ∈ es → c' = c ∧ ph = .done)
    (hself : Stands (log ++ es) s' c ph) (hquiet : ¬ph.Holding → s'.dev.Quiet)
    (hfreed : (freedIn (log ++ es)).Nodup)
    (hfresh : ∀ sgl ∈ freedIn (log ++ es), sgl < s'.nextSgl) : DmaInv (log ++ es) s' := by
  have hsame : s'.phase c = ph := by rw [hphase, Function.update_self]
  have hother : ∀ c', c' ≠ c → s'.phase c' = s.phase c' := fun c' hc => by
    rw [hphase, Function.update_of_ne hc]
  have honly : ∀ c', (s'.phase c').Holding → c' = c := by
    intro c' hholding
    by_contra hc
    rw [hother c' hc] at hholding
    exact hothers c' hc hholding
  refine ⟨fun c' => ?_,fun c₁ c₂ h₁ h₂ => (honly c₁ h₁).trans (honly c₂ h₂).symm,?_,hfreed,
    hfresh,?_⟩
  · by_cases hc : c' = c
    · subst hc
      rwa [hsame]
    · have hbooks := (stands_iff_books (hothers c' hc)).mp (h.stands c')
      rw [hother c' hc]
      exact (stands_iff_books (hothers c' hc)).mpr (hbooks.frame (hes c' hc))
  · intro hnone
    exact hquiet (hsame ▸ hnone c)
  · intro c' ret hmem
    rcases List.mem_append.mp hmem with hold | hnew
    · have hdone := h.returned c' ret hold
      by_cases hc : c' = c
      · exact absurd (hc ▸ hdone) hopen
      · rw [hother c' hc, hdone]
    · obtain ⟨rfl,rfl⟩ := hret c' ret hnew
      exact hsame

/-- The same for a phase of the call. -/
theorem DmaInv.phase {log : List (DmaEvent ι)} {s s' : DmaCalls ι} {c : ι} {next : DmaPhase}
    {r : PhaseResult} {taken dropped allocated freed : List Nat} (h : DmaInv log s)
    (hothers : ∀ c', c' ≠ c → ¬(s.phase c').Holding) (hopen : s.phase c ≠ .done)
    (htally : Tally r.2.1 taken dropped allocated freed)
    (hphase : s'.phase = (s.after c next r).phase)
    (hself : Stands (log ++ phaseEvents c r) s' c (if r.2.2.isSome then .done else next))
    (hquiet : s'.dev.Quiet ∨ next.Holding ∧ r.2.2 = none)
    (hfreed : (freedIn log ++ freed).Nodup)
    (hfresh : ∀ sgl ∈ freedIn log ++ freed, sgl < s'.nextSgl) :
    DmaInv (log ++ phaseEvents c r) s' := by
  have hfreed_eq : freedIn (log ++ phaseEvents c r) = freedIn log ++ freed := freedIn_phase htally
  refine h.call hothers hopen hphase (fun c' hc kind => ofCall_phaseEvents_other hc kind r) ?_
    hself ?_ (hfreed_eq ▸ hfreed) (hfreed_eq ▸ hfresh)
  · intro c' ret hmem
    obtain ⟨rfl,hret⟩ := returned_mem_phaseEvents hmem
    exact ⟨rfl,by simp [hret]⟩
  · intro hidle
    refine hquiet.resolve_right fun ⟨hholding,hret⟩ => hidle ?_
    simpa [hret] using hholding

/-- The entry of a call changes nothing yet. -/
theorem DmaInv.enter {log : List (DmaEvent ι)} {s : DmaCalls ι} (h : DmaInv log s) (c : ι)
    (t : Transfer) (pages : List Nat) : DmaInv (log ++ [.entered c t pages]) s := by
  have hfreed : freedIn (log ++ [.entered c t pages]) = freedIn log := by
    simp [freedIn]
  exact ⟨fun c' => (h.stands c').frame rfl rfl rfl (fun kind => rfl) rfl,h.alone,h.quiet,
    hfreed ▸ h.freed,hfreed ▸ h.fresh,fun c' ret hmem => h.returned c' ret (by simpa using hmem)⟩

/-- A refusal. -/
theorem DmaInv.refuse {log : List (DmaEvent ι)} {s : DmaCalls ι} {c : ι} (h : DmaInv log s)
    (hphase : s.phase c = .idle) (e : Errno) :
    DmaInv (log ++ (s.refuse c e).2) (s.refuse c e).1 := by
  have hother : ∀ c', c' ≠ c → (s.refuse c e).1.phase c' = s.phase c' := fun c' hc =>
    Function.update_of_ne hc _ _
  have hself : (s.refuse c e).1.phase c = .done := Function.update_self _ _ _
  have hidle : ¬(s.phase c).Holding := by simp [hphase, DmaPhase.Holding]
  have hheld : ∀ c', ((s.refuse c e).1.phase c').Holding ↔ (s.phase c').Holding := by
    intro c'
    by_cases hc : c' = c
    · subst hc
      simp [hself, hphase, DmaPhase.Holding]
    · rw [hother c' hc]
  have hfreed : freedIn (log ++ (s.refuse c e).2) = freedIn log := by
    simp [freedIn, DmaCalls.refuse]
  refine ⟨fun c' => ?_,fun c₁ c₂ h₁ h₂ => h.alone c₁ c₂ ((hheld c₁).mp h₁) ((hheld c₂).mp h₂),?_,
    hfreed ▸ h.freed,hfreed ▸ h.fresh,fun c' ret hmem => ?_⟩
  · by_cases hc : c' = c
    · subst hc
      rw [hself]
      exact Books.frame ((stands_iff_books hidle).mp (h.stands c')) fun kind => rfl
    · rw [hother c' hc]
      exact (h.stands c').frame rfl rfl rfl (fun kind => rfl) rfl
  · exact fun hnone => h.quiet fun c' hc => hnone c' ((hheld c').mpr hc)
  · rcases List.mem_append.mp hmem with hold | hnew
    · have hdone := h.returned c' ret hold
      by_cases hc : c' = c
      · exact hc ▸ hself
      · rw [hother c' hc, hdone]
    · obtain ⟨rfl,-⟩ : c' = c ∧ _ := by simpa [DmaCalls.refuse] using hnew
      exact hself

/-- The engine runs the chain of the one call that has started it. -/
theorem DmaInv.engine {log : List (DmaEvent ι)} {s : DmaCalls ι} {dir : DmaDirection}
    {mem : Memory} (h : DmaInv log s) (hbusy : s.dev.busy dir = true)
    (hrun : s.dev.runChain s.bus dir s.mem = some mem) :
    DmaInv (log ++ [.ran s.mem mem]) {s with dev := s.dev.setStatus 0 dir,mem := mem} := by
  have hfreed : freedIn (log ++ [.ran s.mem mem]) = freedIn log := by
    simp [freedIn]
  refine ⟨fun c => ?_,h.alone,fun hnone => ?_,hfreed ▸ h.freed,hfreed ▸ h.fresh,
    fun c ret hmem => ?_⟩
  · have hstands := h.stands c
    by_cases hholding : (s.phase c).Holding
    · cases hphase : s.phase c with
      | idle | done => exact absurd hholding (by simp [hphase, DmaPhase.Holding])
      | crashed => simp [hphase, Stands] at hstands
      | pinned t =>
        rw [hphase] at hstands
        obtain ⟨pages,-,hquiet⟩ := hstands
        exact absurd (hquiet dir) (by simp [hbusy])
      | mapped t =>
        rw [hphase] at hstands
        obtain ⟨pages,sgl,-,-,hquiet⟩ := hstands
        exact absurd (hquiet dir) (by simp [hbusy])
      | started t =>
        rw [hphase] at hstands
        obtain ⟨pages,sgl,⟨hentered,hbooks,hpinned,hunfreed⟩,hsgl,honly,hchain,-⟩ := hstands
        obtain rfl := honly dir hbusy
        refine ⟨pages,sgl,⟨List.mem_append_left _ hentered,hbooks.frame fun kind => rfl,
          ⟨hpinned.listed,hpinned.count,hpinned.num⟩,hfreed ▸ hunfreed⟩,hsgl,?_,?_,fun _ => ?_⟩
        · intro dir' hdir
          exact absurd (honly dir' ((DmaDev.busy_setStatus_zero _ _ _).mp hdir).1)
            ((DmaDev.busy_setStatus_zero _ _ _).mp hdir).2
        · intro hbusy'
          exact absurd rfl ((DmaDev.busy_setStatus_zero _ _ _).mp hbusy').2
        · obtain rfl := Option.some.inj (hrun.symm.trans (hchain hbusy s.mem))
          obtain ⟨pre,mid,rfl⟩ := List.append_of_mem hentered
          exact ⟨pre,t,pages,mid ++ [.ran s.mem (t.copy pages s.mem)],s.mem,by simp,by simp⟩
    · exact (stands_iff_books hholding).mpr
        (((stands_iff_books hholding).mp hstands).frame fun kind => rfl)
  · exact absurd (h.quiet hnone dir) (by simp [hbusy])
  · exact h.returned c ret (by simpa using hmem)

/-- A call that is about to begin finds nobody at work. -/
theorem DmaInv.free {log : List (DmaEvent ι)} {s : DmaCalls ι} {c : ι} (h : DmaInv log s)
    (hphase : s.phase c = .idle) (hothers : ∀ c', c' ≠ c → ¬(s.phase c').Holding) :
    Books log c [] [] ∧ s.dev.Quiet := by
  have hidle : ¬(s.phase c).Holding := by simp [hphase, DmaPhase.Holding]
  refine ⟨(stands_iff_books hidle).mp (h.stands c),h.quiet fun c' => ?_⟩
  by_cases hc : c' = c
  · exact hc ▸ hidle
  · exact hothers c' hc

theorem DmaInv.others {log : List (DmaEvent ι)} {s : DmaCalls ι} {c : ι} {ph : DmaPhase}
    (h : DmaInv log s) (hphase : s.phase c = ph) (hholding : ph.Holding) :
    ∀ c', c' ≠ c → ¬(s.phase c').Holding :=
  fun c' hc hholding' => hc (h.alone c' c hholding' (hphase ▸ hholding))

theorem dmaInv_run {log : List (DmaEvent ι)} {s : DmaCalls ι}
    (h : (dmaCallSystem ι).RunWith Apart log s) : DmaInv log s := by
  apply h.invariant
  · rintro s ⟨-,hquiet,hidle⟩
    refine ⟨fun c => ?_,fun c c' hc => ?_,fun _ => hquiet,List.nodup_nil,nofun,nofun⟩
    · rw [hidle c]
      exact ⟨rfl,rfl⟩
    · simp [hidle c, DmaPhase.Holding] at hc
  · intro log s a s' es hrun ih hok hstep
    cases dmaRule_of_step hstep with
    | refused c param gup e hphase => exact ih.refuse hphase e
    | pinFailed c p t e hphase hcheck =>
      obtain ⟨hbooks,hquiet⟩ := ih.free hphase (hok c p _ t rfl hcheck)
      have htally : Tally (s.dev.pin t (.error e)).2.1 [] [] [] [] := ⟨rfl,rfl,rfl,rfl⟩
      refine ih.phase (hok c p _ t rfl hcheck) (by simp [hphase]) htally rfl ?_
        (.inl hquiet) (by simpa using ih.freed) (by simpa using ih.fresh)
      exact hbooks.phase htally rfl rfl
    | pin c p t pages hphase hcheck =>
      have ih := ih.enter c t pages
      obtain ⟨hbooks,hquiet⟩ := ih.free hphase (hok c p _ t rfl hcheck)
      rw [← List.singleton_append, ← List.append_assoc]
      by_cases hcount : pages.length = t.numPages
      · rw [DmaDev.pin_complete hcount]
        have htally := tally_getPages pages
        refine ih.phase (hok c p _ t rfl hcheck) (by simp [hphase]) htally rfl ?_ (.inl hquiet)
          (by simpa using ih.freed) (by simpa using ih.fresh)
        refine ⟨pages,⟨by simp,hbooks.phase htally rfl rfl,?_,nofun⟩,hquiet⟩
        exact ⟨s.dev.pages_got pages,hcount,by simp [DmaCalls.after, hcount]⟩
      · rw [DmaDev.pin_incomplete hcount]
        have htally := (tally_getPages pages).append (tally_putPages pages)
        refine ih.phase (hok c p _ t rfl hcheck) (by simp [hphase]) htally rfl ?_ (.inl hquiet)
          (by simpa using ih.freed) (by simpa using ih.fresh)
        exact hbooks.phase htally (by simp) rfl
    | noSgl c t alloc mapped bus hphase =>
      have hstands := ih.stands c
      rw [hphase] at hstands
      obtain ⟨pages,⟨hentered,hbooks,hpinned,hunfreed⟩,hquiet⟩ := hstands
      have htally := tally_putPages s.dev.pages
      refine ih.phase (ih.others hphase trivial) (by simp [hphase]) htally rfl ?_
        (.inl hquiet) (by simpa using ih.freed) (by simpa using ih.fresh)
      exact hbooks.phase htally (by simp [hpinned.listed]) rfl
    | map c t alloc mapped bus hphase hmap =>
      have hstands := ih.stands c
      rw [hphase] at hstands
      obtain ⟨pages,⟨hentered,hbooks,hpinned,-⟩,hquiet⟩ := hstands
      have hnew : s.nextSgl ∉ freedIn log := fun hmem => Nat.lt_irrefl _ (ih.fresh _ hmem)
      by_cases hempty : mapped = []
      · have hfail : s.dev.mapSgl t (some s.nextSgl) mapped = ({s.dev with
            sgl := none
            sglNents := 0
            numPinnedPages := 0},
            [.kmalloc s.nextSgl,.kfree s.nextSgl] ++ s.dev.pages.map .putPage,
            some (.err .ENOMEM)) := if_pos hempty
        rw [hfail]
        have hsgl : Tally [.kmalloc s.nextSgl,.kfree s.nextSgl] [] [] [s.nextSgl] [s.nextSgl] :=
          ⟨rfl,rfl,rfl,rfl⟩
        have htally := hsgl.append (tally_putPages s.dev.pages)
        refine ih.phase (ih.others hphase trivial) (by simp [hphase]) htally rfl ?_
          (.inl hquiet) ?_ ?_
        · exact hbooks.phase htally (by simp [hpinned.listed]) rfl
        · exact ih.freed.append (by simp) (by simpa using hnew)
        · intro sgl hmem
          rcases List.mem_append.mp hmem with hold | hnow
          · exact Nat.lt_succ_of_lt (ih.fresh sgl hold)
          · obtain rfl : sgl = s.nextSgl := by simpa using hnow
            exact Nat.lt_succ_self _
      · rw [DmaDev.mapSgl_mapped t s.nextSgl hempty]
        have htally : Tally [.kmalloc s.nextSgl,.mapSg s.nextSgl s.dev.numPinnedPages t.dir]
            [] [] [s.nextSgl] [] := ⟨rfl,rfl,rfl,rfl⟩
        have hfresh : ∀ sgl ∈ freedIn log, sgl < s.nextSgl + 1 := fun sgl hmem =>
          Nat.lt_succ_of_lt (ih.fresh sgl hmem)
        refine ih.phase (ih.others hphase trivial) (by simp [hphase]) htally rfl ?_
          (.inl hquiet) (by simpa using ih.freed) (by simpa using hfresh)
        refine ⟨pages,⟨s.nextSgl,_,mapped⟩,⟨List.mem_append_left _ hentered,
          hbooks.phase htally (by simp) rfl,
          ⟨hpinned.listed,hpinned.count,hpinned.num⟩,?_⟩,⟨rfl,rfl,?_⟩,hquiet⟩
        · rw [freedIn_phase htally]
          simpa using hnew
        · rw [← hpinned.listed]
          exact hmap.resolve_left hempty
    | start c t hphase =>
      have hstands := ih.stands c
      rw [hphase] at hstands
      obtain ⟨pages,sgl,⟨hentered,hbooks,hpinned,hunfreed⟩,hlisted,hquiet⟩ := hstands
      have htally : Tally (s.dev.start t).2.1 [] [] [] [] := ⟨rfl,rfl,rfl,rfl⟩
      refine ih.phase (ih.others hphase trivial) (by simp [hphase]) htally rfl ?_
        (.inr ⟨trivial,rfl⟩) (by simpa using ih.freed) (by simpa using ih.fresh)
      refine ⟨pages,sgl,⟨List.mem_append_left _ hentered,
        hbooks.phase htally (by simp) (by simp),
        ⟨hpinned.listed,hpinned.count,hpinned.num⟩,?_⟩,hlisted.stored,?_,?_,?_⟩
      · rw [freedIn_phase htally]
        simpa using hunfreed
      · intro dir hdir
        apply ((DmaDev.busy_start _ _ _).mp hdir).resolve_left
        intro hold
        exact absurd (hquiet dir) (by simp [hold])
      · exact fun _ => DmaDev.start_runs hpinned.count hlisted
      · intro hidle
        have hbusy := (DmaDev.busy_start s.dev t t.dir).mpr (.inr rfl)
        exact absurd (hidle.symm.trans hbusy) (by decide)
    | engine dir mem hbusy hchain => exact ih.engine hbusy hchain
    | teardown c t hphase =>
      have hstands := ih.stands c
      rw [hphase] at hstands
      obtain ⟨pages,sgl,⟨-,hbooks,hpinned,hunfreed⟩,hsgl,honly,-,-⟩ := hstands
      have htally := s.dev.tally_teardown t (s.dev.busy t.dir)
      rw [hpinned.listed, hsgl] at htally
      refine ih.phase (ih.others hphase trivial) (by simp [hphase]) htally rfl ?_
        (.inl fun dir => ?_) ?_ ?_
      · exact hbooks.phase htally (by simp) rfl
      · rw [Bool.eq_false_iff]
        intro hbusy
        obtain ⟨hold,hne⟩ := (s.dev.busy_teardown t (s.dev.busy t.dir) dir).mp hbusy
        exact hne (honly dir hold)
      · exact ih.freed.append (by simp) (by simpa using (hunfreed sgl.id (by simp)).1)
      · intro id hmem
        rcases List.mem_append.mp hmem with hold | hnow
        · exact ih.fresh id hold
        · exact (hunfreed id (by simpa using hnow)).2
    | others mem =>
      refine ⟨fun c => ?_,ih.alone,ih.quiet,?_,?_,?_⟩
      · exact (ih.stands c).frame rfl rfl rfl (fun kind => rfl) rfl
      · simpa using ih.freed
      · simpa using ih.fresh
      · simpa using ih.returned
    | crashed a c t hcrash =>
      have hstands := ih.stands c
      rcases hcrash with ⟨hphase,hzero⟩ | ⟨hphase,hnone⟩ | ⟨hphase,hnone⟩
      · rw [hphase] at hstands
        obtain ⟨pages,hwork,-⟩ := hstands
        exact absurd hzero hwork.pinned.num_ne_zero
      · rw [hphase] at hstands
        obtain ⟨pages,sgl,-,hlisted,-⟩ := hstands
        exact nomatch hnone.symm.trans hlisted.stored
      · rw [hphase] at hstands
        obtain ⟨pages,sgl,-,hsgl,-⟩ := hstands
        exact nomatch hnone.symm.trans hsgl

/-- A call that returns 0 has found its channel idle at the end. -/
theorem returned_ok {s s' : DmaCalls ι} {a : DmaAction ι} {es : List (DmaEvent ι)} {c : ι}
    (hrule : DmaRule s a s' es) (h : .returned c .ok ∈ es) :
    ∃ t, s.phase c = .started t ∧ s.dev.busy t.dir = false := by
  have hphase : ∀ {c' r}, .returned c .ok ∈ phaseEvents c' r → c = c' ∧ r.2.2 = some .ok :=
    returned_mem_phaseEvents
  cases hrule with
  | refused c' param gup e => simp [DmaCalls.refuse] at h
  | pinFailed c' p t e => nomatch (hphase h).2
  | pin c' p t pages =>
    have hret := (hphase (by simpa using h)).2
    by_cases hcount : pages.length = t.numPages
    · rw [DmaDev.pin_complete hcount] at hret
      nomatch hret
    · rw [DmaDev.pin_incomplete hcount] at hret
      nomatch hret
  | noSgl c' t alloc mapped bus => nomatch (hphase h).2
  | map c' t alloc mapped bus =>
    have hret := (hphase h).2
    simp only [DmaDev.mapSgl] at hret
    split at hret <;> nomatch hret
  | start c' t => nomatch (hphase h).2
  | engine dir mem => simp at h
  | teardown c' t hstarted =>
    obtain ⟨rfl,hret⟩ := hphase h
    refine ⟨t,hstarted,?_⟩
    by_contra hbusy
    simp [DmaDev.teardown, hbusy] at hret
  | others | crashed => simp at h

/-- Calls whose requests wait until no other call is at work do not disturb one
another. -/
theorem dma_calls_undisturbed {log : List (DmaEvent ι)} {s : DmaCalls ι}
    (h : (dmaCallSystem ι).RunWith Apart log s) : Undisturbed log := by
  have hinv := dmaInv_run h
  have hbooks : ∀ c ret, .returned c ret ∈ log → Books log c [] [] := by
    intro c ret hmem
    have hstands := hinv.stands c
    rwa [hinv.returned c ret hmem] at hstands
  refine ⟨fun c ret hmem => ?_,fun c ret hmem => ?_,hinv.freed,fun pre c post heq => ?_⟩
  · simpa using (hbooks c ret hmem).pages.symm
  · simpa using (hbooks c ret hmem).sgls.symm
  · refine h.event_of_step (P := fun pre e => ∀ c, e = .returned c .ok → Transferred pre c) ?_
      pre _ post heq c rfl
    rintro log s a s' es hrun hok hstep pre e post hes c rfl
    obtain ⟨t,hphase,hidle⟩ := returned_ok (dmaRule_of_step hstep) (c := c) (by simp [hes])
    have hstands := (dmaInv_run hrun).stands c
    rw [hphase] at hstands
    obtain ⟨pages,sgl,-,-,-,-,hdone⟩ := hstands
    exact (hdone hidle).append pre

/-- One byte from the start of a page to `ddr3Addr`. -/
def oneByte (ddr3Addr : UInt64) : DmaParam := ⟨0,1,ddr3Addr,0x1000⟩

def pinStep {κ : Type} (c : κ) (ddr3Addr : UInt64) (page : Nat) : DmaAction κ :=
  .pin c (some (oneByte ddr3Addr)) (.got [page])

def mapStep {κ : Type} (c : κ) (page : Nat) : DmaAction κ :=
  .map c true [⟨UInt64.ofNat (page * pageSize),1⟩] UInt64.toNat

def DmaEvent.succeeded (c : Fin 2) : DmaEvent (Fin 2) → Bool
  | .returned c' ret => c' = c ∧ ret = .ok
  | _ => false

theorem DmaEvent.succeeded_iff {c : Fin 2} {e : DmaEvent (Fin 2)} :
    e.succeeded c = true ↔ e = .returned c .ok := by
  cases e <;> simp [succeeded]

/-- Page 7 holds the byte 1, page 9 the byte 2. -/
def twoPages : DmaCalls (Fin 2) where
  dev := probedDmaDev
  mem := ⟨fun a => if a = 7 * pageSize then 1 else if a = 9 * pageSize then 2 else 0,fun _ => 0⟩
  bus := UInt64.toNat
  phase _ := .idle
  nextSgl := 0

theorem twoPages_init : (dmaCallSystem (Fin 2)).init twoPages :=
  ⟨rfl,fun dir => by cases dir <;> rfl,fun _ => rfl⟩

/-- A request waits until the other call holds nothing. -/
def pinsWait (s : DmaCalls (Fin 2)) : DmaAction (Fin 2) → Bool
  | .pin c _ _ => decide (∀ c', c' ≠ c → ¬(s.phase c').Holding)
  | _ => true

theorem apart_of_pinsWait {log : List (DmaEvent (Fin 2))} {s : DmaCalls (Fin 2)}
    {a : DmaAction (Fin 2)} (h : pinsWait s a = true) : Apart log s a := by
  rintro c p gup t rfl -
  exact of_decide_eq_true h

/-- Call `c'` begins when call `c` has returned. -/
def callsInTurn {κ : Type} (c c' : κ) : List (DmaAction κ) :=
  [pinStep c 0x10000 7,mapStep c 7,.start c,.engine .toDevice,.teardown c,
    pinStep c' 0x20000 9,mapStep c' 9,.start c',.engine .toDevice,.teardown c']

theorem callsInTurn_run :
    (((dmaCallSystem (Fin 2)).guarded pinsWait).exec twoPages (callsInTurn 0 1)).isSome = true := by
  decide +kernel

theorem dma_calls_undisturbed_in_turn : ∃ log s, (dmaCallSystem (Fin 2)).RunWith Apart log s ∧
    log.any (DmaEvent.succeeded 0) = true ∧ log.any (DmaEvent.succeeded 1) = true ∧
    s.mem.vram 0x10000 = 1 ∧ s.mem.vram 0x20000 = 2 ∧ Undisturbed log := by
  have hrun : (dmaCallSystem (Fin 2)).RunWith Apart _ _ :=
    .of_guarded_exec twoPages_init (callsInTurn 0 1) callsInTurn_run
      fun log s a => apart_of_pinsWait
  exact ⟨_,_,hrun,by decide +kernel,by decide +kernel,by decide +kernel,by decide +kernel,
    dma_calls_undisturbed hrun⟩

/-- Call `c'` pins its page between the pin phase of call `c` and its map phase. -/
def overlapping {κ : Type} (c c' : κ) : List (DmaAction κ) :=
  [pinStep c 0x10000 7,pinStep c' 0x20000 9,mapStep c 9,mapStep c' 9,.start c,.start c',
    .engine .toDevice,.teardown c,.teardown c']

theorem overlapping_runs :
    ((dmaCallSystem (Fin 2)).exec twoPages (overlapping 0 1)).isSome = true := by
  decide +kernel

/-- Both calls return 0. Page 7 is never dropped, the first scatterlist never
freed, and the range of call 0 was never copied. -/
theorem overlapping_calls_disturb : ∃ log s, (dmaCallSystem (Fin 2)).Run log s ∧
    log.any (DmaEvent.succeeded 0) = true ∧ log.any (DmaEvent.succeeded 1) = true ∧
    ofCall 0 pageTaken log = [7] ∧ ofCall 0 pageDropped log = [9] ∧ ofCall 1 pageDropped log = [] ∧
    ofCall 0 sglAllocated log = [0] ∧ freedIn log = [1] ∧ s.mem.vram 0x10000 = 0 ∧
    ¬Undisturbed log := by
  have hrun := System.Run.of_exec twoPages_init (overlapping 0 1) overlapping_runs
  have hsucceeded : (((dmaCallSystem (Fin 2)).exec twoPages (overlapping 0 1)).get
      overlapping_runs).2.any (DmaEvent.succeeded 0) = true := by
    decide +kernel
  have htaken : ofCall 0 pageTaken (((dmaCallSystem (Fin 2)).exec twoPages (overlapping 0 1)).get
      overlapping_runs).2 = [7] := by
    decide +kernel
  have hdropped : ofCall 0 pageDropped (((dmaCallSystem (Fin 2)).exec twoPages
      (overlapping 0 1)).get overlapping_runs).2 = [9] := by
    decide +kernel
  refine ⟨_,_,hrun,hsucceeded,by decide +kernel,htaken,hdropped,by decide +kernel,
    by decide +kernel,by decide +kernel,by decide +kernel,fun hundisturbed => ?_⟩
  obtain ⟨e,he,hret⟩ := List.any_eq_true.mp hsucceeded
  obtain rfl := DmaEvent.succeeded_iff.mp hret
  have hequal := hundisturbed.pages 0 .ok he
  rw [htaken, hdropped] at hequal
  exact absurd hequal (by decide)

end FpgaGpu.Driver
