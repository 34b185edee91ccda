import FpgaGpu.Driver.Section
import FpgaGpu.Library.Fifo

/-! The ring in BRAM refines a bounded queue of 511 tasks. Positions in the
queue never wrap; the ring stores them modulo 512, and a call inside the section
may work with a head that the firmware has already moved on from. -/
namespace FpgaGpu.Driver
open Library

variable {ι : Type}

/-- One slot of the ring stays free. -/
abbrev RingFifo (ι : Type) := Fifo (ι × Job) (queueSize - 1)

def TaskAt (q : RingFifo ι) (p : Nat) (task : DispatchPacket) : Prop :=
  ∃ c job, q.published[p]? = some (c,job) ∧ job.task = task

/-- The firmware's registers against the queue. -/
def FwRep (q : RingFifo ι) : Firmware → Prop
  | .idle => True
  | .sawHead head => head = slot q.taken
  | .fetch head got => head = slot q.taken ∧ got.length < packetWords ∧
      ∃ task, TaskAt q q.taken task ∧ got = task.words.take got.length
  | .exec head desc | .commit head desc => head = slot q.taken ∧
      ∃ task, TaskAt q q.taken task ∧ desc = task.words

/-- A call that found room has written the first `n` words of its task to the
slot behind the queue. -/
def Writing (q : RingFifo ι) (r : RingBuffer) (job : Job) (tail : UInt32) (n : Nat) : Prop :=
  tail = slot q.published.length ∧ q.published.length + 1 < q.taken + queueSize ∧
    ∀ i < n, r.cmds (q.published.length % queueSize) i = job.task.word i

/-- A call's local variables against the queue. -/
def CallRep (q : RingFifo ι) (r : RingBuffer) : Pc → Prop
  | .readTail _ head => ∃ h, h ≤ q.taken ∧ q.published.length < h + queueSize ∧ head = slot h
  | .writeCmd job tail j => j < packetWords ∧ Writing q r job tail j
  | .writeTail job tail => Writing q r job tail packetWords
  | _ => True

structure Represents (s : State ι) (q : RingFifo ι) : Prop where
  head : s.ring.head = slot q.taken
  tail : s.ring.tail = slot q.published.length
  pending : ∀ p task, q.taken ≤ p → TaskAt q p task →
    ∀ j < packetWords, s.ring.cmds (p % queueSize) j = task.word j
  fw : FwRep q s.fw
  call : ∀ c, CallRep q s.ring (s.pc c)

theorem TaskAt.lt {q : RingFifo ι} {p : Nat} {task : DispatchPacket}
    (h : TaskAt q p task) : p < q.published.length := by
  obtain ⟨c,job,hp,-⟩ := h
  exact (List.getElem?_eq_some_iff.mp hp).1

theorem taskAt_of_lt {q : RingFifo ι} {p : Nat} (h : p < q.published.length) :
    ∃ task, TaskAt q p task :=
  ⟨_,_,_,List.getElem?_eq_getElem h,rfl⟩

theorem lt_room (q : RingFifo ι) : q.published.length < q.taken + queueSize := by
  have := q.pending_le
  simp only [queueSize] at this ⊢
  omega

theorem CallRep.of_not_inSection {q : RingFifo ι} {r : RingBuffer} {p : Pc}
    (h : ¬p.InSection) : CallRep q r p := by
  cases p <;> simp [Pc.InSection, CallRep] at h ⊢

/-- The lock and the memories behind the ring do not matter to the queue. -/
private theorem Represents.frame {s : State ι} {q : RingFifo ι} (h : Represents s q)
    (dev : Device) (lock : Option ι) :
    Represents {s with dev := dev, globalLock := lock} q :=
  ⟨h.head,h.tail,h.pending,h.fw,h.call⟩

private theorem Represents.setFw {s : State ι} {q : RingFifo ι} (h : Represents s q)
    (fw : Firmware) (hfw : FwRep q fw) (dev : Device) :
    Represents {s with dev := dev, fw := fw} q :=
  ⟨h.head,h.tail,h.pending,hfw,h.call⟩

/-- Storing the new head takes the oldest task out of the queue. -/
private theorem Represents.take {s : State ι} {q : RingFifo ι} {head : UInt32}
    {desc : List UInt32} (h : Represents s q) (hfw : s.fw = .commit head desc)
    (pending : q.taken < q.published.length) :
    Represents {s with ring := {s.ring with head := nextSlot head}, fw := .idle}
      (q.take pending) := by
  have hrep := h.fw
  rw [hfw] at hrep
  refine ⟨?_,h.tail,?_,trivial,?_⟩
  · simp [hrep.1, Fifo.take]
  · intro p task hp htask
    exact h.pending p task (Nat.le_of_succ_le hp) htask
  · intro c
    have hcall := h.call c
    change CallRep (q.take pending) _ (s.pc c)
    cases hs : s.pc c with
    | readTail job head' =>
      rw [hs] at hcall
      obtain ⟨h',hle,hlt,hh⟩ := hcall
      exact ⟨h',Nat.le_succ_of_le hle,hlt,hh⟩
    | writeCmd job tail j =>
      rw [hs] at hcall
      obtain ⟨hj,ht,hroom,hw⟩ := hcall
      exact ⟨hj,ht,by simp only [Fifo.take]; omega,hw⟩
    | writeTail job tail =>
      rw [hs] at hcall
      obtain ⟨ht,hroom,hw⟩ := hcall
      exact ⟨ht,by simp only [Fifo.take]; omega,hw⟩
    | _ => trivial

/-- The ring state stands for the queue, and both have the same history. -/
def RingRefines (log : List (Event ι)) (s : State ι) (fifoLog : List (FifoEvent (ι × Job)))
    (q : RingFifo ι) : Prop :=
  Represents s q ∧ fifoLog.filterMap FifoEvent.put? = publishedIn log ∧
    consumedIn log = (fifoLog.filterMap FifoEvent.got?).map fun x => x.2.task.words

private theorem RingRefines.stutter {log es : List (Event ι)} {s s' : State ι}
    {fifoLog : List (FifoEvent (ι × Job))} {q : RingFifo ι} (h : RingRefines log s fifoLog q)
    (hrep : Represents s' q) (hpub : publishedIn es = []) (hcon : consumedIn es = []) :
    ∃ acts q' ds, (fifoSystem (ι × Job) (queueSize - 1)).exec q acts = some (q',ds) ∧
      RingRefines (log ++ es) s' (fifoLog ++ ds) q' :=
  ⟨[],q,[],rfl,hrep,by simpa [hpub] using h.2.1,by simpa [hcon] using h.2.2⟩

variable [DecidableEq ι]

/-- A step that moves one call and leaves the ring and the firmware alone. -/
private theorem Represents.setPc {s : State ι} {q : RingFifo ι} {c : ι} {p : Pc}
    (h : Represents s q) (hp : CallRep q s.ring p) : Represents (s.setPc c p) q where
  head := h.head
  tail := h.tail
  pending := h.pending
  fw := h.fw
  call c' := by
    by_cases hcc : c' = c
    · simpa [hcc] using hp
    · simpa [hcc] using h.call c'

/-- Words go to the slot behind the queue, which no pending position shares. -/
private theorem Represents.writeCmd {s : State ι} {q : RingFifo ι} {c : ι} {job : Job}
    {tail : UInt32} {j : Nat} (h : Represents s q) (hpc : s.pc c = .writeCmd job tail j)
    (halone : ∀ c', (s.pc c').InSection → c' = c) :
    Represents ({s with ring := s.ring.writeCmd tail.toNat j (job.task.word j)}.setPc c
      (if j + 1 < packetWords then .writeCmd job tail (j + 1) else .writeTail job tail)) q := by
  have hcall := h.call c
  rw [hpc] at hcall
  obtain ⟨hj,htail,hroom,hwritten⟩ := hcall
  have hslot : tail.toNat = q.published.length % queueSize := by rw [htail, slot_toNat]
  have hnow : Writing q (s.ring.writeCmd tail.toNat j (job.task.word j)) job tail (j + 1) := by
    refine ⟨htail,hroom,?_⟩
    intro i hi
    rw [hslot]
    by_cases hij : i = j
    · simp [RingBuffer.writeCmd, hij]
    · simpa [RingBuffer.writeCmd, hij] using hwritten i (by omega)
  refine ⟨h.head,h.tail,?_,h.fw,?_⟩
  · intro p task hp htask i hi
    have hne := pending_mod_ne hp htask.lt (lt_room q)
    simpa [RingBuffer.writeCmd, hslot, hne] using h.pending p task hp htask i hi
  · intro c'
    by_cases hcc : c' = c
    · subst hcc
      rw [State.setPc_pc_self]
      split
      next hmore => exact ⟨hmore,hnow⟩
      next hlast =>
        rw [show j + 1 = packetWords by omega] at hnow
        exact hnow
    · rw [State.setPc_pc_other _ _ _ hcc]
      exact .of_not_inSection fun hc' => hcc (halone c' hc')

/-- The tail update publishes the task that the slot now holds. -/
private theorem Represents.publish {s : State ι} {q : RingFifo ι} {c : ι} {job : Job}
    {tail : UInt32} (h : Represents s q) (hpc : s.pc c = .writeTail job tail)
    (halone : ∀ c', (s.pc c').InSection → c' = c)
    (room : q.published.length < q.taken + (queueSize - 1)) :
    Represents ({s with ring := {s.ring with tail := nextSlot tail}}.setPc c (.ringIrq job tail))
      (q.publish (c,job) room) := by
  have hcall := h.call c
  rw [hpc] at hcall
  obtain ⟨htail,-,hwritten⟩ := hcall
  have hold : ∀ p task, p < q.published.length →
      (TaskAt (q.publish (c,job) room) p task ↔ TaskAt q p task) := by
    intro p task hp
    simp [TaskAt, Fifo.publish, List.getElem?_append_left hp]
  refine ⟨h.head,?_,?_,?_,?_⟩
  · simp [htail, Fifo.publish]
  · intro p task hp htask i hi
    by_cases hlt : p < q.published.length
    · exact h.pending p task hp ((hold p task hlt).mp htask) i hi
    · have hlast : p = q.published.length := by
        have := htask.lt
        simp only [Fifo.publish, List.length_append, List.length_singleton] at this
        omega
      obtain ⟨c',job',hget,rfl⟩ := htask
      simp only [Fifo.publish, hlast, List.getElem?_concat_length, Option.some.injEq,
        Prod.mk.injEq] at hget
      obtain ⟨rfl,rfl⟩ := hget
      exact hlast ▸ hwritten i hi
  · have htaken : ∀ task, TaskAt q q.taken task →
        TaskAt (q.publish (c,job) room) q.taken task :=
      fun task ht => (hold _ task ht.lt).mpr ht
    have hfw := h.fw
    change FwRep (q.publish (c,job) room) s.fw
    cases hs : s.fw with
    | idle => trivial
    | sawHead head => rw [hs] at hfw; exact hfw
    | fetch head got =>
      rw [hs] at hfw
      obtain ⟨hh,hl,task,ht,hg⟩ := hfw
      exact ⟨hh,hl,task,htaken task ht,hg⟩
    | exec head desc =>
      rw [hs] at hfw
      obtain ⟨hh,task,ht,hd⟩ := hfw
      exact ⟨hh,task,htaken task ht,hd⟩
    | commit head desc =>
      rw [hs] at hfw
      obtain ⟨hh,task,ht,hd⟩ := hfw
      exact ⟨hh,task,htaken task ht,hd⟩
  · intro c'
    by_cases hcc : c' = c
    · simp [hcc, CallRep]
    · rw [State.setPc_pc_other _ _ _ hcc]
      exact .of_not_inSection fun hc' => hcc (halone c' hc')

/-- One more word of a task is fetched. -/
private theorem fetch_word {task : DispatchPacket} {got : List UInt32}
    (hlen : got.length < packetWords) (hgot : got = task.words.take got.length) :
    got ++ [task.word got.length] =
      task.words.take (got ++ [task.word got.length]).length := by
  have hlt : got.length < task.words.length := hlen
  rw [List.length_append, List.length_singleton, List.take_succ_eq_append_getElem hlt, ← hgot]
  simp [DispatchPacket.word, List.getElem?_eq_getElem hlt]

/-- A tail update publishes, a head update takes, and nothing else is visible
in the queue. -/
theorem ring_refines_fifo (ι : Type) [DecidableEq ι] (queueMode : Int) :
    Refinement (ringSystem ι queueMode) (fifoSystem (ι × Job) (queueSize - 1)) RingRefines where
  init s hs := by
    refine ⟨⟨[],0,Nat.le_refl _,Nat.zero_le _⟩,⟨rfl,rfl⟩,⟨hs.1,hs.2.1,?_,?_,?_⟩,rfl,rfl⟩
    · rintro p task - ⟨c,job,hget,-⟩
      simp at hget
    · simp [hs.2.2.2.2, FwRep]
    · intro c
      simp [hs.2.2.2.1 c, CallRep]
  step log s a s' es fifoLog q hrun _ hR hstep := by
    obtain ⟨hrep,hput,hgot⟩ := id hR
    have hfw := hrep.fw
    have halone : ∀ c, (s.pc c).InSection → ∀ c', (s.pc c').InSection → c' = c :=
      fun c hc c' hc' => section_unique hrun hc' hc
    cases rule_of_step hstep with
    | start c call hpc =>
      exact hR.stutter (hrep.setPc (.of_not_inSection (by simp))) rfl rfl
    | stageFault c kbin i hpc hw => exact hR.stutter (hrep.setPc trivial) rfl rfl
    | stageWord c kbin i w hpc hw =>
      exact hR.stutter ((hrep.frame _ _).setPc (.of_not_inSection (by simp))) rfl rfl
    | lock c job hpc hfree => exact hR.stutter ((hrep.frame _ _).setPc trivial) rfl rfl
    | readHead c job hpc =>
      exact hR.stutter (hrep.setPc ⟨q.taken,Nat.le_refl _,(lt_room q),hrep.head⟩) rfl rfl
    | readTailFull c job head hpc hfull => exact hR.stutter (hrep.setPc trivial) rfl rfl
    | readTailRoom c job head hpc hroom =>
      have hcall := hrep.call c
      rw [hpc] at hcall
      obtain ⟨h,hle,hlt,rfl⟩ := hcall
      -- the head may be stale, but an older head only makes the ring look fuller
      have hne : q.published.length + 1 ≠ h + queueSize := by
        intro heq
        apply hroom
        rw [hrep.tail, nextSlot_slot, slot_eq_iff]
        exact (next_mod_eq_iff (hle.trans q.taken_le) hlt).mpr heq
      exact hR.stutter (hrep.setPc ⟨by decide,hrep.tail,by omega,by simp⟩) rfl rfl
    | writeCmd c job tail j hpc =>
      exact hR.stutter (hrep.writeCmd hpc (halone c (by simp [hpc, Pc.InSection]))) rfl rfl
    | writeTail c job tail hpc =>
      have hcall := hrep.call c
      rw [hpc] at hcall
      have room : q.published.length < q.taken + (queueSize - 1) := by
        have := hcall.2.1
        simp only [queueSize] at this ⊢
        omega
      refine ⟨[.publish (c,job)],q.publish (c,job) room,[.put (c,job)],?_,?_,?_,?_⟩
      · simp [System.exec, fifoSystem, Fifo.step, room]
      · exact hrep.publish hpc (halone c (by simp [hpc, Pc.InSection])) room
      · rw [List.filterMap_append, publishedIn_append, hput]
        rfl
      · rw [List.filterMap_append, List.map_append, consumedIn_append, hgot]
        rfl
    | ringIrq c job tail hpc => exact hR.stutter (hrep.setPc trivial) rfl rfl
    | unlock c job tail hpc =>
      exact hR.stutter ((hrep.frame _ _).setPc (.of_not_inSection (by simp))) rfl rfl
    | unlockBusy c job hpc => exact hR.stutter ((hrep.frame _ _).setPc trivial) rfl rfl
    | snapshot c hpc => exact hR.stutter (hrep.setPc trivial) rfl rfl
    | testTrue c target a otherwise hpc ha hheld => exact hR.stutter (hrep.setPc trivial) rfl rfl
    | testFalse c target a otherwise hpc ha hheld =>
      exact hR.stutter (hrep.setPc (.of_not_inSection ha.not_inSection)) rfl rfl
    | fwHead hs => exact hR.stutter (hrep.setFw (.sawHead _) hrep.head _) rfl rfl
    | fwEmpty head hs hempty => exact hR.stutter (hrep.setFw .idle trivial _) rfl rfl
    | fwTask head hs hne =>
      rw [hs] at hfw
      have hlt : q.taken < q.published.length := by
        refine Nat.lt_of_le_of_ne q.taken_le fun heq => hne ?_
        rw [show head = slot q.taken from hfw, hrep.tail, heq]
      obtain ⟨task,htask⟩ := taskAt_of_lt hlt
      exact hR.stutter (hrep.setFw (.fetch head [])
        ⟨hfw,by decide,task,htask,by simp⟩ _) rfl rfl
    | fwFetch head got hs hmore =>
      rw [hs] at hfw
      obtain ⟨hh,hlen,task,htask,hgot'⟩ := hfw
      have hword := hrep.pending _ _ (Nat.le_refl _) htask got.length hlen
      refine hR.stutter (hrep.setFw (.fetch head _) ⟨hh,by simpa using hmore,task,htask,?_⟩ _)
        rfl rfl
      rw [hh, slot_toNat, hword]
      exact fetch_word hlen hgot'
    | fwFetchLast head got hs hlast =>
      rw [hs] at hfw
      obtain ⟨hh,hlen,task,htask,hgot'⟩ := hfw
      have hword := hrep.pending _ _ (Nat.le_refl _) htask got.length hlen
      refine hR.stutter (hrep.setFw (.exec head _) ⟨hh,task,htask,?_⟩ _) rfl rfl
      rw [hh, slot_toNat, hword, fetch_word hlen hgot']
      exact List.take_of_length_le (by simpa using hlast)
    | fwExec head desc hs =>
      rw [hs] at hfw
      exact hR.stutter (hrep.setFw (.commit head desc) hfw _) rfl rfl
    | fwCommit head desc hs =>
      rw [hs] at hfw
      obtain ⟨-,task,⟨c,job,hget,rfl⟩,hdesc⟩ := hfw
      obtain ⟨hlt,hat⟩ := List.getElem?_eq_some_iff.mp hget
      refine ⟨[.take],q.take hlt,[.got q.published[q.taken]],?_,hrep.take hs hlt,?_,?_⟩
      · simp [System.exec, fifoSystem, Fifo.step, hlt]
      · rw [List.filterMap_append, publishedIn_append, hput]
        rfl
      · rw [List.filterMap_append, List.map_append, consumedIn_append, hgot, hat, hdesc]
        rfl
    | upload page => exact hR.stutter (hrep.frame _ _) rfl rfl

/-- Every reachable ring stands for the queue of its history. -/
theorem ring_represents {queueMode : Int} {log : List (Event ι)} {s : State ι}
    (h : (ringSystem ι queueMode).Run log s) :
    ∃ q : RingFifo ι, Represents s q ∧ q.published = publishedIn log ∧
      q.taken = consumedCount log ∧
      consumedIn log = ((publishedIn log).take q.taken).map fun x => x.2.task.words := by
  obtain ⟨fifoLog,q,hq,hrep,hput,hgot⟩ := (ring_refines_fifo ι queueMode).run h
  obtain ⟨hpublished,htaken⟩ := fifo_delivers hq
  have hpub : q.published = publishedIn log := hpublished.symm.trans hput
  have hcon : consumedIn log =
      ((publishedIn log).take q.taken).map fun x => x.2.task.words := by
    rw [hgot, htaken, hpub]
  refine ⟨q,hrep,hpub,?_,hcon⟩
  have hle := q.taken_le
  rw [consumedCount, hcon]
  rw [hpub] at hle
  simp [hle]

/-- The firmware takes the published tasks in order, each whole. -/
theorem consumed_initial {queueMode : Int} {log : List (Event ι)} {s : State ι}
    (h : (ringSystem ι queueMode).Run log s) :
    consumedIn log <+: (publishedIn log).map (fun x => x.2.task.words) := by
  obtain ⟨q,-,-,-,hcon⟩ := ring_represents h
  rw [hcon]
  exact (List.take_prefix _ _).map _

/-- A call writes its descriptor to the slot the tail register names. -/
theorem writeCmd_tail {queueMode : Int} {log : List (Event ι)} {s : State ι}
    (h : (ringSystem ι queueMode).Run log s) {c : ι} {job : Job} {tail : UInt32} {j : Nat}
    (hpc : s.pc c = .writeCmd job tail j) :
    tail = s.ring.tail ∧ tail.toNat < queueSize ∧ j < packetWords := by
  obtain ⟨q,hrep,-⟩ := ring_represents h
  have hcall := hrep.call c
  rw [hpc] at hcall
  refine ⟨hcall.2.1.trans hrep.tail.symm,?_,hcall.1⟩
  rw [hcall.2.1, slot_toNat]
  exact Nat.mod_lt _ (by decide)

end FpgaGpu.Driver
