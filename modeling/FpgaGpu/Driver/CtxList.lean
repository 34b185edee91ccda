import FpgaGpu.Library.LinkedRing
import FpgaGpu.Library.System

/-! `dev->ctx_list` in memory: `fpgagpu_open`, `fpgagpu_release` and the private mode of
`fpgagpu_irq_handler`, one pointer at a time, on any number of CPUs. A context is named
by its address, which `kzalloc` may give out again after `kfree`. -/
namespace FpgaGpu.Driver
open Library

variable {α : Type}

/-- Where the open or the release of the file with this context is. `adding` and
`deleting` have the writes that are left. -/
inductive CtxPc (α : Type) where
  | free
  | lockAdd
  | listAddTail
  | adding (ws : List (LinkWrite α))
  | opened
  | lockDel
  | listDel
  | deleting (ws : List (LinkWrite α))
  | kfree

/-- Where the handler is in `list_for_each_entry`. -/
inductive WalkPc (α : Type) where
  | idle
  | lock
  | first
  | compare (pos : α)
  | advance (pos : α)

inductive ListHolder (α : Type) where
  | file (ctx : α)
  | handler

structure CtxState (α : Type) where
  links : Links α
  pc : α → CtxPc α
  ctxLock : Option (ListHolder α)
  handler : WalkPc α

/-- `scribble` is anybody's use of memory that is not allocated to a context. -/
inductive CtxAction (α : Type) where
  | fpgagpuOpen (ctx : α)
  | file (ctx : α)
  | irq (queueMode : Int)
  | scribble (node next prev : α)

/-- `fault` is an access to memory that is not allocated. -/
inductive CtxEvent (α : Type) where
  | added (ctx : α)
  | removed (ctx : α)
  | entered
  | woke (ctx : α)
  | left
  | fault (node : α)

variable [DecidableEq α]

def CtxState.setPc (s : CtxState α) (ctx : α) (pc : CtxPc α) : CtxState α :=
  {s with pc := Function.update s.pc ctx pc}

def CtxPc.isFree : CtxPc α → Bool
  | .free => true
  | _ => false

/-- The list head lies in `struct fpgagpu_dev`. -/
def CtxState.touch (head : α) (s : CtxState α) (node : α) : List (CtxEvent α) :=
  if node ≠ head ∧ (s.pc node).isFree then [.fault node] else []

/-- The next statement of `fpgagpu_open` or `fpgagpu_release` on `ctx`; `poison` is
what `list_del` leaves in the node. -/
def CtxState.fileStep (head : α) (poison : α × α) (s : CtxState α) (ctx : α) :
    Option (CtxState α × List (CtxEvent α)) :=
  match s.pc ctx with
  | .free => none
  | .lockAdd =>
      match s.ctxLock with
      | none => some ({s with ctxLock := some (.file ctx)}.setPc ctx .listAddTail,[])
      | some _ => none
  | .listAddTail =>
      some (s.setPc ctx (.adding (insertBetween ctx (s.links.prev head) head)),s.touch head head)
  | .adding (w :: ws) =>
      some ({s with links := s.links.write w}.setPc ctx (.adding ws),s.touch head w.node)
  | .adding [] => some ({s with ctxLock := none}.setPc ctx .opened,[.added ctx])
  | .opened => some (s.setPc ctx .lockDel,[])
  | .lockDel =>
      match s.ctxLock with
      | none => some ({s with ctxLock := some (.file ctx)}.setPc ctx .listDel,[])
      | some _ => none
  | .listDel =>
      some (s.setPc ctx (.deleting (bridge (s.links.prev ctx) (s.links.next ctx) ++
        [.next ctx poison.1,.prev ctx poison.2])),s.touch head ctx)
  | .deleting (w :: ws) =>
      some ({s with links := s.links.write w}.setPc ctx (.deleting ws),s.touch head w.node)
  | .deleting [] => some ({s with ctxLock := none}.setPc ctx .kfree,[.removed ctx])
  | .kfree => some (s.setPc ctx .free,[])

/-- The next statement of the handler, or its entry; it reads `queue_mode` once. -/
def CtxState.irq (head : α) (queueMode : Int) (s : CtxState α) :
    Option (CtxState α × List (CtxEvent α)) :=
  match s.handler with
  | .idle => some (if queueMode = 0 then s else {s with handler := .lock},[])
  | .lock =>
      match s.ctxLock with
      | none => some ({s with ctxLock := some .handler, handler := .first},[.entered])
      | some _ => none
  | .first => some ({s with handler := .compare (s.links.next head)},s.touch head head)
  | .compare pos =>
      if pos = head then some ({s with ctxLock := none, handler := .idle},[.left])
      else some ({s with handler := .advance pos},s.touch head pos ++ [.woke pos])
  | .advance pos => some ({s with handler := .compare (s.links.next pos)},s.touch head pos)

def CtxState.step (head : α) (poison : α × α) (s : CtxState α) :
    CtxAction α → Option (CtxState α × List (CtxEvent α))
  | .fpgagpuOpen ctx =>
      if ctx ≠ head ∧ (s.pc ctx).isFree then some (s.setPc ctx .lockAdd,[]) else none
  | .file ctx => s.fileStep head poison ctx
  | .irq queueMode => s.irq head queueMode
  | .scribble node next prev =>
      if node ≠ head ∧ (s.pc node).isFree then
        some ({s with links := s.links.writes [.next node next,.prev node prev]},[])
      else none

/-- After `INIT_LIST_HEAD`. -/
def ctxSystem (α : Type) [DecidableEq α] (head : α) (poison : α × α) :
    System (CtxState α) (CtxAction α) (CtxEvent α) where
  init s := s.links.next head = head ∧ s.links.prev head = head ∧ (∀ ctx, s.pc ctx = .free) ∧
    s.ctxLock = none ∧ s.handler = .idle
  step := CtxState.step head poison

def CtxEvent.update (xs : List α) : CtxEvent α → List α
  | .added ctx => xs ++ [ctx]
  | .removed ctx => xs.erase ctx
  | _ => xs

/-- The open contexts, in the order they were added. -/
def openIn (log : List (CtxEvent α)) : List α := log.foldl CtxEvent.update []

@[simp] theorem openIn_append (log es : List (CtxEvent α)) :
    openIn (log ++ es) = es.foldl CtxEvent.update (openIn log) := List.foldl_append

/-- The ways a step can go. -/
inductive CtxRule (head : α) (poison : α × α) (s : CtxState α) :
    CtxAction α → CtxState α → List (CtxEvent α) → Prop where
  | fpgagpuOpen (c : α) (hc : c ≠ head) (hpc : s.pc c = .free) :
      CtxRule head poison s (.fpgagpuOpen c) (s.setPc c .lockAdd) []
  | lockAdd (c : α) (hpc : s.pc c = .lockAdd) (hfree : s.ctxLock = none) :
      CtxRule head poison s (.file c)
        ({s with ctxLock := some (.file c)}.setPc c .listAddTail) []
  | listAddTail (c : α) (hpc : s.pc c = .listAddTail) :
      CtxRule head poison s (.file c)
        (s.setPc c (.adding (insertBetween c (s.links.prev head) head))) (s.touch head head)
  | addWrite (c : α) (w : LinkWrite α) (ws : List (LinkWrite α))
      (hpc : s.pc c = .adding (w :: ws)) :
      CtxRule head poison s (.file c)
        ({s with links := s.links.write w}.setPc c (.adding ws)) (s.touch head w.node)
  | added (c : α) (hpc : s.pc c = .adding []) :
      CtxRule head poison s (.file c) ({s with ctxLock := none}.setPc c .opened) [.added c]
  | fpgagpuRelease (c : α) (hpc : s.pc c = .opened) :
      CtxRule head poison s (.file c) (s.setPc c .lockDel) []
  | lockDel (c : α) (hpc : s.pc c = .lockDel) (hfree : s.ctxLock = none) :
      CtxRule head poison s (.file c) ({s with ctxLock := some (.file c)}.setPc c .listDel) []
  | listDel (c : α) (hpc : s.pc c = .listDel) :
      CtxRule head poison s (.file c)
        (s.setPc c (.deleting (bridge (s.links.prev c) (s.links.next c) ++
          [.next c poison.1,.prev c poison.2]))) (s.touch head c)
  | delWrite (c : α) (w : LinkWrite α) (ws : List (LinkWrite α))
      (hpc : s.pc c = .deleting (w :: ws)) :
      CtxRule head poison s (.file c)
        ({s with links := s.links.write w}.setPc c (.deleting ws)) (s.touch head w.node)
  | removed (c : α) (hpc : s.pc c = .deleting []) :
      CtxRule head poison s (.file c) ({s with ctxLock := none}.setPc c .kfree) [.removed c]
  | kfree (c : α) (hpc : s.pc c = .kfree) :
      CtxRule head poison s (.file c) (s.setPc c .free) []
  | irqShared (hpc : s.handler = .idle) : CtxRule head poison s (.irq 0) s []
  | irqPrivate (queueMode : Int) (hpc : s.handler = .idle) :
      CtxRule head poison s (.irq queueMode) {s with handler := .lock} []
  | walkLock (queueMode : Int) (hpc : s.handler = .lock) (hfree : s.ctxLock = none) :
      CtxRule head poison s (.irq queueMode)
        {s with ctxLock := some .handler, handler := .first} [.entered]
  | walkFirst (queueMode : Int) (hpc : s.handler = .first) :
      CtxRule head poison s (.irq queueMode) {s with handler := .compare (s.links.next head)}
        (s.touch head head)
  | walkEnd (queueMode : Int) (hpc : s.handler = .compare head) :
      CtxRule head poison s (.irq queueMode) {s with ctxLock := none, handler := .idle} [.left]
  | walkWake (queueMode : Int) (pos : α) (hpc : s.handler = .compare pos) (hpos : pos ≠ head) :
      CtxRule head poison s (.irq queueMode) {s with handler := .advance pos}
        (s.touch head pos ++ [.woke pos])
  | walkNext (queueMode : Int) (pos : α) (hpc : s.handler = .advance pos) :
      CtxRule head poison s (.irq queueMode) {s with handler := .compare (s.links.next pos)}
        (s.touch head pos)
  | scribble (node next prev : α) (hnode : node ≠ head) (hfree : s.pc node = .free) :
      CtxRule head poison s (.scribble node next prev)
        {s with links := s.links.writes [.next node next,.prev node prev]} []

omit [DecidableEq α] in
theorem CtxPc.isFree_iff {pc : CtxPc α} : pc.isFree = true ↔ pc = .free := by
  cases pc <;> simp [isFree]

theorem ctxRule_of_step {head : α} {poison : α × α} {s s' : CtxState α} {a : CtxAction α}
    {es : List (CtxEvent α)} (h : s.step head poison a = some (s',es)) :
    CtxRule head poison s a s' es := by
  cases a with
  | fpgagpuOpen c =>
    simp only [CtxState.step] at h
    split at h
    next hok => cases h; exact .fpgagpuOpen c hok.1 (CtxPc.isFree_iff.mp hok.2)
    next => contradiction
  | file c =>
    simp only [CtxState.step, CtxState.fileStep] at h
    split at h
    next => contradiction
    next hpc =>
      split at h
      next hfree => cases h; exact .lockAdd c hpc hfree
      next => contradiction
    next hpc => cases h; exact .listAddTail c hpc
    next w ws hpc => cases h; exact .addWrite c w ws hpc
    next hpc => cases h; exact .added c hpc
    next hpc => cases h; exact .fpgagpuRelease c hpc
    next hpc =>
      split at h
      next hfree => cases h; exact .lockDel c hpc hfree
      next => contradiction
    next hpc => cases h; exact .listDel c hpc
    next w ws hpc => cases h; exact .delWrite c w ws hpc
    next hpc => cases h; exact .removed c hpc
    next hpc => cases h; exact .kfree c hpc
  | irq queueMode =>
    simp only [CtxState.step, CtxState.irq] at h
    split at h
    next hpc =>
      split at h
      next hzero => cases h; subst hzero; exact .irqShared hpc
      next => cases h; exact .irqPrivate queueMode hpc
    next hpc =>
      split at h
      next hfree => cases h; exact .walkLock queueMode hpc hfree
      next => contradiction
    next hpc => cases h; exact .walkFirst queueMode hpc
    next pos hpc =>
      split at h
      next hpos => cases h; subst hpos; exact .walkEnd queueMode hpc
      next hpos => cases h; exact .walkWake queueMode pos hpc hpos
    next pos hpc => cases h; exact .walkNext queueMode pos hpc
  | scribble node next prev =>
    simp only [CtxState.step] at h
    split at h
    next hok => cases h; exact .scribble node next prev hok.1 (CtxPc.isFree_iff.mp hok.2)
    next => contradiction

/-- On the list. -/
def CtxPc.Listed : CtxPc α → Prop
  | .opened | .lockDel | .listDel | .deleting _ => True
  | _ => False

def CtxPc.InSection : CtxPc α → Prop
  | .listAddTail | .adding _ | .listDel | .deleting _ => True
  | _ => False

def WalkPc.InSection : WalkPc α → Prop
  | .first | .compare _ | .advance _ => True
  | _ => False

/-- The writes that are left. -/
def CtxPc.pending : CtxPc α → List (LinkWrite α)
  | .adding ws | .deleting ws => ws
  | _ => []

/-- What the list is after them. -/
def CtxPc.outcome (xs : List α) (c : α) : CtxPc α → List α
  | .adding _ => xs ++ [c]
  | .deleting _ => xs.erase c
  | _ => xs

/-- The list in memory, up to the writes that the holder of the lock still has to make. -/
def CtxState.Shape (head : α) (s : CtxState α) (xs : List α) : Prop :=
  match s.ctxLock with
  | some (.file c) => (s.links.writes (s.pc c).pending).Holds head ((s.pc c).outcome xs c) ∧
      ∀ w ∈ (s.pc c).pending, w.node ∈ head :: c :: xs
  | _ => s.links.Holds head xs

/-- The handler has woken the first of the contexts that were open when it took the lock,
and nothing else has happened since. -/
def Visits (head : α) (log : List (CtxEvent α)) : WalkPc α → Prop
  | .first => ∃ pre, log = pre ++ [.entered]
  | .compare pos => ∃ pre woken rest, log = pre ++ .entered :: woken.map .woke ∧
      openIn pre = woken ++ rest ∧ (rest ++ [head]).head? = some pos
  | .advance pos => ∃ pre woken rest, log = pre ++ .entered :: (woken ++ [pos]).map .woke ∧
      openIn pre = woken ++ pos :: rest
  | _ => True

structure CtxInv (head : α) (log : List (CtxEvent α)) (s : CtxState α) : Prop where
  apart : s.pc head = .free
  listed : ∀ c, c ∈ openIn log ↔ (s.pc c).Listed
  nodup : (openIn log).Nodup
  file : ∀ c, (s.pc c).InSection ↔ s.ctxLock = some (.file c)
  walk : s.handler.InSection ↔ s.ctxLock = some .handler
  shape : s.Shape head (openIn log)
  visits : Visits head log s.handler

section setPc
variable (s : CtxState α) (c : α) (pc : CtxPc α)

@[simp] theorem CtxState.setPc_links : (s.setPc c pc).links = s.links := rfl
@[simp] theorem CtxState.setPc_ctxLock : (s.setPc c pc).ctxLock = s.ctxLock := rfl
@[simp] theorem CtxState.setPc_handler : (s.setPc c pc).handler = s.handler := rfl
@[simp] theorem CtxState.setPc_pc_self : (s.setPc c pc).pc c = pc := by simp [setPc]

@[simp] theorem CtxState.setPc_pc_other {c' : α} (h : c' ≠ c) :
    (s.setPc c pc).pc c' = s.pc c' := by
  simp [setPc, h]

end setPc

/-- The wakes of a visit open and close nothing. -/
theorem openIn_woke (pre : List (CtxEvent α)) (woken : List α) :
    openIn (pre ++ .entered :: woken.map .woke) = openIn pre := by
  have hwoke : ∀ xs : List α, (woken.map CtxEvent.woke).foldl CtxEvent.update xs = xs := by
    intro xs
    induction woken with
    | nil => rfl
    | cons c woken ih => exact ih
  rw [openIn_append, List.foldl_cons]
  exact hwoke _

theorem visits_of_not_inSection {head : α} {log : List (CtxEvent α)} {pc : WalkPc α}
    (h : ¬pc.InSection) : Visits head log pc := by
  cases pc <;> first | trivial | exact absurd trivial h

theorem outcome_subset {head node c : α} {xs : List α} {pc : CtxPc α} (hc : node ≠ c)
    (hout : node ∉ head :: xs) : node ∉ head :: pc.outcome xs c := by
  rw [List.mem_cons, not_or] at hout ⊢
  refine ⟨hout.1,fun hin => hout.2 ?_⟩
  cases pc with
  | adding ws => simpa [CtxPc.outcome, hc] using hin
  | deleting ws => exact List.mem_of_mem_erase hin
  | _ => exact hin

section inv
variable {head : α} {log : List (CtxEvent α)} {s : CtxState α} (h : CtxInv head log s)
include h

/-- What is on the list, and what its holder is working on, is allocated. -/
theorem CtxInv.touch_nil {node : α} (hnode : node = head ∨ s.pc node ≠ .free) :
    s.touch head node = [] := by
  rcases hnode with rfl | hlive
  · simp [CtxState.touch]
  · rw [CtxState.touch, if_neg]
    exact fun hbad => hlive (CtxPc.isFree_iff.mp hbad.2)

theorem CtxInv.live {node : α} (hnode : node ∈ openIn log) : s.pc node ≠ .free := by
  have hlisted := (h.listed node).mp hnode
  intro hfree
  simp [hfree, CtxPc.Listed] at hlisted

theorem CtxInv.touch_within {c node : α} (hc : s.pc c ≠ .free)
    (hnode : node ∈ head :: c :: openIn log) : s.touch head node = [] := by
  rcases List.mem_cons.mp hnode with rfl | hin
  · exact h.touch_nil (.inl rfl)
  · rcases List.mem_cons.mp hin with rfl | hopen
    · exact h.touch_nil (.inr hc)
    · exact h.touch_nil (.inr (h.live hopen))

/-- The handler is at a context that is open, or at the head. -/
theorem CtxInv.touch_walked {pos : α} (hpc : s.handler = .compare pos ∨ s.handler = .advance pos) :
    s.touch head pos = [] := by
  have hvisits := h.visits
  rcases hpc with hpc | hpc
  · rw [hpc] at hvisits
    obtain ⟨pre,woken,rest,rfl,hopen,hfirst⟩ := hvisits
    rcases List.mem_append.mp (List.mem_of_mem_head? hfirst) with hrest | hhead
    · refine h.touch_nil (.inr (h.live ?_))
      rw [openIn_woke, hopen]
      exact List.mem_append_right _ hrest
    · exact h.touch_nil (.inl (List.mem_singleton.mp hhead))
  · rw [hpc] at hvisits
    obtain ⟨pre,woken,rest,rfl,hopen⟩ := hvisits
    refine h.touch_nil (.inr (h.live ?_))
    rw [openIn_woke, hopen]
    simp

/-- The lock is somebody else's or nobody's. -/
theorem CtxInv.holder {c : α} (hin : (s.pc c).InSection) :
    s.ctxLock = some (.file c) ∧ ¬s.handler.InSection := by
  have hlock := (h.file c).mp hin
  refine ⟨hlock,fun hwalk => ?_⟩
  have hother := h.walk.mp hwalk
  simp [hlock] at hother

theorem CtxInv.shape_of_holder {c : α} (hin : (s.pc c).InSection) :
    (s.links.writes (s.pc c).pending).Holds head ((s.pc c).outcome (openIn log) c) ∧
      ∀ w ∈ (s.pc c).pending, w.node ∈ head :: c :: openIn log := by
  have hshape := h.shape
  simpa only [CtxState.Shape, (h.holder hin).1] using hshape

theorem CtxInv.shape_of_walk (hin : s.handler.InSection) : s.links.Holds head (openIn log) := by
  have hshape := h.shape
  simpa only [CtxState.Shape, h.walk.mp hin] using hshape

theorem CtxInv.shape_of_unlocked (hfree : s.ctxLock = none) :
    s.links.Holds head (openIn log) := by
  have hshape := h.shape
  simpa only [CtxState.Shape, hfree] using hshape

/-- A statement outside the section. -/
theorem CtxInv.outside {c : α} {pc : CtxPc α} (hc : c ≠ head) (hold : ¬(s.pc c).InSection)
    (hnew : ¬pc.InSection) (hlisted : pc.Listed ↔ (s.pc c).Listed) :
    CtxInv head (log ++ []) (s.setPc c pc) := by
  rw [List.append_nil]
  refine ⟨?_,fun c' => ?_,h.nodup,fun c' => ?_,h.walk,?_,h.visits⟩
  · rw [CtxState.setPc_pc_other _ _ _ hc.symm]
    exact h.apart
  · by_cases hcc : c' = c
    · rw [hcc, CtxState.setPc_pc_self, hlisted]
      exact h.listed c
    · rw [CtxState.setPc_pc_other _ _ _ hcc]
      exact h.listed c'
  · by_cases hcc : c' = c
    · rw [hcc, CtxState.setPc_pc_self, CtxState.setPc_ctxLock, ← h.file c]
      exact iff_of_false hnew hold
    · rw [CtxState.setPc_pc_other _ _ _ hcc]
      exact h.file c'
  · have hshape := h.shape
    unfold CtxState.Shape at hshape ⊢
    rw [CtxState.setPc_ctxLock]
    split at hshape
    next c' hlock =>
      have hne : c' ≠ c := by
        rintro rfl
        exact hold ((h.file c').mpr hlock)
      simpa [hlock, hne] using hshape
    next => exact hshape

/-- The lock is taken for `c`. -/
theorem CtxInv.locked {c : α} {pc : CtxPc α} (hc : c ≠ head) (hfree : s.ctxLock = none)
    (hnew : pc.InSection) (hpending : pc.pending = [])
    (houtcome : ∀ xs, pc.outcome xs c = xs) (hlisted : pc.Listed ↔ (s.pc c).Listed) :
    CtxInv head (log ++ []) ({s with ctxLock := some (.file c)}.setPc c pc) := by
  rw [List.append_nil]
  refine ⟨?_,fun c' => ?_,h.nodup,fun c' => ?_,?_,?_,h.visits⟩
  · rw [CtxState.setPc_pc_other _ _ _ hc.symm]
    exact h.apart
  · by_cases hcc : c' = c
    · rw [hcc, CtxState.setPc_pc_self, hlisted]
      exact h.listed c
    · rw [CtxState.setPc_pc_other _ _ _ hcc]
      exact h.listed c'
  · by_cases hcc : c' = c
    · simp [hcc, hnew]
    · have hout : ¬(s.pc c').InSection := by simp [h.file c', hfree]
      simp [hcc, hout, Ne.symm hcc]
  · have hout : ¬s.handler.InSection := by simp [h.walk, hfree]
    simp [hout]
  · simpa [CtxState.Shape, hpending, houtcome] using h.shape_of_unlocked hfree

/-- A statement of the holder, up to the unlock. -/
theorem CtxInv.within {c : α} {pc : CtxPc α} {L : Links α} (hc : c ≠ head)
    (hold : (s.pc c).InSection) (hnew : pc.InSection) (hlisted : pc.Listed ↔ (s.pc c).Listed)
    (hshape : (L.writes pc.pending).Holds head (pc.outcome (openIn log) c))
    (hnodes : ∀ w ∈ pc.pending, w.node ∈ head :: c :: openIn log) :
    CtxInv head log ({s with links := L}.setPc c pc) := by
  obtain ⟨hlock,-⟩ := h.holder hold
  refine ⟨?_,fun c' => ?_,h.nodup,fun c' => ?_,h.walk,?_,h.visits⟩
  · rw [CtxState.setPc_pc_other _ _ _ hc.symm]
    exact h.apart
  · by_cases hcc : c' = c
    · rw [hcc, CtxState.setPc_pc_self, hlisted]
      exact h.listed c
    · rw [CtxState.setPc_pc_other _ _ _ hcc]
      exact h.listed c'
  · by_cases hcc : c' = c
    · simp [hcc, hnew, hlock]
    · rw [CtxState.setPc_pc_other _ _ _ hcc]
      exact h.file c'
  · simpa [CtxState.Shape, hlock] using ⟨hshape,by simpa using hnodes⟩

/-- The holder gives the lock back, and the list has changed. -/
theorem CtxInv.unlocked {c : α} {pc : CtxPc α} {e : CtxEvent α} (hc : c ≠ head)
    (hold : (s.pc c).InSection) (hpending : (s.pc c).pending = []) (hnew : ¬pc.InSection)
    (hopen : e.update (openIn log) = (s.pc c).outcome (openIn log) c)
    (hlisted : ∀ c', c' ∈ e.update (openIn log) ↔ ((s.setPc c pc).pc c').Listed) :
    CtxInv head (log ++ [e]) ({s with ctxLock := none}.setPc c pc) := by
  obtain ⟨hlock,hwalk⟩ := h.holder hold
  have hupdate : openIn (log ++ [e]) = e.update (openIn log) := by simp
  have hholds := (h.shape_of_holder hold).1
  rw [hpending, Links.writes_nil, ← hopen] at hholds
  refine ⟨?_,fun c' => ?_,?_,fun c' => ?_,?_,?_,visits_of_not_inSection hwalk⟩
  · rw [CtxState.setPc_pc_other _ _ _ hc.symm]
    exact h.apart
  · rw [hupdate]
    exact hlisted c'
  · rw [hupdate]
    exact (List.nodup_cons.mp hholds.nodup).2
  · by_cases hcc : c' = c
    · simp [hcc, hnew]
    · have hout : ¬(s.pc c').InSection := by simp [h.file c', hlock, Ne.symm hcc]
      simp [hcc, hout]
  · simp [hwalk]
  · rw [hupdate]
    simpa [CtxState.Shape] using hholds

end inv

/-- The writes of a section go to the head, the context and its neighbours. -/
theorem ctxInv_run {head : α} {poison : α × α} {log : List (CtxEvent α)} {s : CtxState α}
    (h : (ctxSystem α head poison).Run log s) : CtxInv head log s := by
  refine h.invariant (I := CtxInv head) ?_ ?_
  · rintro s ⟨hnext,hprev,hpc,hlock,hhandler⟩
    refine ⟨hpc head,fun c => ?_,by simp [openIn],fun c => ?_,?_,?_,?_⟩
    · simp [openIn, hpc, CtxPc.Listed]
    · simp [hpc, hlock, CtxPc.InSection]
    · simp [hhandler, hlock, WalkPc.InSection]
    · simpa [CtxState.Shape, hlock, openIn] using Links.holds_nil hnext hprev
    · simp [hhandler, Visits]
  · intro log s a s' es hrun ih _ hstep
    have hapart : ∀ {c : α}, s.pc c ≠ .free → c ≠ head := by
      rintro c hc rfl
      exact hc ih.apart
    cases ctxRule_of_step hstep with
    | fpgagpuOpen c hc hpc =>
      exact ih.outside hc (by simp [hpc, CtxPc.InSection]) (by simp [CtxPc.InSection])
        (by simp [hpc, CtxPc.Listed])
    | lockAdd c hpc hfree =>
      exact ih.locked (hapart (by simp [hpc])) hfree trivial rfl (fun _ => rfl)
        (by simp [hpc, CtxPc.Listed])
    | listAddTail c hpc =>
      have hc : c ≠ head := hapart (by simp [hpc])
      have hin : (s.pc c).InSection := by simp [hpc, CtxPc.InSection]
      have hholds : s.links.Holds head (openIn log) := by
        simpa [hpc, CtxPc.pending, CtxPc.outcome] using (ih.shape_of_holder hin).1
      have hnew : c ∉ head :: openIn log := by
        rw [List.mem_cons, ih.listed c]
        simp [hc, hpc, CtxPc.Listed]
      rw [ih.touch_nil (.inl rfl), List.append_nil]
      refine ih.within (L := s.links) hc hin trivial (by simp [hpc, CtxPc.Listed])
        (hholds.addTail hnew) ?_
      have htail := hholds.tail_mem
      simp only [CtxPc.pending, insertBetween, List.mem_cons, List.not_mem_nil, or_false,
        forall_eq_or_imp, forall_eq, LinkWrite.node] at htail ⊢
      exact ⟨.inl trivial,.inr (.inl trivial),.inr (.inl trivial),htail.imp_right .inr⟩
    | addWrite c w ws hpc =>
      have hin : (s.pc c).InSection := by simp [hpc, CtxPc.InSection]
      obtain ⟨hholds,hnodes⟩ := ih.shape_of_holder hin
      rw [hpc] at hholds hnodes
      rw [ih.touch_within (c := c) (by simp [hpc]) (hnodes w List.mem_cons_self), List.append_nil]
      exact ih.within (hapart (by simp [hpc])) hin trivial (by simp [hpc, CtxPc.Listed]) hholds
        fun w' hw' => hnodes w' (List.mem_cons_of_mem _ hw')
    | added c hpc =>
      refine ih.unlocked (hapart (by simp [hpc])) (by simp [hpc, CtxPc.InSection])
        (by simp [hpc, CtxPc.pending]) (by simp [CtxPc.InSection])
        (by simp [hpc, CtxEvent.update, CtxPc.outcome]) fun c' => ?_
      by_cases hcc : c' = c
      · simp [hcc, CtxEvent.update, CtxPc.Listed]
      · simp [hcc, CtxEvent.update, ih.listed c']
    | fpgagpuRelease c hpc =>
      exact ih.outside (hapart (by simp [hpc])) (by simp [hpc, CtxPc.InSection])
        (by simp [CtxPc.InSection]) (by simp [hpc, CtxPc.Listed])
    | lockDel c hpc hfree =>
      exact ih.locked (hapart (by simp [hpc])) hfree trivial rfl (fun _ => rfl)
        (by simp [hpc, CtxPc.Listed])
    | listDel c hpc =>
      have hin : (s.pc c).InSection := by simp [hpc, CtxPc.InSection]
      have hc : c ≠ head := hapart (by simp [hpc])
      have hholds : s.links.Holds head (openIn log) := by
        simpa [hpc, CtxPc.pending, CtxPc.outcome] using (ih.shape_of_holder hin).1
      obtain ⟨ys,zs,hopen⟩ := List.append_of_mem ((ih.listed c).mpr (by simp [hpc, CtxPc.Listed]))
      rw [hopen] at hholds
      have hys : c ∉ ys := by
        have hnodup := hholds.nodup
        rw [← List.cons_append, List.nodup_middle, List.nodup_cons] at hnodup
        exact fun hmem => hnodup.1 (by simp [hmem])
      rw [ih.touch_nil (.inr (by simp [hpc])), List.append_nil]
      refine ih.within (L := s.links) hc hin trivial (by simp [hpc, CtxPc.Listed]) ?_ ?_
      · rw [CtxPc.outcome, hopen, List.erase_append_right _ hys, List.erase_cons_head]
        exact hholds.del poison.1 poison.2
      · obtain ⟨hprev,hnext⟩ := hholds.neighbours
        rw [hopen]
        simp only [CtxPc.pending, bridge, List.cons_append, List.nil_append, List.mem_cons,
          List.mem_append, List.not_mem_nil, or_false, forall_eq_or_imp, forall_eq,
          LinkWrite.node] at hprev hnext ⊢
        tauto
    | delWrite c w ws hpc =>
      have hin : (s.pc c).InSection := by simp [hpc, CtxPc.InSection]
      obtain ⟨hholds,hnodes⟩ := ih.shape_of_holder hin
      rw [hpc] at hholds hnodes
      rw [ih.touch_within (c := c) (by simp [hpc]) (hnodes w List.mem_cons_self), List.append_nil]
      exact ih.within (hapart (by simp [hpc])) hin trivial (by simp [hpc, CtxPc.Listed]) hholds
        fun w' hw' => hnodes w' (List.mem_cons_of_mem _ hw')
    | removed c hpc =>
      have hin : (s.pc c).InSection := by simp [hpc, CtxPc.InSection]
      refine ih.unlocked (hapart (by simp [hpc])) hin (by simp [hpc, CtxPc.pending])
        (by simp [CtxPc.InSection]) (by simp [hpc, CtxEvent.update, CtxPc.outcome]) fun c' => ?_
      rw [CtxEvent.update, ih.nodup.mem_erase_iff, ih.listed c']
      by_cases hcc : c' = c
      · simp [hcc, CtxPc.Listed]
      · simp [hcc]
    | kfree c hpc =>
      exact ih.outside (hapart (by simp [hpc])) (by simp [hpc, CtxPc.InSection])
        (by simp [CtxPc.InSection]) (by simp [hpc, CtxPc.Listed])
    | irqShared hpc => simpa using ih
    | irqPrivate queueMode hpc =>
      rw [List.append_nil]
      refine ⟨ih.apart,ih.listed,ih.nodup,ih.file,?_,ih.shape,trivial⟩
      rw [← ih.walk]
      simp [hpc, WalkPc.InSection]
    | walkLock queueMode hpc hfree =>
      have hopen : openIn (log ++ [.entered]) = openIn log := by simp [CtxEvent.update]
      refine ⟨ih.apart,?_,?_,fun c => ?_,by simp [WalkPc.InSection],?_,⟨log,rfl⟩⟩
      · rw [hopen]
        exact ih.listed
      · rw [hopen]
        exact ih.nodup
      · simp [ih.file c, hfree]
      · rw [hopen]
        exact ih.shape_of_unlocked hfree
    | walkFirst queueMode hpc =>
      have hin : s.handler.InSection := by simp [hpc, WalkPc.InSection]
      have hvisits := ih.visits
      rw [hpc] at hvisits
      obtain ⟨pre,rfl⟩ := hvisits
      have hopen : openIn (pre ++ [.entered]) = openIn pre := openIn_woke pre []
      rw [ih.touch_nil (.inl rfl), List.append_nil]
      refine ⟨ih.apart,ih.listed,ih.nodup,ih.file,iff_of_true trivial (ih.walk.mp hin),ih.shape,
        ⟨pre,[],_,rfl,rfl,?_⟩⟩
      · have hfirst := (ih.shape_of_walk hin).first
        rwa [hopen] at hfirst
    | walkEnd queueMode hpc =>
      have hin : s.handler.InSection := by simp [hpc, WalkPc.InSection]
      have hopen : openIn (log ++ [.left]) = openIn log := by simp [CtxEvent.update]
      refine ⟨ih.apart,?_,?_,fun c => ?_,by simp [WalkPc.InSection],?_,trivial⟩
      · rw [hopen]
        exact ih.listed
      · rw [hopen]
        exact ih.nodup
      · simp [ih.file c, ih.walk.mp hin]
      · rw [hopen]
        exact ih.shape_of_walk hin
    | walkWake queueMode pos hpc hpos =>
      have hin : s.handler.InSection := by simp [hpc, WalkPc.InSection]
      have hvisits := ih.visits
      rw [hpc] at hvisits
      obtain ⟨pre,woken,rest,rfl,hopen,hfirst⟩ := hvisits
      cases rest with
      | nil => exact absurd (Option.some.inj hfirst).symm hpos
      | cons c rest =>
        obtain rfl : c = pos := Option.some.inj hfirst
        have hlog : pre ++ .entered :: woken.map .woke ++ [.woke c] =
            pre ++ .entered :: (woken ++ [c]).map CtxEvent.woke := by simp
        have hsame : openIn (pre ++ .entered :: woken.map .woke ++ [.woke c]) =
            openIn (pre ++ .entered :: woken.map .woke) := by simp [CtxEvent.update]
        rw [ih.touch_walked (.inl hpc), List.nil_append]
        refine ⟨ih.apart,?_,?_,ih.file,iff_of_true trivial (ih.walk.mp hin),?_,
          ⟨pre,woken,rest,hlog,hopen⟩⟩
        · rw [hsame]
          exact ih.listed
        · rw [hsame]
          exact ih.nodup
        · rw [hsame]
          exact ih.shape
    | walkNext queueMode pos hpc =>
      have hin : s.handler.InSection := by simp [hpc, WalkPc.InSection]
      have hvisits := ih.visits
      rw [hpc] at hvisits
      obtain ⟨pre,woken,rest,rfl,hopen⟩ := hvisits
      have hholds := ih.shape_of_walk hin
      rw [ih.touch_walked (.inr hpc), List.append_nil]
      rw [openIn_woke, hopen] at hholds
      exact ⟨ih.apart,ih.listed,ih.nodup,ih.file,iff_of_true trivial (ih.walk.mp hin),ih.shape,
        ⟨pre,woken ++ [pos],rest,rfl,by simp [hopen],hholds.next_eq⟩⟩
    | scribble node next prev hnode hfree =>
      rw [List.append_nil]
      refine ⟨ih.apart,ih.listed,ih.nodup,ih.file,ih.walk,?_,ih.visits⟩
      have hout : node ∉ head :: openIn log := by
        rw [List.mem_cons, not_or]
        exact ⟨hnode,fun hin => ih.live hin hfree⟩
      have hshape := ih.shape
      unfold CtxState.Shape at hshape ⊢
      dsimp only at hshape ⊢
      split at hshape
      next c hlock =>
        have hc : node ≠ c := by
          rintro rfl
          have hin := (ih.file node).mpr hlock
          simp [hfree, CtxPc.InSection] at hin
        exact hshape.imp_left fun hholds => hholds.other (outcome_subset hc hout) next prev
      next =>
        have hholds : (s.links.writes []).Holds head (openIn log) := hshape
        exact hholds.other hout next prev

section faithful
variable {head : α} {poison : α × α} {log : List (CtxEvent α)} {s : CtxState α}
  (h : (ctxSystem α head poison).Run log s)
include h

/-- Nobody follows a pointer into memory that has been freed. -/
theorem no_fault (node : α) : .fault node ∉ log := by
  intro hmem
  obtain ⟨pre,post,hlog⟩ := List.append_of_mem hmem
  refine h.event_of_step (P := fun _ e => e ≠ .fault node) ?_ pre _ post hlog rfl
  rintro log s a s' es hrun - hstep pre e post hes rfl
  have hinv := ctxInv_run hrun
  have hfault : .fault node ∈ es := by simp [hes]
  have hquiet : ∀ node', s.touch head node' = [] → .fault node ∉ s.touch head node' := by
    intro node' hnil
    simp [hnil]
  cases ctxRule_of_step hstep with
  | fpgagpuOpen | lockAdd | fpgagpuRelease | lockDel | kfree | irqShared | irqPrivate | scribble =>
    simp at hfault
  | added | removed | walkLock | walkEnd => simp at hfault
  | listAddTail | walkFirst => exact hquiet head (hinv.touch_nil (.inl rfl)) hfault
  | addWrite c w ws hpc | delWrite c w ws hpc =>
    have hin : (s.pc c).InSection := by simp [hpc, CtxPc.InSection]
    have hnodes := (hinv.shape_of_holder hin).2
    rw [hpc] at hnodes
    exact hquiet _ (hinv.touch_within (by simp [hpc]) (hnodes w List.mem_cons_self)) hfault
  | listDel c hpc => exact hquiet c (hinv.touch_nil (.inr (by simp [hpc]))) hfault
  | walkWake queueMode pos hpc => simp [hinv.touch_walked (.inl hpc)] at hfault
  | walkNext queueMode pos hpc => exact hquiet pos (hinv.touch_walked (.inr hpc)) hfault

/-- A walk wakes every context on the list, each once. -/
theorem walk_complete {pre post : List (CtxEvent α)} (hlog : log = pre ++ .left :: post) :
    ∃ pre', pre = pre' ++ .entered :: (openIn pre').map .woke := by
  refine h.event_of_step
    (P := fun pre e => e = .left → ∃ pre', pre = pre' ++ .entered :: (openIn pre').map .woke)
    ?_ pre _ post hlog rfl
  rintro log s a s' es hrun - hstep pre e post hes rfl
  have hinv := ctxInv_run hrun
  have hleft : .left ∈ es := by simp [hes]
  have hquiet : ∀ node, .left ∉ s.touch head node := by
    intro node
    unfold CtxState.touch
    split <;> simp
  cases ctxRule_of_step hstep with
  | fpgagpuOpen | lockAdd | fpgagpuRelease | lockDel | kfree | irqShared | irqPrivate | scribble =>
    simp at hleft
  | added | removed | walkLock => simp at hleft
  | listAddTail | addWrite | listDel | delWrite | walkFirst | walkNext =>
    exact absurd hleft (hquiet _)
  | walkWake queueMode pos => simp [hquiet] at hleft
  | walkEnd queueMode hpc =>
    have hvisits := hinv.visits
    rw [hpc] at hvisits
    obtain ⟨pre',woken,rest,rfl,hopen,hfirst⟩ := hvisits
    have hpre : pre = [] := by
      rcases List.append_eq_singleton_iff.mp hes.symm with ⟨hnil,-⟩ | ⟨-,hnil⟩
      · exact hnil
      · contradiction
    cases rest with
    | nil => exact ⟨pre',by simp [hpre, hopen]⟩
    | cons c rest =>
      obtain rfl : c = head := Option.some.inj hfirst
      refine absurd hinv.apart (hinv.live ?_)
      rw [openIn_woke, hopen]
      simp

/-- The pointers are the list of the open contexts whenever nobody holds the lock, every
walk wakes all of them and nothing else, and no pointer into freed memory is followed. -/
theorem ctx_list_faithful :
    (s.ctxLock = none → s.links.Holds head (openIn log)) ∧
    (∀ pre post, log = pre ++ .left :: post →
      ∃ pre', pre = pre' ++ .entered :: (openIn pre').map .woke) ∧
    ∀ node, .fault node ∉ log :=
  ⟨(ctxInv_run h).shape_of_unlocked,fun _ _ hlog => walk_complete h hlog,no_fault h⟩

end faithful

def ctxStart : CtxState Nat :=
  ⟨⟨fun _ => 0,fun _ => 0⟩,fun _ => .free,none,.idle⟩

/-- Two files are opened, the handler walks, the first file is released while its memory
is used again, and the handler walks once more. -/
def ctxTrace : List (CtxAction Nat) :=
  .fpgagpuOpen 1 :: .fpgagpuOpen 2 :: List.replicate 7 (.file 1) ++ List.replicate 7 (.file 2) ++
    List.replicate 8 (.irq 1) ++ List.replicate 9 (.file 1) ++ [.scribble 1 5 6] ++
    List.replicate 6 (.irq 1)

theorem ctxTrace_runs : ((ctxSystem Nat 0 (8,9)).exec ctxStart ctxTrace).isSome := by
  decide +kernel

theorem ctx_list_faithful_reused : ∃ log s, (ctxSystem Nat 0 (8,9)).Run log s ∧
    s.ctxLock = none ∧ openIn log = [2] ∧ s.links.Holds 0 [2] ∧
    ∀ node, .fault node ∉ log := by
  have hrun := System.Run.of_exec (S := ctxSystem Nat 0 (8,9)) (s := ctxStart)
    ⟨rfl,rfl,fun _ => rfl,rfl,rfl⟩ ctxTrace ctxTrace_runs
  have hfaithful := ctx_list_faithful hrun
  have hopen : openIn (((ctxSystem Nat 0 (8,9)).exec ctxStart ctxTrace).get ctxTrace_runs).2 =
      [2] := by decide +kernel
  have hlock : (((ctxSystem Nat 0 (8,9)).exec ctxStart ctxTrace).get
      ctxTrace_runs).1.ctxLock.isNone := by decide +kernel
  have hfree := Option.isNone_iff_eq_none.mp hlock
  exact ⟨_,_,hrun,hfree,hopen,hopen ▸ hfaithful.1 hfree,hfaithful.2.2⟩

end FpgaGpu.Driver
