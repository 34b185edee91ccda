import FpgaGpu.Driver.DmaCopy
import FpgaGpu.Library.System

/-! DMA_TRANSFER calls that run at the same time on one device. A call is five
phases, each one step; what they share is the device, and nothing locks it. -/
namespace FpgaGpu.Driver
open Library

/-- Where a call is; one that hits a NULL scatterlist goes no further. -/
inductive DmaPhase where
  | idle
  | pinned (t : Transfer)
  | mapped (t : Transfer)
  | started (t : Transfer)
  | done
  | crashed

/-- A call between its pin phase and its return. -/
def DmaPhase.Holding : DmaPhase → Prop
  | .idle | .done => False
  | .pinned _ | .mapped _ | .started _ | .crashed => True

instance (p : DmaPhase) : Decidable p.Holding :=
  match p with
  | .idle | .done => inferInstanceAs (Decidable False)
  | .pinned _ | .mapped _ | .started _ | .crashed => inferInstanceAs (Decidable True)

structure DmaCalls (ι : Type) where
  dev : DmaDev
  mem : Memory
  bus : UInt64 → Nat
  phase : ι → DmaPhase
  nextSgl : Nat

/-- The steps. `pin` has the argument, `none` where it cannot be read, and what
`get_user_pages_fast` gives; `map` says whether `kmalloc_array` succeeds, and
has the list of `dma_map_sg` and the bus addresses afterwards. Everybody else may
write to both memories at any time. -/
inductive DmaAction (ι : Type) where
  | pin (c : ι) (param : Option DmaParam) (gup : Gup)
  | map (c : ι) (alloc : Bool) (mapped : List MappedSg) (bus : UInt64 → Nat)
  | start (c : ι)
  | engine (dir : DmaDirection)
  | teardown (c : ι)
  | others (mem : Memory)

inductive DmaEvent (ι : Type) where
  | entered (c : ι) (t : Transfer) (pages : List Nat)
  | effect (c : ι) (e : DmaEffect)
  | ran (before after : Memory)
  | returned (c : ι) (ret : Ret)

variable {ι : Type} [DecidableEq ι]

/-- The end of a phase of call `c`, which goes on with `next` if it has no result. -/
def DmaCalls.after (s : DmaCalls ι) (c : ι) (next : DmaPhase) (r : PhaseResult) : DmaCalls ι :=
  {s with
    dev := r.1
    phase := Function.update s.phase c (if r.2.2.isSome then .done else next)}

omit [DecidableEq ι] in
def phaseEvents (c : ι) (r : PhaseResult) : List (DmaEvent ι) :=
  r.2.1.map (.effect c) ++ r.2.2.toList.map (.returned c)

@[simp] theorem DmaCalls.after_nextSgl (s : DmaCalls ι) (c : ι) (next : DmaPhase)
    (r : PhaseResult) : (s.after c next r).nextSgl = s.nextSgl := rfl

/-- A call that returns before it touches the device. -/
def DmaCalls.refuse (s : DmaCalls ι) (c : ι) (e : Errno) : DmaCalls ι × List (DmaEvent ι) :=
  ({s with phase := Function.update s.phase c .done},[.returned c (.err e)])

def DmaCalls.crash (s : DmaCalls ι) (c : ι) : DmaCalls ι :=
  {s with phase := Function.update s.phase c .crashed}

def DmaCalls.step (s : DmaCalls ι) : DmaAction ι → Option (DmaCalls ι × List (DmaEvent ι))
  | .pin c param gup =>
      match s.phase c, param with
      | .idle, none => some (s.refuse c .EFAULT)
      | .idle, some p =>
          match dmaCheck p, gup with
          | .error e, _ => some (s.refuse c e)
          | .ok t, .error e =>
              let r := s.dev.pin t (.error e)
              some (s.after c (.pinned t) r,phaseEvents c r)
          | .ok t, .got pages =>
              if pages.length ≤ t.numPages then
                let r := s.dev.pin t (.got pages)
                some (s.after c (.pinned t) r,.entered c t pages :: phaseEvents c r)
              else none
      | _, _ => none
  | .map c alloc mapped bus =>
      match s.phase c with
      | .pinned t =>
          -- the size of a negative number of entries overflows, so there is no allocation
          if !alloc ∨ s.dev.numPinnedPages < 0 then
            let r := s.dev.mapSgl t none mapped
            some (s.after c (.mapped t) r,phaseEvents c r)
          -- sg_init_table marks the entry before the first of an empty table
          else if s.dev.numPinnedPages = 0 then some (s.crash c,[])
          else if mapped = [] ∨
              MapsTo bus (sgFill t.param.size t.pageOffset s.dev.pages) mapped then
            let r := s.dev.mapSgl t (some s.nextSgl) mapped
            some ({s.after c (.mapped t) r with bus := bus,nextSgl := s.nextSgl + 1},
              phaseEvents c r)
          else none
      | _ => none
  | .start c =>
      match s.phase c with
      | .mapped t =>
          if s.dev.sgl = none ∧ s.dev.sglNents ≠ 0 then some (s.crash c,[])
          else
            let r := s.dev.start t
            some (s.after c (.started t) r,phaseEvents c r)
      | _ => none
  | .engine dir =>
      if s.dev.busy dir then
        match s.dev.runChain s.bus dir s.mem with
        | none => none
        | some mem => some ({s with dev := s.dev.setStatus 0 dir,mem := mem},[.ran s.mem mem])
      else none
  | .teardown c =>
      match s.phase c with
      | .started t =>
          if s.dev.sgl = none ∧ 0 < s.dev.numPinnedPages then some (s.crash c,[])
          else
            let r := s.dev.teardown t (s.dev.busy t.dir)
            some (s.after c .done r,phaseEvents c r)
      | _ => none
  | .others mem => some ({s with mem := mem},[])

/-- The device as `fpgagpu_probe` leaves it: no scatterlist, both channels idle. -/
def dmaCallSystem (ι : Type) [DecidableEq ι] :
    System (DmaCalls ι) (DmaAction ι) (DmaEvent ι) where
  init s := s.dev.sgl = none ∧ (∀ dir, s.dev.busy dir = false) ∧ ∀ c, s.phase c = .idle
  step := DmaCalls.step

/-- The ways a step can happen. -/
inductive DmaRule (s : DmaCalls ι) :
    DmaAction ι → DmaCalls ι → List (DmaEvent ι) → Prop where
  | refused (c : ι) (param : Option DmaParam) (gup : Gup) (e : Errno) :
      s.phase c = .idle → DmaRule s (.pin c param gup) (s.refuse c e).1 (s.refuse c e).2
  | pinFailed (c : ι) (p : DmaParam) (t : Transfer) (e : Errno) :
      s.phase c = .idle → dmaCheck p = .ok t →
      DmaRule s (.pin c (some p) (.error e)) (s.after c (.pinned t) (s.dev.pin t (.error e)))
        (phaseEvents c (s.dev.pin t (.error e)))
  | pin (c : ι) (p : DmaParam) (t : Transfer) (pages : List Nat) :
      s.phase c = .idle → dmaCheck p = .ok t →
      DmaRule s (.pin c (some p) (.got pages)) (s.after c (.pinned t) (s.dev.pin t (.got pages)))
        (.entered c t pages :: phaseEvents c (s.dev.pin t (.got pages)))
  | noSgl (c : ι) (t : Transfer) (alloc : Bool) (mapped : List MappedSg) (bus : UInt64 → Nat) :
      s.phase c = .pinned t →
      DmaRule s (.map c alloc mapped bus) (s.after c (.mapped t) (s.dev.mapSgl t none mapped))
        (phaseEvents c (s.dev.mapSgl t none mapped))
  | map (c : ι) (t : Transfer) (alloc : Bool) (mapped : List MappedSg) (bus : UInt64 → Nat) :
      s.phase c = .pinned t →
      mapped = [] ∨ MapsTo bus (sgFill t.param.size t.pageOffset s.dev.pages) mapped →
      DmaRule s (.map c alloc mapped bus)
        {s.after c (.mapped t) (s.dev.mapSgl t (some s.nextSgl) mapped) with
          bus := bus
          nextSgl := s.nextSgl + 1}
        (phaseEvents c (s.dev.mapSgl t (some s.nextSgl) mapped))
  | start (c : ι) (t : Transfer) :
      s.phase c = .mapped t →
      DmaRule s (.start c) (s.after c (.started t) (s.dev.start t)) (phaseEvents c (s.dev.start t))
  | engine (dir : DmaDirection) (mem : Memory) :
      s.dev.busy dir = true → s.dev.runChain s.bus dir s.mem = some mem →
      DmaRule s (.engine dir) {s with dev := s.dev.setStatus 0 dir,mem := mem} [.ran s.mem mem]
  | teardown (c : ι) (t : Transfer) :
      s.phase c = .started t →
      DmaRule s (.teardown c) (s.after c .done (s.dev.teardown t (s.dev.busy t.dir)))
        (phaseEvents c (s.dev.teardown t (s.dev.busy t.dir)))
  | others (mem : Memory) : DmaRule s (.others mem) {s with mem := mem} []
  | crashed (a : DmaAction ι) (c : ι) (t : Transfer) :
      s.phase c = .pinned t ∧ s.dev.numPinnedPages = 0 ∨ s.phase c = .mapped t ∧ s.dev.sgl = none ∨
        s.phase c = .started t ∧ s.dev.sgl = none →
      DmaRule s a (s.crash c) []

theorem dmaRule_of_step {s s' : DmaCalls ι} {a : DmaAction ι} {es : List (DmaEvent ι)}
    (h : s.step a = some (s',es)) : DmaRule s a s' es := by
  cases a with
  | pin c param gup =>
    simp only [DmaCalls.step] at h
    split at h
    next hphase => cases h; exact .refused c none gup .EFAULT hphase
    next p hphase =>
      split at h
      next e hcheck => cases h; exact .refused c (some p) _ e hphase
      next t e hcheck => cases h; exact .pinFailed c p t e hphase hcheck
      next t pages hcheck =>
        split at h
        next => cases h; exact .pin c p t pages hphase hcheck
        next => contradiction
    next => contradiction
  | map c alloc mapped bus =>
    simp only [DmaCalls.step] at h
    split at h
    next t hphase =>
      split_ifs at h with hnone hzero hmap
      · cases h; exact .noSgl c t alloc mapped bus hphase
      · cases h; exact .crashed _ c t (.inl ⟨hphase,hzero⟩)
      · cases h; exact .map c t alloc mapped bus hphase hmap
    next => contradiction
  | start c =>
    simp only [DmaCalls.step] at h
    split at h
    next t hphase =>
      split_ifs at h with hnull
      · cases h; exact .crashed _ c t (.inr (.inl ⟨hphase,hnull.1⟩))
      · cases h; exact .start c t hphase
    next => contradiction
  | engine dir =>
    simp only [DmaCalls.step] at h
    split_ifs at h with hbusy
    split at h
    next => contradiction
    next mem hrun => cases h; exact .engine dir mem hbusy hrun
  | teardown c =>
    simp only [DmaCalls.step] at h
    split at h
    next t hphase =>
      split_ifs at h with hnull
      · cases h; exact .crashed _ c t (.inr (.inr ⟨hphase,hnull.1⟩))
      · cases h; exact .teardown c t hphase
    next => contradiction
  | others mem =>
    cases h
    exact .others mem

end FpgaGpu.Driver
