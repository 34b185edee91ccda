import FpgaGpu.Driver.Machine

/-! The histories the properties speak about: what was published, run and
consumed, and which call did what. -/
namespace FpgaGpu.Driver

variable {ι : Type}

@[simp] def Event.published? : Event ι → Option (ι × Job)
  | .published c job => some (c,job)
  | _ => none

@[simp] def Event.consumed? : Event ι → Option (List UInt32)
  | .consumed desc => some desc
  | _ => none

@[simp] def Event.executed? : Event ι → Option (List UInt32 × Device)
  | .executed desc dev => some (desc,dev)
  | _ => none

/-- Who published what, in the order of the tail updates. -/
def publishedIn (log : List (Event ι)) : List (ι × Job) := log.filterMap Event.published?

/-- The descriptors the firmware took, in order. -/
def consumedIn (log : List (Event ι)) : List (List UInt32) := log.filterMap Event.consumed?

/-- The tasks the firmware ran, with the memories they ran on. -/
def executedIn (log : List (Event ι)) : List (List UInt32 × Device) :=
  log.filterMap Event.executed?

def publishedCount (log : List (Event ι)) : Nat := (publishedIn log).length
def consumedCount (log : List (Event ι)) : Nat := (consumedIn log).length

/-- How many descriptors are published and not yet consumed. -/
def pendingCount (log : List (Event ι)) : Nat := publishedCount log - consumedCount log

def executedCount (log : List (Event ι)) : Nat := (executedIn log).length

@[simp] theorem publishedIn_nil : publishedIn ([] : List (Event ι)) = [] := rfl
@[simp] theorem consumedIn_nil : consumedIn ([] : List (Event ι)) = [] := rfl
@[simp] theorem executedIn_nil : executedIn ([] : List (Event ι)) = [] := rfl

@[simp] theorem publishedIn_cons (e : Event ι) (log : List (Event ι)) :
    publishedIn (e :: log) = e.published?.toList ++ publishedIn log := by
  cases e <;> rfl

@[simp] theorem consumedIn_cons (e : Event ι) (log : List (Event ι)) :
    consumedIn (e :: log) = e.consumed?.toList ++ consumedIn log := by
  cases e <;> rfl

@[simp] theorem executedIn_cons (e : Event ι) (log : List (Event ι)) :
    executedIn (e :: log) = e.executed?.toList ++ executedIn log := by
  cases e <;> rfl

@[simp] theorem publishedIn_append (log log' : List (Event ι)) :
    publishedIn (log ++ log') = publishedIn log ++ publishedIn log' := List.filterMap_append ..

@[simp] theorem consumedIn_append (log log' : List (Event ι)) :
    consumedIn (log ++ log') = consumedIn log ++ consumedIn log' := List.filterMap_append ..

@[simp] theorem executedIn_append (log log' : List (Event ι)) :
    executedIn (log ++ log') = executedIn log ++ executedIn log' := List.filterMap_append ..

theorem consumedCount_append_le (log es : List (Event ι)) :
    consumedCount log ≤ consumedCount (log ++ es) := by
  simp [consumedCount]

variable [DecidableEq ι]

def Event.headReadBy (c : ι) : Event ι → Bool
  | .headRead c' => decide (c' = c)
  | _ => false

def Event.tailReadBy (c : ι) : Event ι → Bool
  | .tailRead c' => decide (c' = c)
  | _ => false

def Event.publishedBy (c : ι) : Event ι → Bool
  | .published c' _ => decide (c' = c)
  | _ => false

end FpgaGpu.Driver
