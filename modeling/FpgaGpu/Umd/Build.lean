import FpgaGpu.Library.System
import FpgaGpu.Umd.Kernel
import Mathlib.Algebra.Group.Nat.Defs

/-! `clBuildProgram`, and the machine code it leaves in the program object. -/
namespace FpgaGpu.Umd
open Library

/-- A word of `binary_words`, with the build whose `fread` filled it. What `malloc`
gives has been read by none. -/
structure BinaryWord where
  value : UInt32
  readBy : Option Nat
  deriving DecidableEq, Repr

/-- `struct _cl_program` without the source text. -/
structure ProgramObject where
  context : Nat
  binaryWords : Option (List BinaryWord)
  numInstructions : UInt32
  isBuilt : Bool
  refCount : UInt32
  deriving DecidableEq, Repr

/-- The program that `clCreateProgramWithSource` returns. -/
def ProgramObject.created (context : Nat) : ProgramObject := ⟨context,none,0,false,1⟩

/-- What a build meets: whether the source names `device_intrinsics.h`, and the
results of its system calls. `malloc` gives the words that stand in the new array,
`fread` is how many bytes could be read of those in `file`. -/
structure BuildCalls where
  opened : Bool
  hasIntrinsics : Bool
  writeHeader : Bool
  writeSource : Bool
  system : Int
  fopen : Bool
  fsize : Int
  malloc : Option (Nat → UInt32)
  file : Nat → UInt32
  fread : Nat

/-- `fsize` as a `size_t`, once it is known to be positive. -/
def BuildCalls.bytes (calls : BuildCalls) : Nat := calls.fsize.toNat

/-- What `fread` returns. -/
def BuildCalls.got (calls : BuildCalls) : Nat := min calls.fread calls.bytes

/-- The new array after `fread` in build `n`: the words that were read in full, and
those of `malloc`. -/
def BuildCalls.words (calls : BuildCalls) (n : Nat) (garbage : Nat → UInt32) : List BinaryWord :=
  (List.range (calls.bytes / 4)).map fun i =>
    if 4 * i + 4 ≤ calls.got then ⟨calls.file i,some n⟩ else ⟨garbage i,none⟩

/-- Build number `n` of a program. -/
def clBuildProgram (n : Nat) (calls : BuildCalls) (program : ProgramObject) :
    ProgramObject × ClStatus :=
  if !calls.opened then (program,.CL_COMPILER_NOT_AVAILABLE)
  else if !calls.hasIntrinsics && !calls.writeHeader then (program,.CL_BUILD_PROGRAM_FAILURE)
  else if !calls.writeSource then (program,.CL_BUILD_PROGRAM_FAILURE)
  else if calls.system ≠ 0 then (program,.CL_BUILD_PROGRAM_FAILURE)
  else if !calls.fopen then (program,.CL_BUILD_PROGRAM_FAILURE)
  else if calls.fsize ≤ 0 ∨ calls.fsize % 4 ≠ 0 then (program,.CL_BUILD_PROGRAM_FAILURE)
  else match calls.malloc with
  -- the array of the last build is freed by now
  | none => ({program with binaryWords := none},.CL_OUT_OF_HOST_MEMORY)
  | some garbage =>
      let program := {program with binaryWords := some (calls.words n garbage)}
      if calls.got ≠ calls.bytes then (program,.CL_BUILD_PROGRAM_FAILURE)
      else ({program with
        numInstructions := UInt32.ofNat (calls.bytes / 4)
        isBuilt := true},.CL_SUCCESS)

/-- A program, and the number of builds so far. -/
structure BuildState where
  counter : Nat
  program : ProgramObject
  deriving DecidableEq, Repr

def BuildState.step (s : BuildState) (calls : BuildCalls) :
    Option (BuildState × List ClStatus) :=
  let r := clBuildProgram s.counter calls s.program
  some (⟨s.counter + 1,r.1⟩,[r.2])

/-- The builds of one program, from its creation on. -/
def buildSystem : System BuildState BuildCalls ClStatus where
  init s := ∃ context, s.program = .created context
  step := BuildState.step

/-- A built program has an array of `num_instructions` words, all of one build. -/
def ProgramObject.Consistent (p : ProgramObject) : Prop :=
  p.isBuilt = true → ∃ words n, p.binaryWords = some words ∧
    words.length = p.numInstructions.toNat ∧ ∀ w ∈ words, w.readBy = some n

/-- A consistent program that was built is one that LOAD_KERNEL can read to its last
instruction. -/
theorem ProgramObject.Consistent.program {p : ProgramObject} (h : p.Consistent)
    (hbuilt : p.isBuilt = true) : ∃ program : Program,
    program.isBuilt = p.isBuilt ∧ program.numInstructions = p.numInstructions ∧
    p.binaryWords.map (List.map BinaryWord.value) = some program.binaryWords ∧
    ∀ i, i < p.numInstructions.toNat → (program.binaryWords[i]?).isSome := by
  obtain ⟨words,n,hwords,hlength,-⟩ := h hbuilt
  have hvalues : (words.map BinaryWord.value).length = p.numInstructions.toNat := by
    rw [List.length_map, hlength]
  refine ⟨⟨p.isBuilt,words.map BinaryWord.value,p.numInstructions,Nat.le_of_eq hvalues.symm⟩,rfl,
    rfl,by rw [hwords, Option.map_some],fun i hi => ?_⟩
  rw [List.getElem?_eq_getElem (by rw [hvalues]; exact hi)]
  rfl

/-- A build that gets as far as the allocation. -/
def BuildCalls.Compiled (calls : BuildCalls) : Prop :=
  calls.opened = true ∧ (calls.hasIntrinsics = true ∨ calls.writeHeader = true) ∧
    calls.writeSource = true ∧ calls.system = 0 ∧ calls.fopen = true ∧
    0 < calls.fsize ∧ calls.fsize % 4 = 0

/-- Once it compiled, a build finds memory, unless there is no array to lose, reads
the whole file, and the file has less than 2^34 bytes. -/
def BuildCalls.Safe (calls : BuildCalls) (p : ProgramObject) : Prop :=
  calls.Compiled →
    if calls.malloc.isSome then calls.bytes ≤ calls.fread ∧ calls.bytes < 2 ^ 34
    else p.binaryWords = none

/-- A build leaves the program consistent, and as it was if it returns an error. -/
def BuildState.Keeps (s : BuildState) (calls : BuildCalls) : Prop :=
  ∀ s' status, s.step calls = some (s',[status]) →
    s'.program.Consistent ∧ (status ≠ .CL_SUCCESS → s'.program = s.program)

section Outcomes
variable {n : Nat} {calls : BuildCalls} {p : ProgramObject}

theorem clBuildProgram_failed (h : ¬calls.Compiled) :
    (clBuildProgram n calls p).1 = p ∧ (clBuildProgram n calls p).2 ≠ .CL_SUCCESS := by
  unfold clBuildProgram
  split
  next => exact ⟨rfl,by simp⟩
  next hopened =>
  split
  next => exact ⟨rfl,by simp⟩
  next hheader =>
  split
  next => exact ⟨rfl,by simp⟩
  next hsource =>
  split
  next => exact ⟨rfl,by simp⟩
  next hsystem =>
  split
  next => exact ⟨rfl,by simp⟩
  next hfopen =>
  split
  next => exact ⟨rfl,by simp⟩
  next hsize =>
    refine absurd ⟨by simpa using hopened,?_,by simpa using hsource,not_not.mp hsystem,
      by simpa using hfopen,by omega,by omega⟩ h
    cases hi : calls.hasIntrinsics
    · exact .inr (by simpa [hi] using hheader)
    · exact .inl rfl

theorem clBuildProgram_compiled (h : calls.Compiled) :
    clBuildProgram n calls p =
      match calls.malloc with
      | none => ({p with binaryWords := none},.CL_OUT_OF_HOST_MEMORY)
      | some garbage =>
          if calls.got ≠ calls.bytes then
            ({p with binaryWords := some (calls.words n garbage)},.CL_BUILD_PROGRAM_FAILURE)
          else ({p with
            binaryWords := some (calls.words n garbage)
            numInstructions := UInt32.ofNat (calls.bytes / 4)
            isBuilt := true},.CL_SUCCESS) := by
  obtain ⟨hopened,hheader,hsource,hsystem,hfopen,hpos,hwords⟩ := h
  have hheader' : (!calls.hasIntrinsics && !calls.writeHeader) = false := by
    rcases hheader with h | h <;> simp [h]
  have hsize : ¬(calls.fsize ≤ 0 ∨ calls.fsize % 4 ≠ 0) := by omega
  unfold clBuildProgram
  rw [if_neg (by simp [hopened]), if_neg (by simp [hheader']), if_neg (by simp [hsource]),
    if_neg (not_not.mpr hsystem), if_neg (by simp [hfopen]), if_neg hsize]

/-- A build does not touch the rest of the program. -/
theorem clBuildProgram_frame (n : Nat) (calls : BuildCalls) (p : ProgramObject) :
    (clBuildProgram n calls p).1.context = p.context ∧
      (clBuildProgram n calls p).1.refCount = p.refCount := by
  unfold clBuildProgram
  repeat' split
  all_goals exact ⟨rfl,rfl⟩

theorem BuildCalls.got_eq_iff : calls.got = calls.bytes ↔ calls.bytes ≤ calls.fread := by
  unfold got
  omega

@[simp] theorem BuildCalls.length_words (garbage : Nat → UInt32) :
    (calls.words n garbage).length = calls.bytes / 4 := by
  simp [words]

/-- A file that is read to its end fills the whole array. -/
theorem BuildCalls.readBy_words (h : calls.got = calls.bytes) {garbage : Nat → UInt32} :
    ∀ w ∈ calls.words n garbage, w.readBy = some n := by
  intro w hw
  simp only [words, List.mem_map, List.mem_range] at hw
  obtain ⟨i,hi,rfl⟩ := hw
  rw [if_pos (by omega)]

/-- No word of the new array was read by another build. -/
theorem BuildCalls.readBy_eq {garbage : Nat → UInt32} {w : BinaryWord} {m : Nat}
    (hw : w ∈ calls.words n garbage) (hread : w.readBy = some m) : m = n := by
  simp only [words, List.mem_map, List.mem_range] at hw
  obtain ⟨i,-,rfl⟩ := hw
  split at hread
  next => exact (Option.some.inj hread).symm
  next => contradiction

theorem BuildCalls.Compiled.words_ne_nil (h : calls.Compiled) (garbage : Nat → UInt32) :
    ∃ w, w ∈ calls.words n garbage := by
  obtain ⟨-,-,-,-,-,hpos,hwords⟩ := h
  apply List.exists_mem_of_length_pos
  rw [length_words]
  unfold bytes
  omega

theorem clBuildProgram_read_iff (h : calls.Compiled) {garbage : Nat → UInt32}
    (hmalloc : calls.malloc = some garbage) (hread : calls.bytes ≤ calls.fread) :
    (clBuildProgram n calls p).1.Consistent ↔ calls.bytes < 2 ^ 34 := by
  have hgot : calls.got = calls.bytes := BuildCalls.got_eq_iff.mpr hread
  rw [clBuildProgram_compiled h, hmalloc]
  simp only [hgot, ne_eq, not_true_eq_false, if_false]
  constructor
  · intro hcons
    obtain ⟨words,m,hwords,hlength,-⟩ := hcons rfl
    obtain rfl := Option.some.inj hwords
    have hlt := (UInt32.ofNat (calls.bytes / 4)).toNat_lt
    have hlength : calls.bytes / 4 = (UInt32.ofNat (calls.bytes / 4)).toNat := by
      rw [← hlength, BuildCalls.length_words]
    omega
  · intro hsize _
    refine ⟨_,n,rfl,?_,BuildCalls.readBy_words hgot⟩
    rw [BuildCalls.length_words, UInt32.toNat_ofNat', Nat.mod_eq_of_lt]
    omega

end Outcomes

/-- A consistent program, all of whose words were read by a build before the next. -/
structure BuildInv (s : BuildState) : Prop where
  consistent : s.program.Consistent
  read : ∀ words, s.program.binaryWords = some words →
    ∃ n, n < s.counter ∧ ∀ w ∈ words, w.readBy = some n

theorem BuildInv.step {s s' : BuildState} {calls : BuildCalls} {es : List ClStatus}
    (ih : BuildInv s) (hsafe : calls.Safe s.program) (h : s.step calls = some (s',es)) :
    BuildInv s' := by
  obtain ⟨rfl,-⟩ := Prod.mk.inj (Option.some.inj h)
  have hsame : (clBuildProgram s.counter calls s.program).1 = s.program →
      BuildInv ⟨s.counter + 1,(clBuildProgram s.counter calls s.program).1⟩ := by
    intro hsame
    rw [hsame]
    refine ⟨ih.consistent,fun words hwords => ?_⟩
    obtain ⟨n,hn,hread⟩ := ih.read words hwords
    exact ⟨n,Nat.lt_succ_of_lt hn,hread⟩
  by_cases hcompiled : calls.Compiled
  · have hafter := hsafe hcompiled
    cases hmalloc : calls.malloc with
    | none =>
      rw [hmalloc] at hafter
      apply hsame
      rw [clBuildProgram_compiled hcompiled, hmalloc]
      simp only
      rw [← show s.program.binaryWords = none by simpa using hafter]
    | some garbage =>
      rw [hmalloc] at hafter
      obtain ⟨hread,hsize⟩ := by simpa using hafter
      refine ⟨(clBuildProgram_read_iff hcompiled hmalloc hread).mpr hsize,fun words hwords => ?_⟩
      have hgot : calls.got = calls.bytes := BuildCalls.got_eq_iff.mpr hread
      rw [clBuildProgram_compiled hcompiled, hmalloc] at hwords
      simp only [hgot, ne_eq, not_true_eq_false, if_false] at hwords
      obtain rfl := Option.some.inj hwords
      exact ⟨s.counter,Nat.lt_succ_self _,BuildCalls.readBy_words hgot⟩
  · exact hsame (clBuildProgram_failed hcompiled).1

theorem buildInv_run {log : List ClStatus} {s : BuildState}
    (h : buildSystem.RunWith (fun _ s calls => calls.Safe s.program) log s) : BuildInv s := by
  refine h.invariant (I := fun _ s => BuildInv s) ?_
    (fun log s calls s' es _ ih hsafe hstep => ih.step hsafe hstep)
  rintro s ⟨context,hcreated⟩
  constructor
  · intro hbuilt
    simp [hcreated, ProgramObject.created] at hbuilt
  · intro words hwords
    simp [hcreated, ProgramObject.created] at hwords

/-- The array is lost or half read exactly when a build is not safe. -/
theorem BuildInv.keeps_iff {s : BuildState} (h : BuildInv s) (calls : BuildCalls) :
    s.Keeps calls ↔ calls.Safe s.program := by
  have hkeeps : s.Keeps calls ↔ (clBuildProgram s.counter calls s.program).1.Consistent ∧
      ((clBuildProgram s.counter calls s.program).2 ≠ .CL_SUCCESS →
        (clBuildProgram s.counter calls s.program).1 = s.program) := by
    constructor
    · intro hk
      exact hk _ _ rfl
    · intro hr s' status hstep
      obtain ⟨rfl,hstatus⟩ := Prod.mk.inj (Option.some.inj hstep)
      obtain ⟨rfl,-⟩ := List.cons.inj hstatus
      exact hr
  rw [hkeeps]
  by_cases hcompiled : calls.Compiled
  · unfold BuildCalls.Safe
    rw [forall_prop_of_true hcompiled]
    cases hmalloc : calls.malloc with
    | none =>
      rw [clBuildProgram_compiled hcompiled, hmalloc]
      simp only [Option.isSome_none, Bool.false_eq_true, if_false]
      constructor
      · rintro ⟨-,herror⟩
        have hsame := congrArg ProgramObject.binaryWords (herror (by decide))
        exact hsame.symm
      · intro hnone
        have hsame : {s.program with binaryWords := none} = s.program := by rw [← hnone]
        rw [hsame]
        exact ⟨h.consistent,fun _ => rfl⟩
    | some garbage =>
      simp only [Option.isSome_some, if_true]
      by_cases hread : calls.bytes ≤ calls.fread
      · have hstatus : (clBuildProgram s.counter calls s.program).2 = .CL_SUCCESS := by
          rw [clBuildProgram_compiled hcompiled, hmalloc]
          simp [BuildCalls.got_eq_iff.mpr hread]
        simp [hstatus, hread, clBuildProgram_read_iff hcompiled hmalloc hread]
      · -- the first word of the new array was read by no earlier build
        refine ⟨fun ⟨_,herror⟩ => ?_,fun hsafe => absurd hsafe.1 hread⟩
        rw [clBuildProgram_compiled hcompiled, hmalloc] at herror
        simp only [ne_eq, BuildCalls.got_eq_iff, hread, not_false_eq_true, if_true] at herror
        have hsame := congrArg ProgramObject.binaryWords (herror (by decide))
        obtain ⟨n,hn,hold⟩ := h.read _ hsame.symm
        obtain ⟨w,hw⟩ := hcompiled.words_ne_nil (n := s.counter) garbage
        have heq := BuildCalls.readBy_eq hw (hold w hw)
        omega
  · obtain ⟨hsame,-⟩ := clBuildProgram_failed (n := s.counter) (p := s.program) hcompiled
    rw [hsame]
    exact ⟨fun _ hc => absurd hc hcompiled,fun _ => ⟨h.consistent,fun _ => rfl⟩⟩

/-- While builds are safe the program is consistent, and only a build that is not
safe can break it or leave a trace of a failure. -/
theorem builds_keep_iff {log : List ClStatus} {s : BuildState}
    (h : buildSystem.RunWith (fun _ s calls => calls.Safe s.program) log s) :
    s.program.Consistent ∧ ∀ calls, s.Keeps calls ↔ calls.Safe s.program :=
  ⟨(buildInv_run h).consistent,(buildInv_run h).keeps_iff⟩

/-- A build of two instructions that goes well. -/
def wellBuilt : BuildCalls where
  opened := true
  hasIntrinsics := true
  writeHeader := true
  writeSource := true
  system := 0
  fopen := true
  fsize := 8
  malloc := some fun _ => 0
  file i := UInt32.ofNat (i + 1)
  fread := 8

/-- The rebuild that finds no memory. -/
def outOfMemory : BuildCalls := {wellBuilt with malloc := none}

theorem builds_keep_one_build : ∃ log s,
    buildSystem.RunWith (fun _ s calls => calls.Safe s.program) log s ∧
    s.program.isBuilt = true ∧ s.program.Consistent ∧
    ∀ calls, s.Keeps calls ↔ calls.Safe s.program := by
  have hinit : buildSystem.RunWith (fun _ s calls => calls.Safe s.program) []
      ⟨0,.created 1⟩ := .init ⟨1,rfl⟩
  have hsafe : wellBuilt.Safe (.created 1) := fun _ => ⟨by decide,by decide⟩
  have hrun := hinit.step (a := wellBuilt) hsafe rfl
  exact ⟨_,_,hrun,rfl,builds_keep_iff hrun⟩

/-- The rebuild has freed the array of the first build, and the program is still
marked as built. -/
theorem failed_rebuild_loses_array : ∃ log s s', buildSystem.Run log s ∧
    s.step outOfMemory = some (s',[.CL_OUT_OF_HOST_MEMORY]) ∧ s.program.binaryWords ≠ none ∧
    s'.program.isBuilt = true ∧ s'.program.numInstructions = 2 ∧ s'.program.binaryWords = none ∧
    ¬s'.program.Consistent := by
  have hrun : buildSystem.Run _ _ :=
    .of_exec (S := buildSystem) (s := ⟨0,.created 1⟩) ⟨1,rfl⟩ [wellBuilt] rfl
  refine ⟨_,_,_,hrun,rfl,by decide,rfl,rfl,rfl,fun h => ?_⟩
  obtain ⟨words,n,hwords,-,-⟩ := h rfl
  contradiction

end FpgaGpu.Umd
