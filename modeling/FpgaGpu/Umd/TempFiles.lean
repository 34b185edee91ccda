import FpgaGpu.Library.Bytes
import FpgaGpu.Library.Footprints
import FpgaGpu.Umd.Build
import Mathlib.Data.List.Infix

/-! Builds of several processes at once. They share `/tmp`, and the names that they give
their files keep them apart. -/
namespace FpgaGpu.Umd
open Library

abbrev Path := List Char

/-- The files there are. -/
abbrev Files := Path → Option (List UInt8)

def digits (n : Nat) : List Char := Nat.toDigits 10 n

/-- What comes before the process number. -/
def kernelPrefix : Path := "/tmp/fpgagpu_kernel_".toList

/-- `"/tmp/fpgagpu_kernel_%d_%d.c"`. -/
def srcTmpl (pid counter : Nat) : Path :=
  kernelPrefix ++ (digits pid ++ '_' :: (digits counter ++ ".c".toList))

/-- `"%s.bin"`. -/
def binPath (src : Path) : Path := src ++ ".bin".toList

/-- The names a process builds under. -/
def OwnsPath (pid : Nat) (name : Path) : Prop :=
  ∃ n, name = srcTmpl pid n ∨ name = binPath (srcTmpl pid n)

/-- The name of the source or of the binary of a build. -/
def tempPath (pid counter : Nat) (binary : Bool) : Path :=
  if binary then binPath (srcTmpl pid counter) else srcTmpl pid counter

/-- The digits end where the next character is no digit. -/
theorem takeWhile_digits (n : Nat) (rest : Path) :
    (digits n ++ '_' :: rest).takeWhile Char.isDigit = digits n := by
  have hdigit : ∀ c ∈ digits n, Char.isDigit c = true := fun c hc =>
    Nat.isDigit_of_mem_toDigits (by decide) (by decide) hc
  rw [List.takeWhile_append_of_pos hdigit, List.takeWhile_cons_of_neg (by decide),
    List.append_nil]

theorem digits_inj {m n : Nat} (h : digits m = digits n) : m = n := by
  have hread := congrArg (fun cs => Nat.ofDigitChars 10 cs 0) h
  simpa [digits] using hread

theorem OwnsPath.prefixed {pid : Nat} {name : Path} (h : OwnsPath pid name) :
    ∃ rest, name = kernelPrefix ++ (digits pid ++ '_' :: rest) := by
  obtain ⟨n,rfl | rfl⟩ := h
  · exact ⟨digits n ++ ".c".toList,by rw [srcTmpl]⟩
  · refine ⟨digits n ++ ".c".toList ++ ".bin".toList,?_⟩
    rw [binPath, srcTmpl, List.append_assoc, List.append_assoc, List.cons_append]

/-- The process number ends at the second underscore. -/
theorem OwnsPath.same {pid pid' : Nat} {name : Path} (h : OwnsPath pid name)
    (h' : OwnsPath pid' name) : pid = pid' := by
  obtain ⟨rest,rfl⟩ := h.prefixed
  obtain ⟨rest',hrest⟩ := h'.prefixed
  have hdigits := congrArg (List.takeWhile Char.isDigit) (List.append_cancel_left hrest)
  rw [takeWhile_digits, takeWhile_digits] at hdigits
  exact digits_inj hdigits

theorem binPath_ne (src : Path) : binPath src ≠ src := by
  intro h
  have hlength := congrArg List.length h
  simp [binPath] at hlength

def bytesOf (s : String) : List UInt8 := s.toList.map fun c => UInt8.ofNat c.toNat

/-- Whether `needle` stands in the text before its first NUL. -/
def strstr (text needle : List UInt8) : Bool :=
  (text.takeWhile (· ≠ 0)).tails.any needle.isPrefixOf

def headerInclude : List UInt8 := bytesOf "#include \"device_intrinsics.h\"\n"

/-- What the source file should hold. -/
def withHeader (source : List UInt8) : List UInt8 :=
  if strstr source (bytesOf "device_intrinsics.h") then source else headerInclude ++ source

/-- What `write` makes of a text: less than zero, fewer bytes than it was given, or all. -/
inductive WriteResult where
  | failed
  | short (n : Nat)
  | whole
  deriving DecidableEq, Repr

/-- Where a build is. `compiling` is the compiler with the text that it has read. -/
inductive BuildPc where
  | idle
  | opening
  | header
  | source
  | compile
  | compiling (text : List UInt8)
  | opened
  | size
  | malloc
  | read
  | unlinkSource (binary : Bool)
  | unlinkBinary
  | returning
  deriving DecidableEq, Repr

/-- A process, with its `counter` and the build it is in: the number of it, its program
and source text, and what its calls gave so far. -/
structure Builder where
  counter : Nat
  pc : BuildPc
  number : Nat
  program : ProgramObject
  source : List UInt8
  calls : BuildCalls

/-- A build that has returned. -/
structure Built where
  number : Nat
  source : List UInt8
  program : ProgramObject
  status : ClStatus
  deriving DecidableEq, Repr

/-- A build returns, or could not unlink its source or its binary and goes on. -/
inductive BuildEvent where
  | returned (b : Built)
  | unlinkFailed (number : Nat) (binary : Bool)
  deriving DecidableEq, Repr

inductive BuildAction where
  | call (program : ProgramObject) (source : List UInt8)
  | open (ok : Bool)
  | writeHeader (r : WriteResult)
  | writeSource (r : WriteResult)
  | compilerReads
  | compilerWrites
  /-- It exits with another status than zero, or was not run at all, and leaves anything. -/
  | compilerFails (status : Int) (left : Option (List UInt8))
  | fopen (ok : Bool)
  | fsize (ok : Bool)
  | malloc (block : Option (Nat → UInt32))
  | fread (n : Nat)
  | unlinkSource (ok : Bool)
  | unlinkBinary (ok : Bool)
  | ret

/-- Before the first call has returned. -/
def BuildCalls.none (hasIntrinsics : Bool) : BuildCalls :=
  ⟨false,hasIntrinsics,false,false,1,false,0,.none,fun _ => 0,0⟩

/-- Word `i` of a file. -/
def wordAt (file : List UInt8) (i : Nat) : UInt32 :=
  UInt32.ofNat (leNat 4 fun k => file.getD (4 * i + k) 0)

def WriteResult.ok (r : WriteResult) : Bool := r != .failed

/-- What the file gets, after what it has. -/
def WriteResult.append (r : WriteResult) (text : List UInt8) (file : Option (List UInt8)) :
    Option (List UInt8) :=
  match r with
  | .failed => file
  | .short n => file.map (· ++ text.take n)
  | .whole => file.map (· ++ text)

/-- The two files of a build. -/
structure BuildFiles where
  src : Option (List UInt8)
  bin : Option (List UInt8)
  deriving DecidableEq, Repr

section Step
variable (compile : List UInt8 → Option (List UInt8))

/-- `clBuildProgram` call by call. On the ways out of it that come after `open` it unlinks
the files, on the two that come before the compiler the source alone. -/
def Builder.step (b : Builder) (files : BuildFiles) :
    BuildAction → Option ((Builder × BuildFiles) × List BuildEvent)
  | .call program source =>
      if b.pc = .idle then
        some (({b with
          counter := b.counter + 1
          pc := .opening
          number := b.counter
          program := program
          source := source
          calls := .none (strstr source (bytesOf "device_intrinsics.h"))},files),[])
      else none
  | .open ok =>
      if b.pc = .opening then
        if ok then some (({b with
          pc := if b.calls.hasIntrinsics then .source else .header
          calls := {b.calls with opened := true}},{files with src := some []}),[])
        else some (({b with pc := .returning},files),[])
      else none
  | .writeHeader r =>
      if b.pc = .header then
        some (({b with
          pc := if r.ok then .source else .unlinkSource false
          calls := {b.calls with writeHeader := r.ok}},
          {files with src := r.append headerInclude files.src}),[])
      else none
  | .writeSource r =>
      if b.pc = .source then
        some (({b with
          pc := if r.ok then .compile else .unlinkSource false
          calls := {b.calls with writeSource := r.ok}},
          {files with src := r.append b.source files.src}),[])
      else none
  | .compilerReads =>
      match b.pc, files.src with
      | .compile, some text => some (({b with pc := .compiling text},files),[])
      | _, _ => none
  | .compilerWrites =>
      match b.pc with
      | .compiling text =>
          match compile text with
          | some out => some (({b with
              pc := .opened
              calls := {b.calls with system := 0}},{files with bin := some out}),[])
          | none => none
      | _ => none
  | .compilerFails status left =>
      match b.pc with
      | .compile | .compiling _ =>
          if status ≠ 0 then some (({b with
            pc := .unlinkSource true
            calls := {b.calls with system := status}},{files with bin := left}),[])
          else none
      | _ => none
  | .fopen ok =>
      if b.pc = .opened ∧ (ok = true → files.bin.isSome = true) then
        some (({b with
          pc := if ok then .size else .unlinkSource true
          calls := {b.calls with fopen := ok}},files),[])
      else none
  | .fsize ok =>
      match b.pc, files.bin with
      | .size, some file =>
          let fsize : Int := if ok then file.length else -1
          some (({b with
            pc := if fsize ≤ 0 ∨ fsize % 4 ≠ 0 then .unlinkSource true else .malloc
            calls := {b.calls with fsize := fsize}},files),[])
      | _, _ => none
  | .malloc block =>
      if b.pc = .malloc then
        some (({b with
          pc := if block.isSome then .read else .unlinkSource true
          calls := {b.calls with malloc := block}},files),[])
      else none
  | .fread n =>
      match b.pc, files.bin with
      | .read, some file =>
          some (({b with
            pc := .unlinkSource true
            calls := {b.calls with file := wordAt file, fread := n}},files),[])
      | _, _ => none
  | .unlinkSource ok =>
      match b.pc with
      | .unlinkSource binary =>
          let b' := {b with pc := if binary then .unlinkBinary else .returning}
          -- nobody looks at what `unlink` returns
          if ok then some ((b',{files with src := none}),[])
          else some ((b',files),[.unlinkFailed b.number false])
      | _ => none
  | .unlinkBinary ok =>
      if b.pc = .unlinkBinary then
        if ok then some (({b with pc := .returning},{files with bin := none}),[])
        else some (({b with pc := .returning},files),[.unlinkFailed b.number true])
      else none
  | .ret =>
      if b.pc = .returning then
        let r := clBuildProgram b.number b.calls b.program
        some (({b with pc := .idle},files),[.returned ⟨b.number,b.source,r.1,r.2⟩])
      else none

/-- The files of a build among all files. -/
def Files.of (store : Files) (src : Path) : BuildFiles := ⟨store src,store (binPath src)⟩

def Files.put (store : Files) (src : Path) (files : BuildFiles) : Files :=
  Function.update (Function.update store src files.src) (binPath src) files.bin

def buildIn : Behaviour Nat Builder Path (Option (List UInt8)) BuildAction BuildEvent :=
  fun pid s a =>
    let src := srcTmpl pid s.own.number
    (s.own.step compile (Files.of s.store src) a).map fun r =>
      (⟨r.1.1,Files.put s.store src r.1.2⟩,r.2)

end Step

section Put
variable (store : Files) (src : Path) (files : BuildFiles)

@[simp] theorem Files.of_put : (Files.put store src files).of src = files := by
  simp [Files.of, Files.put, Function.update_of_ne (binPath_ne src).symm]

@[simp] theorem Files.put_of : Files.put store src (store.of src) = store := by
  simp [Files.of, Files.put]

theorem Files.put_other {name : Path} (hsrc : name ≠ src) (hbin : name ≠ binPath src) :
    Files.put store src files name = store name := by
  rw [Files.put, Function.update_of_ne hbin, Function.update_of_ne hsrc]

end Put

/-- A build works on files of its process, and on no others. -/
theorem buildIn_confined (compile : List UInt8 → Option (List UInt8)) :
    Confined OwnsPath (buildIn compile) where
  apart pid pid' name h h' := h.same h'
  writes pid s a s' es name h hname := by
    obtain ⟨r,-,heq⟩ := Option.map_eq_some_iff.mp h
    obtain ⟨rfl,-⟩ := Prod.mk.inj heq
    refine Files.put_other _ _ _ ?_ ?_
    · rintro rfl
      exact hname ⟨_,.inl rfl⟩
    · rintro rfl
      exact hname ⟨_,.inr rfl⟩
  reads pid s a s' es store h hsame := by
    obtain ⟨r,hr,heq⟩ := Option.map_eq_some_iff.mp h
    obtain ⟨rfl,rfl⟩ := Prod.mk.inj heq
    have hsrc := hsame _ ⟨s.own.number,.inl rfl⟩
    have hbin := hsame _ ⟨s.own.number,.inr rfl⟩
    have hfiles : Files.of store (srcTmpl pid s.own.number) =
        Files.of s.store (srcTmpl pid s.own.number) := by
      rw [Files.of, Files.of, hsrc, hbin]
    refine ⟨Files.put store (srcTmpl pid s.own.number) r.1.2,?_,fun name hname => ?_⟩
    · simp only [buildIn, hfiles, hr, Option.map_some]
    · simp only [Files.put, Function.update_apply]
      split
      next => rfl
      next =>
        split
        next => rfl
        next => exact hsame name hname

/-- Gone, or as it was at first. -/
def Tidy (old now : Option (List UInt8)) : Prop := now = none ∨ now = old

/-- Tidy but for a file that was kept. -/
def TidyBut (kept : Prop) (old now : Option (List UInt8)) : Prop := Tidy old now ∨ kept

theorem TidyBut.mono {kept kept' : Prop} {old now : Option (List UInt8)} (himp : kept → kept')
    (h : TidyBut kept old now) : TidyBut kept' old now := h.imp id himp

/-- A file of the process that an `unlink` has failed on. -/
def Kept (pid : Nat) (log : List BuildEvent) (name : Path) : Prop :=
  ∃ n binary, .unlinkFailed n binary ∈ log ∧ name = tempPath pid n binary

theorem Kept.append {pid : Nat} {log : List BuildEvent} {name : Path} (h : Kept pid log name)
    (es : List BuildEvent) : Kept pid (log ++ es) name := by
  obtain ⟨n,binary,hmem,hname⟩ := h
  exact ⟨n,binary,List.mem_append_left es hmem,hname⟩

/-- The words of a build that succeeds are the compiler's for its own source. -/
def Built.Own (compile : List UInt8 → Option (List UInt8)) (e : Built) : Prop :=
  e.status = .CL_SUCCESS → ∃ out, compile (withHeader e.source) = some out ∧
    e.program.isBuilt = true ∧ e.program.numInstructions = UInt32.ofNat (out.length / 4) ∧
    out.length % 4 = 0 ∧ e.program.binaryWords =
      some ((List.range (out.length / 4)).map fun i => ⟨wordAt out i,some e.number⟩)

def BuildAction.Whole : BuildAction → Prop
  | .writeHeader (.short _) | .writeSource (.short _) => False
  | _ => True

/-- The calls up to `fread`. -/
def BuildPc.Before : BuildPc → Prop
  | .idle | .unlinkSource _ | .unlinkBinary | .returning => False
  | _ => True

section Invariant
variable {compile : List UInt8 → Option (List UInt8)}

/-- What the recorded calls say is so. -/
structure Builder.Honest (compile : List UInt8 → Option (List UInt8)) (b : Builder) : Prop where
  intrinsics : b.calls.hasIntrinsics = strstr b.source (bytesOf "device_intrinsics.h")
  unread : b.pc.Before → b.calls.fread = 0
  read : b.calls.fread ≠ 0 → ∃ out, compile (withHeader b.source) = some out ∧
    b.calls.fsize = out.length ∧ b.calls.file = wordAt out

/-- What the two files hold. `kept` tells for which of them an `unlink` has failed. -/
def Builder.At (compile : List UInt8 → Option (List UInt8)) (old : BuildFiles)
    (kept : Bool → Prop) (b : Builder) (files : BuildFiles) : Prop :=
  match b.pc with
  | .idle | .opening | .returning =>
      TidyBut (kept false) old.src files.src ∧ TidyBut (kept true) old.bin files.bin
  | .header => files.src = some [] ∧ b.calls.hasIntrinsics = false ∧
      TidyBut (kept true) old.bin files.bin
  | .source => files.src = some (if b.calls.hasIntrinsics then [] else headerInclude) ∧
      TidyBut (kept true) old.bin files.bin
  | .compile => files.src = some (withHeader b.source)
  | .compiling text => text = withHeader b.source
  | .opened | .size => ∃ out, compile (withHeader b.source) = some out ∧ files.bin = some out
  | .malloc | .read => ∃ out, compile (withHeader b.source) = some out ∧
      files.bin = some out ∧ b.calls.fsize = out.length
  | .unlinkSource binary => binary = false → TidyBut (kept true) old.bin files.bin
  | .unlinkBinary => TidyBut (kept false) old.src files.src

theorem Builder.At.mono {old : BuildFiles} {kept kept' : Bool → Prop} {b : Builder}
    {files : BuildFiles} (himp : ∀ binary, kept binary → kept' binary)
    (h : b.At compile old kept files) : b.At compile old kept' files := by
  unfold At at h ⊢
  cases hpc : b.pc with
  | idle | opening | returning =>
    simp only [hpc] at h ⊢
    exact ⟨h.1.mono (himp false),h.2.mono (himp true)⟩
  | header =>
    simp only [hpc] at h ⊢
    exact ⟨h.1,h.2.1,h.2.2.mono (himp true)⟩
  | source =>
    simp only [hpc] at h ⊢
    exact ⟨h.1,h.2.mono (himp true)⟩
  | unlinkSource binary =>
    simp only [hpc] at h ⊢
    exact fun hbinary => (h hbinary).mono (himp true)
  | unlinkBinary =>
    simp only [hpc] at h ⊢
    exact h.mono (himp false)
  | compile | compiling | opened | size | malloc | read => simpa only [hpc] using h

theorem Built.own_of_honest {b : Builder} (h : b.Honest compile) :
    (Built.mk b.number b.source (clBuildProgram b.number b.calls b.program).1
      (clBuildProgram b.number b.calls b.program).2).Own compile := by
  intro hstatus
  have hcompiled : b.calls.Compiled := by
    by_contra hnot
    exact (clBuildProgram_failed hnot).2 hstatus
  obtain ⟨-,-,-,-,-,hpos,hfour⟩ := id hcompiled
  simp only [clBuildProgram_compiled hcompiled] at hstatus ⊢
  cases hmalloc : b.calls.malloc with
  | none => simp [hmalloc] at hstatus
  | some garbage =>
    simp only [hmalloc] at hstatus ⊢
    by_cases hgot : b.calls.got = b.calls.bytes
    · have hread : b.calls.fread ≠ 0 := by
        have hle := BuildCalls.got_eq_iff.mp hgot
        unfold BuildCalls.bytes at hle
        omega
      obtain ⟨out,hout,hsize,hfile⟩ := h.read hread
      have hbytes : b.calls.bytes = out.length := by
        rw [BuildCalls.bytes, hsize, Int.toNat_natCast]
      simp only [ne_eq, hgot, not_true_eq_false, if_false]
      refine ⟨out,hout,trivial,by rw [hbytes],by omega,?_⟩
      rw [BuildCalls.words, hbytes, hfile]
      congr 1
      refine List.map_congr_left fun i hi => if_pos ?_
      rw [hgot, hbytes]
      have hlt := List.mem_range.mp hi
      omega
    · simp [hgot] at hstatus

variable {b b' : Builder} {files files' old : BuildFiles} {kept : Bool → Prop}
  {es : List BuildEvent}

/-- A new build starts with nothing recorded. -/
theorem Builder.step_call {program : ProgramObject} {source : List UInt8}
    (h : b.step compile files (.call program source) = some ((b',files'),es)) :
    b.pc = .idle ∧ b'.pc = .opening ∧ files' = files ∧ es = [] ∧ b'.Honest compile := by
  simp only [Builder.step] at h
  split at h
  next hpc =>
    cases h
    exact ⟨hpc,rfl,rfl,rfl,rfl,fun _ => rfl,fun hread => absurd rfl hread⟩
  next => contradiction

/-- What `fread` gets are words of the compiler's file for this source. -/
theorem Builder.Honest.after_read {file : List UInt8} {words : Nat → UInt32} {n : Nat}
    (hintr : b.calls.hasIntrinsics = strstr b.source (bytesOf "device_intrinsics.h"))
    (hout : compile (withHeader b.source) = some file) (hsize : b.calls.fsize = file.length)
    (hwords : words = wordAt file) :
    Builder.Honest compile {b with
      pc := .unlinkSource true
      calls := {b.calls with file := words, fread := n}} :=
  ⟨hintr,by simp [BuildPc.Before],fun _ => ⟨file,hout,hsize,hwords⟩⟩

/-- What a step within a build keeps. -/
structure Builder.Keeps (compile : List UInt8 → Option (List UInt8)) (old : BuildFiles)
    (kept : Bool → Prop) (b b' : Builder) (files' : BuildFiles) (es : List BuildEvent) :
    Prop where
  number : b'.number = b.number
  honest : b'.Honest compile
  here : b'.At compile old kept files'
  own : ∀ e, .returned e ∈ es → e.Own compile

section Calls
variable (h : b.At compile old kept files) (hb : b.Honest compile)
include h hb

theorem Builder.step_open {ok : Bool}
    (hstep : b.step compile files (.open ok) = some ((b',files'),es)) :
    Keeps compile old kept b b' files' es := by
  obtain ⟨hintr,hunread,hread⟩ := hb
  simp only [Builder.step] at hstep
  split at hstep
  next hpc =>
    simp only [At, hpc] at h
    simp only [hpc, BuildPc.Before, forall_const] at hunread
    cases ok with
    | false =>
      cases hstep
      exact ⟨rfl,⟨hintr,by simp [BuildPc.Before],hread⟩,h,by simp⟩
    | true =>
      cases hstep
      refine ⟨rfl,⟨hintr,fun _ => hunread,hread⟩,?_,by simp⟩
      cases hi : b.calls.hasIntrinsics
      · exact ⟨rfl,rfl,h.2⟩
      · exact ⟨rfl,h.2⟩
  next => contradiction

theorem Builder.step_writeHeader {r : WriteResult} (hok : (BuildAction.writeHeader r).Whole)
    (hstep : b.step compile files (.writeHeader r) = some ((b',files'),es)) :
    Keeps compile old kept b b' files' es := by
  obtain ⟨hintr,hunread,hread⟩ := hb
  simp only [Builder.step] at hstep
  split at hstep
  next hpc =>
    simp only [At, hpc] at h
    obtain ⟨hsrc,hnone,hbin⟩ := h
    simp only [hpc, BuildPc.Before, forall_const] at hunread
    cases hstep
    cases r with
    | failed => exact ⟨rfl,⟨hintr,by simp [WriteResult.ok, BuildPc.Before],hread⟩,
        fun _ => hbin,by simp⟩
    | short n => exact hok.elim
    | whole => exact ⟨rfl,⟨hintr,fun _ => hunread,hread⟩,
        ⟨by simp [WriteResult.append, hsrc, hnone],hbin⟩,by simp⟩
  next => contradiction

/-- With the source the file has what the compiler is to read. -/
theorem Builder.step_writeSource {r : WriteResult} (hok : (BuildAction.writeSource r).Whole)
    (hstep : b.step compile files (.writeSource r) = some ((b',files'),es)) :
    Keeps compile old kept b b' files' es := by
  obtain ⟨hintr,hunread,hread⟩ := hb
  simp only [Builder.step] at hstep
  split at hstep
  next hpc =>
    simp only [At, hpc] at h
    obtain ⟨hsrc,hbin⟩ := h
    simp only [hpc, BuildPc.Before, forall_const] at hunread
    cases hstep
    cases r with
    | failed => exact ⟨rfl,⟨hintr,by simp [WriteResult.ok, BuildPc.Before],hread⟩,
        fun _ => hbin,by simp⟩
    | short n => exact hok.elim
    | whole =>
      refine ⟨rfl,⟨hintr,fun _ => hunread,hread⟩,?_,by simp⟩
      have hall : (if b.calls.hasIntrinsics then [] else headerInclude) ++ b.source =
          withHeader b.source := by
        rw [withHeader, hintr]
        split
        next => rw [List.nil_append]
        next => rfl
      simp only [WriteResult.append, hsrc, Option.map_some, hall]
      exact rfl
  next => contradiction

theorem Builder.step_compilerReads
    (hstep : b.step compile files .compilerReads = some ((b',files'),es)) :
    Keeps compile old kept b b' files' es := by
  obtain ⟨hintr,hunread,hread⟩ := hb
  simp only [Builder.step] at hstep
  split at hstep
  next text hpc htext =>
    simp only [At, hpc, htext] at h
    simp only [hpc, BuildPc.Before, forall_const] at hunread
    cases hstep
    exact ⟨rfl,⟨hintr,fun _ => hunread,hread⟩,Option.some.inj h,by simp⟩
  next => contradiction

theorem Builder.step_compilerWrites
    (hstep : b.step compile files .compilerWrites = some ((b',files'),es)) :
    Keeps compile old kept b b' files' es := by
  obtain ⟨hintr,hunread,hread⟩ := hb
  simp only [Builder.step] at hstep
  split at hstep
  next text hpc =>
    simp only [At, hpc] at h
    simp only [hpc, BuildPc.Before, forall_const] at hunread
    split at hstep
    next out hout =>
      cases hstep
      exact ⟨rfl,⟨hintr,fun _ => hunread,hread⟩,⟨out,h ▸ hout,rfl⟩,by simp⟩
    next => contradiction
  next => contradiction

omit h in
theorem Builder.step_compilerFails {status : Int} {left : Option (List UInt8)}
    (hstep : b.step compile files (.compilerFails status left) = some ((b',files'),es)) :
    Keeps compile old kept b b' files' es := by
  obtain ⟨hintr,-,hread⟩ := hb
  have hfails : some (({b with
      pc := .unlinkSource true
      calls := {b.calls with system := status}},{files with bin := left}),[]) =
        some ((b',files'),es) → Keeps compile old kept b b' files' es := by
    intro heq
    cases heq
    exact ⟨rfl,⟨hintr,by simp [BuildPc.Before],hread⟩,by simp [At],by simp⟩
  simp only [Builder.step] at hstep
  split at hstep
  next =>
    split at hstep
    next => exact hfails hstep
    next => contradiction
  next =>
    split at hstep
    next => exact hfails hstep
    next => contradiction
  next => contradiction

theorem Builder.step_fopen {ok : Bool}
    (hstep : b.step compile files (.fopen ok) = some ((b',files'),es)) :
    Keeps compile old kept b b' files' es := by
  obtain ⟨hintr,hunread,hread⟩ := hb
  simp only [Builder.step] at hstep
  split at hstep
  next hcond =>
    obtain ⟨hpc,-⟩ := hcond
    simp only [At, hpc] at h
    simp only [hpc, BuildPc.Before, forall_const] at hunread
    cases hstep
    cases ok with
    | false => exact ⟨rfl,⟨hintr,by simp [BuildPc.Before],hread⟩,by simp [At],by simp⟩
    | true => exact ⟨rfl,⟨hintr,fun _ => hunread,hread⟩,h,by simp⟩
  next => contradiction

theorem Builder.step_fsize {ok : Bool}
    (hstep : b.step compile files (.fsize ok) = some ((b',files'),es)) :
    Keeps compile old kept b b' files' es := by
  obtain ⟨hintr,hunread,hread⟩ := hb
  simp only [Builder.step] at hstep
  split at hstep
  next file hpc hfile =>
    simp only [At, hpc, hfile] at h
    simp only [hpc, BuildPc.Before, forall_const] at hunread
    obtain ⟨out,hout,hbin⟩ := h
    obtain rfl := Option.some.inj hbin
    generalize hsize : (if ok then (file.length : Int) else -1) = fsize at hstep
    by_cases hbad : fsize ≤ 0 ∨ fsize % 4 ≠ 0
    · rw [if_pos hbad] at hstep
      cases hstep
      exact ⟨rfl,⟨hintr,by simp [BuildPc.Before],fun hne => absurd hunread hne⟩,
        by simp [At],by simp⟩
    · rw [if_neg hbad] at hstep
      cases hstep
      have hlength : fsize = file.length := by
        split at hsize <;> omega
      exact ⟨rfl,⟨hintr,fun _ => hunread,fun hne => absurd hunread hne⟩,
        ⟨file,hout,hfile,hlength⟩,by simp⟩
  next => contradiction

theorem Builder.step_malloc {block : Option (Nat → UInt32)}
    (hstep : b.step compile files (.malloc block) = some ((b',files'),es)) :
    Keeps compile old kept b b' files' es := by
  obtain ⟨hintr,hunread,hread⟩ := hb
  simp only [Builder.step] at hstep
  split at hstep
  next hpc =>
    simp only [At, hpc] at h
    simp only [hpc, BuildPc.Before, forall_const] at hunread
    cases hstep
    cases block with
    | none => exact ⟨rfl,⟨hintr,by simp [BuildPc.Before],hread⟩,by simp [At],by simp⟩
    | some garbage => exact ⟨rfl,⟨hintr,fun _ => hunread,hread⟩,h,by simp⟩
  next => contradiction

/-- What `fread` gets are words of the compiler's file for this source. -/
theorem Builder.step_fread {n : Nat}
    (hstep : b.step compile files (.fread n) = some ((b',files'),es)) :
    Keeps compile old kept b b' files' es := by
  simp only [Builder.step] at hstep
  split at hstep
  next file hpc hfile =>
    simp only [At, hpc, hfile] at h
    obtain ⟨out,hout,hbin,hsize⟩ := h
    obtain rfl := Option.some.inj hbin
    cases hstep
    exact ⟨rfl,Honest.after_read hb.intrinsics hout hsize rfl,by simp [At],by simp⟩
  next => contradiction

theorem Builder.step_unlinkSource {ok : Bool}
    (hstep : b.step compile files (.unlinkSource ok) = some ((b',files'),es))
    (hfailed : .unlinkFailed b.number false ∈ es → kept false) :
    Keeps compile old kept b b' files' es := by
  obtain ⟨hintr,-,hread⟩ := hb
  simp only [Builder.step] at hstep
  split at hstep
  next binary hpc =>
    simp only [At, hpc] at h
    cases ok with
    | true =>
      cases hstep
      cases binary with
      | false => exact ⟨rfl,⟨hintr,by simp [BuildPc.Before],hread⟩,⟨.inl (.inl rfl),h rfl⟩,by simp⟩
      | true => exact ⟨rfl,⟨hintr,by simp [BuildPc.Before],hread⟩,.inl (.inl rfl),by simp⟩
    | false =>
      cases hstep
      have hkept := hfailed (by simp)
      cases binary with
      | false => exact ⟨rfl,⟨hintr,by simp [BuildPc.Before],hread⟩,⟨.inr hkept,h rfl⟩,by simp⟩
      | true => exact ⟨rfl,⟨hintr,by simp [BuildPc.Before],hread⟩,.inr hkept,by simp⟩
  next => contradiction

theorem Builder.step_unlinkBinary {ok : Bool}
    (hstep : b.step compile files (.unlinkBinary ok) = some ((b',files'),es))
    (hfailed : .unlinkFailed b.number true ∈ es → kept true) :
    Keeps compile old kept b b' files' es := by
  obtain ⟨hintr,-,hread⟩ := hb
  simp only [Builder.step] at hstep
  split at hstep
  next hpc =>
    simp only [At, hpc] at h
    cases ok with
    | true =>
      cases hstep
      exact ⟨rfl,⟨hintr,by simp [BuildPc.Before],hread⟩,⟨h,.inl (.inl rfl)⟩,by simp⟩
    | false =>
      cases hstep
      exact ⟨rfl,⟨hintr,by simp [BuildPc.Before],hread⟩,⟨h,.inr (hfailed (by simp))⟩,by simp⟩
  next => contradiction

theorem Builder.step_ret (hstep : b.step compile files .ret = some ((b',files'),es)) :
    Keeps compile old kept b b' files' es := by
  obtain ⟨hintr,hunread,hread⟩ := hb
  simp only [Builder.step] at hstep
  split at hstep
  next hpc =>
    simp only [At, hpc] at h
    cases hstep
    refine ⟨rfl,⟨hintr,by simp [BuildPc.Before],hread⟩,h,fun e he => ?_⟩
    obtain rfl := BuildEvent.returned.inj (List.mem_singleton.mp he)
    exact Built.own_of_honest ⟨hintr,hunread,hread⟩
  next => contradiction

/-- A step within a build. -/
theorem Builder.step_keeps {a : BuildAction} (hok : a.Whole)
    (hcall : ∀ program source, a ≠ .call program source)
    (hstep : b.step compile files a = some ((b',files'),es))
    (hfailed : ∀ binary, .unlinkFailed b.number binary ∈ es → kept binary) :
    Keeps compile old kept b b' files' es := by
  cases a with
  | call program source => exact absurd rfl (hcall program source)
  | «open» ok => exact step_open h hb hstep
  | writeHeader r => exact step_writeHeader h hb hok hstep
  | writeSource r => exact step_writeSource h hb hok hstep
  | compilerReads => exact step_compilerReads h hb hstep
  | compilerWrites => exact step_compilerWrites h hb hstep
  | compilerFails status left => exact step_compilerFails hb hstep
  | fopen ok => exact step_fopen h hb hstep
  | fsize ok => exact step_fsize h hb hstep
  | malloc block => exact step_malloc h hb hstep
  | fread n => exact step_fread h hb hstep
  | unlinkSource ok => exact step_unlinkSource h hb hstep (hfailed false)
  | unlinkBinary ok => exact step_unlinkBinary h hb hstep (hfailed true)
  | ret => exact step_ret h hb hstep

end Calls

/-- The state of a process and its files in a run of its own. -/
structure Building (compile : List UInt8 → Option (List UInt8)) (store₀ : Files) (pid : Nat)
    (log : List BuildEvent) (s : Solo Builder Path (Option (List UInt8))) : Prop where
  honest : s.own.Honest compile
  here : s.own.At compile (Files.of store₀ (srcTmpl pid s.own.number))
    (fun binary => Kept pid log (tempPath pid s.own.number binary))
    (Files.of s.store (srcTmpl pid s.own.number))
  others : ∀ name, OwnsPath pid name → name ≠ srcTmpl pid s.own.number →
    name ≠ binPath (srcTmpl pid s.own.number) →
    TidyBut (Kept pid log name) (store₀ name) (s.store name)

/-- Between two builds all files of the process are tidy but for those kept. -/
theorem Building.tidy {store₀ : Files} {pid : Nat} {log : List BuildEvent}
    {s : Solo Builder Path (Option (List UInt8))} (h : Building compile store₀ pid log s)
    (hpc : s.own.pc = .idle) {name : Path} (hname : OwnsPath pid name) :
    TidyBut (Kept pid log name) (store₀ name) (s.store name) := by
  have hhere := h.here
  simp only [Builder.At, hpc] at hhere
  by_cases hsrc : name = srcTmpl pid s.own.number
  · subst hsrc
    exact hhere.1
  · by_cases hbin : name = binPath (srcTmpl pid s.own.number)
    · subst hbin
      exact hhere.2
    · exact h.others name hname hsrc hbin

theorem Building.step {store₀ : Files} {pid : Nat} {log : List BuildEvent}
    {s s' : Solo Builder Path (Option (List UInt8))} {a : BuildAction} {es : List BuildEvent}
    (h : Building compile store₀ pid log s) (hok : a.Whole)
    (hstep : buildIn compile pid s a = some (s',es)) :
    Building compile store₀ pid (log ++ es) s' ∧ ∀ e, .returned e ∈ es → e.Own compile := by
  obtain ⟨r,hr,heq⟩ := Option.map_eq_some_iff.mp hstep
  obtain ⟨⟨b',files'⟩,es'⟩ := r
  obtain ⟨rfl,rfl⟩ := Prod.mk.inj heq
  by_cases hcall : ∃ program source, a = .call program source
  · obtain ⟨program,source,rfl⟩ := hcall
    obtain ⟨hidle,hopening,rfl,rfl,hhonest⟩ := Builder.step_call hr
    rw [Files.put_of, List.append_nil]
    refine ⟨⟨hhonest,?_,fun name hname _ _ => h.tidy hidle hname⟩,by simp⟩
    simp only [Builder.At, hopening]
    exact ⟨h.tidy hidle ⟨_,.inl rfl⟩,h.tidy hidle ⟨_,.inr rfl⟩⟩
  · have hhere := h.here.mono fun binary hkept => hkept.append es'
    obtain ⟨hnumber,hhonest,hat,hown⟩ := Builder.step_keeps hhere h.honest hok
      (fun program source heq => hcall ⟨program,source,heq⟩) hr
      fun binary hfailed => ⟨_,binary,List.mem_append_right log hfailed,rfl⟩
    refine ⟨⟨hhonest,?_,fun name hname hsrc hbin => ?_⟩,hown⟩
    · simpa only [hnumber, Files.of_put] using hat
    · simp only [hnumber] at hsrc hbin
      simpa only [Files.put_other _ _ _ hsrc hbin] using
        (h.others name hname hsrc hbin).mono fun hkept => hkept.append es'

end Invariant

/-- A process that has built nothing. -/
def Builder.fresh : Builder := ⟨0,.idle,0,.created 0,[],.none false⟩

theorem Builder.intrinsics_fresh :
    Builder.fresh.calls.hasIntrinsics = strstr Builder.fresh.source
      (bytesOf "device_intrinsics.h") := by
  decide

/-- The builds of all processes, on the files there were at first. -/
def buildsSystem (compile : List UInt8 → Option (List UInt8)) (store₀ : Files) :
    System (Shared Nat Builder Path (Option (List UInt8)))
      (SharedAction Nat Path (Option (List UInt8)) BuildAction) (Nat × BuildEvent) :=
  sharedSystem (fun _ b => b = .fresh) store₀ (buildIn compile)

/-- A process by itself stays as `Building` says, and its builds are its own. -/
theorem building_run {compile : List UInt8 → Option (List UInt8)} {store₀ : Files} {pid : Nat}
    {log : List BuildEvent} {s : Solo Builder Path (Option (List UInt8))}
    (h : (soloSystem (fun b => b = .fresh) store₀ (buildIn compile pid)).RunWith
      (fun _ _ a => a.Whole) log s) :
    Building compile store₀ pid log s ∧ ∀ e, .returned e ∈ log → e.Own compile := by
  refine h.invariant (I := fun log s => Building compile store₀ pid log s ∧
    ∀ e, .returned e ∈ log → e.Own compile) ?_ ?_
  · rintro ⟨b,store⟩ ⟨rfl,rfl⟩
    refine ⟨⟨⟨Builder.intrinsics_fresh,fun _ => rfl,fun hread => absurd rfl hread⟩,
      ⟨.inl (.inr rfl),.inl (.inr rfl)⟩,fun name _ _ _ => .inl (.inr rfl)⟩,by simp⟩
  · intro log s a s' es _ ih hok hstep
    obtain ⟨hbuilding,hnew⟩ := ih.1.step hok hstep
    refine ⟨hbuilding,fun e he => ?_⟩
    rcases List.mem_append.mp he with hold | he
    · exact ih.2 e hold
    · exact hnew e he

/-- Processes that build at once do not meet: each gets what the compiler makes of its own
source, and leaves no file behind but those that it fails to unlink. -/
theorem builds_apart {compile : List UInt8 → Option (List UInt8)} {store₀ : Files}
    {log : List (Nat × BuildEvent)} {s : Shared Nat Builder Path (Option (List UInt8))}
    (h : (buildsSystem compile store₀).RunWith (Respects OwnsPath BuildAction.Whole) log s) :
    (∀ pid e, (pid,.returned e) ∈ log → e.Own compile) ∧
      ∀ pid name, OwnsPath pid name → (s.own pid).pc = .idle →
        Tidy (store₀ name) (s.store name) ∨
          ∃ n binary, (pid,.unlinkFailed n binary) ∈ log ∧ name = tempPath pid n binary := by
  constructor
  · intro pid e he
    obtain ⟨store,hsolo,-⟩ := (buildIn_confined compile).alone h pid
    exact (building_run hsolo).2 e (mem_eventsOf.mpr he)
  · intro pid name hname hpc
    obtain ⟨store,hsolo,hsame⟩ := (buildIn_confined compile).alone h pid
    have htidy := (building_run hsolo).1.tidy hpc hname
    simp only [hsame name hname] at htidy
    refine htidy.imp id ?_
    rintro ⟨n,binary,hfailed,hpath⟩
    exact ⟨n,binary,mem_eventsOf.mp hfailed,hpath⟩

/-- A compiler of one instruction, which depends on the end of the source. -/
def lastWord (text : List UInt8) : Option (List UInt8) := some (text.reverse.take 4)

/-- Two processes that take turns. The second cannot unlink its source. -/
def twoBuilds : List (SharedAction Nat Path (Option (List UInt8)) BuildAction) :=
  [.process 7 (.call (.created 1) [10]),.process 8 (.call (.created 2) [20]),
    .process 7 (.open true),.process 8 (.open true),.process 7 (.writeHeader .whole),
    .process 8 (.writeHeader .whole),.process 8 (.writeSource .whole),
    .process 7 (.writeSource .whole),.process 7 .compilerReads,.process 8 .compilerReads,
    .process 8 .compilerWrites,.process 7 .compilerWrites,.process 7 (.fopen true),
    .process 8 (.fopen true),.process 8 (.fsize true),.process 8 (.malloc (some fun _ => 0)),
    .process 7 (.fsize true),.process 7 (.malloc (some fun _ => 0)),.process 7 (.fread 4),
    .process 8 (.fread 4),.process 8 (.unlinkSource false),.process 8 (.unlinkBinary true),
    .process 8 .ret,.process 7 (.unlinkSource true),.process 7 (.unlinkBinary true),
    .process 7 .ret]

def BuildEvent.status? : BuildEvent → Option ClStatus
  | .returned b => some b.status
  | .unlinkFailed _ _ => none

theorem twoBuilds_runs :
    ((buildsSystem lastWord fun _ => none).exec ⟨fun _ => .fresh,fun _ => none⟩ twoBuilds).isSome :=
  by decide +kernel

theorem builds_apart_two : ∃ log s, (buildsSystem lastWord fun _ => none).RunWith
      (Respects OwnsPath BuildAction.Whole) log s ∧
    log.filterMap (fun e => e.2.status?.map (Prod.mk e.1)) =
      [(8,.CL_SUCCESS),(7,.CL_SUCCESS)] ∧
    (s.store (srcTmpl 8 0)).isSome = true ∧ (8,.unlinkFailed 0 false) ∈ log ∧
    (∀ pid e, (pid,.returned e) ∈ log → e.Own lastWord) ∧
    ∀ pid name, OwnsPath pid name → (s.own pid).pc = .idle → Tidy none (s.store name) ∨
      ∃ n binary, (pid,.unlinkFailed n binary) ∈ log ∧ name = tempPath pid n binary := by
  have hinit : (buildsSystem lastWord fun _ => none).RunWith
      (Respects OwnsPath BuildAction.Whole) [] ⟨fun _ => .fresh,fun _ => none⟩ :=
    .init ⟨fun _ => rfl,rfl⟩
  have hok : ∀ a ∈ twoBuilds, ∀ (log : List (Nat × BuildEvent))
      (s : Shared Nat Builder Path (Option (List UInt8))),
      Respects OwnsPath BuildAction.Whole log s a := by
    simp [twoBuilds, Respects, BuildAction.Whole]
  have hrun := hinit.continue twoBuilds hok twoBuilds_runs
  obtain ⟨hown,htidy⟩ := builds_apart hrun
  exact ⟨_,_,hrun,by decide +kernel,by decide +kernel,by decide +kernel,hown,htidy⟩

end FpgaGpu.Umd
