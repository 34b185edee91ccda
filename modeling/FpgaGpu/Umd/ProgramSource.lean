import FpgaGpu.Umd.Objects
import FpgaGpu.Library.Append

/-! `clCreateProgramWithSource` with the text: the loop that sizes the parts and the
loop that copies them agree, whatever convention gives each length. -/
namespace FpgaGpu.Umd
open Library

/-- What a `const char *` points to, with the place of its first NUL. -/
structure CString where
  bytes : Nat → UInt8
  nul : Option Nat
  first : ∀ n ∈ nul, bytes n = 0 ∧ ∀ k < n, bytes k ≠ 0
  never : nul = none → ∀ k, bytes k ≠ 0

/-- Runs off the string if there is no NUL. -/
def CString.strlen (s : CString) : Option UInt64 := s.nul.map UInt64.ofNat

/-- A string with nothing but NUL behind its text. -/
def CString.ofText (xs : List UInt8) (h : ∀ x ∈ xs, x ≠ 0) : CString where
  bytes k := xs.getD k 0
  nul := some xs.length
  first := by
    rintro n hn
    obtain rfl := Option.some.inj hn
    refine ⟨by simp,fun k hk => ?_⟩
    simpa [hk] using h _ (List.getElem_mem hk)
  never := nofun

/-- The arguments, NULL as `none`, and what the two `malloc` give: a handle, and the
bytes that stand in the new block. -/
structure SourceCall where
  context : Option Nat
  count : UInt32
  strings : Option (Nat → Option CString)
  lengths : Option (Nat → UInt64)
  malloc : Option Nat
  source : Option (Nat → UInt8)

/-- What a call does to the heap. -/
inductive SourceEvent where
  | mallocProgram (h : Nat)
  | mallocSource (size : UInt64)
  | freeProgram (h : Nat)
  | memcpy (offset len : UInt64)
  | stored (offset : UInt64)
  deriving DecidableEq, Repr

/-- `struct _cl_program` with the block of its text. -/
structure SourceProgram where
  program : ProgramObject
  source : Nat → UInt8
  sourceLen : UInt64

/-- `(lengths && lengths[i] > 0) ? lengths[i] : strlen(strings[i])`. -/
def partLength (lengths : Option (Nat → UInt64)) (i : Nat) (s : CString) : Option UInt64 :=
  match lengths with
  | none => s.strlen
  | some lengths => if 0 < lengths i then some (lengths i) else s.strlen

/-- The sizing loop over the indices that are left. -/
def sizeLoop (strings : Nat → Option CString) (lengths : Option (Nat → UInt64)) :
    List Nat → UInt64 → Option (Except ClStatus UInt64)
  | [], totalLen => some (.ok totalLen)
  | i :: rest, totalLen =>
      match strings i with
      | none => some (.error .CL_INVALID_VALUE)
      | some s => (partLength lengths i s).bind fun len =>
          sizeLoop strings lengths rest (totalLen + len)

/-- The copying loop: the offset it ends with, the block and its copies. -/
def copyLoop (strings : Nat → Option CString) (lengths : Option (Nat → UInt64)) :
    List Nat → UInt64 → (Nat → UInt8) → Option (UInt64 × (Nat → UInt8) × List SourceEvent)
  | [], offset, source => some (offset,source,[])
  | i :: rest, offset, source =>
      (strings i).bind fun s => (partLength lengths i s).bind fun len =>
        (copyLoop strings lengths rest (offset + len)
          (place offset.toNat ((List.range len.toNat).map s.bytes) source)).map fun r =>
            (r.1,r.2.1,.memcpy offset len :: r.2.2)

/-- `none` where `strlen` runs off a string. -/
def SourceCall.clCreateProgramWithSource (call : SourceCall) :
    Option (List SourceEvent × Except ClStatus SourceProgram) :=
  match call.context with
  | none => some ([],.error .CL_INVALID_CONTEXT)
  | some context =>
    match call.strings with
    | none => some ([],.error .CL_INVALID_VALUE)
    | some strings =>
      if call.count = 0 then some ([],.error .CL_INVALID_VALUE)
      else (sizeLoop strings call.lengths (List.range call.count.toNat) 0).bind fun sized =>
        match sized, call.malloc, call.source with
        | .error status, _, _ => some ([],.error status)
        | .ok _, none, _ => some ([],.error .CL_OUT_OF_HOST_MEMORY)
        | .ok _, some h, none => some ([.mallocProgram h,.freeProgram h],
            .error .CL_OUT_OF_HOST_MEMORY)
        | .ok totalLen, some h, some source =>
          (copyLoop strings call.lengths (List.range call.count.toNat) 0 source).map fun r =>
            ([.mallocProgram h,.mallocSource (totalLen + 1)] ++ r.2.2 ++ [.stored r.1],
              .ok ⟨.created context,place r.1.toNat [0] r.2.1,totalLen⟩)

/-! What the text should be. -/

/-- `xs` are the bytes of `s` before its NUL. -/
structure CString.IsText (s : CString) (xs : List UInt8) : Prop where
  bytes : xs = (List.range xs.length).map s.bytes
  nonzero : ∀ k < xs.length, s.bytes k ≠ 0
  ends : s.bytes xs.length = 0

/-- The three conventions for the length of string `i`. -/
inductive IsPart (lengths : Option (Nat → UInt64)) (i : Nat) (s : CString) : List UInt8 → Prop
  | absent {xs : List UInt8} : lengths = none → s.IsText xs → IsPart lengths i s xs
  | terminated {ls : Nat → UInt64} {xs : List UInt8} :
      lengths = some ls → ls i = 0 → s.IsText xs → IsPart lengths i s xs
  | counted {ls : Nat → UInt64} : lengths = some ls → ls i ≠ 0 →
      IsPart lengths i s ((List.range (ls i).toNat).map s.bytes)

/-- No string is NULL, and `parts` are what they stand for. -/
def SourceCall.Parts (call : SourceCall) (parts : List (List UInt8)) : Prop :=
  ∃ strings, call.strings = some strings ∧
    List.Forall₂ (fun i xs => ∃ s, strings i = some s ∧ IsPart call.lengths i s xs)
      (List.range call.count.toNat) parts

def SourceCall.HasNull (call : SourceCall) : Prop :=
  ∃ strings, call.strings = some strings ∧ ∃ i < call.count.toNat, strings i = none

/-- The caller's part: no string without a NUL where its NUL gives the length. -/
def SourceCall.Terminated (call : SourceCall) : Prop :=
  ∀ strings, call.strings = some strings → ∀ i < call.count.toNat, ∀ s, strings i = some s →
    ∃ xs, IsPart call.lengths i s xs

theorem CString.IsText.strlen {s : CString} {xs : List UInt8} (h : s.IsText xs) :
    s.strlen = some (UInt64.ofNat xs.length) := by
  rw [CString.strlen]
  cases hnul : s.nul with
  | none => exact absurd h.ends (s.never hnul _)
  | some n =>
    obtain ⟨hzero,hbefore⟩ := s.first n hnul
    have hlength : n = xs.length := by
      rcases Nat.lt_trichotomy n xs.length with hlt | heq | hgt
      · exact absurd hzero (h.nonzero n hlt)
      · exact heq
      · exact absurd h.ends (hbefore _ hgt)
    rw [hlength, Option.map_some]

theorem CString.IsText.ofText {xs : List UInt8} (h : ∀ x ∈ xs, x ≠ 0) :
    (CString.ofText xs h).IsText xs where
  bytes := by
    apply List.ext_getElem (by simp)
    intro k hk _
    simp [CString.ofText, hk]
  nonzero := ((CString.ofText xs h).first _ rfl).2
  ends := ((CString.ofText xs h).first _ rfl).1

/-- Both loops find the length of the part. -/
theorem IsPart.partLength {lengths : Option (Nat → UInt64)} {i : Nat} {s : CString}
    {xs : List UInt8} (h : IsPart lengths i s xs) :
    partLength lengths i s = some (UInt64.ofNat xs.length) := by
  cases h with
  | absent hlengths htext =>
    rw [hlengths, Umd.partLength]
    exact htext.strlen
  | terminated hlengths hzero htext =>
    rw [hlengths, Umd.partLength]
    simp only [hzero, UInt64.lt_irrefl, if_false]
    exact htext.strlen
  | counted hlengths hne =>
    rw [hlengths, Umd.partLength]
    simp only [UInt64.pos_iff_ne_zero.mpr hne, if_true, List.length_map, List.length_range,
      UInt64.ofNat_toNat]

theorem IsPart.bytes {lengths : Option (Nat → UInt64)} {i : Nat} {s : CString}
    {xs : List UInt8} (h : IsPart lengths i s xs) :
    (List.range xs.length).map s.bytes = xs := by
  cases h with
  | absent _ htext => exact htext.bytes.symm
  | terminated _ _ htext => exact htext.bytes.symm
  | counted _ _ => rw [List.length_map, List.length_range]

section Loops
variable {strings : Nat → Option CString} {lengths : Option (Nat → UInt64)}

/-- Every index comes with its part. -/
abbrev PartsOf (strings : Nat → Option CString) (lengths : Option (Nat → UInt64))
    (is : List Nat) (parts : List (List UInt8)) : Prop :=
  List.Forall₂ (fun i xs => ∃ s, strings i = some s ∧ IsPart lengths i s xs) is parts

theorem sizeLoop_parts {is : List Nat} {parts : List (List UInt8)}
    (h : PartsOf strings lengths is parts) (totalLen : UInt64) :
    sizeLoop strings lengths is totalLen =
      some (.ok (totalLen + UInt64.ofNat parts.flatten.length)) := by
  induction h generalizing totalLen with
  | nil => simp [sizeLoop]
  | cons hpart _ ih =>
    obtain ⟨s,hs,hpart⟩ := hpart
    rw [sizeLoop, hs]
    simp only [hpart.partLength, Option.bind_some, ih, List.flatten_cons, List.length_append,
      UInt64.ofNat_add, UInt64.add_assoc]

/-- The copies lie one behind the other. -/
theorem copyLoop_parts {is : List Nat} {parts : List (List UInt8)}
    (h : PartsOf strings lengths is parts) {offset : UInt64}
    (hroom : offset.toNat + parts.flatten.length < 2 ^ 64) (source : Nat → UInt8) :
    ∃ events, copyLoop strings lengths is offset source =
        some (offset + UInt64.ofNat parts.flatten.length,
          place offset.toNat parts.flatten source,events) ∧
      ∀ e ∈ events, ∃ at' len, e = .memcpy at' len ∧
        at'.toNat + len.toNat ≤ offset.toNat + parts.flatten.length := by
  induction h generalizing offset source with
  | nil => exact ⟨[],by simp [copyLoop],nofun⟩
  | @cons i xs is parts hpart _ ih =>
    obtain ⟨s,hs,hpart⟩ := hpart
    rw [List.flatten_cons, List.length_append] at hroom
    have hlen : (UInt64.ofNat xs.length).toNat = xs.length := by
      rw [UInt64.toNat_ofNat']
      omega
    have hnext : (offset + UInt64.ofNat xs.length).toNat = offset.toNat + xs.length := by
      rw [UInt64.toNat_add, hlen]
      omega
    have hroom' : (offset + UInt64.ofNat xs.length).toNat + parts.flatten.length < 2 ^ 64 := by
      rw [hnext]
      omega
    obtain ⟨events,hcopy,hinside⟩ := ih hroom' (place offset.toNat xs source)
    refine ⟨.memcpy offset (UInt64.ofNat xs.length) :: events,?_,?_⟩
    · rw [copyLoop, hs]
      simp only [Option.bind_some, hpart.partLength, hlen, hpart.bytes, hcopy, Option.map_some,
        hnext, place_append, List.flatten_cons, List.length_append, UInt64.ofNat_add,
        UInt64.add_assoc]
    · intro e he
      rw [List.flatten_cons, List.length_append]
      rcases List.mem_cons.mp he with rfl | he
      · exact ⟨_,_,rfl,by omega⟩
      · obtain ⟨at',len,rfl,hle⟩ := hinside e he
        exact ⟨at',len,rfl,by omega⟩

/-- A NULL among the strings is found before anything is allocated. -/
theorem sizeLoop_null {is : List Nat} (hnull : ∃ i ∈ is, strings i = none) (totalLen : UInt64) :
    ∀ sized, sizeLoop strings lengths is totalLen = some sized →
      sized = .error .CL_INVALID_VALUE := by
  induction is generalizing totalLen with
  | nil => simp at hnull
  | cons i is ih =>
    intro sized hsized
    rw [sizeLoop] at hsized
    cases hs : strings i with
    | none =>
      rw [hs] at hsized
      exact (Option.some.inj hsized).symm
    | some s =>
      rw [hs] at hsized
      obtain ⟨len,-,hrest⟩ := Option.bind_eq_some_iff.mp hsized
      obtain ⟨j,hj,hnone⟩ := hnull
      rcases List.mem_cons.mp hj with rfl | hj
      · rw [hs] at hnone
        contradiction
      · exact ih ⟨j,hj,hnone⟩ _ sized hrest

theorem sizeLoop_error {is : List Nat} {totalLen : UInt64} {status : ClStatus}
    (h : sizeLoop strings lengths is totalLen = some (.error status)) :
    status = .CL_INVALID_VALUE ∧ ∃ i ∈ is, strings i = none := by
  induction is generalizing totalLen with
  | nil => simp [sizeLoop] at h
  | cons i is ih =>
    rw [sizeLoop] at h
    cases hs : strings i with
    | none =>
      rw [hs] at h
      exact ⟨(Except.error.inj (Option.some.inj h)).symm,i,List.mem_cons_self,hs⟩
    | some s =>
      rw [hs] at h
      obtain ⟨len,-,hrest⟩ := Option.bind_eq_some_iff.mp h
      obtain ⟨hstatus,j,hj,hnone⟩ := ih hrest
      exact ⟨hstatus,j,List.mem_cons_of_mem i hj,hnone⟩

/-- With a NUL wherever one is needed the sizing loop ends. -/
theorem sizeLoop_terminated {is : List Nat}
    (hparts : ∀ i ∈ is, ∀ s, strings i = some s → ∃ xs, IsPart lengths i s xs)
    (totalLen : UInt64) : ∃ sized, sizeLoop strings lengths is totalLen = some sized := by
  induction is generalizing totalLen with
  | nil => exact ⟨_,rfl⟩
  | cons i is ih =>
    rw [sizeLoop]
    cases hs : strings i with
    | none => exact ⟨_,rfl⟩
    | some s =>
      obtain ⟨xs,hpart⟩ := hparts i List.mem_cons_self s hs
      simp only [hpart.partLength, Option.bind_some]
      exact ih (fun j hj => hparts j (List.mem_cons_of_mem i hj)) _

end Loops

/-- The text of a program that is created, and what the call does to the heap. -/
structure SourceExact (call : SourceCall) (parts : List (List UInt8))
    (events : List SourceEvent) (result : Except ClStatus SourceProgram) : Prop where
  succeeds : (∃ p, result = .ok p) ↔ call.context.isSome ∧ call.malloc.isSome ∧ call.source.isSome
  sourceLen : ∀ p, result = .ok p → p.sourceLen.toNat = parts.flatten.length
  source : ∀ p, result = .ok p →
    (List.range p.sourceLen.toNat).map p.source = parts.flatten ∧ p.source p.sourceLen.toNat = 0
  allocated : ∀ size, .mallocSource size ∈ events → size.toNat = parts.flatten.length + 1
  copies : ∀ offset len, .memcpy offset len ∈ events →
    offset.toNat + len.toNat ≤ parts.flatten.length + 1
  nul : ∀ offset, .stored offset ∈ events → offset.toNat < parts.flatten.length + 1

/-- Nothing is allocated, and nothing was to be. -/
theorem SourceExact.of_refused {call : SourceCall} {parts : List (List UInt8)}
    {status : ClStatus} {events : List SourceEvent}
    (hrefused : ¬(call.context.isSome ∧ call.malloc.isSome ∧ call.source.isSome))
    (hquiet : ∀ e ∈ events, ∃ h, e = .mallocProgram h ∨ e = .freeProgram h) :
    SourceExact call parts events (.error status) where
  succeeds := iff_of_false (fun ⟨_,h⟩ => nomatch h) hrefused
  sourceLen _ h := nomatch h
  source _ h := nomatch h
  allocated size h := by
    obtain ⟨_,h | h⟩ := hquiet _ h <;> contradiction
  copies offset len h := by
    obtain ⟨_,h | h⟩ := hquiet _ h <;> contradiction
  nul offset h := by
    obtain ⟨_,h | h⟩ := hquiet _ h <;> contradiction

/-- A call that gets both blocks. -/
theorem SourceExact.of_created {call : SourceCall} {parts : List (List UInt8)} {context h : Nat}
    {source : Nat → UInt8} {copies : List SourceEvent} (hcontext : call.context = some context)
    (hmalloc : call.malloc = some h) (hsource : call.source = some source)
    (hlength : parts.flatten.length < 2 ^ 64 - 1)
    (hcopies : ∀ e ∈ copies, ∃ offset len, e = .memcpy offset len ∧
      offset.toNat + len.toNat ≤ parts.flatten.length) :
    SourceExact call parts
      ([.mallocProgram h,.mallocSource (UInt64.ofNat parts.flatten.length + 1)] ++ copies ++
        [.stored (UInt64.ofNat parts.flatten.length)])
      (.ok ⟨.created context,
        place (UInt64.ofNat parts.flatten.length).toNat [0] (place 0 parts.flatten source),
        UInt64.ofNat parts.flatten.length⟩) := by
  have htotal : (UInt64.ofNat parts.flatten.length).toNat = parts.flatten.length := by
    rw [UInt64.toNat_ofNat']
    omega
  constructor
  case succeeds =>
    rw [hcontext, hmalloc, hsource]
    exact iff_of_true ⟨_,rfl⟩ ⟨rfl,rfl,rfl⟩
  case sourceLen =>
    rintro p hp
    obtain rfl := Except.ok.inj hp
    exact htotal
  case source =>
    rintro p hp
    obtain rfl := Except.ok.inj hp
    simp only [htotal]
    constructor
    · have hbelow : ∀ k ∈ List.range parts.flatten.length,
          place parts.flatten.length [0] (place 0 parts.flatten source) k =
            place 0 parts.flatten source (0 + k) := by
        intro k hk
        rw [place_below (List.mem_range.mp hk), Nat.zero_add]
      rw [List.map_congr_left hbelow, map_place]
    · simp [place]
  case allocated =>
    intro size hsize
    have hcopy : SourceEvent.mallocSource size ∉ copies := by
      intro hmem
      obtain ⟨_,_,h,-⟩ := hcopies _ hmem
      contradiction
    obtain rfl : size = UInt64.ofNat parts.flatten.length + 1 := by simpa [hcopy] using hsize
    rw [UInt64.toNat_add, htotal]
    simp only [UInt64.reduceToNat]
    omega
  case copies =>
    intro offset len hcopy
    have hmem : SourceEvent.memcpy offset len ∈ copies := by simpa using hcopy
    obtain ⟨_,_,heq,hle⟩ := hcopies _ hmem
    obtain ⟨rfl,rfl⟩ := SourceEvent.memcpy.inj heq
    omega
  case nul =>
    intro offset hstored
    have hcopy : SourceEvent.stored offset ∉ copies := by
      intro hmem
      obtain ⟨_,_,h,-⟩ := hcopies _ hmem
      contradiction
    obtain rfl : offset = UInt64.ofNat parts.flatten.length := by simpa [hcopy] using hstored
    omega

theorem SourceCall.parts_exact {call : SourceCall} (hcount : call.count ≠ 0)
    {parts : List (List UInt8)} (hparts : call.Parts parts)
    (hlength : parts.flatten.length < 2 ^ 64 - 1) :
    ∃ events result, call.clCreateProgramWithSource = some (events,result) ∧
      SourceExact call parts events result := by
  obtain ⟨strings,hstrings,hparts⟩ := hparts
  rw [clCreateProgramWithSource, hstrings]
  cases hcontext : call.context with
  | none => exact ⟨_,_,rfl,.of_refused (by simp [hcontext]) nofun⟩
  | some context =>
    simp only [if_neg hcount, sizeLoop_parts hparts, UInt64.zero_add, Option.bind_some]
    cases hmalloc : call.malloc with
    | none => exact ⟨_,_,rfl,.of_refused (by simp [hmalloc]) nofun⟩
    | some h =>
      cases hsource : call.source with
      | none => exact ⟨_,_,rfl,.of_refused (by simp [hsource]) (by simp)⟩
      | some source =>
        have hroom : (0 : UInt64).toNat + parts.flatten.length < 2 ^ 64 := by
          simp only [UInt64.reduceToNat]
          omega
        obtain ⟨copies,hcopy,hinside⟩ := copyLoop_parts hparts hroom source
        simp only [UInt64.zero_add, UInt64.toNat_zero, Nat.zero_add] at hcopy hinside
        simp only [hcopy, Option.map_some]
        exact ⟨_,_,rfl,.of_created hcontext hmalloc hsource hlength hinside⟩

theorem SourceCall.null_refused {call : SourceCall} (hnull : call.HasNull) :
    (∀ r, call.clCreateProgramWithSource = some r → ∃ status, r = ([],.error status)) ∧
      (call.Terminated → ∃ r, call.clCreateProgramWithSource = some r) := by
  obtain ⟨strings,hstrings,i,hi,hnone⟩ := hnull
  have hnull : ∃ i ∈ List.range call.count.toNat, strings i = none :=
    ⟨i,List.mem_range.mpr hi,hnone⟩
  rw [clCreateProgramWithSource, hstrings]
  cases call.context with
  | none => exact ⟨fun r hr => ⟨_,(Option.some.inj hr).symm⟩,fun _ => ⟨_,rfl⟩⟩
  | some context =>
    by_cases hcount : call.count = 0
    · rw [hcount] at hi
      contradiction
    · simp only [if_neg hcount]
      constructor
      · intro r hr
        obtain ⟨sized,hsized,hr⟩ := Option.bind_eq_some_iff.mp hr
        obtain rfl := sizeLoop_null hnull 0 sized hsized
        exact ⟨_,(Option.some.inj hr).symm⟩
      · intro hterminated
        obtain ⟨sized,hsized⟩ := sizeLoop_terminated
          (fun j hj => hterminated strings hstrings j (List.mem_range.mp hj)) 0
        obtain rfl := sizeLoop_null hnull 0 sized hsized
        exact ⟨_,by rw [hsized]; rfl⟩

/-- The text of a program is the concatenation of its parts. -/
theorem program_source_concatenates {call : SourceCall} (hcount : call.count ≠ 0) :
    (∀ parts, call.Parts parts → parts.flatten.length < 2 ^ 64 - 1 →
      ∃ events result, call.clCreateProgramWithSource = some (events,result) ∧
        SourceExact call parts events result) ∧
    (call.HasNull →
      (∀ r, call.clCreateProgramWithSource = some r → ∃ status, r = ([],.error status)) ∧
      (call.Terminated → ∃ r, call.clCreateProgramWithSource = some r)) :=
  ⟨fun _ hparts hlength => SourceCall.parts_exact hcount hparts hlength,SourceCall.null_refused⟩

/-- The objects of the process see of a call what they have of it: its status, and the
program it creates. -/
theorem Objects.clCreateProgramWithSource_text (s : Objects) {call : SourceCall}
    {events : List SourceEvent} {result : Except ClStatus SourceProgram}
    (hcall : call.clCreateProgramWithSource = some (events,result))
    (hcontext : ∀ c, call.context = some c → ∃ o, s.process.contexts c = some o)
    (hmalloc : ∀ h, call.malloc = some h → s.programs h = none) :
    (∀ status, result = .error status →
      s.clCreateProgramWithSource call.context call.count
        (call.strings.map fun strings i => (strings i).isSome) call.malloc call.source.isSome =
          s.ret status) ∧
    ∀ p, result = .ok p → ∃ h, call.malloc = some h ∧
      s.clCreateProgramWithSource call.context call.count
        (call.strings.map fun strings i => (strings i).isSome) call.malloc call.source.isSome =
          created {s with programs := Function.update s.programs h (some p.program)} h := by
  have hret : ∀ {e : List SourceEvent × Except ClStatus SourceProgram} {status : ClStatus},
      e.2 = .error status → some e = some (events,result) → result = .error status := by
    intro e status hstatus he
    obtain rfl := Option.some.inj he
    exact hstatus
  unfold SourceCall.clCreateProgramWithSource at hcall
  unfold Objects.clCreateProgramWithSource
  cases hc : call.context with
  | none =>
    rw [hc] at hcall
    obtain rfl := hret rfl hcall
    exact ⟨by simp,nofun⟩
  | some c =>
    obtain ⟨o,ho⟩ := hcontext c hc
    rw [hc] at hcall
    cases hstrings : call.strings with
    | none =>
      rw [hstrings] at hcall
      obtain rfl := hret rfl hcall
      simp [ho]
    | some strings =>
      by_cases hcount : call.count = 0
      · simp only [hstrings, if_pos hcount] at hcall
        obtain rfl := hret rfl hcall
        simp [ho, hcount]
      · simp only [hstrings, if_neg hcount] at hcall
        obtain ⟨sized,hsized,hrest⟩ := Option.bind_eq_some_iff.mp hcall
        cases sized with
        | error status =>
          obtain ⟨rfl,i,hi,hnone⟩ := sizeLoop_error hsized
          obtain rfl := hret rfl hrest
          have hnull : ((List.range call.count.toNat).all fun i => (strings i).isSome) = false :=
            List.all_eq_false.mpr ⟨i,hi,by simp [hnone]⟩
          simp [ho, hcount, hnull]
        | ok totalLen =>
          have hall : ((List.range call.count.toNat).all fun i => (strings i).isSome) = true := by
            rw [List.all_eq_true]
            intro i hi
            by_contra hnone
            have hnull := sizeLoop_null ⟨i,hi,by simpa using hnone⟩ 0 _ hsized
            contradiction
          cases hm : call.malloc with
          | none =>
            rw [hm] at hrest
            obtain rfl := hret rfl hrest
            simp [ho, hcount, hall]
          | some h =>
            rw [hm] at hrest
            cases hsource : call.source with
            | none =>
              rw [hsource] at hrest
              obtain rfl := hret rfl hrest
              simp [ho, hcount, hall]
            | some source =>
              rw [hsource] at hrest
              obtain ⟨copied,-,hcreated⟩ := Option.map_eq_some_iff.mp hrest
              obtain ⟨-,rfl⟩ := Prod.mk.inj hcreated
              refine ⟨nofun,fun p hp => ⟨h,rfl,?_⟩⟩
              obtain rfl := Except.ok.inj hp
              simp [ho, hcount, hall, hmalloc h hm]

/-- Two parts by their NUL, and two bytes of a longer string between them. -/
def abcde : SourceCall where
  context := some 0
  count := 3
  strings := some fun i => some (
    if i = 0 then .ofText [97,98] (by simp)
    else if i = 1 then .ofText [99,100,88] (by simp)
    else .ofText [101] (by simp))
  lengths := some fun i => if i = 1 then 2 else 0
  malloc := some 7
  source := some fun _ => 0xA5

theorem abcde_parts : abcde.Parts [[97,98],[99,100],[101]] := by
  refine ⟨_,rfl,.cons ⟨_,rfl,?_⟩ (.cons ⟨_,rfl,?_⟩ (.cons ⟨_,rfl,?_⟩ .nil))⟩
  · exact .terminated rfl rfl (.ofText (by simp))
  · have hlengths : abcde.lengths = some fun i => if i = 1 then 2 else 0 := rfl
    exact .counted hlengths (by decide)
  · exact .terminated rfl rfl (.ofText (by simp))

theorem program_source_concatenates_abcde : ∃ events result,
    abcde.clCreateProgramWithSource = some (events,result) ∧
      SourceExact abcde [[97,98],[99,100],[101]] events result := by
  have hcount : abcde.count ≠ 0 := by decide
  exact (program_source_concatenates hcount).1 _ abcde_parts (by decide)

end FpgaGpu.Umd
