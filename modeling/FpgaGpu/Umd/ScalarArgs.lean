import FpgaGpu.Umd.ArgPage

/-! Scalars that are passed to `clSetKernelArg`: two calls with different values are
told apart by the page of a launch up to four bytes, and never above. -/
namespace FpgaGpu.Umd
open Driver Library

/-- The process with other objects behind its handles. -/
def ArgState.withMems (s : ArgState) (mems : Nat → Option Mem) : ArgState :=
  {s with process := {s.process with mems := mems}}

/-- A call that forms no pointer does the same whatever objects there are. -/
def PointerFree (s : ArgState) (a : ArgAction) : Prop :=
  ∀ mems, (s.withMems mems).step a = (s.step a).map fun r => (r.1.withMems mems,r.2)

/-- The call returns an error, and nothing has changed. -/
def Refused (s : ArgState) (a : ArgAction) : Prop :=
  ∃ status, status ≠ .CL_SUCCESS ∧ s.step a = some (s,[.setReturned status])

/-- Calls that follow, the same on both sides, lead to launches with different pages. -/
def ToldApart (s s' : ArgState) : Prop :=
  ∃ (as : List ArgAction) (t t' : ArgState) (log log' : List ArgEvent) (nd : NDRange)
      (memalign : Bool) (launch launch' : Launch),
    argSystem.exec s as = some (t,log) ∧ argSystem.exec s' as = some (t',log') ∧
    prepare {nd with kernel := some t.kernel.kernel} memalign = .ok launch ∧
    prepare {nd with kernel := some t'.kernel.kernel} memalign = .ok launch' ∧
    launch.page ≠ launch'.page

/-- Two calls that differ in the value of a scalar: no pointer is made of either
value, and they are refused or they are told apart. -/
structure ScalarKept (s : ArgState) (call : (Nat → UInt8) → ArgAction)
    (value value' : Nat → UInt8) : Prop where
  pointerFree : PointerFree s (call value) ∧ PointerFree s (call value')
  kept : Refused s (call value) ∧ Refused s (call value') ∨
    ∃ t es t' es', s.step (call value) = some (t,es) ∧ s.step (call value') = some (t',es') ∧
      ToldApart t t'

/-- A call that passes the scalar `value`. -/
def setScalar (kernel : Bool) (argIndex : UInt32) (argSize : UInt64) (value : Nat → UInt8) :
    ArgAction :=
  .setArg kernel argIndex argSize (some value)

/-- `clSetKernelArg` refuses the call whatever the value is. -/
def RefusesIndex (kernel : Bool) (argIndex : UInt32) : Prop :=
  kernel = false ∨ maxArgs ≤ argIndex.toNat

variable {s : ArgState} {kernel : Bool} {argIndex : UInt32} {argSize : UInt64}
variable {value value' : Nat → UInt8}

/-- Both ends of a call with a value: it is refused before the value is looked at,
or the entry is stored. -/
theorem setScalar_refused (argSize : UInt64) (value : Nat → UInt8)
    (h : RefusesIndex kernel argIndex) :
    ∃ status, status ≠ .CL_SUCCESS ∧ ∀ s : ArgState,
      s.step (setScalar kernel argIndex argSize value) = some (s,[.setReturned status]) := by
  rcases h with rfl | hindex
  · exact ⟨.CL_INVALID_KERNEL,by decide,fun _ => rfl⟩
  · cases kernel with
    | false => exact ⟨.CL_INVALID_KERNEL,by decide,fun _ => rfl⟩
    | true =>
      refine ⟨.CL_INVALID_ARG_INDEX,by decide,fun s => ?_⟩
      simp [ArgState.step, setScalar, ArgState.setArg, clSetKernelArg, Nat.not_lt.mpr hindex]

theorem setScalar_stored (hindex : argIndex.toNat < maxArgs) :
    s.step (setScalar true argIndex argSize value) =
      (argEntry s.process.mems argSize value).bind fun e =>
        (argValueOf s.process.mems argSize value).map fun v =>
          ({s with kernel := s.kernel.store argIndex.toNat e hindex},
            [.set argIndex.toNat v,.setReturned .CL_SUCCESS]) := by
  cases hentry : argEntry s.process.mems argSize value with
  | none =>
    simp [ArgState.step, setScalar, ArgState.setArg, clSetKernelArg, hindex, hentry]
  | some e =>
    obtain ⟨v,hv⟩ := argValueOf_isSome hentry
    simp [ArgState.step, setScalar, ArgState.setArg, clSetKernelArg, hindex, hentry, hv]

theorem not_toldApart_self (s : ArgState) : ¬ToldApart s s := by
  rintro ⟨as,t,t',log,log',nd,memalign,launch,launch',hexec,hexec',hok,hok',hne⟩
  obtain ⟨rfl,-⟩ := Prod.mk.inj (Option.some.inj (hexec.symm.trans hexec'))
  exact hne (congrArg Launch.page (Except.ok.inj (hok.symm.trans hok')))

/-- Where the bytes are read as a handle, it matters what is behind it. -/
theorem not_pointerFree (hindex : argIndex.toNat < maxArgs) :
    ¬PointerFree s (setScalar true argIndex 8 value) := by
  intro hfree
  unfold PointerFree at hfree
  simp only [setScalar_stored hindex, ArgState.withMems] at hfree
  cases hmem : s.process.mems (argHandle value) with
  | none =>
    have hsome := hfree fun _ => some ⟨0,0,0,0,0,0⟩
    simp [argEntry, argValueOf, hmem] at hsome
  | some mem =>
    have hnone := hfree fun _ => none
    simp [argEntry, argValueOf, hmem] at hnone

/-- A wide scalar is stored as 0. -/
theorem argEntry_wide {mems : Nat → Option Mem} (hsize : 4 < argSize) (hwide : argSize ≠ 8) :
    argEntry mems argSize value = some ⟨true,false,argSize,0,none⟩ := by
  unfold argEntry
  rw [if_neg hwide, if_neg (UInt64.not_le.mpr hsize)]

theorem stored_wide (s : ArgState) (value : Nat → UInt8) (hsize : 4 < argSize) (hwide : argSize ≠ 8)
    (hindex : argIndex.toNat < maxArgs) :
    s.step (setScalar true argIndex argSize value) =
      some ({s with kernel := s.kernel.store argIndex.toNat ⟨true,false,argSize,0,none⟩ hindex},
        [.set argIndex.toNat (leNat argSize.toNat value),.setReturned .CL_SUCCESS]) := by
  rw [setScalar_stored hindex, argEntry_wide hsize hwide]
  simp [argValueOf, hwide]

theorem scalarKept_of_refused (h : RefusesIndex kernel argIndex) :
    ScalarKept s (setScalar kernel argIndex argSize) value value' := by
  have hboth (v : Nat → UInt8) : PointerFree s (setScalar kernel argIndex argSize v) ∧
      Refused s (setScalar kernel argIndex argSize v) := by
    obtain ⟨status,hstatus,hrefused⟩ := setScalar_refused argSize v h
    constructor
    · intro mems
      rw [hrefused, hrefused]
      rfl
    · exact ⟨status,hstatus,hrefused s⟩
  exact ⟨⟨(hboth value).1,(hboth value').1⟩,.inl ⟨(hboth value).2,(hboth value').2⟩⟩

theorem not_scalarKept (hsize : 4 < argSize) (hindex : argIndex.toNat < maxArgs) :
    ¬ScalarKept s (setScalar true argIndex argSize) value value' := by
  intro hkept
  by_cases hwide : argSize = 8
  · subst hwide
    exact not_pointerFree hindex hkept.pointerFree.1
  · have hvalue := stored_wide s value hsize hwide hindex
    have hvalue' := stored_wide s value' hsize hwide hindex
    rcases hkept.kept with ⟨⟨status,hstatus,hrefused⟩,-⟩ | ⟨t,es,t',es',ht,ht',happart⟩
    · rw [hvalue] at hrefused
      simp at hrefused
    · obtain ⟨rfl,-⟩ := Prod.mk.inj (Option.some.inj (hvalue.symm.trans ht))
      obtain ⟨rfl,-⟩ := Prod.mk.inj (Option.some.inj (hvalue'.symm.trans ht'))
      exact not_toldApart_self _ happart

/-- The word that a launch finds right after a scalar was stored. -/
theorem stored_page {nd : NDRange} {memalign : Bool} {launch : Launch} {e : ArgEntry}
    {k : KernelObject} {i : Nat} (hi : i < maxArgs)
    (hkernel : nd.kernel = some (k.store i e hi).kernel)
    (hok : prepare nd memalign = .ok launch) : launch.page (2 * i) = e.scalarVal := by
  obtain ⟨kernel,globalSize,hnd,-,hargs,-⟩ := prepare_ok hok
  obtain rfl := Option.some.inj (hkernel.symm.trans hnd)
  have hlt : i < (k.store i e hi).numArgs := by
    simp only [KernelObject.store]
    split <;> omega
  rw [launch.page_eq, hargs, Nat.mul_div_cancel_left i (by decide), kernel_args_get, if_pos hlt]
  simp [KernelObject.store]

/-- Scalars of at most four bytes are told apart by the launch that follows. -/
theorem narrow_toldApart {nd : NDRange} {memalign : Bool} {t t' : ArgState}
    {es es' : List ArgEvent} {launch launch' : Launch} (hsize : argSize ≤ 4)
    (hindex : argIndex.toNat < maxArgs) (hdiff : ∃ j < argSize.toNat, value j ≠ value' j)
    (ht : s.step (setScalar true argIndex argSize value) = some (t,es))
    (ht' : s.step (setScalar true argIndex argSize value') = some (t',es'))
    (hok : prepare {nd with kernel := some t.kernel.kernel} memalign = .ok launch)
    (hok' : prepare {nd with kernel := some t'.kernel.kernel} memalign = .ok launch') :
    ToldApart t t' := by
  have hscalar : argSize ≠ 8 := by
    rintro rfl
    exact absurd hsize (by decide)
  have hlt : ∀ v, leNat argSize.toNat v < 2 ^ 32 := fun v =>
    Nat.lt_of_lt_of_le (leNat_lt _ v)
      (Nat.pow_le_pow_right (by decide) (UInt64.le_iff_toNat_le.mp hsize))
  refine ⟨[],t,t',[],[],nd,memalign,launch,launch',rfl,rfl,hok,hok',fun heq => ?_⟩
  rw [setScalar_stored hindex] at ht ht'
  simp only [argEntry, argValueOf, hscalar, hsize, ↓reduceIte, Option.bind_some, Option.map_some,
    Option.some.injEq, Prod.mk.injEq] at ht ht'
  obtain ⟨rfl,-⟩ := ht
  obtain ⟨rfl,-⟩ := ht'
  have hword := stored_page hindex rfl hok
  rw [heq, stored_page hindex rfl hok'] at hword
  have hnat : leNat argSize.toNat value' = leNat argSize.toNat value := by
    have htoNat := congrArg UInt32.toNat hword
    simp only [UInt32.toNat_ofNat'] at htoNat
    rwa [Nat.mod_eq_of_lt (hlt value'), Nat.mod_eq_of_lt (hlt value)] at htoNat
  obtain ⟨j,hj,hne⟩ := hdiff
  exact hne (leNat_inj hnat j hj).symm

/-- A scalar of more than four bytes is lost, or read as a handle, unless the call is
refused whatever the value is. -/
theorem scalar_kept_iff (s : ArgState) (kernel : Bool) (argIndex : UInt32) (argSize : UInt64)
    (hsize : 4 < argSize) :
    ∀ value value' : Nat → UInt8, (∃ j < argSize.toNat, value j ≠ value' j) →
      (ScalarKept s (setScalar kernel argIndex argSize) value value' ↔
        RefusesIndex kernel argIndex) := by
  intro value value' _
  constructor
  · intro hkept
    by_contra hnot
    obtain ⟨hkernel,hindex⟩ := not_or.mp hnot
    obtain rfl : kernel = true := by simpa using hkernel
    exact not_scalarKept hsize (Nat.not_le.mp hindex) hkept
  · exact scalarKept_of_refused

/-- A vector of four floats: all zero, and with a one in front. -/
def zeroVector : Nat → UInt8 := fun _ => 0
def oneVector : Nat → UInt8 := fun i => if i = 2 then 128 else if i = 3 then 63 else 0

theorem scalar_kept_beyond :
    ScalarKept setTwiceStart (setScalar true 32 16) zeroVector oneVector :=
  (scalar_kept_iff setTwiceStart true 32 16 (by decide) zeroVector oneVector
    ⟨2,by decide,by decide⟩).mpr (.inr (by decide))

theorem zero_lt_maxArgs : (0 : UInt32).toNat < maxArgs := by decide

/-- The kernel that a vector at index 0 leaves. -/
def vectorKernel : KernelObject :=
  setTwiceStart.kernel.store (0 : UInt32).toNat ⟨true,false,16,0,none⟩ zero_lt_maxArgs

theorem vectorKernel_set : (marshal vectorKernel.kernel.args 0 fun _ => 0).isSome = true := by
  decide +kernel

/-- The vectors are stored with CL_SUCCESS, and the launch that follows has the same
page for both; a scalar of eight bytes is a wild handle. -/
theorem vectors_lost : argSystem.init setTwiceStart ∧
    (∃ t es es' launch, setTwiceStart.step (setScalar true 0 16 zeroVector) = some (t,es) ∧
      setTwiceStart.step (setScalar true 0 16 oneVector) = some (t,es') ∧
      .setReturned .CL_SUCCESS ∈ es' ∧
      prepare ⟨true,some t.kernel.kernel,1,some fun _ => 2,none⟩ true = .ok launch ∧
      launch.page 0 = 0) ∧
    ¬ScalarKept setTwiceStart (setScalar true 0 16) zeroVector oneVector ∧
    setTwiceStart.step (setScalar true 0 8 oneVector) = none := by
  refine ⟨setTwiceStart_init,?_,not_scalarKept (by decide) zero_lt_maxArgs,rfl⟩
  obtain ⟨launch,hprepare⟩ : ∃ launch,
      prepare ⟨true,some vectorKernel.kernel,1,some fun _ => 2,none⟩ true = .ok launch := by
    have hprogram : vectorKernel.kernel.program = some ⟨true,[7],1,oneInstruction_fits⟩ := rfl
    unfold prepare
    simp only [hprogram, vectorKernel_set]
    exact ⟨_,rfl⟩
  have hword : launch.page (2 * (0 : UInt32).toNat) = 0 :=
    stored_page (k := setTwiceStart.kernel) (e := ⟨true,false,16,0,none⟩) zero_lt_maxArgs rfl
      hprepare
  exact ⟨_,_,_,launch,stored_wide _ _ (by decide) (by decide) zero_lt_maxArgs,
    stored_wide _ _ (by decide) (by decide) zero_lt_maxArgs,by simp,hprepare,hword⟩

end FpgaGpu.Umd
