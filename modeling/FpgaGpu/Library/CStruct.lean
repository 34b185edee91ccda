import FpgaGpu.Library.Bytes
import Mathlib.Data.List.Forall2

/-! Structs of unsigned numbers as the C ABI lays them out: each field at the next
multiple of its alignment, and anything in the bytes between them. -/
namespace FpgaGpu.Library

structure CField where
  size : Nat
  align : Nat
  deriving DecidableEq, Repr

def alignUp (n align : Nat) : Nat := (n + (align - 1)) / align * align

theorem le_alignUp {n align : Nat} (h : 0 < align) : n ≤ alignUp n align := by
  have hdiv := Nat.div_add_mod (n + (align - 1)) align
  have hmod := Nat.mod_lt (n + (align - 1)) h
  rw [Nat.mul_comm] at hdiv
  unfold alignUp
  omega

/-- Where the field stands when the fields before it end at `n`. -/
def CField.at (f : CField) (n : Nat) : Nat := alignUp n f.align

/-- Where it ends. -/
def CField.next (f : CField) (n : Nat) : Nat := f.at n + f.size

def CField.put (f : CField) (n value : Nat) (bytes : Nat → UInt8) : Nat → UInt8 := fun k =>
  if f.at n ≤ k ∧ k < f.next n then UInt8.ofNat (value / 256 ^ (k - f.at n)) else bytes k

def CField.get (f : CField) (n : Nat) (bytes : Nat → UInt8) : Nat :=
  leNat f.size fun j => bytes (f.at n + j)

/-- Where the last field ends. -/
def extent : List CField → Nat → Nat
  | [], n => n
  | f :: fs, n => extent fs (f.next n)

def maxAlign (fs : List CField) : Nat := fs.foldr (fun f a => max f.align a) 1

def sizeof (fs : List CField) : Nat := alignUp (extent fs 0) (maxAlign fs)

/-- The fields' values over bytes that were there before. -/
def putAll : List CField → Nat → List Nat → (Nat → UInt8) → Nat → UInt8
  | f :: fs, n, v :: vs, bytes => f.put n v (putAll fs (f.next n) vs bytes)
  | _, _, _, bytes => bytes

def getAll : List CField → Nat → (Nat → UInt8) → List Nat
  | [], _, _ => []
  | f :: fs, n, bytes => f.get n bytes :: getAll fs (f.next n) bytes

/-- No byte between the fields. -/
def dense : List CField → Nat → Bool
  | [], _ => true
  | f :: fs, n => f.at n == n && dense fs (f.next n)

/-- A C type of such fields, for values of `τ`. -/
structure CStruct (τ : Type) where
  fields : List CField
  values : τ → List Nat
  ofValues : List Nat → τ
  fit : ∀ t, List.Forall₂ (fun f v => v < 256 ^ f.size) fields (values t)
  ofValues_values : ∀ t, ofValues (values t) = t
  values_ofValues : ∀ vs, List.Forall₂ (fun f v => v < 256 ^ f.size) fields vs →
    values (ofValues vs) = vs
  aligned : ∀ f ∈ fields, 0 < f.align

/-- The memory of a variable, with any bytes as padding. -/
def CStruct.image {τ : Type} (c : CStruct τ) (t : τ) (padding : Nat → UInt8) : Nat → UInt8 :=
  putAll c.fields 0 (c.values t) padding

def CStruct.read {τ : Type} (c : CStruct τ) (bytes : Nat → UInt8) : τ :=
  c.ofValues (getAll c.fields 0 bytes)

theorem leNat_congr {n : Nat} {bytes bytes' : Nat → UInt8} (h : ∀ j < n, bytes j = bytes' j) :
    leNat n bytes = leNat n bytes' := by
  induction n with
  | zero => rfl
  | succ n ih => rw [leNat, leNat, ih fun j hj => h j (Nat.lt_succ_of_lt hj), h n n.lt_succ_self]

/-- The bytes of a number read back as the number. -/
theorem leNat_digits (n value : Nat) :
    leNat n (fun j => UInt8.ofNat (value / 256 ^ j)) = value % 256 ^ n := by
  induction n with
  | zero => simp [leNat, Nat.mod_one]
  | succ n ih =>
    rw [leNat, ih, Nat.pow_succ, Nat.mod_mul, UInt8.toNat_ofNat']
    rw [Nat.mul_comm (256 ^ n)]

/-- A number of `m + n` bytes, cut in two. -/
theorem leNat_add (m n : Nat) (bytes : Nat → UInt8) :
    leNat (m + n) bytes = leNat m bytes + leNat n (fun j => bytes (m + j)) * 256 ^ m := by
  induction n with
  | zero => simp [leNat]
  | succ n ih =>
    rw [← Nat.add_assoc, leNat, ih, leNat, Nat.add_mul, Nat.pow_add, Nat.mul_assoc,
      Nat.mul_comm (256 ^ n), Nat.add_assoc]

theorem CField.get_put {f : CField} {n value : Nat} {bytes : Nat → UInt8}
    (h : value < 256 ^ f.size) : f.get n (f.put n value bytes) = value := by
  have hbytes : leNat f.size (fun j => f.put n value bytes (f.at n + j)) =
      leNat f.size fun j => UInt8.ofNat (value / 256 ^ j) := by
    refine leNat_congr fun j hj => ?_
    have hin : f.at n ≤ f.at n + j ∧ f.at n + j < f.next n := by
      unfold next
      omega
    rw [put, if_pos hin, Nat.add_sub_cancel_left]
  rw [get, hbytes, leNat_digits, Nat.mod_eq_of_lt h]

theorem CField.put_above {f : CField} {n value k : Nat} {bytes : Nat → UInt8}
    (h : f.next n ≤ k) : f.put n value bytes k = bytes k :=
  if_neg fun hin => absurd hin.2 (Nat.not_lt.mpr h)

theorem CField.le_next {f : CField} (h : 0 < f.align) (n : Nat) : n ≤ f.next n :=
  Nat.le_trans (le_alignUp h) (Nat.le_add_right _ _)

theorem le_extent {fs : List CField} (h : ∀ f ∈ fs, 0 < f.align) (n : Nat) : n ≤ extent fs n := by
  induction fs generalizing n with
  | nil => exact Nat.le_refl n
  | cons f fs ih =>
    exact Nat.le_trans (CField.le_next (h f List.mem_cons_self) n)
      (ih (fun g hg => h g (List.mem_cons_of_mem f hg)) _)

theorem extent_le_sizeof {fs : List CField} : extent fs 0 ≤ sizeof fs := by
  apply le_alignUp
  induction fs with
  | nil => exact Nat.one_pos
  | cons f fs ih => exact Nat.lt_of_lt_of_le ih (Nat.le_max_right _ _)

/-- The fields are read from nowhere else. -/
theorem getAll_congr {fs : List CField} {n : Nat} {bytes bytes' : Nat → UInt8}
    (hfs : ∀ f ∈ fs, 0 < f.align) (h : ∀ k, n ≤ k → k < extent fs n → bytes k = bytes' k) :
    getAll fs n bytes = getAll fs n bytes' := by
  induction fs generalizing n with
  | nil => rfl
  | cons f fs ih =>
    have hrest : ∀ g ∈ fs, 0 < g.align := fun g hg => hfs g (List.mem_cons_of_mem f hg)
    have hpos := hfs f List.mem_cons_self
    have hextent : f.next n ≤ extent fs (f.next n) := le_extent hrest _
    have hhead : f.get n bytes = f.get n bytes' := by
      refine leNat_congr fun j hj => h _ ?_ ?_
      · exact Nat.le_trans (le_alignUp hpos) (Nat.le_add_right _ _)
      · exact Nat.lt_of_lt_of_le (Nat.add_lt_add_left hj _) hextent
    rw [getAll, getAll, hhead, ih hrest fun k hk hlt =>
      h k (Nat.le_trans (CField.le_next hpos n) hk) hlt]

/-- Fields do not overlap: each one reads as it was written, whatever the padding is. -/
theorem getAll_putAll {fs : List CField} {n : Nat} {vs : List Nat} {padding : Nat → UInt8}
    (hfs : ∀ f ∈ fs, 0 < f.align) (hfit : List.Forall₂ (fun f v => v < 256 ^ f.size) fs vs) :
    getAll fs n (putAll fs n vs padding) = vs := by
  induction hfit generalizing n with
  | nil => rfl
  | @cons f v fs vs hv _ ih =>
    have hrest : ∀ g ∈ fs, 0 < g.align := fun g hg => hfs g (List.mem_cons_of_mem f hg)
    have htail : getAll fs (f.next n) (f.put n v (putAll fs (f.next n) vs padding)) =
        getAll fs (f.next n) (putAll fs (f.next n) vs padding) :=
      getAll_congr hrest fun k hk _ => CField.put_above hk
    rw [putAll, getAll, CField.get_put hv, htail, ih hrest]

/-- A copy of `sizeof` bytes of a variable reads as the variable. -/
theorem CStruct.read_copy {τ : Type} (c : CStruct τ) {t : τ} {padding bytes : Nat → UInt8}
    (h : ∀ k < sizeof c.fields, bytes k = c.image t padding k) : c.read bytes = t := by
  have hsame : getAll c.fields 0 bytes = getAll c.fields 0 (c.image t padding) :=
    getAll_congr c.aligned fun k _ hk => h k (Nat.lt_of_lt_of_le hk extent_le_sizeof)
  rw [read, hsame, image, getAll_putAll c.aligned (c.fit t), c.ofValues_values]

theorem getAll_fit (fs : List CField) (n : Nat) (bytes : Nat → UInt8) :
    List.Forall₂ (fun f v => v < 256 ^ f.size) fs (getAll fs n bytes) := by
  induction fs generalizing n with
  | nil => exact .nil
  | cons f fs ih => exact .cons (leNat_lt f.size _) (ih _)

/-- Writing back what was read changes nothing. -/
theorem putAll_getAll {fs : List CField} {n : Nat} (bytes : Nat → UInt8) :
    putAll fs n (getAll fs n bytes) bytes = bytes := by
  induction fs generalizing n with
  | nil => rfl
  | cons f fs ih =>
    rw [getAll, putAll, ih]
    funext k
    unfold CField.put
    split
    next hin =>
      have hget : leNat f.size (fun j => UInt8.ofNat (f.get n bytes / 256 ^ j)) =
          leNat f.size fun j => bytes (f.at n + j) := by
        rw [leNat_digits]
        exact Nat.mod_eq_of_lt (leNat_lt f.size _)
      have hbyte := leNat_inj hget (k - f.at n) (by
        have hlt := hin.2
        unfold CField.next at hlt
        omega)
      rwa [Nat.add_sub_cancel' hin.1] at hbyte
    next => rfl

/-- Any bytes are the variable that they read as, with themselves as padding. -/
theorem CStruct.image_read {τ : Type} (c : CStruct τ) (bytes : Nat → UInt8) :
    c.image (c.read bytes) bytes = bytes := by
  rw [image, read, c.values_ofValues _ (getAll_fit _ _ _), putAll_getAll]

/-- Without padding the values say all about the bytes. -/
theorem eq_of_getAll_eq {fs : List CField} {n : Nat} {bytes bytes' : Nat → UInt8}
    (hfs : dense fs n = true) (h : getAll fs n bytes = getAll fs n bytes') :
    ∀ k, n ≤ k → k < extent fs n → bytes k = bytes' k := by
  induction fs generalizing n with
  | nil => exact fun k hle hlt => absurd hlt (Nat.not_lt.mpr hle)
  | cons f fs ih =>
    intro k hle hlt
    obtain ⟨hhead,htail⟩ := List.cons.inj h
    obtain ⟨hat,hrest⟩ : f.at n = n ∧ dense fs (f.next n) = true := by
      simpa [dense] using hfs
    rcases Nat.lt_or_ge k (f.next n) with hin | hout
    · have hbyte := leNat_inj hhead (k - n) (by
        rw [CField.next, hat] at hin
        omega)
      rwa [hat, Nat.add_sub_cancel' hle] at hbyte
    · exact ih hrest htail k hout hlt

/-- Nothing of what stood there before shows in a variable without padding. -/
theorem CStruct.image_dense {τ : Type} (c : CStruct τ) (hc : dense c.fields 0 = true) (t : τ)
    (padding padding' : Nat → UInt8) :
    ∀ k < extent c.fields 0, c.image t padding k = c.image t padding' k := by
  intro k hk
  refine eq_of_getAll_eq hc ?_ k (Nat.zero_le k) hk
  rw [image, image, getAll_putAll c.aligned (c.fit t), getAll_putAll c.aligned (c.fit t)]

end FpgaGpu.Library
