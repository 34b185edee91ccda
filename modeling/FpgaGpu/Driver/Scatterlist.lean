import FpgaGpu.Driver.DmaCopy
import FpgaGpu.Library.Pages
import Mathlib.Algebra.Order.Ring.Nat

/-! The scatterlist loop of DMA_TRANSFER, turn by turn: it cuts the host range at
the page boundaries, into as many pieces as pages were counted beforehand. -/
namespace FpgaGpu.Driver
open Library

/-- The variables of the loop that fills the scatterlist. -/
structure SgLoop where
  remaining : UInt32
  pageOffset : UInt32
  deriving DecidableEq, Repr

/-- `min_t(unsigned int, remaining, PAGE_SIZE - page_offset)`. -/
def SgLoop.length (l : SgLoop) : UInt32 := min l.remaining (4096 - l.pageOffset)

def SgLoop.turn (l : SgLoop) : SgLoop := ⟨l.remaining - l.length,0⟩

/-- The variables when the loop comes to entry `i`. -/
def SgLoop.atEntry (l : SgLoop) : Nat → SgLoop
  | 0 => l
  | i + 1 => (l.atEntry i).turn

theorem SgLoop.atEntry_turn (l : SgLoop) (i : Nat) : l.turn.atEntry i = l.atEntry (i + 1) := by
  induction i with
  | zero => rfl
  | succ i ih =>
    rw [atEntry, ih]
    rfl

/-- Turn `i` of the loop fills entry `i`. -/
theorem sgFill_getElem? (l : SgLoop) (pages : List Nat) (i : Nat) :
    (sgFill l.remaining l.pageOffset pages)[i]? =
      pages[i]?.map fun page => ⟨page,(l.atEntry i).length,(l.atEntry i).pageOffset⟩ := by
  induction pages generalizing l i with
  | nil => rfl
  | cons page rest ih =>
    cases i with
    | zero => rfl
    | succ i =>
      have htail := ih l.turn i
      rw [SgLoop.atEntry_turn] at htail
      exact htail

/-- The loop at its start. -/
def Transfer.sgLoop (t : Transfer) : SgLoop := ⟨t.param.size,t.pageOffset⟩

/-- The host range of a request, over the pages of the host. -/
def Transfer.hostRange (t : Transfer) : PageRange where
  width := pageSize
  start := t.param.hostVaddr.toNat
  size := t.param.size.toNat
  width_pos := by decide
  size_pos := t.size_pos

theorem dmaCheck_pageOffset {p : DmaParam} {t : Transfer} (h : dmaCheck p = .ok t) :
    t.pageOffset = offsetInPage p.hostVaddr := by
  unfold dmaCheck at h
  split_ifs at h
  split at h
  · contradiction
  · cases h
    rfl

section Loop
variable {p : DmaParam} {t : Transfer} (hcheck : dmaCheck p = .ok t)
include hcheck

theorem Transfer.pageOffset_toNat : t.pageOffset.toNat = t.hostRange.start % t.hostRange.width := by
  rw [dmaCheck_pageOffset hcheck, offsetInPage_toNat, ← dmaCheck_param hcheck]
  rfl

/-- `num_pages` is the number of pieces of the cut. -/
theorem Transfer.numPages_count : t.numPages = t.hostRange.count := by
  rw [t.numPages_eq, PageRange.count, Transfer.pageOffset_toNat hcheck]
  rfl

/-- Turn by turn the loop does the cut, in 32-bit arithmetic. -/
theorem Transfer.sgLoop_atEntry (i : Nat) :
    (t.sgLoop.atEntry i).remaining.toNat = t.hostRange.left i ∧
      (t.sgLoop.atEntry i).pageOffset.toNat = t.hostRange.offset i ∧
      (t.sgLoop.atEntry i).length.toNat = t.hostRange.length i := by
  have hlength : ∀ {l : SgLoop} {i : Nat}, l.remaining.toNat = t.hostRange.left i →
      l.pageOffset.toNat = t.hostRange.offset i → l.length.toNat = t.hostRange.length i := by
    intro l i hleft hoffset
    have hlt : l.pageOffset.toNat < pageSize := hoffset ▸ t.hostRange.offset_lt i
    have hroom : (4096 - l.pageOffset : UInt32).toNat = pageSize - l.pageOffset.toNat := by
      rw [UInt32.toNat_sub_of_le]
      · rfl
      · rw [UInt32.le_iff_toNat_le]
        exact Nat.le_of_lt hlt
    rw [SgLoop.length, toNat_min, hroom, hleft, hoffset]
    rfl
  induction i with
  | zero =>
    have hleft : t.sgLoop.remaining.toNat = t.hostRange.left 0 := t.hostRange.left_zero.symm
    have hoffset : t.sgLoop.pageOffset.toNat = t.hostRange.offset 0 :=
      Transfer.pageOffset_toNat hcheck
    exact ⟨hleft,hoffset,hlength hleft hoffset⟩
  | succ i ih =>
    obtain ⟨hleft,hoffset,hpiece⟩ := ih
    have hle : (t.sgLoop.atEntry i).length ≤ (t.sgLoop.atEntry i).remaining := by
      rw [UInt32.le_iff_toNat_le, hpiece, hleft]
      exact Nat.min_le_left _ _
    have hleft' : (t.sgLoop.atEntry (i + 1)).remaining.toNat = t.hostRange.left (i + 1) := by
      rw [PageRange.left_succ, ← hleft, ← hpiece]
      exact UInt32.toNat_sub_of_le _ _ hle
    exact ⟨hleft',rfl,hlength hleft' rfl⟩

end Loop

/-- What the page count and the scatterlist loop do with a request whose pages are
all pinned. -/
structure SgPartition (t : Transfer) (pages : List Nat) : Prop where
  no_overflow : t.param.hostVaddr.toNat + t.param.size.toNat ≤ 2 ^ 64
  touched : t.numPages = t.hostRange.touched.card
  numPages_pos : 1 ≤ t.numPages
  numPages_le : t.numPages ≤ maxPages
  /-- `get_user_pages_fast` stays inside `pinned_pages`. -/
  pinned : ∀ (d : DmaDev) (i : Nat), maxPages ≤ i →
    (d.pin t (.got pages)).1.pinnedPages i = d.pinnedPages i
  /-- The loop over what `dma_map_sg` made of the list stays inside `desc_ring`. -/
  descs : ∀ (d : DmaDev) (sgl : Nat) (mapped : List MappedSg), mapped.length ≤ t.numPages →
    ∀ i, maxPages ≤ i →
      (((d.pin t (.got pages)).1.mapSgl t (some sgl) mapped).1.start t).1.descRing i =
        d.descRing i
  entries : (sgFill t.param.size t.pageOffset pages).length = t.numPages
  /-- Entry `i` is the part of the range in page `i`. -/
  entry : ∀ (i : Nat) (s : Scatter), (sgFill t.param.size t.pageOffset pages)[i]? = some s →
    pages[i]? = some s.page ∧ 1 ≤ s.length.toNat ∧
      s.length.toNat ≤ pageSize - s.offset.toNat ∧ (i ≠ 0 → s.offset = 0) ∧
      Finset.Ico (t.hostRange.base i + s.offset.toNat)
          (t.hostRange.base i + s.offset.toNat + s.length.toNat) =
        t.hostRange.part (t.param.hostVaddr.toNat / pageSize + i)
  lengths : ((sgFill t.param.size t.pageOffset pages).map fun s => s.length.toNat).sum =
    t.param.size.toNat
  no_wrap : ∀ i, (t.sgLoop.atEntry i).length ≤ (t.sgLoop.atEntry i).remaining
  ends : (t.sgLoop.atEntry t.numPages).remaining = 0

theorem buildChain_above {dir : DmaDirection} {ringAddr : UInt64} {nents i j : Nat}
    {curDdr3 : UInt64} {mapped : List MappedSg} {ring : Nat → XdmaDesc}
    (h : i + mapped.length ≤ j) :
    buildChain dir ringAddr nents i curDdr3 mapped ring j = ring j := by
  induction mapped generalizing i curDdr3 ring with
  | nil => rfl
  | cons sg rest ih =>
    rw [List.length_cons] at h
    rw [buildChain, ih (by omega), Function.update_of_ne (by omega)]

/-- Only the entries of the mapped list are written to `desc_ring`. -/
theorem DmaDev.mapSgl_start_descRing (t : Transfer) (sgl : Nat) {mapped : List MappedSg}
    (hmapped : mapped.length ≤ maxPages) (d : DmaDev) {i : Nat} (hi : maxPages ≤ i) :
    ((d.mapSgl t (some sgl) mapped).1.start t).1.descRing i = d.descRing i := by
  by_cases hnil : mapped = []
  · have hlisted : (d.mapSgl t (some sgl) mapped).1 =
        {d with sgl := none, sglNents := 0, numPinnedPages := 0} := by
      rw [mapSgl, if_pos hnil]
    rw [hlisted]
    rfl
  · rw [start_descRing, mapSgl_mapped t sgl hnil]
    apply buildChain_above
    have hle := List.length_take_le mapped.length mapped
    simp only [DmaDev.mapped]
    omega

/-- The sum of the lengths, by the number of the entry. -/
theorem sgFill_sum (l : SgLoop) (pages : List Nat) :
    ((sgFill l.remaining l.pageOffset pages).map fun s => s.length.toNat).sum =
      ∑ i ∈ Finset.range pages.length, (l.atEntry i).length.toNat := by
  induction pages generalizing l with
  | nil => rfl
  | cons page rest ih =>
    have htail := ih l.turn
    simp only [SgLoop.atEntry_turn] at htail
    rw [List.length_cons, Finset.sum_range_succ', ← htail, Nat.add_comm]
    rfl

/-- The scatterlist loop partitions the transfer exactly. -/
theorem sgFill_partitions {p : DmaParam} {t : Transfer} (hcheck : dmaCheck p = .ok t)
    {pages : List Nat} (hpages : pages.length = t.numPages) : SgPartition t pages where
  no_overflow := by
    rw [dmaCheck_param hcheck]
    exact ((dmaCheck_ok_iff p).mp ⟨t,hcheck⟩).2.2.2.1
  touched := by rw [PageRange.card_touched, Transfer.numPages_count hcheck]
  numPages_pos := by
    rw [Transfer.numPages_count hcheck]
    exact t.hostRange.count_pos
  numPages_le := t.numPages_le
  pinned d i hi := by
    have hle : pages.length ≤ i := by
      rw [hpages]
      exact Nat.le_trans t.numPages_le hi
    rw [DmaDev.pin_complete hpages]
    simp [hle]
  descs d sgl mapped hmapped i hi := by
    rw [DmaDev.mapSgl_start_descRing t sgl (Nat.le_trans hmapped t.numPages_le) _ hi,
      DmaDev.pin_complete hpages]
  entries := by rw [sgFill_length, hpages]
  entry i s hs := by
    have hturn : pages[i]?.map
        (fun page => Scatter.mk page (t.sgLoop.atEntry i).length (t.sgLoop.atEntry i).pageOffset) =
          some s := (sgFill_getElem? t.sgLoop pages i).symm.trans hs
    obtain ⟨page,hpage,rfl⟩ := Option.map_eq_some_iff.mp hturn
    obtain ⟨-,hoffset,hlength⟩ := Transfer.sgLoop_atEntry hcheck i
    have hi : i < t.hostRange.count := by
      rw [← Transfer.numPages_count hcheck, ← hpages]
      exact (List.getElem?_eq_some_iff.mp hpage).1
    refine ⟨hpage,?_,?_,?_,?_⟩
    · simp only [hlength]
      exact t.hostRange.length_pos hi
    · simp only [hlength, hoffset]
      exact t.hostRange.length_le i
    · intro hne
      cases i with
      | zero => exact absurd rfl hne
      | succ i => rfl
    · simp only [hlength, hoffset]
      exact t.hostRange.piece_eq_part i
  lengths := by
    have hleft := t.hostRange.left_count
    have hsum := sgFill_sum t.sgLoop pages
    simp only [(Transfer.sgLoop_atEntry hcheck _).2.2] at hsum
    rw [hpages, Transfer.numPages_count hcheck, PageRange.sum_length, hleft] at hsum
    exact hsum
  no_wrap i := by
    obtain ⟨hleft,-,hlength⟩ := Transfer.sgLoop_atEntry hcheck i
    rw [UInt32.le_iff_toNat_le, hlength, hleft]
    exact Nat.min_le_left _ _
  ends := by
    apply UInt32.toNat_inj.mp
    rw [(Transfer.sgLoop_atEntry hcheck _).1, Transfer.numPages_count hcheck]
    exact t.hostRange.left_count

/-- Five bytes over a page boundary: two in the first page, three in the second. -/
theorem sgFill_partitions_straddling :
    dmaCheck ⟨0,5,0x10000,4094⟩ = .ok straddling ∧ SgPartition straddling [7,8] ∧
      sgFill 5 4094 [7,8] = [⟨7,2,4094⟩,⟨8,3,0⟩] :=
  have hcheck : dmaCheck ⟨0,5,0x10000,4094⟩ = .ok straddling := rfl
  ⟨hcheck,sgFill_partitions hcheck rfl,by decide⟩

end FpgaGpu.Driver
