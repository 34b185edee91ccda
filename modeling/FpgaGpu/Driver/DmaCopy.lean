import FpgaGpu.Driver.DmaDevice

/-! A DMA_TRANSFER copies the range it was asked for: the scatterlist lists the
bytes of the range in order, however `dma_map_sg` joins its entries, and the
engine visits the descriptors in order, each once. -/
namespace FpgaGpu.Driver
open Library

/-- The physical address of byte `k` of the range that starts at `pageOffset`
in the first of `pages`. -/
def hostByte (pageOffset : Nat) (pages : List Nat) (k : Nat) : Nat :=
  pages.getD ((pageOffset + k) / pageSize) 0 * pageSize + (pageOffset + k) % pageSize

/-- The physical addresses a scatterlist names, in order. -/
def scatterBytes (entries : List Scatter) : List Nat :=
  entries.flatMap fun s => (List.range s.length.toNat).map fun k =>
    s.page * pageSize + (s.offset.toNat + k)

/-- The physical addresses behind a mapped list, in order. -/
def mappedBytes (bus : UInt64 → Nat) (mapped : List MappedSg) : List Nat :=
  mapped.flatMap fun sg => (List.range sg.length.toNat).map fun k =>
    bus (sg.address + UInt64.ofNat k)

/-- What `dma_map_sg` promises where it succeeds: the same bytes in the same
order, in no more entries. -/
def MapsTo (bus : UInt64 → Nat) (entries : List Scatter) (mapped : List MappedSg) : Prop :=
  mapped ≠ [] ∧ mapped.length ≤ entries.length ∧ mappedBytes bus mapped = scatterBytes entries

instance (bus : UInt64 → Nat) (entries : List Scatter) (mapped : List MappedSg) :
    Decidable (MapsTo bus entries mapped) :=
  inferInstanceAs (Decidable (_ ∧ _ ∧ _))

theorem sgFill_length (remaining pageOffset : UInt32) (pages : List Nat) :
    (sgFill remaining pageOffset pages).length = pages.length := by
  induction pages generalizing remaining pageOffset with
  | nil => rfl
  | cons page rest ih => simp [sgFill, ih]

theorem MapsTo.length_le {t : Transfer} {pages : List Nat} {bus : UInt64 → Nat}
    {mapped : List MappedSg} (h : MapsTo bus (sgFill t.param.size t.pageOffset pages) mapped)
    (hpages : pages.length = t.numPages) : mapped.length ≤ maxPages := by
  have hlength := h.2.1
  rw [sgFill_length, hpages] at hlength
  exact Nat.le_trans hlength t.numPages_le

def Transfer.vramByte (t : Transfer) (k : Nat) : UInt64 := t.param.ddr3Addr + UInt64.ofNat k

/-- `mem'` is `mem` with the range of `t` copied, and nothing else written. -/
def Copied (t : Transfer) (pages : List Nat) (mem mem' : Memory) : Prop :=
  match t.dir with
  | .toDevice => mem'.host = mem.host ∧
      (∀ k < t.param.size.toNat,
        mem'.vram (t.vramByte k) = mem.host (hostByte t.pageOffset.toNat pages k)) ∧
      ∀ a, (∀ k < t.param.size.toNat, a ≠ t.vramByte k) → mem'.vram a = mem.vram a
  | .fromDevice => mem'.vram = mem.vram ∧
      (∀ k < t.param.size.toNat,
        mem'.host (hostByte t.pageOffset.toNat pages k) = mem.vram (t.vramByte k)) ∧
      ∀ a, (∀ k < t.param.size.toNat, a ≠ hostByte t.pageOffset.toNat pages k) →
        mem'.host a = mem.host a

theorem toNat_min (a b : UInt32) : (min a b).toNat = min a.toNat b.toNat := by
  change (if a ≤ b then a else b).toNat = _
  split
  next h => exact (Nat.min_eq_left (UInt32.le_iff_toNat_le.mp h)).symm
  next h =>
    have hle := UInt32.le_iff_toNat_le.mp ((UInt32.le_total a b).resolve_left h)
    exact (Nat.min_eq_right hle).symm

/-- The first page of a range. -/
theorem hostByte_head {off k page : Nat} {rest : List Nat} (h : off + k < pageSize) :
    hostByte off (page :: rest) k = page * pageSize + (off + k) := by
  rw [hostByte, Nat.div_eq_of_lt h, Nat.mod_eq_of_lt h]
  rfl

/-- Every later page is reached at its start. -/
theorem hostByte_tail {off m k page : Nat} {rest : List Nat} (h : off + m = pageSize) :
    hostByte off (page :: rest) (m + k) = hostByte 0 rest k := by
  rw [hostByte, ← Nat.add_assoc, h, Nat.add_div_left _ (by decide), Nat.add_mod_left, hostByte,
    Nat.zero_add]
  rfl

/-- The loop covers the range, page by page. -/
theorem sgFill_bytes {remaining pageOffset : UInt32} {pages : List Nat}
    (hoff : pageOffset.toNat < pageSize)
    (hcover : pageOffset.toNat + remaining.toNat ≤ pages.length * pageSize) :
    scatterBytes (sgFill remaining pageOffset pages) =
      (List.range remaining.toNat).map (hostByte pageOffset.toNat pages) := by
  induction pages generalizing remaining pageOffset with
  | nil =>
    have hzero : remaining.toNat = 0 := by
      rw [List.length_nil, Nat.zero_mul] at hcover
      omega
    simp [sgFill, scatterBytes, hzero]
  | cons page rest ih =>
    let length := min remaining (4096 - pageOffset)
    have hroom : (4096 - pageOffset : UInt32).toNat = pageSize - pageOffset.toNat := by
      rw [UInt32.toNat_sub_of_le]
      · rfl
      · rw [UInt32.le_iff_toNat_le]
        exact Nat.le_of_lt hoff
    have hlength : length.toNat = min remaining.toNat (pageSize - pageOffset.toNat) := by
      rw [toNat_min, hroom]
    have hle : length ≤ remaining := by
      rw [UInt32.le_iff_toNat_le, hlength]
      exact Nat.min_le_left _ _
    have hrest : (remaining - length).toNat = remaining.toNat - length.toNat :=
      UInt32.toNat_sub_of_le _ _ hle
    have hsplit : remaining.toNat = length.toNat + (remaining.toNat - length.toNat) := by omega
    have htail : scatterBytes (sgFill (remaining - length) 0 rest) =
        (List.range (remaining - length).toNat).map (hostByte 0 rest) := by
      apply ih (by decide)
      rw [List.length_cons, Nat.add_mul] at hcover
      simp only [UInt32.toNat_zero, hrest, hlength]
      omega
    calc scatterBytes (sgFill remaining pageOffset (page :: rest))
        = (List.range length.toNat).map (fun k => page * pageSize + (pageOffset.toNat + k)) ++
            scatterBytes (sgFill (remaining - length) 0 rest) := rfl
      _ = (List.range length.toNat).map (hostByte pageOffset.toNat (page :: rest)) ++
            (List.range (remaining.toNat - length.toNat)).map
              (fun k => hostByte pageOffset.toNat (page :: rest) (length.toNat + k)) := by
        rw [htail, hrest]
        refine congrArg₂ (· ++ ·) (List.map_congr_left fun k hk => (hostByte_head ?_).symm)
          (List.map_congr_left fun k hk => (hostByte_tail ?_).symm)
        · rw [List.mem_range] at hk
          omega
        · rw [List.mem_range] at hk
          omega
      _ = (List.range remaining.toNat).map (hostByte pageOffset.toNat (page :: rest)) := by
        conv_rhs => rw [hsplit, List.range_add, List.map_append, List.map_map]
        rfl

/-- What a chain copies: host bytes and VRAM bytes, paired in order. -/
def chainPairs (bus : UInt64 → Nat) (curDdr3 : UInt64) : List MappedSg → List (Nat × UInt64)
  | [] => []
  | sg :: rest =>
      pairUp (fun k => bus (sg.address + UInt64.ofNat k)) (fun k => curDdr3 + UInt64.ofNat k)
        sg.length.toNat ++ chainPairs bus (curDdr3 + sg.length.toUInt64) rest

def Memory.copy (dir : DmaDirection) (pairs : List (Nat × UInt64)) (mem : Memory) : Memory :=
  match dir with
  | .toDevice => {mem with vram := copyAll mem.host pairs mem.vram}
  | .fromDevice => {mem with host := copyAll mem.vram (pairs.map Prod.swap) mem.host}

theorem Memory.copy_append (dir : DmaDirection) (ps qs : List (Nat × UInt64)) (mem : Memory) :
    mem.copy dir (ps ++ qs) = (mem.copy dir ps).copy dir qs := by
  cases dir <;> simp [Memory.copy, copyAll_append]

theorem xdmaDesc_run (bus : UInt64 → Nat) (dir : DmaDirection) (ringAddr : UInt64)
    (nents i : Nat) (curDdr3 : UInt64) (sg : MappedSg) (mem : Memory) :
    (xdmaDesc dir ringAddr nents i curDdr3 sg).run bus dir mem =
      mem.copy dir (pairUp (fun k => bus (sg.address + UInt64.ofNat k))
        (fun k => curDdr3 + UInt64.ofNat k) sg.length.toNat) := by
  cases dir
  · rfl
  · simp [XdmaDesc.run, xdmaDesc, Memory.copy, pairUp, Function.comp_def]

theorem buildChain_below {dir : DmaDirection} {ringAddr : UInt64} {nents i j : Nat}
    {curDdr3 : UInt64} {mapped : List MappedSg} {ring : Nat → XdmaDesc} (h : j < i) :
    buildChain dir ringAddr nents i curDdr3 mapped ring j = ring j := by
  induction mapped generalizing i curDdr3 ring with
  | nil => rfl
  | cons sg rest ih =>
    rw [buildChain, ih (by omega), Function.update_of_ne (by omega)]

/-- The loop writes entry `i` first and does not come back to it. -/
theorem buildChain_head (dir : DmaDirection) (ringAddr : UInt64) (nents i : Nat)
    (curDdr3 : UInt64) (sg : MappedSg) (rest : List MappedSg) (ring : Nat → XdmaDesc) :
    buildChain dir ringAddr nents i curDdr3 (sg :: rest) ring i =
      xdmaDesc dir ringAddr nents i curDdr3 sg := by
  rw [buildChain, buildChain_below (by omega), Function.update_self]

/-- Executing the entries of a chain in order. -/
theorem execute_chain {d : DmaDev} {bus : UInt64 → Nat} {dir : DmaDirection} {ringAddr : UInt64}
    {nents i : Nat} {curDdr3 : UInt64} {mapped : List MappedSg} {ring : Nat → XdmaDesc}
    {mem : Memory} (h : d.descRing = buildChain dir ringAddr nents i curDdr3 mapped ring) :
    d.execute bus dir (List.range' i mapped.length) mem =
      mem.copy dir (chainPairs bus curDdr3 mapped) := by
  induction mapped generalizing i curDdr3 ring mem with
  | nil => cases dir <;> rfl
  | cons sg rest ih =>
    have hhead : d.descRing i = xdmaDesc dir ringAddr nents i curDdr3 sg := by
      rw [h, buildChain_head]
    calc d.execute bus dir (List.range' i (sg :: rest).length) mem
        = d.execute bus dir (List.range' (i + 1) rest.length)
            ((d.descRing i).run bus dir mem) := rfl
      _ = ((d.descRing i).run bus dir mem).copy dir
            (chainPairs bus (curDdr3 + sg.length.toUInt64) rest) := ih h
      _ = mem.copy dir (chainPairs bus curDdr3 (sg :: rest)) := by
        rw [hhead, xdmaDesc_run, chainPairs, Memory.copy_append]

theorem descIndex_entry {d : DmaDev} {i : Nat} (hi : i < maxPages)
    (hmagic : (d.descRing i).control &&& 0xFFFF0000 = xdmaDescMagic) :
    d.descIndex (d.descRingDmaAddr + UInt64.ofNat (i * xdmaDescBytes)) = some i := by
  have hoffset : (d.descRingDmaAddr + UInt64.ofNat (i * xdmaDescBytes) -
      d.descRingDmaAddr).toNat = i * xdmaDescBytes := by
    rw [UInt64.add_comm, UInt64.add_sub_cancel, UInt64.toNat_ofNat']
    rw [maxPages] at hi
    rw [xdmaDescBytes]
    omega
  simp only [DmaDev.descIndex, hoffset, Nat.mul_mod_left,
    Nat.mul_div_cancel i (show 0 < xdmaDescBytes by decide)]
  exact if_pos ⟨trivial,hi,hmagic⟩

theorem xdmaDesc_magic (dir : DmaDirection) (ringAddr : UInt64) (nents i : Nat)
    (curDdr3 : UInt64) (sg : MappedSg) :
    (xdmaDesc dir ringAddr nents i curDdr3 sg).control &&& 0xFFFF0000 = xdmaDescMagic := by
  simp only [xdmaDesc]
  split <;> rfl

/-- EOP stands on the last descriptor and on no other. -/
theorem xdmaDesc_eop (dir : DmaDirection) (ringAddr : UInt64) (nents i : Nat)
    (curDdr3 : UInt64) (sg : MappedSg) :
    (xdmaDesc dir ringAddr nents i curDdr3 sg).control &&& xdmaDescEop ≠ 0 ↔ nents ≤ i + 1 := by
  simp only [xdmaDesc]
  split
  next h =>
    constructor
    · intro hne
      exact absurd rfl hne
    · intro hle
      omega
  next h =>
    constructor
    · intro
      omega
    · intro _ hzero
      exact absurd hzero (by decide)

/-- The engine visits the entries of a chain in order, each once. -/
theorem walk_chain {d : DmaDev} {dir : DmaDirection} {nents i fuel : Nat} {curDdr3 : UInt64}
    {mapped : List MappedSg} {ring : Nat → XdmaDesc}
    (h : d.descRing = buildChain dir d.descRingDmaAddr nents i curDdr3 mapped ring)
    (hmapped : mapped ≠ []) (hlen : i + mapped.length = nents) (hnents : nents ≤ maxPages)
    (hfuel : mapped.length ≤ fuel) :
    d.walk fuel (d.descRingDmaAddr + UInt64.ofNat (i * xdmaDescBytes)) =
      some (List.range' i mapped.length) := by
  induction mapped generalizing i curDdr3 ring fuel with
  | nil => exact absurd rfl hmapped
  | cons sg rest ih =>
    rw [List.length_cons] at hlen hfuel
    obtain ⟨fuel,rfl⟩ : ∃ n, fuel = n + 1 := ⟨fuel - 1,by omega⟩
    have hhead : d.descRing i = xdmaDesc dir d.descRingDmaAddr nents i curDdr3 sg := by
      rw [h, buildChain_head]
    have hindex := descIndex_entry (d := d) (i := i) (by omega) (by rw [hhead, xdmaDesc_magic])
    have heop := xdmaDesc_eop dir d.descRingDmaAddr nents i curDdr3 sg
    rw [← hhead] at heop
    simp only [DmaDev.walk, hindex]
    cases rest with
    | nil =>
      rw [if_pos (heop.mpr (by simp at hlen; omega))]
      rfl
    | cons sg' rest =>
      rw [List.length_cons] at hlen
      have hmore : i < nents - 1 := by omega
      have hnext : (d.descRing i).nextDesc =
          d.descRingDmaAddr + UInt64.ofNat ((i + 1) * xdmaDescBytes) := by
        rw [hhead]
        exact if_pos hmore
      rw [if_neg fun hne => absurd (heop.mp hne) (by omega), hnext,
        ih h (by simp) (by simp; omega) (by simp at hfuel ⊢; omega)]
      rfl

theorem chainPairs_fst (bus : UInt64 → Nat) (curDdr3 : UInt64) (mapped : List MappedSg) :
    (chainPairs bus curDdr3 mapped).map Prod.fst = mappedBytes bus mapped := by
  induction mapped generalizing curDdr3 with
  | nil => rfl
  | cons sg rest ih => simp [chainPairs, mappedBytes, ih, pairUp, Function.comp_def]

theorem chainPairs_snd (bus : UInt64 → Nat) (curDdr3 : UInt64) (mapped : List MappedSg) :
    (chainPairs bus curDdr3 mapped).map Prod.snd =
      (List.range (mappedBytes bus mapped).length).map fun k => curDdr3 + UInt64.ofNat k := by
  induction mapped generalizing curDdr3 with
  | nil => rfl
  | cons sg rest ih =>
    have hlen : (mappedBytes bus (sg :: rest)).length =
        sg.length.toNat + (mappedBytes bus rest).length := by
      simp [mappedBytes]
    have haddr : ∀ k, curDdr3 + sg.length.toUInt64 + UInt64.ofNat k =
        curDdr3 + UInt64.ofNat (sg.length.toNat + k) := by
      intro k
      rw [UInt64.ofNat_add, UInt64.add_assoc]
      simp
    rw [hlen, List.range_add, List.map_append, List.map_map, chainPairs, List.map_append, ih]
    simp [pairUp, Function.comp_def, haddr]

/-- The bytes a chain copies, for any list `dma_map_sg` may make. -/
theorem chainPairs_transfer {t : Transfer} {pages : List Nat} {bus : UInt64 → Nat}
    {mapped : List MappedSg} (hpages : pages.length = t.numPages)
    (hmap : MapsTo bus (sgFill t.param.size t.pageOffset pages) mapped) :
    chainPairs bus t.param.ddr3Addr mapped =
      pairUp (hostByte t.pageOffset.toNat pages) t.vramByte t.param.size.toNat := by
  have hbytes : mappedBytes bus mapped =
      (List.range t.param.size.toNat).map (hostByte t.pageOffset.toNat pages) := by
    rw [hmap.2.2]
    apply sgFill_bytes t.offset_lt
    rw [hpages]
    exact t.covers
  apply eq_pairUp (by rw [chainPairs_fst, hbytes])
  rw [chainPairs_snd, hbytes, List.length_map, List.length_range]
  rfl

theorem vramByte_inj {t : Transfer} {i j : Nat} (hi : i < t.param.size.toNat)
    (hj : j < t.param.size.toNat) (h : t.vramByte i = t.vramByte j) : i = j := by
  have hlt := t.param.size.toNat_lt
  have hofNat : UInt64.ofNat i = UInt64.ofNat j := (UInt64.add_right_inj _).mp h
  have hnat := congrArg UInt64.toNat hofNat
  rw [UInt64.toNat_ofNat', UInt64.toNat_ofNat'] at hnat
  omega

/-- Distinct bytes of the range lie at distinct physical addresses. -/
theorem hostByte_inj {off size : Nat} {pages : List Nat} (hnodup : pages.Nodup)
    (hcover : off + size ≤ pages.length * pageSize) {i j : Nat} (hi : i < size) (hj : j < size)
    (h : hostByte off pages i = hostByte off pages j) : i = j := by
  have hdiv : ∀ k < size, (off + k) / pageSize < pages.length := fun k hk =>
    Nat.div_lt_of_lt_mul (by rw [Nat.mul_comm]; omega)
  have hpage : pages.getD ((off + i) / pageSize) 0 = pages.getD ((off + j) / pageSize) 0 ∧
      (off + i) % pageSize = (off + j) % pageSize := by
    have hmod : ∀ k, k % pageSize < pageSize := fun k => Nat.mod_lt _ (by decide)
    have hdivs := congrArg (· / pageSize) h
    have hmods := congrArg (· % pageSize) h
    simp only [hostByte, Nat.mod_mod,
      Nat.add_comm (_ * pageSize), Nat.add_mul_div_right _ _ (show 0 < pageSize by decide),
      Nat.div_eq_of_lt (hmod _), Nat.zero_add, Nat.add_mul_mod_self_right] at hdivs hmods
    exact ⟨hdivs,hmods⟩
  have hindex := (List.getD_inj (hdiv i hi) (hdiv j hj) hnodup).mp hpage.1
  have hdi := Nat.div_add_mod (off + i) pageSize
  have hdj := Nat.div_add_mod (off + j) pageSize
  rw [hindex, hpage.2] at hdi
  omega

/-- The transfer as one copy, byte after byte. -/
def Transfer.copy (t : Transfer) (pages : List Nat) (mem : Memory) : Memory :=
  mem.copy t.dir (pairUp (hostByte t.pageOffset.toNat pages) t.vramByte t.param.size.toNat)

/-- Onto distinct pages that copy is exact. -/
theorem Transfer.copied {t : Transfer} {pages : List Nat} (hpages : pages.length = t.numPages)
    (hnodup : pages.Nodup) (mem : Memory) : Copied t pages mem (t.copy pages mem) := by
  have hcover : t.pageOffset.toNat + t.param.size.toNat ≤ pages.length * pageSize :=
    hpages ▸ t.covers
  unfold Copied Transfer.copy Memory.copy
  cases t.dir with
  | toDevice =>
    refine ⟨rfl,fun k hk => ?_,fun a ha => copyAll_pairUp_other ha⟩
    exact copyAll_pairUp (fun i hi j hj => vramByte_inj hi hj) hk
  | fromDevice =>
    have hswap : (pairUp (hostByte t.pageOffset.toNat pages) t.vramByte t.param.size.toNat).map
        Prod.swap = pairUp t.vramByte (hostByte t.pageOffset.toNat pages) t.param.size.toNat := by
      simp [pairUp, Function.comp_def]
    simp only [hswap]
    refine ⟨trivial,fun k hk => ?_,fun a ha => copyAll_pairUp_other ha⟩
    exact copyAll_pairUp (fun i hi j hj => hostByte_inj hnodup hcover hi hj) hk

theorem join_words (x : UInt64) :
    (upperWord x).toUInt64 <<< 32 ||| (lowerWord x).toUInt64 = x := by
  have hlt := x.toNat_lt
  apply UInt64.toNat_inj.mp
  rw [UInt64.toNat_or, UInt64.toNat_shiftLeft, UInt32.toNat_toUInt64, UInt32.toNat_toUInt64,
    lowerWord, upperWord, UInt64.toNat_toUInt32, UInt64.toNat_toUInt32, UInt64.toNat_shiftRight]
  simp only [UInt64.reduceToNat, Nat.reduceMod, Nat.shiftLeft_eq, Nat.shiftRight_eq_div_pow]
  have hhigh : x.toNat / 2 ^ 32 % 2 ^ 32 * 2 ^ 32 % 2 ^ 64 = 2 ^ 32 * (x.toNat / 2 ^ 32) := by omega
  rw [hhigh, ← Nat.two_pow_add_eq_or_of_lt (Nat.mod_lt _ (by decide)), Nat.div_add_mod]

/-- `get_user_pages_fast` has stored its pages. -/
theorem DmaDev.pages_got (d : DmaDev) (pages : List Nat) :
    DmaDev.pages {d with
      pinnedPages := fun i => pages.getD i (d.pinnedPages i)
      numPinnedPages := pages.length} = pages := by
  apply List.ext_getElem (by simp [DmaDev.pages])
  intro i hi hi'
  simp [DmaDev.pages, hi']

theorem DmaDev.pin_complete {t : Transfer} {pages : List Nat} (hpages : pages.length = t.numPages)
    (d : DmaDev) : d.pin t (.got pages) = ({d with
      pinnedPages := fun i => pages.getD i (d.pinnedPages i)
      numPinnedPages := pages.length},pages.map .getPage,none) :=
  if_neg fun hne => hne hpages

theorem DmaDev.pin_incomplete {t : Transfer} {pages : List Nat} (hpages : pages.length ≠ t.numPages)
    (d : DmaDev) : d.pin t (.got pages) = ({d with
      pinnedPages := fun i => pages.getD i (d.pinnedPages i)
      numPinnedPages := 0},pages.map .getPage ++ pages.map .putPage,some (.err .EFAULT)) := by
  apply (if_pos hpages).trans
  rw [pages_got]

theorem DmaDev.mapSgl_mapped (t : Transfer) (sgl : Nat) {mapped : List MappedSg}
    (h : mapped ≠ []) (d : DmaDev) : d.mapSgl t (some sgl) mapped = ({d with
      sgl := some ⟨sgl,sgFill t.param.size t.pageOffset d.pages,mapped⟩
      sglNents := mapped.length},[.kmalloc sgl,.mapSg sgl d.numPinnedPages t.dir],none) :=
  if_neg h

@[simp] theorem DmaDev.start_descRing (t : Transfer) (d : DmaDev) :
    (d.start t).1.descRing = buildChain t.dir d.descRingDmaAddr d.sglNents 0
      t.param.ddr3Addr d.mapped d.descRing := rfl

@[simp] theorem DmaDev.start_descRingDmaAddr (t : Transfer) (d : DmaDev) :
    (d.start t).1.descRingDmaAddr = d.descRingDmaAddr := rfl

/-- The channel is told where the chain begins. -/
@[simp] theorem DmaDev.start_firstDesc (t : Transfer) (d : DmaDev) :
    (d.start t).1.firstDesc t.dir = d.descRingDmaAddr := by
  rw [← join_words d.descRingDmaAddr]
  cases hdir : t.dir <;>
    simp [DmaDev.start, DmaDev.firstDesc, DmaDev.iowrite32, DmaDev.setStatus, hdir,
      DmaDirection.channel, xdmaH2cChan0, xdmaC2hChan0, join_words]

/-- The list of a transfer, mapped and stored in the device. -/
structure DmaDev.Listed (d : DmaDev) (t : Transfer) (pages : List Nat) (bus : UInt64 → Nat)
    (sgl : Sgl) : Prop where
  stored : d.sgl = some sgl
  nents : d.sglNents = sgl.mapped.length
  maps : MapsTo bus (sgFill t.param.size t.pageOffset pages) sgl.mapped

theorem DmaDev.Listed.mapped_eq {d : DmaDev} {t : Transfer} {pages : List Nat}
    {bus : UInt64 → Nat} {sgl : Sgl} (h : d.Listed t pages bus sgl) : d.mapped = sgl.mapped := by
  simp [mapped, h.stored, h.nents]

/-- The engine visits the chain of a listed transfer in order, each entry once. -/
theorem DmaDev.start_walk {d : DmaDev} {t : Transfer} {pages : List Nat} {bus : UInt64 → Nat}
    {sgl : Sgl} (hpages : pages.length = t.numPages) (h : d.Listed t pages bus sgl) :
    (d.start t).1.walk maxPages ((d.start t).1.firstDesc t.dir) =
      some (List.range' 0 sgl.mapped.length) := by
  have hle := h.maps.length_le hpages
  have hring : (d.start t).1.descRing = buildChain t.dir (d.start t).1.descRingDmaAddr
      sgl.mapped.length 0 t.param.ddr3Addr sgl.mapped d.descRing := by
    rw [start_descRing, h.nents, h.mapped_eq, start_descRingDmaAddr]
  rw [← walk_chain hring h.maps.1 (Nat.zero_add _) hle hle]
  simp

/-- Running it copies the range of the transfer. -/
theorem DmaDev.start_runs {d : DmaDev} {t : Transfer} {pages : List Nat} {bus : UInt64 → Nat}
    {sgl : Sgl} (hpages : pages.length = t.numPages) (h : d.Listed t pages bus sgl)
    (mem : Memory) : (d.start t).1.runChain bus t.dir mem = some (t.copy pages mem) := by
  have hring : (d.start t).1.descRing = buildChain t.dir d.descRingDmaAddr sgl.mapped.length 0
      t.param.ddr3Addr sgl.mapped d.descRing := by
    rw [start_descRing, h.nents, h.mapped_eq]
  rw [runChain, start_walk hpages h, Option.map_some, execute_chain hring,
    chainPairs_transfer hpages h.maps, Transfer.copy]

/-- DMA_TRANSFER copies exactly the requested range. -/
theorem dma_copies_exactly {p : DmaParam} {t : Transfer} (hcheck : dmaCheck p = .ok t)
    {pages : List Nat} (hpages : pages.length = t.numPages) (hnodup : pages.Nodup)
    {bus : UInt64 → Nat} {mapped : List MappedSg}
    (hmap : MapsTo bus (sgFill p.size t.pageOffset pages) mapped) (sgl : Nat) (d : DmaDev) :
    let pinned := d.pin t (.got pages)
    let listed := pinned.1.mapSgl t (some sgl) mapped
    let started := (listed.1.start t).1
    pinned.2.2 = none ∧ listed.2.2 = none ∧
      started.sglNents = mapped.length ∧ started.sglNents ≤ maxPages ∧
      started.walk maxPages (started.firstDesc t.dir) = some (List.range started.sglNents) ∧
      ∀ mem, ∃ mem', started.runChain bus t.dir mem = some mem' ∧ Copied t pages mem mem' := by
  intro pinned listed started
  have hpinned : pinned = _ := d.pin_complete hpages
  have hlisted : listed = _ := pinned.1.mapSgl_mapped t sgl hmap.1
  rw [← dmaCheck_param hcheck] at hmap
  have hstored : listed.1.Listed t pages bus
      ⟨sgl,sgFill t.param.size t.pageOffset pinned.1.pages,mapped⟩ := by
    rw [hlisted]
    exact ⟨rfl,rfl,hmap⟩
  have hnents : started.sglNents = mapped.length := hstored.nents
  refine ⟨by rw [hpinned],by rw [hlisted],hnents,hnents ▸ hmap.length_le hpages,?_,fun mem => ?_⟩
  · rw [hnents, List.range_eq_range']
    exact DmaDev.start_walk hpages hstored
  · exact ⟨_,DmaDev.start_runs hpages hstored mem,t.copied hpages hnodup mem⟩

/-- Five bytes over a page boundary. -/
def straddling : Transfer where
  param := ⟨0,5,0x10000,4094⟩
  dir := .toDevice
  pageOffset := 4094
  numPages := 2
  size_pos := by decide
  offset_lt := by decide
  numPages_eq := by decide
  numPages_le := by decide

/-- The DMA fields as `fpgagpu_probe` leaves them. -/
def probedDmaDev : DmaDev :=
  ⟨fun _ => ⟨0,0,0,0,0⟩,0x100000,fun _ => 0,0,none,0,fun _ => 0⟩

/-- The two pages lie next to each other, and `dma_map_sg` makes them one entry. -/
theorem dma_copies_coalesced :
    dmaCheck ⟨0,5,0x10000,4094⟩ = .ok straddling ∧
    ∃ d : DmaDev, ∀ mem, ∃ mem', d.runChain UInt64.toNat .toDevice mem = some mem' ∧
      Copied straddling [7,8] mem mem' := by
  have hcheck : dmaCheck ⟨0,5,0x10000,4094⟩ = .ok straddling := rfl
  have hpages : [7,8].length = straddling.numPages := rfl
  have hmap : MapsTo UInt64.toNat (sgFill 5 straddling.pageOffset [7,8])
      [⟨7 * 4096 + 4094,5⟩] := by decide
  obtain ⟨-,-,-,-,-,hcopies⟩ :=
    dma_copies_exactly hcheck hpages (by decide) hmap 0 probedDmaDev
  exact ⟨hcheck,_,hcopies⟩

end FpgaGpu.Driver
