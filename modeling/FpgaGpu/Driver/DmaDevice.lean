import FpgaGpu.Driver.Dma

/-! The DMA fields of `struct fpgagpu_dev`, the phases of DMA_TRANSFER as
functions on them, and the XDMA engine that runs the chain they build. -/
namespace FpgaGpu.Driver
open Library

/-- The registers of one channel, as offsets in BAR1. -/
structure Channel where
  ctrl : Nat
  status : Nat
  sgLo : Nat
  sgHi : Nat
  sgAdj : Nat

def xdmaH2cChan0 : Channel := ⟨0x0004,0x0040,0x4080,0x4084,0x4088⟩
def xdmaC2hChan0 : Channel := ⟨0x1004,0x1040,0x5080,0x5084,0x5088⟩

def DmaDirection.channel : DmaDirection → Channel
  | .toDevice => xdmaH2cChan0
  | .fromDevice => xdmaC2hChan0

/-- What `sg_set_page` writes to an entry of the scatterlist. -/
structure Scatter where
  page : Nat
  length : UInt32
  offset : UInt32
  deriving DecidableEq, Repr

/-- The loop that fills the scatterlist. -/
def sgFill (remaining pageOffset : UInt32) : List Nat → List Scatter
  | [] => []
  | page :: rest =>
      let length := min remaining (4096 - pageOffset)
      ⟨page,length,pageOffset⟩ :: sgFill (remaining - length) 0 rest

/-- `sg_dma_address` and `sg_dma_len` of an entry of the mapped list. -/
structure MappedSg where
  address : UInt64
  length : UInt32
  deriving DecidableEq, Repr

/-- `struct xdma_desc`. -/
structure XdmaDesc where
  control : UInt32
  bytes : UInt32
  srcAddr : UInt64
  dstAddr : UInt64
  nextDesc : UInt64
  deriving DecidableEq, Repr

def xdmaDescMagic : UInt32 := 0xAD4B0000
def xdmaDescEop : UInt32 := 1

/-- `sizeof(struct xdma_desc)`. -/
def xdmaDescBytes : Nat := 32

/-- Entry `i` of the chain of `nents` descriptors. -/
def xdmaDesc (dir : DmaDirection) (ringAddr : UInt64) (nents i : Nat) (curDdr3 : UInt64)
    (sg : MappedSg) : XdmaDesc where
  control := if i < nents - 1 then xdmaDescMagic else xdmaDescMagic ||| xdmaDescEop
  bytes := sg.length
  srcAddr := match dir with
    | .toDevice => sg.address
    | .fromDevice => curDdr3
  dstAddr := match dir with
    | .toDevice => curDdr3
    | .fromDevice => sg.address
  nextDesc := if i < nents - 1 then ringAddr + UInt64.ofNat ((i + 1) * xdmaDescBytes) else 0

/-- The `for_each_sg` loop from entry `i` on. -/
def buildChain (dir : DmaDirection) (ringAddr : UInt64) (nents i : Nat) (curDdr3 : UInt64) :
    List MappedSg → (Nat → XdmaDesc) → Nat → XdmaDesc
  | [], ring => ring
  | sg :: rest, ring =>
      buildChain dir ringAddr nents (i + 1) (curDdr3 + sg.length.toUInt64) rest
        (Function.update ring i (xdmaDesc dir ringAddr nents i curDdr3 sg))

/-- A scatterlist: the allocation, its entries and what `dma_map_sg` made of them. -/
structure Sgl where
  id : Nat
  entries : List Scatter
  mapped : List MappedSg
  deriving DecidableEq

/-- The DMA fields of `struct fpgagpu_dev`, and the registers of BAR1. -/
structure DmaDev where
  descRing : Nat → XdmaDesc
  descRingDmaAddr : UInt64
  pinnedPages : Nat → Nat
  numPinnedPages : Int
  sgl : Option Sgl
  sglNents : Nat
  dmaBase : Nat → UInt32

/-- What a phase does besides its writes to the shared fields. -/
inductive DmaEffect where
  | getPage (page : Nat)
  | putPage (page : Nat)
  | setPageDirty (page : Nat)
  | kmalloc (sgl : Nat)
  | kfree (sgl : Nat)
  | mapSg (sgl : Nat) (nents : Int) (dir : DmaDirection)
  | unmapSg (sgl : Option Nat) (nents : Int) (dir : DmaDirection)
  | iowrite32 (value : UInt32) (offset : Nat)
  deriving DecidableEq, Repr

/-- The pages of `pinned_pages[0..num_pinned_pages)`. -/
def DmaDev.pages (d : DmaDev) : List Nat :=
  (List.range d.numPinnedPages.toNat).map d.pinnedPages

/-- Linux numbers of the errors. -/
def Errno.number : Errno → Nat
  | .EFAULT => 14
  | .EINVAL => 22
  | .EBUSY => 16
  | .ENOMEM => 12
  | .ENOTSUPP => 524
  | .ETIMEDOUT => 110
  | .ERESTARTSYS => 512

/-- What `get_user_pages_fast` gives: an error, or the pages it could pin. -/
inductive Gup where
  | error (e : Errno)
  | got (pages : List Nat)

/-- Where a phase leaves the call: with a result, or in the next phase. -/
abbrev PhaseResult := DmaDev × List DmaEffect × Option Ret

def DmaDev.pin (t : Transfer) (gup : Gup) (d : DmaDev) : PhaseResult :=
  match gup with
  | .error e => ({d with numPinnedPages := -e.number},[],some (.err e))
  | .got pages =>
      let d := {d with
        pinnedPages := fun i => pages.getD i (d.pinnedPages i)
        numPinnedPages := pages.length}
      if pages.length ≠ t.numPages then
        ({d with numPinnedPages := 0},pages.map .getPage ++ d.pages.map .putPage,
          some (.err .EFAULT))
      else (d,pages.map .getPage,none)

/-- `alloc` is what `kmalloc_array` returns, `mapped` the list `dma_map_sg`
makes, empty where it fails. -/
def DmaDev.mapSgl (t : Transfer) (alloc : Option Nat) (mapped : List MappedSg) (d : DmaDev) :
    PhaseResult :=
  match alloc with
  | none => ({d with sgl := none,numPinnedPages := 0},d.pages.map .putPage,some (.err .ENOMEM))
  | some id =>
      if mapped = [] then
        ({d with sgl := none,sglNents := 0,numPinnedPages := 0},
          [.kmalloc id,.kfree id] ++ d.pages.map .putPage,some (.err .ENOMEM))
      else
        ({d with
          sgl := some ⟨id,sgFill t.param.size t.pageOffset d.pages,mapped⟩
          sglNents := mapped.length},
          [.kmalloc id,.mapSg id d.numPinnedPages t.dir],none)

def DmaDev.iowrite32 (value : UInt32) (offset : Nat) (d : DmaDev) : DmaDev :=
  {d with dmaBase := Function.update d.dmaBase offset value}

/-- The hardware's own writes to the status register. -/
def DmaDev.setStatus (value : UInt32) (dir : DmaDirection) (d : DmaDev) : DmaDev :=
  {d with dmaBase := Function.update d.dmaBase dir.channel.status value}

/-- The entries `for_each_sg` goes over. -/
def DmaDev.mapped (d : DmaDev) : List MappedSg :=
  match d.sgl with
  | none => []
  | some sgl => sgl.mapped.take d.sglNents

/-- Builds the chain and starts the channel, which turns busy. -/
def DmaDev.start (t : Transfer) (d : DmaDev) : PhaseResult :=
  let ch := t.dir.channel
  let d := {d with
    descRing := buildChain t.dir d.descRingDmaAddr d.sglNents 0 t.param.ddr3Addr d.mapped
      d.descRing}
  let writes : List (UInt32 × Nat) :=
    [(lowerWord d.descRingDmaAddr,ch.sgLo),(upperWord d.descRingDmaAddr,ch.sgHi),(0,ch.sgAdj),
      (1,ch.ctrl)]
  ((writes.foldl (fun d w => d.iowrite32 w.1 w.2) d).setStatus 1 t.dir,
    writes.map fun w => .iowrite32 w.1 w.2,none)

/-- Stops the channel, whether or not it was polled idle before the limit, and
gives everything back. -/
def DmaDev.teardown (t : Transfer) (timeout : Bool) (d : DmaDev) : PhaseResult :=
  let ch := t.dir.channel
  ({(d.iowrite32 0 ch.ctrl).setStatus 0 t.dir with sgl := none,numPinnedPages := 0},
    [.iowrite32 0 ch.ctrl,.unmapSg (d.sgl.map Sgl.id) d.numPinnedPages t.dir] ++
      d.sgl.toList.map (fun sgl => .kfree sgl.id) ++
      d.pages.flatMap (fun page => match t.dir with
        | .toDevice => [.putPage page]
        | .fromDevice => [.setPageDirty page,.putPage page]),
    some (if timeout then .err .ETIMEDOUT else .ok))

/-- Host memory by physical address, and the VRAM. -/
structure Memory where
  host : Nat → UInt8
  vram : UInt64 → UInt8

/-- Bit 0 of the status register. -/
def DmaDev.busy (d : DmaDev) (dir : DmaDirection) : Bool :=
  d.dmaBase dir.channel.status &&& 1 != 0

/-- The address of the first descriptor, from the channel's two registers. -/
def DmaDev.firstDesc (d : DmaDev) (dir : DmaDirection) : UInt64 :=
  (d.dmaBase dir.channel.sgHi).toUInt64 <<< 32 ||| (d.dmaBase dir.channel.sgLo).toUInt64

/-- The entry of the descriptor ring at a bus address; a descriptor without the
magic number stops the engine. -/
def DmaDev.descIndex (d : DmaDev) (addr : UInt64) : Option Nat :=
  let offset := (addr - d.descRingDmaAddr).toNat
  let i := offset / xdmaDescBytes
  if offset % xdmaDescBytes = 0 ∧ i < maxPages ∧
      (d.descRing i).control &&& 0xFFFF0000 = xdmaDescMagic then some i
  else none

/-- The entries the engine visits from `addr` up to the one that carries EOP. -/
def DmaDev.walk (d : DmaDev) : Nat → UInt64 → Option (List Nat)
  | 0, _ => none
  | fuel + 1, addr =>
      match d.descIndex addr with
      | none => none
      | some i =>
        if (d.descRing i).control &&& xdmaDescEop ≠ 0 then some [i]
        else (d.walk fuel (d.descRing i).nextDesc).map (i :: ·)

/-- One descriptor, byte by byte; `bus` translates bus addresses of the host. -/
def XdmaDesc.run (bus : UInt64 → Nat) (dir : DmaDirection) (desc : XdmaDesc) (mem : Memory) :
    Memory :=
  match dir with
  | .toDevice =>
      let pairs := pairUp (fun k => bus (desc.srcAddr + UInt64.ofNat k))
        (fun k => desc.dstAddr + UInt64.ofNat k) desc.bytes.toNat
      {mem with vram := copyAll mem.host pairs mem.vram}
  | .fromDevice =>
      let pairs := pairUp (fun k => desc.srcAddr + UInt64.ofNat k)
        (fun k => bus (desc.dstAddr + UInt64.ofNat k)) desc.bytes.toNat
      {mem with host := copyAll mem.vram pairs mem.host}

def DmaDev.execute (d : DmaDev) (bus : UInt64 → Nat) (dir : DmaDirection) (chain : List Nat)
    (mem : Memory) : Memory :=
  chain.foldl (fun mem i => (d.descRing i).run bus dir mem) mem

/-- The engine runs the chain of a channel; `none` where it never gets to EOP. -/
def DmaDev.runChain (d : DmaDev) (bus : UInt64 → Nat) (dir : DmaDirection) (mem : Memory) :
    Option Memory :=
  (d.walk maxPages (d.firstDesc dir)).map fun chain => d.execute bus dir chain mem

end FpgaGpu.Driver
