namespace Handoff.MemoryMap

/-- The high bits that the interconnect adds to every access of the renderer. -/
def interconnectBits : UInt64 := 0x400000000

def programBase : UInt64 := 0x400000000

def frameBufferBases : Vector UInt64 3 := #v[0x400200000, 0x40032C000, 0x400458000]

def heapBase : UInt64 := 0x400600000

def resourceBase : UInt64 := 0x405000000

def controlBlockBase : UInt64 := 0x41FFFFFE0

def frameWidth : UInt32 := 640

def frameHeight : UInt32 := 480

def bytesPerPixel : UInt32 := 4

def frameBufferSize : UInt64 := (frameWidth * frameHeight * bytesPerPixel).toUInt64

/-- The renderer issues the low 32 bits of an address. -/
def rendererView (address : UInt64) : UInt32 := address.toUInt32

def controllerView (address : UInt32) : UInt64 := interconnectBits ||| address.toUInt64

def frameBuffers : Vector UInt32 3 := frameBufferBases.map rendererView

end Handoff.MemoryMap
