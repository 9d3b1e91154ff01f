import Savegame.Bytes.Basic

/-!
# The 32-bit cyclic checksum of a byte string

The reflected polynomial `0xEDB88320`, with the register complemented at both ends.
-/

namespace Savegame.Bytes

namespace Checksum

/-- Divides one bit out of the register. -/
@[inline] def shift (register : UInt32) : UInt32 :=
  if register &&& 1 = 1 then (register >>> 1) ^^^ 0xEDB88320 else register >>> 1

def step (register : UInt32) (byte : UInt8) : UInt32 :=
  shift (shift (shift (shift (shift (shift (shift (shift (register ^^^ byte.toUInt32))))))))

end Checksum

def checksum (bytes : Bytes) : UInt32 :=
  bytes.foldl Checksum.step 0xFFFFFFFF ^^^ 0xFFFFFFFF

end Savegame.Bytes
