namespace Handoff

/-- The order in which the four bytes of a word sit in memory. -/
inductive ByteOrder
  | little
  | big
deriving DecidableEq, Repr

def swapBytes (w : UInt32) : UInt32 :=
  (w % 256) * 16777216 + (w / 256 % 256) * 65536 + (w / 65536 % 256) * 256 + w / 16777216

namespace ByteOrder

def bytes : ByteOrder → UInt32 → List UInt8
  | little, w => [w.toUInt8, (w / 256).toUInt8, (w / 65536).toUInt8, (w / 16777216).toUInt8]
  | big, w => [(w / 16777216).toUInt8, (w / 65536).toUInt8, (w / 256).toUInt8, w.toUInt8]

def word : ByteOrder → UInt8 → UInt8 → UInt8 → UInt8 → UInt32
  | little, a, b, c, d => a.toUInt32 + b.toUInt32 * 256 + c.toUInt32 * 65536 + d.toUInt32 * 16777216
  | big, a, b, c, d => d.toUInt32 + c.toUInt32 * 256 + b.toUInt32 * 65536 + a.toUInt32 * 16777216

/-- Writes words over the front of a buffer, as many as there are and as fit. The rest stays. -/
def overwrite (o : ByteOrder) : List UInt32 → List UInt8 → List UInt8
  | w :: ws, _ :: _ :: _ :: _ :: rest => o.bytes w ++ o.overwrite ws rest
  | _, buffer => buffer

/-- The words of a byte string; bytes at its end that do not fill a word are left out. -/
def words (o : ByteOrder) : List UInt8 → List UInt32
  | a :: b :: c :: d :: rest => o.word a b c d :: o.words rest
  | _ => []

/-- How a little-endian processor sees a word that is kept in this order. -/
def toRaw : ByteOrder → UInt32 → UInt32
  | little, w => w
  | big, w => swapBytes w

def ofRaw : ByteOrder → UInt32 → UInt32 := toRaw

@[simp] theorem length_bytes (o : ByteOrder) (w : UInt32) : (o.bytes w).length = 4 := by
  cases o <;> rfl

end ByteOrder

def halfWord (low high : UInt8) : UInt16 := low.toUInt16 + high.toUInt16 * 256

def halfBytes (w : UInt16) : List UInt8 := [w.toUInt8, (w / 256).toUInt8]

end Handoff
