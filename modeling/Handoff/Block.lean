import Handoff.Bytes

namespace Handoff

/-- The two processors that share the block. -/
inductive Side
  | controller
  | renderer
deriving DecidableEq, Repr

def Side.peer : Side → Side
  | controller => renderer
  | renderer => controller

abbrev wordSize : Nat := 4

abbrev wordCount : Nat := 6

def blockSize : Nat := wordSize * wordCount

abbrev WordIndex := Fin wordCount

inductive Field
  | programLocation
  | programSize
  | resourceLocation
  | resourceSize
  | frameLatency
  | inputActions
deriving DecidableEq, Repr

namespace Field

def all : List Field :=
  [programLocation, programSize, resourceLocation, resourceSize, frameLatency, inputActions]

def index : Field → WordIndex
  | programLocation => 0
  | programSize => 1
  | resourceLocation => 2
  | resourceSize => 3
  | frameLatency => 4
  | inputActions => 5

def offset (f : Field) : UInt64 := UInt64.ofNat (wordSize * f.index)

def owner : Field → Side
  | frameLatency => .renderer
  | _ => .controller

theorem index_injective : ∀ {f g : Field}, f.index = g.index → f = g := by
  intro f g
  cases f <;> cases g <;> decide

end Field

/-- Six words in field order. -/
@[ext]
structure Block where
  words : Vector UInt32 wordCount
deriving DecidableEq, Repr

namespace Block

def zero : Block := ⟨.replicate wordCount 0⟩

def get (b : Block) (i : WordIndex) : UInt32 := b.words.get i

def set (b : Block) (i : WordIndex) (v : UInt32) : Block := ⟨b.words.set i v i.isLt⟩

@[simp] theorem get_set_self (b : Block) (i : WordIndex) (v : UInt32) : (b.set i v).get i = v :=
  Vector.getElem_set_self i.isLt

@[simp] theorem get_set_of_ne (b : Block) {i j : WordIndex} (v : UInt32) (h : i ≠ j) :
    (b.set i v).get j = b.get j :=
  Vector.getElem_set_ne i.isLt j.isLt fun e => h (Fin.ext e)

theorem ext_get {a b : Block} (h : ∀ i, a.get i = b.get i) : a = b := by
  apply Block.ext
  apply Vector.ext
  intro i hi
  exact h ⟨i, hi⟩

def field (b : Block) (f : Field) : UInt32 := b.get f.index

def map (b : Block) (g : UInt32 → UInt32) : Block := ⟨b.words.map g⟩

/-- The word at a byte offset that is aligned and in range. -/
def wordAt? (b : Block) (offset : Nat) : Option UInt32 :=
  if offset % wordSize = 0 then b.words[offset / wordSize]? else none

inductive CodecError
  | bufferTooSmall
  | truncated
deriving DecidableEq, Repr

def bytes (b : Block) (o : ByteOrder) : List UInt8 := b.words.toList.flatMap o.bytes

/-- Writes the image over the front of a buffer and returns how many bytes it took. A buffer that
is too short stays as it is. -/
def encodeInto (b : Block) (o : ByteOrder) (buffer : List UInt8) :
    Except CodecError Nat × List UInt8 :=
  if buffer.length < blockSize then (.error .bufferTooSmall, buffer)
  else (.ok blockSize, o.overwrite b.words.toList buffer)

/-- The image in a vector of its own, which has room for no more than that. -/
def encodeToVec (b : Block) (o : ByteOrder) : Except CodecError (List UInt8) := do
  let (written, buffer) := b.encodeInto o (.replicate blockSize 0)
  let image := buffer.take (← written)
  if image.length ≤ blockSize then return image else throw .bufferTooSmall

def decode (o : ByteOrder) (bytes : List UInt8) : Except CodecError Block :=
  if bytes.length < blockSize then .error .truncated
  else .ok ⟨.ofFn fun i => (o.words bytes)[i.val]?.getD 0⟩

end Block

end Handoff
