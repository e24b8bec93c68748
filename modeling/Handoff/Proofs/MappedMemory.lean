import Mathlib.Data.List.OfFn
import Handoff.Proofs.CacheHistory
import Handoff.Proofs.Image

namespace Handoff

namespace ByteOrder

/-- A word that was written in one order looks like this in another. -/
def across (written read : ByteOrder) (v : UInt32) : UInt32 :=
  if written = read then v else swapBytes v

theorem ofRaw_toRaw_across (o o' : ByteOrder) (v : UInt32) :
    o'.ofRaw (o.toRaw v) = o.across o' v := by
  cases o with
  | little => cases o' <;> rfl
  | big =>
    cases o' with
    | little => rfl
    | big => exact swapBytes_swapBytes v

theorem bytes_swapBytes (v : UInt32) : little.bytes (swapBytes v) = big.bytes v := by
  have hswapped := little.word_other v.toUInt8 (v / 256).toUInt8 (v / 65536).toUInt8
    (v / 16777216).toUInt8
  rw [word_bytes] at hswapped
  rw [← hswapped]
  exact bytes_word_little _ _ _ _

theorem bytes_toRaw (o : ByteOrder) (v : UInt32) : little.bytes (o.toRaw v) = o.bytes v := by
  cases o with
  | little => rfl
  | big => exact bytes_swapBytes v

end ByteOrder

/-- The byte at a place of a word, the least one first. -/
def rawByte (w : UInt32) (place : Nat) : UInt8 := .ofNat (w.toNat >>> (8 * place))

theorem ByteOrder.bytes_little (w : UInt32) :
    little.bytes w = List.ofFn fun place : Fin wordSize => rawByte w place := by
  have hbyte {k : UInt32} {place : Nat} (hk : k.toNat = 1 <<< (8 * place)) :
      (w / k).toUInt8 = rawByte w place := by
    apply UInt8.toNat.inj
    rw [UInt32.toNat_toUInt8, UInt32.toNat_div, hk, Nat.one_shiftLeft,
      ← Nat.shiftRight_eq_div_pow]
    rfl
  have h₀ : w.toUInt8 = rawByte w 0 := by
    apply UInt8.toNat.inj
    exact UInt32.toNat_toUInt8 w
  have h₁ : (w / 256).toUInt8 = rawByte w 1 := hbyte rfl
  have h₂ : (w / 65536).toUInt8 = rawByte w 2 := hbyte rfl
  have h₃ : (w / 16777216).toUInt8 = rawByte w 3 := hbyte rfl
  rw [bytes, h₀, h₁, h₂, h₃]
  rfl

namespace Block

variable (m : Block) (o : ByteOrder)

/-- The bytes of a memory as a little-endian processor keeps its words. -/
def rawBytes : List UInt8 :=
  List.ofFn fun n : Fin (wordSize * wordCount) =>
    rawByte (m.get ⟨n / wordSize, Nat.div_lt_of_lt_mul n.isLt⟩) (n % wordSize)

theorem toList_words : m.words.toList = List.ofFn m.get := by
  apply List.ext_getElem
  · rw [List.length_ofFn, Vector.length_toList]
  · intro i _ _
    rw [List.getElem_ofFn, Vector.getElem_toList]
    rfl

theorem rawBytes_eq : m.rawBytes = m.bytes .little := by
  rw [rawBytes, List.ofFn_mul', bytes, toList_words, List.flatMap_def, List.map_ofFn]
  apply congrArg List.flatten
  apply congrArg List.ofFn
  funext i
  rw [Function.comp_apply, ByteOrder.bytes_little]
  apply congrArg List.ofFn
  funext place
  have hword : (wordSize * i + place : Nat) / wordSize = i := by
    rw [Nat.mul_add_div (by decide), Nat.div_eq_of_lt place.isLt, Nat.add_zero]
  have hplace : (wordSize * i + place : Nat) % wordSize = place := by
    rw [Nat.mul_add_mod, Nat.mod_eq_of_lt place.isLt]
  exact congrArg₂ rawByte (congrArg m.get (Fin.ext hword)) hplace

theorem rawBytes_map_toRaw : (m.map o.toRaw).rawBytes = m.bytes o := by
  have hwords : (m.map o.toRaw).words.toList = m.words.toList.map o.toRaw := Vector.toList_map
  rw [rawBytes_eq, bytes, hwords, List.flatMap_map, bytes]
  exact congrArg (List.flatMap · m.words.toList) (funext o.bytes_toRaw)

theorem rawBytes_injective {m m' : Block} (h : m.rawBytes = m'.rawBytes) : m = m' := by
  have hdecode := m.decode_bytes_append .little []
  have hdecode' := m'.decode_bytes_append .little []
  rw [rawBytes_eq, rawBytes_eq] at h
  rw [h, hdecode'] at hdecode
  exact (Except.ok.inj hdecode).symm

theorem map_toRaw_ofRaw : (m.map o.ofRaw).map o.toRaw = m := by
  cases o with
  | little => exact (congrArg (Block.map · ByteOrder.little.toRaw) m.map_little).trans m.map_little
  | big => exact m.map_swapBytes

theorem decode_rawBytes : decode o m.rawBytes = .ok (m.map o.ofRaw) := by
  have hbytes : m.rawBytes = (m.map o.ofRaw).bytes o := by
    rw [← rawBytes_map_toRaw, map_toRaw_ofRaw]
  have hdecode := (m.map o.ofRaw).decode_bytes_append o []
  rw [List.append_nil] at hdecode
  rw [hbytes, hdecode]

end Block

/-- The operation keeps to the words of the block, and to their borders where it moves a word. -/
def BusOp.InBlock : BusOp → Prop
  | .load offset | .store offset _ | .isCached offset =>
    wordSize ∣ offset.toNat ∧ offset.toNat < blockSize
  | .flush offset len | .invalidate offset len => offset.toNat + len.toNat ≤ blockSize
  | .fence => True

theorem Field.inBlock_offset (f : Field) :
    wordSize ∣ f.offset.toNat ∧ f.offset.toNat < blockSize := by
  cases f <;> decide

instance : (op : BusOp) → Decidable op.InBlock
  | .load offset => inferInstanceAs (Decidable (wordSize ∣ offset.toNat ∧ _))
  | .store offset _ => inferInstanceAs (Decidable (wordSize ∣ offset.toNat ∧ _))
  | .isCached offset => inferInstanceAs (Decidable (wordSize ∣ offset.toNat ∧ _))
  | .flush offset len => inferInstanceAs (Decidable (offset.toNat + len.toNat ≤ _))
  | .invalidate offset len => inferInstanceAs (Decidable (offset.toNat + len.toNat ≤ _))
  | .fence => inferInstanceAs (Decidable True)

structure MappedEvent where
  order : ByteOrder
  op : BusOp
deriving DecidableEq, Repr

def MappedEvent.stored? (i : WordIndex) : MappedEvent → Option (ByteOrder × UInt32)
  | ⟨o, .store offset v⟩ => if wordIndex? offset = some i then some (o, v) else none
  | _ => none

def lastStored? (i : WordIndex) (t : List MappedEvent) : Option (ByteOrder × UInt32) :=
  (t.filterMap (MappedEvent.stored? i)).getLast?

theorem lastStored?_snoc (i : WordIndex) (t : List MappedEvent) (e : MappedEvent) :
    lastStored? i (t ++ [e]) = (e.stored? i <|> lastStored? i t) :=
  getLast?_filterMap_snoc (MappedEvent.stored? i) t e

/-- What can happen to a memory through mapped windows, of either order and opened at any time. -/
inductive MappedRun (m : Block) : List MappedEvent → Bus → Prop
  | start : MappedRun m [] ⟨m, []⟩
  | opened {t : List MappedEvent} {b : Bus} (h : MappedRun m t b) (o : ByteOrder) :
      MappedRun m t { b with windows := b.windows ++ [(WindowKind.mapped o).newWindow] }
  | ran {t : List MappedEvent} {b b' : Bus} {w : Nat} {o : ByteOrder} {op : BusOp}
      {reply : BusReply} (h : MappedRun m t b) (hw : b.windows[w]? = some (.direct o))
      (hop : op.InBlock) (hr : b.run? w op = some (reply, b')) :
      MappedRun m (t ++ [⟨o, op⟩]) b'

def rawWord (m : Block) (t : List MappedEvent) (i : WordIndex) : UInt32 :=
  match lastStored? i t with
  | some (o, v) => o.toRaw v
  | none => m.get i

/-- What a field ought to hold, to a reader of some order. -/
def wordSeen (o : ByteOrder) (m : Block) (t : List MappedEvent) (f : Field) : UInt32 :=
  match lastStored? f.index t with
  | some (written, v) => written.across o v
  | none => o.ofRaw (m.field f)

namespace Window

variable {o : ByteOrder} {m m' : Block} {op : BusOp} {reply : BusReply} {x : Window}

theorem run?_direct (h : (direct o).run? m op = some (reply, x, m')) (i : WordIndex) :
    x = .direct o ∧
      m'.get i = match MappedEvent.stored? i ⟨o, op⟩ with
        | some (o', v) => o'.toRaw v
        | none => m.get i := by
  cases op with
  | load offset =>
    obtain ⟨j, hj, h⟩ := Option.bind_eq_some_iff.1 h
    cases h
    exact ⟨rfl, rfl⟩
  | store offset v =>
    obtain ⟨j, hj, h⟩ := Option.bind_eq_some_iff.1 h
    cases h
    apply And.intro rfl
    rw [MappedEvent.stored?, hj]
    by_cases hji : j = i
    · subst j
      rw [if_pos rfl]
      exact m.get_set_self i _
    · rw [if_neg fun he => hji (Option.some.inj he)]
      exact m.get_set_of_ne _ hji
  | flush offset len =>
    cases h
    exact ⟨rfl, rfl⟩
  | invalidate offset len =>
    cases h
    exact ⟨rfl, rfl⟩
  | fence =>
    cases h
    exact ⟨rfl, rfl⟩
  | isCached offset => cases h

end Window

namespace Bus

variable {b b' : Bus} {w : Nat} {o : ByteOrder} {op : BusOp} {reply : BusReply}

theorem run?_load (h : b.windows[w]? = some (.direct o)) (f : Field) :
    b.run? w (.load f.offset) = some (.word (o.ofRaw (b.memory.field f)), b) := by
  obtain ⟨hlt, hget⟩ := List.getElem?_eq_some_iff.1 h
  have hset : b.windows.set w (.direct o) = b.windows := by
    rw [← hget]
    exact List.set_getElem_self hlt
  have hrun : (Window.direct o).run? b.memory (.load f.offset) =
      some (.word (o.ofRaw (b.memory.field f)), .direct o, b.memory) := by
    rw [Window.run?, f.wordIndex?_offset]
    rfl
  rw [run?, h, Option.bind_eq_bind, Option.bind_some, hrun, Option.bind_eq_bind, Option.bind_some]
  change some (_, Bus.mk b.memory (b.windows.set w (.direct o))) = _
  rw [hset]

theorem run?_store (h : b.windows[w]? = some (.direct o)) (f : Field) (v : UInt32) :
    ∃ b', b.run? w (.store f.offset v) = some (.done, b') := by
  rw [run?, h, Option.bind_eq_bind, Option.bind_some, Window.run?, f.wordIndex?_offset]
  exact ⟨_, rfl⟩

end Bus

namespace MappedRun

variable {m : Block} {t : List MappedEvent} {b : Bus}

/-- Memory holds what was stored last, swapped if it was stored in the other order. -/
theorem get_memory (h : MappedRun m t b) (i : WordIndex) : b.memory.get i = rawWord m t i := by
  induction h with
  | start => rfl
  | opened h o ih => exact ih
  | @ran t b b' w o op reply h hw hop hr ih =>
    obtain ⟨x, y, m', hx, hy, rfl⟩ := Bus.exists_of_run? hr
    cases hw.symm.trans hx
    obtain ⟨-, hget⟩ := Window.run?_direct hy i
    change m'.get i = _
    rw [hget, rawWord, lastStored?_snoc]
    cases MappedEvent.stored? i ⟨o, op⟩ with
    | some s => rfl
    | none => exact ih

theorem ofRaw_field (h : MappedRun m t b) (o : ByteOrder) (f : Field) :
    o.ofRaw (b.memory.field f) = wordSeen o m t f := by
  have hf : b.memory.field f = rawWord m t f.index := h.get_memory f.index
  rw [hf, rawWord, wordSeen]
  cases lastStored? f.index t with
  | some s => exact s.1.ofRaw_toRaw_across o s.2
  | none => rfl

end MappedRun

/-- The codec and the windows of an order agree on what is in memory after these events. -/
structure Bus.Agrees (o : ByteOrder) (m : Block) (t : List MappedEvent) (b : Bus) : Prop where
  store : ∀ w, b.windows[w]? = some (.direct o) → ∀ (f : Field) (v : UInt32),
    ∃ b', b.run? w (.store f.offset v) = some (.done, b') ∧
      MappedRun m (t ++ [⟨o, .store f.offset v⟩]) b'
  /-- The codec reads at every offset what was stored there last, and the windows load the same. -/
  decode : ∃ image, Block.decode o b.memory.rawBytes = .ok image ∧ ∀ f : Field,
    image.wordAt? f.offset.toNat = some (wordSeen o m t f) ∧
      ∀ w, b.windows[w]? = some (.direct o) →
        b.run? w (.load f.offset) = some (.word (wordSeen o m t f), b)
  /-- Where memory holds what the codec wrote, the windows load the words of that image. -/
  encode : ∀ (image : Block) (written : ByteOrder),
    image.encodeToVec written = .ok b.memory.rawBytes →
      ∀ w, b.windows[w]? = some (.direct o) → ∀ f : Field,
        b.run? w (.load f.offset) = some (.word (written.across o (image.field f)), b)
  other : Block.decode o.other b.memory.rawBytes =
    (Block.decode o b.memory.rawBytes).map (·.map swapBytes)

/-- Whatever windows of either order stored in whatever sequence, the codec finds in the raw bytes
of memory what the windows find there, and the other way round. -/
theorem MappedRun.codec_agrees {m : Block} {t : List MappedEvent} {b : Bus} (h : MappedRun m t b)
    (o : ByteOrder) : b.Agrees o m t where
  store w hw f v := by
    obtain ⟨b', hr⟩ := Bus.run?_store hw f v
    exact ⟨b', hr, h.ran hw f.inBlock_offset hr⟩
  decode := by
    refine ⟨_, b.memory.decode_rawBytes o, fun f => ⟨?_, fun w hw => ?_⟩⟩
    · rw [Block.wordAt?_offset, Block.field_map, h.ofRaw_field]
    · rw [Bus.run?_load hw, h.ofRaw_field]
  encode image written hbytes w hw f := by
    rw [Block.encodeToVec_eq] at hbytes
    have hmemory : b.memory = image.map written.toRaw := by
      apply Block.rawBytes_injective
      rw [image.rawBytes_map_toRaw]
      exact (Except.ok.inj hbytes).symm
    rw [Bus.run?_load hw, hmemory, Block.field_map, ByteOrder.ofRaw_toRaw_across]
  other := Block.decode_other o b.memory.rawBytes

/-- Memory begins with an image of big-endian words, and is then written to in both orders. -/
theorem codec_agrees_both_orders :
    let image : Block := ⟨#v[1, 2, 3, 4, 5, 0x11223344]⟩
    let m := image.map ByteOrder.big.toRaw
    let t : List MappedEvent := [⟨.little, .store 20 9⟩, ⟨.big, .store 0 0x05000000⟩]
    image.encodeToVec .big = .ok m.rawBytes ∧
      ∃ b b', MappedRun m [] b ∧ b.run? 0 (.load 20) = some (.word 0x44332211, b) ∧
        MappedRun m t b' ∧ b'.Agrees .big m t ∧
        Block.decode .big b'.memory.rawBytes = .ok ⟨#v[0x05000000, 2, 3, 4, 5, 0x09000000]⟩ := by
  intro image m t
  have himage : image.encodeToVec .big = .ok m.rawBytes := by decide +kernel
  have h₀ := ((MappedRun.start (m := m)).opened .little).opened .big
  have hlast : (BusOp.store 20 9).InBlock := by decide
  have hfirst : (BusOp.store 0 0x05000000).InBlock := by decide
  have h₁ := h₀.ran (w := 0) (o := .little) rfl hlast rfl
  have h₂ := h₁.ran (w := 1) (o := .big) rfl hfirst rfl
  have hload := (h₀.codec_agrees .little).encode image .big himage 0 rfl .inputActions
  have hword : ByteOrder.big.across .little (image.field .inputActions) = 0x44332211 := by
    decide +kernel
  rw [hword] at hload
  exact ⟨himage, _, _, h₀, hload, h₂, h₂.codec_agrees .big, by decide +kernel⟩

end Handoff
