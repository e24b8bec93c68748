import Handoff.Proofs.RoundTrip
import Handoff.Proofs.Words

namespace Handoff

namespace ByteOrder

def other : ByteOrder → ByteOrder
  | little => big
  | big => little

theorem toNat_word (a b c d : UInt8) :
    (little.word a b c d).toNat =
      a.toNat + 256 * b.toNat + 65536 * c.toNat + 16777216 * d.toNat := by
  have ha := a.toNat_lt
  have hb := b.toNat_lt
  have hc := c.toNat_lt
  have hd := d.toNat_lt
  simp only [word, UInt32.toNat_add, UInt32.toNat_mul, UInt8.toNat_toUInt32, UInt32.reduceToNat]
  omega

theorem toUInt8_div {w k : UInt32} {n : Nat} {a : UInt8} (hk : k.toNat = n)
    (h : w.toNat / n % 256 = a.toNat) : (w / k).toUInt8 = a := by
  apply UInt8.toNat.inj
  rw [UInt32.toNat_toUInt8, UInt32.toNat_div, hk]
  exact h

theorem bytes_word_little (a b c d : UInt8) :
    little.bytes (little.word a b c d) = [a, b, c, d] := by
  have hw := toNat_word a b c d
  have ha := a.toNat_lt
  have hb := b.toNat_lt
  have hc := c.toNat_lt
  have hd := d.toNat_lt
  generalize little.word a b c d = w at hw
  have h₀ : w.toUInt8 = a := by
    apply UInt8.toNat.inj
    rw [UInt32.toNat_toUInt8]
    omega
  have h₁ : (w / 256).toUInt8 = b := toUInt8_div (n := 256) rfl (by omega)
  have h₂ : (w / 65536).toUInt8 = c := toUInt8_div (n := 65536) rfl (by omega)
  have h₃ : (w / 16777216).toUInt8 = d := toUInt8_div (n := 16777216) rfl (by omega)
  rw [bytes, h₀, h₁, h₂, h₃]

variable (o : ByteOrder)

theorem bytes_word (a b c d : UInt8) : o.bytes (o.word a b c d) = [a, b, c, d] := by
  cases o with
  | little => exact bytes_word_little a b c d
  | big => exact congrArg List.reverse (bytes_word_little d c b a)

theorem word_other (a b c d : UInt8) : o.other.word a b c d = swapBytes (o.word a b c d) := by
  have hswap (a b c d : UInt8) : little.word d c b a = swapBytes (little.word a b c d) := by
    apply UInt32.toNat.inj
    rw [toNat_word, toNat_swapBytes a.toNat_lt b.toNat_lt c.toNat_lt d.toNat_lt
      (toNat_word a b c d)]
  cases o with
  | little => exact hswap a b c d
  | big => exact hswap d c b a

theorem words_bytes_append (w : UInt32) (rest : List UInt8) :
    o.words (o.bytes w ++ rest) = w :: o.words rest := by
  cases o with
  | little => exact congrArg (· :: little.words rest) (word_bytes w)
  | big => exact congrArg (· :: big.words rest) (word_bytes w)

/-- Words that were written are read back, whatever follows them. -/
theorem words_flatMap_append (ws : List UInt32) (rest : List UInt8) :
    o.words (ws.flatMap o.bytes ++ rest) = ws ++ o.words rest := by
  induction ws with
  | nil => rfl
  | cons w ws ih =>
    rw [List.flatMap_cons, List.append_assoc, words_bytes_append, ih]
    rfl

/-- Four bytes at a time, the two orders see swapped words. -/
theorem words_other (bytes : List UInt8) :
    o.other.words bytes = (o.words bytes).map swapBytes := by
  fun_induction words o bytes with
  | case1 a b c d rest ih => rw [words, ih, word_other, List.map_cons]
  | case2 bytes h => rw [words.eq_2 _ _ h, List.map_nil]

theorem exists_quad {bytes : List UInt8} (h : 4 ≤ bytes.length) :
    ∃ a b c d rest, bytes = a :: b :: c :: d :: rest := by
  match bytes, h with
  | a :: b :: c :: d :: rest, _ => exact ⟨a, b, c, d, rest, rfl⟩

theorem length_words (bytes : List UInt8) : (o.words bytes).length = bytes.length / wordSize := by
  fun_induction words o bytes with
  | case1 a b c d rest ih =>
    simp only [List.length_cons, ih, wordSize]
    omega
  | case2 bytes h =>
    have hshort : bytes.length < 4 := by
      apply Nat.lt_of_not_le
      intro hlong
      obtain ⟨a, b, c, d, rest, rfl⟩ := exists_quad hlong
      exact h a b c d rest rfl
    exact (Nat.div_eq_of_lt hshort).symm

theorem flatMap_take_words (n : Nat) {bytes : List UInt8} (h : 4 * n ≤ bytes.length) :
    ((o.words bytes).take n).flatMap o.bytes = bytes.take (4 * n) := by
  induction n generalizing bytes with
  | zero => rfl
  | succ n ih =>
    obtain ⟨a, b, c, d, rest, rfl⟩ := exists_quad (by omega : 4 ≤ bytes.length)
    have hrest : 4 * n ≤ rest.length := by
      simp only [List.length_cons] at h
      omega
    rw [words, List.take_succ_cons, List.flatMap_cons, bytes_word, ih hrest]
    rfl

/-- Words that fit are written one after the other, and what is behind them stays. -/
theorem overwrite_eq (ws : List UInt32) {buffer : List UInt8} (h : 4 * ws.length ≤ buffer.length) :
    o.overwrite ws buffer = ws.flatMap o.bytes ++ buffer.drop (4 * ws.length) := by
  induction ws generalizing buffer with
  | nil => cases buffer <;> rfl
  | cons w ws ih =>
    rw [List.length_cons] at h
    obtain ⟨a, b, c, d, rest, rfl⟩ := exists_quad (by omega : 4 ≤ buffer.length)
    have hrest : 4 * ws.length ≤ rest.length := by
      simp only [List.length_cons] at h
      omega
    rw [overwrite, ih hrest, List.flatMap_cons, List.append_assoc]
    rfl

end ByteOrder

namespace Block

variable (b : Block) (o : ByteOrder)

theorem ext_toList {a b : Block} (h : a.words.toList = b.words.toList) : a = b :=
  Block.ext (Vector.toList_inj.1 h)

theorem length_bytes : (b.bytes o).length = blockSize := by
  rw [bytes, length_flatMap_of_const o.length_bytes, Vector.length_toList]
  rfl

theorem encodeInto_of_short {buffer : List UInt8} (h : buffer.length < blockSize) :
    b.encodeInto o buffer = (.error .bufferTooSmall, buffer) := if_pos h

theorem encodeInto_of_long {buffer : List UInt8} (h : blockSize ≤ buffer.length) :
    b.encodeInto o buffer = (.ok blockSize, b.bytes o ++ buffer.drop blockSize) := by
  have hlong : 4 * b.words.toList.length ≤ buffer.length := by
    rw [b.words.length_toList]
    exact h
  rw [encodeInto, if_neg (Nat.not_lt.2 h), o.overwrite_eq _ hlong, b.words.length_toList]
  rfl

theorem encodeToVec_eq : b.encodeToVec o = .ok (b.bytes o) := by
  have hbuffer : blockSize ≤ (List.replicate blockSize (0 : UInt8)).length :=
    Nat.le_of_eq List.length_replicate.symm
  have himage : ((b.bytes o ++ (List.replicate blockSize (0 : UInt8)).drop blockSize).take
      blockSize) = b.bytes o := by
    rw [← b.length_bytes o, List.take_left]
  unfold encodeToVec
  rw [b.encodeInto_of_long o hbuffer]
  change (if _ then _ else _) = _
  rw [himage, if_pos (Nat.le_of_eq (b.length_bytes o))]
  rfl

theorem decode_of_short {bytes : List UInt8} (h : bytes.length < blockSize) :
    decode o bytes = .error .truncated := if_pos h

theorem decode_of_long {bytes : List UInt8} (h : blockSize ≤ bytes.length) :
    ∃ d, decode o bytes = .ok d ∧ d.words.toList = (o.words bytes).take wordCount := by
  have hwords : wordCount ≤ (o.words bytes).length := by
    rw [o.length_words]
    exact (Nat.le_div_iff_mul_le (by decide)).2 h
  refine ⟨_, if_neg (Nat.not_lt.2 h), ?_⟩
  rw [Vector.toList_ofFn]
  apply List.ext_getElem
  · rw [List.length_ofFn, List.length_take, Nat.min_eq_left hwords]
  · intro i hi _
    rw [List.length_ofFn] at hi
    rw [List.getElem_ofFn, List.getElem_take,
      List.getElem?_eq_getElem (Nat.lt_of_lt_of_le hi hwords), Option.getD_some]

theorem decode_bytes_append (rest : List UInt8) : decode o (b.bytes o ++ rest) = .ok b := by
  have hlong : blockSize ≤ (b.bytes o ++ rest).length := by
    rw [List.length_append, b.length_bytes]
    exact Nat.le_add_right _ _
  obtain ⟨d, hd, hwords⟩ := decode_of_long o hlong
  rw [bytes, o.words_flatMap_append, List.take_left' b.words.length_toList] at hwords
  rw [hd, ext_toList hwords]

theorem bytes_of_decode {d : Block} {bytes : List UInt8} (h : blockSize ≤ bytes.length)
    (hd : decode o bytes = .ok d) : d.bytes o = bytes.take blockSize := by
  obtain ⟨d', hd', hwords⟩ := decode_of_long o h
  cases hd.symm.trans hd'
  rw [Block.bytes, hwords, o.flatMap_take_words wordCount h]
  rfl

theorem decode_other (bytes : List UInt8) :
    decode o.other bytes = (decode o bytes).map (·.map swapBytes) := by
  by_cases h : bytes.length < blockSize
  · rw [decode_of_short o h, decode_of_short o.other h]
    rfl
  · obtain ⟨d, hd, hwords⟩ := decode_of_long o (Nat.le_of_not_lt h)
    obtain ⟨d', hd', hwords'⟩ := decode_of_long o.other (Nat.le_of_not_lt h)
    have hswapped : d' = d.map swapBytes := by
      apply ext_toList
      rw [hwords', o.words_other, ← List.map_take, ← hwords]
      exact (Vector.toList_map).symm
    rw [hd, hd', hswapped]
    rfl

theorem wordAt?_offset (f : Field) : b.wordAt? f.offset.toNat = some (b.field f) := by
  cases f <;> rfl

/-- Of all offsets of 64 bits, only those of the six fields name a word. -/
theorem isSome_wordAt?_iff (offset : UInt64) :
    (b.wordAt? offset.toNat).isSome ↔ offset ∈ [0, 4, 8, 12, 16, 20] := by
  have hsome : (b.wordAt? offset.toNat).isSome ↔
      offset.toNat % wordSize = 0 ∧ offset.toNat / wordSize < wordCount := by
    unfold wordAt?
    split
    · next ha => simp [ha]
    · next ha => simp [ha]
  rw [hsome]
  simp only [List.mem_cons, List.not_mem_nil, or_false, ← UInt64.toNat_inj, UInt64.reduceToNat,
    wordSize, wordCount]
  omega

/-- A block is written as the 24 bytes of its words and read back from them, whatever follows. Of a
longer buffer the rest stays, and a shorter one stays as it is. Any 24 bytes are the image of a
block, whose words look swapped in the other order, and each word is found at its own offset. -/
theorem image_round_trip (bytes : List UInt8) :
    (b.bytes o).length = 24 ∧
      b.encodeToVec o = .ok (b.bytes o) ∧
      decode o (b.bytes o ++ bytes) = .ok b ∧
      (bytes.length < 24 →
        b.encodeInto o bytes = (.error .bufferTooSmall, bytes) ∧
          decode o bytes = .error .truncated) ∧
      (24 ≤ bytes.length →
        b.encodeInto o bytes = (.ok 24, b.bytes o ++ bytes.drop 24) ∧
          ∃ d, decode o bytes = .ok d ∧ d.encodeToVec o = .ok (bytes.take 24)) ∧
      decode o.other bytes = (decode o bytes).map (·.map swapBytes) ∧
      (∀ f : Field, b.wordAt? f.offset.toNat = some (b.field f)) ∧
      ∀ offset : UInt64, (b.wordAt? offset.toNat).isSome ↔ offset ∈ [0, 4, 8, 12, 16, 20] := by
  refine ⟨b.length_bytes o, b.encodeToVec_eq o, b.decode_bytes_append o bytes, ?_, ?_,
    decode_other o bytes, b.wordAt?_offset, b.isSome_wordAt?_iff⟩
  · intro h
    exact ⟨b.encodeInto_of_short o h, decode_of_short o h⟩
  · intro h
    obtain ⟨d, hd, _⟩ := decode_of_long o h
    refine ⟨b.encodeInto_of_long o h, d, hd, ?_⟩
    rw [d.encodeToVec_eq, bytes_of_decode o h hd]
    rfl

/-- One byte too few, and two bytes more than it takes. -/
theorem image_round_trip_lengths :
    let b : Block := ⟨#v[0x05000000, 16, 0, 0, 0x1234, 25]⟩
    let short : List UInt8 := .replicate 23 0xAA
    let long : List UInt8 := .replicate 26 0xAA
    b.encodeInto .big short = (.error .bufferTooSmall, short) ∧
      decode .big short = .error .truncated ∧
      b.encodeInto .big long = (.ok 24, b.bytes .big ++ [0xAA, 0xAA]) ∧
      ∃ d, decode .big long = .ok d ∧ d.encodeToVec .big = .ok (.replicate 24 0xAA) := by
  intro b short long
  obtain ⟨-, -, -, hshort, -⟩ := b.image_round_trip .big short
  obtain ⟨-, -, -, -, hlong, -⟩ := b.image_round_trip .big long
  obtain ⟨hfail, htruncated⟩ := hshort (by decide)
  obtain ⟨hwritten, d, hd, hd'⟩ := hlong (by decide)
  exact ⟨hfail, htruncated, hwritten, d, hd, hd'⟩

example : (Block.bytes ⟨#v[0x05000000, 0, 0, 0, 0x1234, 0]⟩ .big).take 4 = [5, 0, 0, 0] := by decide

end Block

end Handoff
