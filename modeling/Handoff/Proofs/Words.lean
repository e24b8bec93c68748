import Handoff.Block

namespace Handoff

theorem exists_bytes {n : Nat} (h : n < 4294967296) :
    ∃ a b c d, a < 256 ∧ b < 256 ∧ c < 256 ∧ d < 256 ∧
      n = a + 256 * b + 65536 * c + 16777216 * d :=
  ⟨n % 256, n / 256 % 256, n / 65536 % 256, n / 16777216, by omega, by omega, by omega, by omega,
    by omega⟩

theorem toNat_swapBytes {w : UInt32} {a b c d : Nat} (ha : a < 256) (hb : b < 256)
    (hc : c < 256) (hd : d < 256) (h : w.toNat = a + 256 * b + 65536 * c + 16777216 * d) :
    (swapBytes w).toNat = d + 256 * c + 65536 * b + 16777216 * a := by
  have h₀ : w.toNat % 256 = a := by omega
  have h₁ : w.toNat / 256 % 256 = b := by omega
  have h₂ : w.toNat / 65536 % 256 = c := by omega
  have h₃ : w.toNat / 16777216 = d := by omega
  simp only [swapBytes, UInt32.toNat_add, UInt32.toNat_mul, UInt32.toNat_div, UInt32.toNat_mod,
    UInt32.reduceToNat, h₀, h₁, h₂, h₃]
  omega

@[simp] theorem swapBytes_swapBytes (w : UInt32) : swapBytes (swapBytes w) = w := by
  obtain ⟨a, b, c, d, ha, hb, hc, hd, h⟩ := exists_bytes w.toNat_lt
  apply UInt32.toNat.inj
  rw [h]
  exact toNat_swapBytes hd hc hb ha (toNat_swapBytes ha hb hc hd h)

@[simp] theorem ByteOrder.ofRaw_toRaw (o : ByteOrder) (w : UInt32) : o.ofRaw (o.toRaw w) = w := by
  cases o with
  | little => rfl
  | big => exact swapBytes_swapBytes w

namespace Block

theorem get_zero (i : WordIndex) : zero.get i = 0 := Vector.getElem_replicate i.isLt

variable (b : Block) (g : UInt32 → UInt32)

@[simp] theorem get_map (i : WordIndex) : (b.map g).get i = g (b.get i) :=
  Vector.getElem_map g i.isLt

@[simp] theorem field_map (f : Field) : (b.map g).field f = g (b.field f) := b.get_map g f.index

theorem map_little : b.map ByteOrder.little.ofRaw = b := ext_get fun i => b.get_map _ i

theorem map_swapBytes : (b.map swapBytes).map swapBytes = b :=
  ext_get fun i => by rw [get_map, get_map, swapBytes_swapBytes]

theorem map_set (i : WordIndex) (v : UInt32) : (b.set i v).map g = (b.map g).set i (g v) :=
  Block.ext (Vector.map_set (h := i.isLt))

@[simp] theorem field_set_self (f : Field) (v : UInt32) : (b.set f.index v).field f = v :=
  b.get_set_self f.index v

@[simp] theorem field_set_of_ne {f g : Field} (v : UInt32) (h : f ≠ g) :
    (b.set f.index v).field g = b.field g :=
  b.get_set_of_ne v fun e => h (Field.index_injective e)

end Block

end Handoff
