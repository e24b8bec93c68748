import Handoff.Resource.Lookup

namespace Handoff

open Lookup

namespace ByteReader

/-- A reader takes so many bytes off the front and makes of them what is read where they lie. -/
structure ReadsAt {α : Type} (read : ByteReader α) (size : Nat)
    (value? : List UInt8 → Nat → Option α) : Prop where
  run : ∀ b p, read (b.drop p) = (value? b p).map fun x => (x, b.drop (p + size))
  exists_iff : ∀ b p, p ≤ b.length → ((∃ x, value? b p = some x) ↔ p + size ≤ b.length)
  stays : ∀ b p x extra, value? b p = some x → value? (b ++ extra) p = some x

namespace ReadsAt

variable {α β : Type} {read : ByteReader α} {size : Nat} {value? : List UInt8 → Nat → Option α}

theorem lt_or_eq (h : ReadsAt read size value?) {b : List UInt8} {p : Nat} (hp : p ≤ b.length) :
    (∃ x, value? b p = some x) ∨ value? b p = none ∧ b.length < p + size := by
  cases hx : value? b p with
  | some x => exact .inl ⟨x, rfl⟩
  | none =>
    refine .inr ⟨rfl, Nat.lt_of_not_le fun hs => ?_⟩
    obtain ⟨x, h⟩ := (h.exists_iff b p hp).2 hs
    rw [hx] at h
    cases h

theorem pure (x : α) : ReadsAt (fun b => some (x, b)) 0 fun _ _ => some x where
  run _ _ := rfl
  exists_iff _ _ hp := ⟨fun _ => hp, fun _ => ⟨x, rfl⟩⟩
  stays _ _ _ _ h := h

theorem bind {next : α → ByteReader β} {rest : Nat} {then? : α → List UInt8 → Nat → Option β}
    (h : ReadsAt read size value?) (hn : ∀ x, ReadsAt (next x) rest (then? x)) :
    ReadsAt (fun b => read b >>= fun (x, b) => next x b) (size + rest)
      fun b p => value? b p >>= fun x => then? x b (p + size) where
  run b p := by
    rw [h.run]
    cases value? b p with
    | none => rfl
    | some x =>
      refine ((hn x).run b (p + size)).trans ?_
      rw [Nat.add_assoc]
      rfl
  exists_iff b p hp := by
    rw [← Nat.add_assoc]
    constructor
    · rintro ⟨y, hy⟩
      obtain ⟨x, hx, hy⟩ := Option.bind_eq_some_iff.1 hy
      exact ((hn x).exists_iff b _ ((h.exists_iff b p hp).1 ⟨x, hx⟩)).1 ⟨y, hy⟩
    · intro hb
      have hs : p + size ≤ b.length := Nat.le_of_add_right_le hb
      obtain ⟨x, hx⟩ := (h.exists_iff b p hp).2 hs
      obtain ⟨y, hy⟩ := ((hn x).exists_iff b _ hs).2 hb
      exact ⟨y, Option.bind_eq_some_iff.2 ⟨x, hx, hy⟩⟩
  stays b p y extra hy := by
    obtain ⟨x, hx, hy⟩ := Option.bind_eq_some_iff.1 hy
    exact Option.bind_eq_some_iff.2 ⟨x, h.stays b p x extra hx, (hn x).stays b _ y extra hy⟩

theorem many (h : ReadsAt read size value?) (b : List UInt8) {count p : Nat}
    (hb : p + count * size ≤ b.length) :
    ∃ xs, ByteReader.many read count (b.drop p) = some (xs, b.drop (p + count * size)) ∧
      xs.length = count ∧ ∀ i < count, xs[i]? = value? b (p + i * size) := by
  induction count generalizing p with
  | zero => exact ⟨[], by simp [ByteReader.many], rfl, nofun⟩
  | succ count ih =>
    -- one entry lies at `p`, and the table of the others begins after it
    rw [Nat.succ_mul, Nat.add_comm _ size, ← Nat.add_assoc] at hb ⊢
    obtain ⟨x, hx⟩ := (h.exists_iff b p (by omega)).2 (Nat.le_of_add_right_le hb)
    obtain ⟨xs, hxs, length, entries⟩ := ih hb
    refine ⟨x :: xs, ?_, congrArg Nat.succ length, fun i hi => ?_⟩
    · rw [ByteReader.many, h.run, hx]
      change (ByteReader.many read count (b.drop (p + size)) >>= _) = _
      rw [hxs]
      rfl
    · cases i with
      | zero => rw [Nat.zero_mul, Nat.add_zero, hx]; rfl
      | succ i =>
        rw [Nat.succ_mul, Nat.add_comm _ size, ← Nat.add_assoc]
        exact entries i (Nat.lt_of_succ_lt_succ hi)

theorem many_eq_none (h : ReadsAt read size value?) (b : List UInt8) {count p : Nat}
    (hp : p ≤ b.length) (hb : b.length < p + count * size) :
    ByteReader.many read count (b.drop p) = none := by
  induction count generalizing p with
  | zero => omega
  | succ count ih =>
    rw [Nat.succ_mul, Nat.add_comm _ size, ← Nat.add_assoc] at hb
    rw [ByteReader.many, h.run]
    rcases h.lt_or_eq hp with ⟨x, hx⟩ | ⟨hx, _⟩
    · rw [hx]
      change (ByteReader.many read count (b.drop (p + size)) >>= _) = _
      rw [ih ((h.exists_iff b p hp).1 ⟨x, hx⟩) hb]
      rfl
    · rw [hx]
      rfl

end ReadsAt

theorem getElem?_append {b extra : List UInt8} {p : Nat} {x : UInt8} (h : b[p]? = some x) :
    (b ++ extra)[p]? = some x := by
  obtain ⟨hp, _⟩ := List.getElem?_eq_some_iff.1 h
  rw [List.getElem?_append_left hp, h]

theorem word_readsAt : ReadsAt word 4 word? where
  run b p := by
    have h (k : Nat) : b[p + k]? = (b.drop p)[k]? := List.getElem?_drop.symm
    have h₀ := h 0
    rw [Nat.add_zero] at h₀
    rw [word?, h₀, h 1, h 2, h 3, ← List.drop_drop]
    rcases b.drop p with _ | ⟨a₀, _ | ⟨a₁, _ | ⟨a₂, _ | ⟨a₃, l⟩⟩⟩⟩ <;> rfl
  exists_iff b p _ := by
    simp only [word?, Option.pure_def, Option.bind_eq_bind, Option.bind_eq_some_iff]
    constructor
    · rintro ⟨x, a₀, _, a₁, _, a₂, _, a₃, h, _⟩
      obtain ⟨h, _⟩ := List.getElem?_eq_some_iff.1 h
      exact h
    · intro h
      have h₀ : b[p]? = _ := List.getElem?_eq_getElem (by omega)
      have h₁ : b[p + 1]? = _ := List.getElem?_eq_getElem (by omega)
      have h₂ : b[p + 2]? = _ := List.getElem?_eq_getElem (by omega)
      have h₃ : b[p + 3]? = _ := List.getElem?_eq_getElem (by omega)
      exact ⟨_, _, h₀, _, h₁, _, h₂, _, h₃, rfl⟩
  stays b p x extra := by
    simp only [word?, Option.pure_def, Option.bind_eq_bind, Option.bind_eq_some_iff]
    rintro ⟨a₀, h₀, a₁, h₁, a₂, h₂, a₃, h₃, h⟩
    exact ⟨a₀, getElem?_append h₀, a₁, getElem?_append h₁, a₂, getElem?_append h₂,
      a₃, getElem?_append h₃, h⟩

theorem half_readsAt : ReadsAt half 2 half? where
  run b p := by
    have h (k : Nat) : b[p + k]? = (b.drop p)[k]? := List.getElem?_drop.symm
    have h₀ := h 0
    rw [Nat.add_zero] at h₀
    rw [half?, h₀, h 1, ← List.drop_drop]
    rcases b.drop p with _ | ⟨a₀, _ | ⟨a₁, l⟩⟩ <;> rfl
  exists_iff b p _ := by
    simp only [half?, Option.pure_def, Option.bind_eq_bind, Option.bind_eq_some_iff]
    constructor
    · rintro ⟨x, a₀, _, a₁, h, _⟩
      obtain ⟨h, _⟩ := List.getElem?_eq_some_iff.1 h
      exact h
    · intro h
      have h₀ : b[p]? = _ := List.getElem?_eq_getElem (by omega)
      have h₁ : b[p + 1]? = _ := List.getElem?_eq_getElem (by omega)
      exact ⟨_, _, h₀, _, h₁, rfl⟩
  stays b p x extra := by
    simp only [half?, Option.pure_def, Option.bind_eq_bind, Option.bind_eq_some_iff]
    rintro ⟨a₀, h₀, a₁, h₁, h⟩
    exact ⟨a₀, getElem?_append h₀, a₁, getElem?_append h₁, h⟩

theorem header_readsAt : ReadsAt header 12 headerAt? :=
  word_readsAt.bind fun _ => word_readsAt.bind fun _ => word_readsAt.bind fun _ => .pure _

theorem texture_readsAt : ReadsAt texture 12 textureAt? :=
  word_readsAt.bind fun _ => word_readsAt.bind fun _ => half_readsAt.bind fun _ =>
    half_readsAt.bind fun _ => .pure _

theorem mesh_readsAt : ReadsAt mesh 16 meshAt? :=
  word_readsAt.bind fun _ => word_readsAt.bind fun _ => word_readsAt.bind fun _ =>
    word_readsAt.bind fun _ => .pure _

end ByteReader

theorem position?_eq_some {start size : Nat} (h : start + size < UInt64.size) :
    position? start size = some start := if_pos h

theorem mapM_eq_some_map {α β : Type} {f : α → Option β} {g : α → β} {l : List α}
    (h : ∀ x ∈ l, f x = some (g x)) : l.mapM f = some (l.map g) := by
  induction l with
  | nil => rfl
  | cons x l ih =>
    rw [List.mapM_cons, h x List.mem_cons_self, ih fun y hy => h y (List.mem_cons_of_mem x hy)]
    rfl

theorem map_range_getElem? {α : Type} (xs : List α) :
    (List.range xs.length).map (xs[·]?) = xs.map some := by
  apply List.ext_getElem (by simp)
  intro i hi _
  have hi : i < xs.length := by simpa using hi
  simp [hi]

namespace Lookup.Table

variable {α : Type} {t : Table α} {b : List UInt8} {xs : List α}

structure Holds (t : Table α) (b : List UInt8) (xs : List α) : Prop where
  length : xs.length = t.count.toNat
  entry : ∀ i < t.count.toNat, xs[i]? = t.read? b (t.position i)

/-- What a table gives when it is read: the entry of each index below the count, none for the
others, and the list of all. -/
structure Reads (t : Table α) (b : List UInt8) (xs : List α) : Prop where
  length : xs.length = t.count.toNat
  all : t.all? b = some xs
  found : ∀ i < t.count, ∃ x, t.get? b i = some (some x) ∧
    t.read? b (t.start + i.toNat * t.size) = some x ∧ xs[i.toNat]? = some x
  missing : ∀ i, t.count ≤ i → t.get? b i = some none

namespace Holds

theorem exists_entry (h : t.Holds b xs) {i : Nat} (hi : i < t.count.toNat) :
    ∃ x, xs[i]? = some x ∧ t.read? b (t.position i) = some x := by
  have hl : i < xs.length := by rw [h.length]; exact hi
  have hx := List.getElem?_eq_getElem hl
  exact ⟨xs[i], hx, by rw [← h.entry i hi, hx]⟩

theorem unique {ys : List α} (h : t.Holds b xs) (h' : t.Holds b ys) : xs = ys := by
  apply List.ext_getElem?
  intro i
  by_cases hi : i < t.count.toNat
  · rw [h.entry i hi, h'.entry i hi]
  · rw [List.getElem?_eq_none, List.getElem?_eq_none]
    · rw [h'.length]; omega
    · rw [h.length]; omega

theorem append {read : ByteReader α} (h : t.Holds b xs) (hr : read.ReadsAt t.size t.read?)
    (extra : List UInt8) : t.Holds (b ++ extra) xs where
  length := h.length
  entry i hi := by
    obtain ⟨x, hx, hp⟩ := h.exists_entry hi
    rw [hx, hr.stays b _ x extra hp]

/-- No read of a table that 64 bits can count is a fault. -/
theorem reads (h : t.Holds b xs) (fits : t.position t.count.toNat < UInt64.size) :
    t.Reads b xs := by
  have found (i : UInt32) (hi : i.toNat < t.count.toNat) : t.get? b i = some xs[i.toNat]? := by
    obtain ⟨x, hx, hp⟩ := h.exists_entry hi
    have hs : t.position (i.toNat + 1) ≤ t.position t.count.toNat :=
      Nat.add_le_add_left (Nat.mul_le_mul_right _ hi) _
    have hn : t.position i.toNat + t.size = t.position (i.toNat + 1) := by
      rw [position, position, Nat.succ_mul, Nat.add_assoc]
    rw [get?, if_neg (UInt32.not_le.2 (UInt32.lt_iff_toNat_lt.2 hi)),
      position?_eq_some (by omega), hx]
    change (do return some (← t.read? b (t.position i.toNat))) = _
    rw [hp]
    rfl
  refine ⟨h.length, ?_, fun i hi => ?_, fun i hi => if_pos hi⟩
  · have entries : (List.range t.count.toNat).mapM (fun i => t.get? b (.ofNat i)) =
        some ((List.range t.count.toNat).map (xs[·]?)) := by
      apply mapM_eq_some_map
      intro i hi
      have hi : i < t.count.toNat := List.mem_range.1 hi
      have hn : (UInt32.ofNat i).toNat = i := UInt32.toNat_ofNat_of_lt' (Nat.lt_trans hi t.count.toNat_lt)
      rw [found _ (by rw [hn]; exact hi), hn]
    rw [all?, entries, ← h.length, map_range_getElem?]
    change some ((xs.map some).filterMap id) = _
    rw [List.filterMap_map]
    exact congrArg some List.filterMap_some
  · have hi := UInt32.lt_iff_toNat_lt.1 hi
    obtain ⟨x, hx, hp⟩ := h.exists_entry hi
    exact ⟨x, by rw [found i hi, hx], hp, hx⟩

end Holds

end Lookup.Table

end Handoff
