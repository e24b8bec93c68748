import Mathlib.Order.Fin.Basic
import Handoff.Bus
import Handoff.Proofs.Link

namespace Handoff

def Names (offset : UInt64) (i : WordIndex) : Prop := offset.toNat / wordSize = i

theorem Names.unique {offset : UInt64} {i j : WordIndex} (hi : Names offset i)
    (hj : Names offset j) : i = j :=
  Fin.ext (hi.symm.trans hj)

def Covers (offset len : UInt64) (i : WordIndex) : Prop :=
  wordSize * i < offset.toNat + len.toNat ∧ offset.toNat < wordSize * i + wordSize

instance (offset len : UInt64) (i : WordIndex) : Decidable (Covers offset len i) :=
  inferInstanceAs (Decidable (_ ∧ _))

theorem wordIndex?_eq_some_iff {offset : UInt64} {i : WordIndex} :
    wordIndex? offset = some i ↔ Names offset i := by
  unfold wordIndex? Names
  split
  · exact ⟨fun h => congrArg Fin.val (Option.some.inj h), fun h => congrArg some (Fin.ext h)⟩
  · rename_i h
    have := i.isLt
    exact ⟨nofun, fun hi => absurd (hi ▸ this) h⟩

theorem Field.wordIndex?_offset (f : Field) : wordIndex? f.offset = some f.index := by
  cases f <;> rfl

theorem mem_touched_iff {offset len : UInt64} {i : WordIndex} :
    i ∈ touched offset len ↔ Covers offset len i := by
  simp only [touched, List.mem_filter, List.mem_finRange, true_and, Bool.and_eq_true,
    decide_eq_true_eq, Covers, wordSize]
  omega

namespace Line

def flushed : Line → Line
  | dirty v => clean v
  | l => l

def unsaved? : Line → Option UInt32
  | dirty v => some v
  | _ => none

theorem copy?_eq_none_iff {l : Line} : l.copy? = none ↔ l = invalid := by
  cases l <;> simp [copy?]

@[simp] theorem copy?_flushed (l : Line) : l.flushed.copy? = l.copy? := by
  cases l <;> rfl

@[simp] theorem unsaved?_flushed (l : Line) : l.flushed.unsaved? = none := by
  cases l <;> rfl

theorem flushed_of_not_dirty {l : Line} (h : ∀ v, l ≠ dirty v) : l.flushed = l := by
  cases l with
  | dirty v => exact absurd rfl (h v)
  | _ => rfl

theorem unsaved?_of_not_dirty {l : Line} (h : ∀ v, l ≠ dirty v) : l.unsaved? = none := by
  cases l with
  | dirty v => exact absurd rfl (h v)
  | _ => rfl

end Line

namespace Cache

variable (c : Cache) (m : Block) (i : WordIndex)

theorem line_setLine (j : WordIndex) (l : Line) :
    (c.setLine j l).line i = if j = i then l else c.line i := by
  split
  · subst j
    exact c.line_setLine_self i l
  · exact c.line_setLine_of_ne l ‹_›

theorem line_flushWord (s : Cache × Block) (j : WordIndex) :
    (flushWord s j).1.line i = if j = i then (s.1.line i).flushed else s.1.line i := by
  unfold flushWord
  split
  · rename_i v h
    change (s.1.setLine j (.clean v)).line i = _
    rw [line_setLine]
    by_cases hj : j = i
    · subst j
      rw [if_pos rfl, if_pos rfl, h]
      rfl
    · rw [if_neg hj, if_neg hj]
  · rename_i h
    by_cases hj : j = i
    · subst j
      rw [if_pos rfl, Line.flushed_of_not_dirty h]
    · rw [if_neg hj]

theorem get_flushWord (s : Cache × Block) (j : WordIndex) :
    (flushWord s j).2.get i =
      if j = i then (s.1.line i).unsaved?.getD (s.2.get i) else s.2.get i := by
  unfold flushWord
  split
  · rename_i v h
    by_cases hj : j = i
    · subst j
      rw [if_pos rfl, h]
      exact s.2.get_set_self i v
    · rw [if_neg hj]
      exact s.2.get_set_of_ne v hj
  · rename_i h
    by_cases hj : j = i
    · subst j
      rw [if_pos rfl, Line.unsaved?_of_not_dirty h]
      rfl
    · rw [if_neg hj]

theorem line_foldl_flushWord (js : List WordIndex) (s : Cache × Block) :
    (js.foldl flushWord s).1.line i = if i ∈ js then (s.1.line i).flushed else s.1.line i := by
  induction js generalizing s with
  | nil => rfl
  | cons j js ih =>
    rw [List.foldl_cons, ih, line_flushWord]
    by_cases hj : j = i
    · subst j
      have hf : (s.1.line i).flushed.flushed = (s.1.line i).flushed := by cases s.1.line i <;> rfl
      simp [hf]
    · simp [hj, Ne.symm hj]

theorem get_foldl_flushWord (js : List WordIndex) (s : Cache × Block) :
    (js.foldl flushWord s).2.get i =
      if i ∈ js then (s.1.line i).unsaved?.getD (s.2.get i) else s.2.get i := by
  induction js generalizing s with
  | nil => rfl
  | cons j js ih =>
    rw [List.foldl_cons, ih, line_flushWord, get_flushWord]
    by_cases hj : j = i
    · subst j
      simp
    · simp [hj, Ne.symm hj]

theorem line_dropWord_eq (j : WordIndex) :
    (c.dropWord j).line i = if j = i then .invalid else c.line i := by
  rw [← line_setLine]
  unfold dropWord
  split <;> rfl

theorem line_foldl_dropWord (js : List WordIndex) :
    (js.foldl dropWord c).line i = if i ∈ js then .invalid else c.line i := by
  induction js generalizing c with
  | nil => rfl
  | cons j js ih =>
    rw [List.foldl_cons, ih, line_dropWord_eq]
    by_cases hj : j = i
    · simp [hj]
    · simp [hj, Ne.symm hj]

variable (offset len : UInt64)

theorem line_flush :
    (c.flush m offset len).1.line i =
      if Covers offset len i then (c.line i).flushed else c.line i := by
  have h := line_foldl_flushWord i (touched offset len)
    ({ c with stats.flushes := c.stats.flushes + 1 }, m)
  simp only [mem_touched_iff] at h
  exact h

theorem get_flush :
    (c.flush m offset len).2.get i =
      if Covers offset len i then (c.line i).unsaved?.getD (m.get i) else m.get i := by
  have h := get_foldl_flushWord i (touched offset len)
    ({ c with stats.flushes := c.stats.flushes + 1 }, m)
  simp only [mem_touched_iff] at h
  exact h

theorem line_invalidate_range :
    (c.invalidate offset len).line i =
      if Covers offset len i then .invalid else c.line i := by
  have h := line_foldl_dropWord { c with stats.invalidates := c.stats.invalidates + 1 } i
    (touched offset len)
  simp only [mem_touched_iff] at h
  exact h

theorem line_store_eq (j : WordIndex) (v : UInt32) :
    (c.store j v).line i = if j = i then .dirty v else c.line i := c.line_setLine i j (.dirty v)

theorem line_load (j : WordIndex) :
    (c.load m j).2.line i =
      if j = i ∧ c.line i = .invalid then .clean (m.get i) else c.line i := by
  unfold load
  split
  · rename_i v h
    rw [if_neg]
    rintro ⟨rfl, hi⟩
    rw [hi] at h
    cases h
  · rename_i h
    change (c.setLine j (.clean (m.get j))).line i = _
    rw [line_setLine]
    by_cases hj : j = i
    · subst j
      rw [if_pos rfl, if_pos ⟨rfl, Line.copy?_eq_none_iff.1 h⟩]
    · rw [if_neg hj, if_neg (fun hi => hj hi.1)]

theorem load_fst : (c.load m i).1 = (c.line i).copy?.getD (m.get i) := by
  unfold load
  cases (c.line i).copy? <;> rfl

theorem copy?_load : ((c.load m i).2.line i).copy? = some (c.load m i).1 := by
  rw [line_load, load_fst]
  cases c.line i <;> simp [Line.copy?]

theorem unsaved?_load (j : WordIndex) :
    ((c.load m j).2.line i).unsaved? = (c.line i).unsaved? := by
  rw [line_load]
  split
  · rename_i h
    rw [h.2]
    rfl
  · rfl

end Cache

end Handoff
