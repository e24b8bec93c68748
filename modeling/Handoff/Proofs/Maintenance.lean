import Mathlib.Data.Fintype.Basic
import Mathlib.Data.Finset.Card
import Handoff.Proofs.Ranges

namespace Handoff

/-- The numbers that a byte range is worked out to, clipped to the block at its end. -/
def wordNumbers (offset len : UInt64) : List Nat :=
  let first := offset.toNat / wordSize
  let stop := min ((offset.toNat + len.toNat + (wordSize - 1)) / wordSize) wordCount
  List.range' first (stop - first)

def wordOf? (n : Nat) : Option WordIndex := if h : n < wordCount then some ⟨n, h⟩ else none

theorem mem_wordNumbers_iff {offset len : UInt64} {n : Nat} :
    n ∈ wordNumbers offset len ↔
      n < wordCount ∧ wordSize * n < offset.toNat + len.toNat ∧
        offset.toNat < wordSize * n + wordSize := by
  simp only [wordNumbers, List.mem_range'_1, wordSize, wordCount]
  omega

/-- Both lists ascend, and so they are the same as they have the same members. -/
theorem map_val_touched (offset len : UInt64) :
    (touched offset len).map Fin.val = wordNumbers offset len := by
  have hsorted : ((touched offset len).map Fin.val).Pairwise (· < ·) := by
    rw [List.pairwise_map]
    unfold touched
    exact (List.pairwise_lt_finRange wordCount).filter _
  have hsorted' : (wordNumbers offset len).Pairwise (· < ·) := List.pairwise_lt_range'
  have hperm : ((touched offset len).map Fin.val).Perm (wordNumbers offset len) := by
    rw [List.perm_ext_iff_of_nodup (hsorted.imp Nat.ne_of_lt) (hsorted'.imp Nat.ne_of_lt)]
    intro n
    rw [mem_wordNumbers_iff, List.mem_map]
    constructor
    · rintro ⟨i, hi, rfl⟩
      exact ⟨i.isLt, mem_touched_iff.1 hi⟩
    · rintro ⟨hn, hcovers⟩
      exact ⟨⟨n, hn⟩, mem_touched_iff.2 hcovers, rfl⟩
  apply hperm.eq_of_pairwise _ hsorted hsorted'
  intro a b _ _ hab hba
  exact absurd hab (Nat.lt_asymm hba)

/-- No number is out of range, however far the bytes reach past the block. -/
theorem mapM_wordOf? (offset len : UInt64) :
    (wordNumbers offset len).mapM wordOf? = some (touched offset len) := by
  rw [← map_val_touched]
  induction touched offset len with
  | nil => rfl
  | cons i is ih =>
    have hi : wordOf? i.val = some i := dif_pos i.isLt
    rw [List.map_cons, List.mapM_cons, hi, ih]
    rfl

namespace CacheStats

def wroteBack (s : CacheStats) (n : Nat) : CacheStats :=
  { s with writeBacks := s.writeBacks + .ofNat n }

def dropped (s : CacheStats) (n : Nat) : CacheStats :=
  { s with discarded := s.discarded + .ofNat n }

variable (s : CacheStats) (n k : Nat)

theorem wroteBack_zero : s.wroteBack 0 = s :=
  congrArg (fun n => { s with writeBacks := n }) (UInt32.add_zero _)

theorem wroteBack_add : (s.wroteBack n).wroteBack k = s.wroteBack (n + k) := by
  rw [wroteBack, wroteBack, wroteBack, UInt32.ofNat_add, UInt32.add_assoc]

theorem dropped_zero : s.dropped 0 = s :=
  congrArg (fun n => { s with discarded := n }) (UInt32.add_zero _)

theorem dropped_add : (s.dropped n).dropped k = s.dropped (n + k) := by
  rw [dropped, dropped, dropped, UInt32.ofNat_add, UInt32.add_assoc]

end CacheStats

/-- Each word is visited once, and so a visit finds it as it was at the start. What is counted is
therefore how many of the words were dirty then. -/
theorem stats_foldl {σ : Type} {visit : σ → WordIndex → σ} (dirty : σ → WordIndex → Bool)
    (stats : σ → CacheStats) {count : CacheStats → Nat → CacheStats}
    (hdirty : ∀ s i j, i ≠ j → dirty (visit s i) j = dirty s j)
    (hstats : ∀ s i, stats (visit s i) = count (stats s) (dirty s i).toNat)
    (hzero : ∀ s, count s 0 = s) (hadd : ∀ s n k, count (count s n) k = count s (n + k))
    {js : List WordIndex} (hjs : js.Nodup) (s : σ) :
    stats (js.foldl visit s) = count (stats s) (js.countP (dirty s)) := by
  induction js generalizing s with
  | nil => exact (hzero (stats s)).symm
  | cons j js ih =>
    obtain ⟨hj, hjs⟩ := List.nodup_cons.1 hjs
    have hrest : js.countP (dirty (visit s j)) = js.countP (dirty s) := by
      apply List.countP_congr
      intro i hi
      have hne : j ≠ i := by
        rintro rfl
        exact hj hi
      rw [hdirty s j i hne]
    have hsum : (dirty s j).toNat + js.countP (dirty s) = (j :: js).countP (dirty s) := by
      rw [List.countP_cons, Nat.add_comm]
      cases dirty s j <;> rfl
    rw [List.foldl_cons, ih hjs, hstats, hadd, hrest, hsum]

namespace Cache

variable (c : Cache) (m : Block) (i j : WordIndex) (offset len : UInt64)

theorem isDirty_flushWord (s : Cache × Block) (h : i ≠ j) :
    ((flushWord s i).1.line j).isDirty = (s.1.line j).isDirty := by
  rw [line_flushWord, if_neg h]

theorem stats_flushWord (s : Cache × Block) :
    (flushWord s i).1.stats = s.1.stats.wroteBack (s.1.line i).isDirty.toNat := by
  unfold flushWord
  split
  · next v h =>
    rw [h]
    rfl
  · next h =>
    have hclean : (s.1.line i).isDirty = false := by
      cases hl : s.1.line i with
      | dirty v => exact absurd hl (h v)
      | _ => rfl
    rw [hclean]
    exact (CacheStats.wroteBack_zero _).symm

theorem isDirty_dropWord (h : i ≠ j) : ((c.dropWord i).line j).isDirty = (c.line j).isDirty := by
  rw [line_dropWord_eq, if_neg h]

theorem stats_dropWord : (c.dropWord i).stats = c.stats.dropped (c.line i).isDirty.toNat := by
  unfold dropWord
  cases (c.line i).isDirty with
  | true => rfl
  | false => exact (CacheStats.dropped_zero _).symm

def dirtyWords : Finset WordIndex := {i | (c.line i).isDirty}

def dirtyWithin : Finset WordIndex := c.dirtyWords.filter (Covers offset len)

theorem mem_dirtyWords : i ∈ c.dirtyWords ↔ (c.line i).isDirty := by
  simp [dirtyWords]

theorem nodup_touched : (touched offset len).Nodup := (List.nodup_finRange _).filter _

theorem countP_touched :
    (touched offset len).countP (fun i => (c.line i).isDirty) = (c.dirtyWithin offset len).card := by
  have hnodup := (nodup_touched offset len).filter fun i => (c.line i).isDirty
  rw [List.countP_eq_length_filter, ← List.toFinset_card_of_nodup hnodup]
  apply congrArg Finset.card
  ext i
  simp [mem_touched_iff, dirtyWithin, mem_dirtyWords, and_comm]

theorem stats_flush :
    (c.flush m offset len).1.stats =
      { c.stats with
        flushes := c.stats.flushes + 1
        writeBacks := c.stats.writeBacks + .ofNat (c.dirtyWithin offset len).card } := by
  rw [← countP_touched]
  exact stats_foldl (fun s i => (s.1.line i).isDirty) (fun s => s.1.stats)
    (fun s i j => isDirty_flushWord i j s) (fun s i => stats_flushWord i s)
    CacheStats.wroteBack_zero CacheStats.wroteBack_add (nodup_touched offset len) _

theorem stats_invalidate :
    (c.invalidate offset len).stats =
      { c.stats with
        invalidates := c.stats.invalidates + 1
        discarded := c.stats.discarded + .ofNat (c.dirtyWithin offset len).card } := by
  rw [← countP_touched]
  exact stats_foldl (fun (c : Cache) i => (c.line i).isDirty) (fun c => c.stats)
    isDirty_dropWord stats_dropWord
    CacheStats.dropped_zero CacheStats.dropped_add (nodup_touched offset len) _

/-- A flush writes the dirty words of a range back and keeps their copies. All else stays. -/
structure Flushed (c' : Cache) (m' : Block) : Prop where
  line : ∀ i, c'.line i = if Covers offset len i then (c.line i).flushed else c.line i
  memory : ∀ i, m'.get i =
    if Covers offset len i then (c.line i).unsaved?.getD (m.get i) else m.get i
  stats : c'.stats =
    { c.stats with
      flushes := c.stats.flushes + 1
      writeBacks := c.stats.writeBacks + .ofNat (c.dirtyWithin offset len).card }

/-- An invalidate drops the words of a range. All else stays, and so does memory. -/
structure Invalidated (c' : Cache) : Prop where
  line : ∀ i, c'.line i = if Covers offset len i then .invalid else c.line i
  stats : c'.stats =
    { c.stats with
      invalidates := c.stats.invalidates + 1
      discarded := c.stats.discarded + .ofNat (c.dirtyWithin offset len).card }

theorem flushed_flush :
    c.Flushed m offset len (c.flush m offset len).1 (c.flush m offset len).2 where
  line i := c.line_flush m i offset len
  memory i := c.get_flush m i offset len
  stats := c.stats_flush m offset len

theorem invalidated_invalidate : c.Invalidated offset len (c.invalidate offset len) where
  line i := c.line_invalidate_range i offset len
  stats := c.stats_invalidate offset len

theorem ext_line {c d : Cache} (h : ∀ i, c.line i = d.line i) : c.lines = d.lines := by
  apply Vector.ext
  intro i hi
  exact h ⟨i, hi⟩

variable {c m offset len} {c' c'' : Cache} {m' m'' : Block}

theorem Flushed.again (h : c.Flushed m offset len c' m') (h' : c'.Flushed m' offset len c'' m'') :
    c''.lines = c'.lines ∧ m'' = m' := by
  constructor
  · apply ext_line
    intro i
    rw [h'.line, h.line]
    by_cases hi : Covers offset len i
    · rw [if_pos hi, if_pos hi]
      cases c.line i <;> rfl
    · rw [if_neg hi, if_neg hi]
  · apply Block.ext_get
    intro i
    rw [h'.memory, h.line]
    by_cases hi : Covers offset len i
    · rw [if_pos hi, if_pos hi, Line.unsaved?_flushed]
      rfl
    · rw [if_neg hi]

theorem Invalidated.again (h : c.Invalidated offset len c') (h' : c'.Invalidated offset len c'') :
    c''.lines = c'.lines := by
  apply ext_line
  intro i
  rw [h'.line, h.line]
  by_cases hi : Covers offset len i
  · rw [if_pos hi, if_pos hi]
  · rw [if_neg hi, if_neg hi]

end Cache

namespace Window

variable (c : Cache) (m : Block) {offset len : UInt64}

theorem run?_flush (h : offset.toNat + len.toNat < UInt64.size) :
    run? (.cached c) m (.flush offset len) =
      some (.done, .cached (c.flush m offset len).1, (c.flush m offset len).2) :=
  if_pos (decide_eq_true h)

theorem run?_invalidate (h : offset.toNat + len.toNat < UInt64.size) :
    run? (.cached c) m (.invalidate offset len) =
      some (.done, .cached (c.invalidate offset len), m) :=
  if_pos (decide_eq_true h)

end Window

/-- What maintenance of a byte range comes to, for a window over a memory. -/
structure Cache.Maintains (c : Cache) (m : Block) (offset len : UInt64) : Prop where
  /-- Every number that the range is worked out to is that of a word. -/
  numbers : (wordNumbers offset len).mapM wordOf? = some (touched offset len)
  covered : ∀ i, i ∈ touched offset len ↔ Covers offset len i
  flush : ∃ c' m', Window.run? (.cached c) m (.flush offset len) = some (.done, .cached c', m') ∧
    c.Flushed m offset len c' m' ∧
    ∃ c'', Window.run? (.cached c') m' (.flush offset len) = some (.done, .cached c'', m') ∧
      c''.lines = c'.lines
  invalidate : ∃ c', Window.run? (.cached c) m (.invalidate offset len) =
      some (.done, .cached c', m) ∧
    c.Invalidated offset len c' ∧
    ∃ c'', Window.run? (.cached c') m (.invalidate offset len) = some (.done, .cached c'', m) ∧
      c''.lines = c'.lines

/-- Whatever a window has cached, maintenance of a byte range touches the words that the range
covers and no others, wherever the range begins and however far it reaches past the block. -/
theorem Cache.maintains_range (c : Cache) (m : Block) {offset len : UInt64}
    (h : offset.toNat + len.toNat < UInt64.size) : c.Maintains m offset len where
  numbers := mapM_wordOf? offset len
  covered _ := mem_touched_iff
  flush := by
    have hfirst := c.flushed_flush m offset len
    have hsecond := (c.flush m offset len).1.flushed_flush (c.flush m offset len).2 offset len
    obtain ⟨hlines, hmemory⟩ := hfirst.again hsecond
    have hagain := Window.run?_flush (c.flush m offset len).1 (c.flush m offset len).2 h
    rw [hmemory] at hagain
    exact ⟨_, _, Window.run?_flush c m h, hfirst, _, hagain, hlines⟩
  invalidate := by
    have hfirst := c.invalidated_invalidate offset len
    have hsecond := (c.invalidate offset len).invalidated_invalidate offset len
    exact ⟨_, Window.run?_invalidate c m h, hfirst, _, Window.run?_invalidate _ m h,
      hfirst.again hsecond⟩

/-- The range begins within word 3 and ends far beyond the block. Two of its words are dirty. -/
theorem maintains_range_past_block :
    let c : Cache := ⟨#v[.dirty 1, .clean 2, .invalid, .dirty 4, .clean 5, .dirty 6], .zero⟩
    let len : UInt64 := 0xFFFFFFFFFFFFFFF0
    (13 : UInt64).toNat + len.toNat < UInt64.size ∧ c.Maintains .zero 13 len ∧
      (c.dirtyWithin 13 len).card = 2 ∧ wordNumbers 13 len = [3, 4, 5] := by
  intro c len
  have hfits : (13 : UInt64).toNat + len.toNat < UInt64.size := by decide
  exact ⟨hfits, c.maintains_range .zero hfits, by decide, by decide⟩

end Handoff
