import Handoff.Proofs.AccessCounts
import Handoff.Proofs.Maintenance

namespace Handoff

open BusEvent

namespace Bus

def after (b : Bus) : BusEvent → Bus
  | .opened _ => { b with windows := b.windows ++ [WindowKind.cached.newWindow] }
  | .ran w op _ => ((b.run? w op).map Prod.snd).getD b

/-- The cache of a window. One that is not open yet is empty. -/
def cache (b : Bus) (w : Nat) : Cache := (b.windows[w]?.bind Window.cache?).getD .empty

theorem cache_of_getElem? {b : Bus} {w : Nat} {c : Cache} (h : b.windows[w]? = some (.cached c)) :
    b.cache w = c := by
  rw [cache, h]
  rfl

theorem cache_opened (b : Bus) (w : Nat) :
    Bus.cache { b with windows := b.windows ++ [WindowKind.cached.newWindow] } w = b.cache w := by
  rcases Nat.lt_trichotomy w b.windows.length with hw | rfl | hw
  · rw [cache, List.getElem?_append_left hw]
    rfl
  · rw [cache, List.getElem?_concat_length, cache, List.getElem?_eq_none (Nat.le_refl _)]
    rfl
  · rw [cache, List.getElem?_eq_none (by rw [List.length_append]; exact hw), cache,
      List.getElem?_eq_none (Nat.le_of_lt hw)]

end Bus

def busAfter (m : Block) (t : List BusEvent) : Bus := t.foldl Bus.after ⟨m, []⟩

namespace BusRun

variable {m : Block} {t : List BusEvent} {b b' : Bus} {w : Nat} {op : BusOp} {reply : BusReply}

theorem busAfter_eq (h : BusRun m t b) : busAfter m t = b := by
  induction h with
  | start => rfl
  | opened h ih =>
    rw [busAfter, List.foldl_append, ← busAfter, ih]
    rfl
  | ran h hr ih =>
    rw [busAfter, List.foldl_append, ← busAfter, ih, List.foldl_cons, Bus.after, hr]
    rfl

theorem runs (h : BusRun m t b) (hr : b.run? w op = some (reply, b')) :
    (b.cache w).Runs b.memory op reply (b'.cache w) b'.memory ∧
      ∀ v, w ≠ v → b'.cache v = b.cache v := by
  obtain ⟨x, y, m', hx, hy, rfl⟩ := Bus.exists_of_run? hr
  obtain ⟨c, rfl, -⟩ := h.undergoes hx
  obtain ⟨c', rfl, hrun⟩ := Cache.runs_of_run? hy
  obtain ⟨hlt, -⟩ := List.getElem?_eq_some_iff.1 hx
  have hc' : Bus.cache ⟨m', b.windows.set w (.cached c')⟩ w = c' :=
    Bus.cache_of_getElem? (List.getElem?_set_self hlt)
  constructor
  · rw [Bus.cache_of_getElem? hx, hc']
    exact hrun
  · intro v hv
    rw [Bus.cache, List.getElem?_set_ne hv]
    rfl

end BusRun

theorem toNat_add_ofNat {a : UInt32} {n : Nat} (h : a.toNat + n < UInt32.size) :
    (a + .ofNat n).toNat = a.toNat + n := by
  rw [UInt32.toNat_add, UInt32.toNat_ofNat_of_lt' (Nat.lt_of_add_left_lt h), Nat.mod_eq_of_lt h]

namespace Cache

def storesFresh (c : Cache) : BusOp → Bool
  | .store offset _ => (wordIndex? offset).any fun i => !(c.line i).isDirty
  | _ => false

def loadMisses (c : Cache) : BusOp → Bool
  | .load offset => (wordIndex? offset).any fun i => !c.isCached i
  | _ => false

/-- What became of stored values: they were written back, dropped, or are still dirty. -/
def accounted (c : Cache) : Nat :=
  c.stats.writeBacks.toNat + c.stats.discarded.toNat + c.dirtyWords.card

variable (c : Cache) (m : Block) (i : WordIndex) (offset len : UInt64)

theorem line_empty : empty.line i = .invalid := Vector.getElem_replicate i.isLt

theorem accounted_empty : empty.accounted = 0 := by decide

theorem card_dirtyWithin_add :
    (c.dirtyWithin offset len).card + (c.dirtyWords.filter (¬ Covers offset len ·)).card =
      c.dirtyWords.card :=
  Finset.card_filter_add_card_filter_not _

theorem dirtyWords_store (v : UInt32) : (c.store i v).dirtyWords = insert i c.dirtyWords := by
  ext j
  rw [Finset.mem_insert, mem_dirtyWords, mem_dirtyWords, line_store_eq]
  by_cases h : i = j
  · subst j
    simp [Line.isDirty]
  · simp [h, Ne.symm h]

theorem dirtyWords_load : (c.load m i).2.dirtyWords = c.dirtyWords := by
  ext j
  rw [mem_dirtyWords, mem_dirtyWords, line_load]
  split
  · next h =>
    rw [h.2]
    rfl
  · rfl

theorem dirtyWords_flush :
    (c.flush m offset len).1.dirtyWords = c.dirtyWords.filter (¬ Covers offset len ·) := by
  ext j
  rw [Finset.mem_filter, mem_dirtyWords, mem_dirtyWords, line_flush]
  split
  · next h =>
    cases c.line j <;> simp [Line.flushed, Line.isDirty, h]
  · next h => simp [h]

theorem dirtyWords_invalidate :
    (c.invalidate offset len).dirtyWords = c.dirtyWords.filter (¬ Covers offset len ·) := by
  ext j
  rw [Finset.mem_filter, mem_dirtyWords, mem_dirtyWords, line_invalidate_range]
  split
  · next h => simp [Line.isDirty, h]
  · next h => simp [h]

theorem stats_load :
    (c.load m i).2.stats =
      { c.stats with misses := c.stats.misses + .ofNat (!c.isCached i).toNat } := by
  unfold load isCached
  cases (c.line i).copy? with
  | some v => exact congrArg (fun n => { c.stats with misses := n }) (UInt32.add_zero _).symm
  | none => rfl

variable {c m} {c' : Cache} {m' : Block} {op : BusOp} {reply : BusReply}

theorem storesFresh_store (h : Names offset i) (v : UInt32) :
    c.storesFresh (.store offset v) = !(c.line i).isDirty := by
  rw [storesFresh, wordIndex?_eq_some_iff.2 h, Option.any_some]

theorem loadMisses_load (h : Names offset i) : c.loadMisses (.load offset) = !c.isCached i := by
  rw [loadMisses, wordIndex?_eq_some_iff.2 h, Option.any_some]

/-- What an operation finds dirty and cleans, it counts. -/
theorem Runs.accounted (h : c.Runs m op reply c' m') (hc : c.accounted < UInt32.size) :
    c'.accounted = c.accounted + (c.storesFresh op).toNat := by
  unfold Cache.accounted at hc ⊢
  cases h with
  | @load offset i hi =>
    rw [stats_load, dirtyWords_load]
    rfl
  | @store offset i hi v =>
    rw [storesFresh_store i offset hi, dirtyWords_store]
    cases hd : (c.line i).isDirty with
    | true =>
      rw [Finset.insert_eq_of_mem ((c.mem_dirtyWords i).2 hd)]
      rfl
    | false =>
      have hi : i ∉ c.dirtyWords := by
        rw [mem_dirtyWords, hd]
        exact Bool.false_ne_true
      rw [Finset.card_insert_of_notMem hi]
      rfl
  | flush offset len =>
    have hsum := c.card_dirtyWithin_add offset len
    have hadd := toNat_add_ofNat (a := c.stats.writeBacks)
      (n := (c.dirtyWithin offset len).card) (by omega)
    simp only [stats_flush, dirtyWords_flush, hadd, storesFresh, Bool.toNat_false]
    omega
  | invalidate offset len =>
    have hsum := c.card_dirtyWithin_add offset len
    have hadd := toNat_add_ofNat (a := c.stats.discarded)
      (n := (c.dirtyWithin offset len).card) (by omega)
    simp only [stats_invalidate, dirtyWords_invalidate, hadd, storesFresh, Bool.toNat_false]
    omega
  | fence => rfl
  | isCached hi => rfl

theorem Runs.misses (h : c.Runs m op reply c' m') (hc : c.stats.misses.toNat + 1 < UInt32.size) :
    c'.stats.misses.toNat = c.stats.misses.toNat + (c.loadMisses op).toNat := by
  cases h with
  | @load offset i hi =>
    have hone := (!c.isCached i).toNat_le
    rw [stats_load, loadMisses_load i offset hi]
    exact toNat_add_ofNat (by omega)
  | store hi v => rfl
  | flush offset len =>
    rw [stats_flush]
    rfl
  | invalidate offset len =>
    rw [stats_invalidate]
    rfl
  | fence => rfl
  | isCached hi => rfl

end Cache

def BusOp.stored? (i : WordIndex) : BusOp → Option UInt32
  | .store offset v => if wordIndex? offset = some i then some v else none
  | _ => none

theorem BusOp.stored?_store {offset : UInt64} {i j : WordIndex} (h : Names offset j) (v : UInt32) :
    (store offset v).stored? i = if j = i then some v else none := by
  simp only [stored?, wordIndex?_eq_some_iff.2 h, Option.some_inj]

/-- The value that the window stored in the word last, or else the initial word. -/
def latest (m : Block) (w : Nat) (t : List BusEvent) (i : WordIndex) : UInt32 :=
  ((operationsOf w t).filterMap (BusOp.stored? i)).getLast?.getD (m.get i)

/-- What a line and its word in memory are when the newest value was not lost. -/
inductive Line.Keeps (newest : UInt32) : Line → UInt32 → Prop
  | invalid : Keeps newest .invalid newest
  | clean : Keeps newest (.clean newest) newest
  | dirty (word : UInt32) : Keeps newest (.dirty newest) word

namespace Line.Keeps

variable {l : Line} {word newest : UInt32}

theorem copy (h : l.Keeps newest word) : l.copy?.getD word = newest := by
  cases h <;> rfl

theorem loaded (h : l.Keeps newest word) (hl : l = .invalid) :
    (Line.clean word).Keeps newest word := by
  subst l
  cases h
  exact .clean

theorem flushed (h : l.Keeps newest word) : l.flushed.Keeps newest (l.unsaved?.getD word) := by
  cases h with
  | invalid => exact .invalid
  | clean => exact .clean
  | dirty word => exact .clean

theorem dropped (h : l.Keeps newest word) (hd : l.isDirty = false) :
    Line.invalid.Keeps newest word := by
  cases h with
  | invalid => exact .invalid
  | clean => exact .invalid
  | dirty word => cases hd

end Line.Keeps

section Latest

variable (m : Block) {w : Nat} (t : List BusEvent) (i : WordIndex)

theorem latest_own (op : BusOp) (reply : BusReply) :
    latest m w (t ++ [.ran w op reply]) i = (op.stored? i).getD (latest m w t i) := by
  rw [latest, operationsOf_own, getLast?_filterMap_snoc]
  cases op.stored? i <;> rfl

theorem latest_other {w' : Nat} (h : w' ≠ w) (op : BusOp) (reply : BusReply) :
    latest m w (t ++ [.ran w' op reply]) i = latest m w t i := by
  rw [latest, operationsOf_other h, ← latest]

theorem latest_opened (w' : Nat) : latest m w (t ++ [.opened w']) i = latest m w t i := by
  rw [latest, operationsOf_opened, ← latest]

end Latest

namespace Cache

variable {c c' : Cache} {m m' : Block} {offset len : UInt64} {op : BusOp} {reply : BusReply}

/-- As the counter cannot turn over to zero, there was nothing to drop. -/
theorem clean_of_discarded_eq_zero (hc : c.accounted < UInt32.size)
    (h : (c.invalidate offset len).stats.discarded = 0) :
    c.stats.discarded = 0 ∧ ∀ i, Covers offset len i → (c.line i).isDirty = false := by
  have hsum := c.card_dirtyWithin_add offset len
  unfold accounted at hc
  rw [stats_invalidate] at h
  have hzero : c.stats.discarded.toNat + (c.dirtyWithin offset len).card = 0 := by
    rw [← toNat_add_ofNat (by omega)]
    exact congrArg UInt32.toNat h
  obtain ⟨hbefore, hnone⟩ := Nat.add_eq_zero_iff.1 hzero
  refine ⟨UInt32.toNat_inj.1 hbefore, fun i hi => ?_⟩
  rw [Finset.card_eq_zero] at hnone
  by_contra hd
  rw [Bool.not_eq_false] at hd
  have hmem : i ∈ c.dirtyWithin offset len :=
    Finset.mem_filter.2 ⟨(c.mem_dirtyWords i).2 hd, hi⟩
  rw [hnone] at hmem
  exact Finset.notMem_empty i hmem

theorem Runs.discarded_eq_zero (h : c.Runs m op reply c' m') (hc : c.accounted < UInt32.size)
    (h' : c'.stats.discarded = 0) : c.stats.discarded = 0 := by
  cases h with
  | load hi =>
    rw [stats_load] at h'
    exact h'
  | store hi v => exact h'
  | flush offset len =>
    rw [stats_flush] at h'
    exact h'
  | invalidate offset len => exact (clean_of_discarded_eq_zero hc h').1
  | fence => exact h'
  | isCached hi => exact h'

/-- An operation keeps the newest values if it drops none of them. -/
theorem Runs.keeps {newest : WordIndex → UInt32} (h : c.Runs m op reply c' m')
    (hc : c.accounted < UInt32.size) (h' : c'.stats.discarded = 0)
    (hk : ∀ i, (c.line i).Keeps (newest i) (m.get i)) (i : WordIndex) :
    (c'.line i).Keeps ((op.stored? i).getD (newest i)) (m'.get i) := by
  cases h with
  | load hj =>
    rw [line_load]
    split
    · next h => exact (hk i).loaded h.2
    · exact hk i
  | @store offset j hj v =>
    rw [line_store_eq, BusOp.stored?_store hj]
    split
    · exact .dirty _
    · exact hk i
  | flush offset len =>
    rw [line_flush, get_flush]
    split
    · exact (hk i).flushed
    · exact hk i
  | invalidate offset len =>
    rw [line_invalidate_range]
    split
    · next hi => exact (hk i).dropped ((clean_of_discarded_eq_zero hc h').2 i hi)
    · exact hk i
  | fence => exact hk i
  | isCached hj => exact hk i

theorem Runs.loads {w w' : Nat} {i : WordIndex} {v : UInt32} (h : c.Runs m op reply c' m')
    (hl : Loads w i v (.ran w' op reply)) : w' = w ∧ (c.line i).copy?.getD (m.get i) = v := by
  cases h with
  | @load offset j hj =>
    obtain ⟨hw, hi, hv⟩ := hl
    cases hi.unique hj
    exact ⟨hw, (c.load_fst m i).symm.trans hv⟩
  | _ => exact hl.elim

end Cache

/-- How many operations of the window were of a kind, in view of what it had cached at each. -/
def ownTally (m : Block) (w : Nat) (kind : Cache → BusOp → Bool) (t : List BusEvent) : Nat :=
  tally (fun past e => (e.operation? w).any (kind ((busAfter m past).cache w))) t

/-- Nothing that other windows did changed memory. -/
def OnlyWriter (m : Block) (w : Nat) (t : List BusEvent) : Prop :=
  Throughout (fun past e => e.operation? w = none →
    (busAfter m (past ++ [e])).memory = (busAfter m past).memory) t

instance (m : Block) (w : Nat) (t : List BusEvent) : Decidable (OnlyWriter m w t) :=
  inferInstanceAs (Decidable (Throughout _ t))

/-- A load through the window, as long as it is the only writer and none of its values was
dropped, returns what it stored in the word last. -/
def LoadsLatest (m : Block) (w : Nat) (past : List BusEvent) (e : BusEvent) : Prop :=
  OnlyWriter m w past → ((busAfter m past).cache w).stats.discarded = 0 →
    ∀ i v, Loads w i v e → v = latest m w past i

section Tally

variable (m : Block) (w : Nat) (kind : Cache → BusOp → Bool) (t : List BusEvent)

theorem ownTally_snoc (e : BusEvent) :
    ownTally m w kind (t ++ [e]) =
      ownTally m w kind t + ((e.operation? w).any (kind ((busAfter m t).cache w))).toNat :=
  tally_snoc _ t e

theorem ownTally_le : ownTally m w kind t ≤ (operationsOf w t).length := by
  induction t using List.reverseRecOn with
  | nil => exact Nat.le_refl 0
  | append_singleton t e ih =>
    rw [ownTally_snoc, operationsOf_snoc, List.length_append]
    apply Nat.add_le_add ih
    cases e.operation? w with
    | none => exact Nat.le_refl 0
    | some op => exact Bool.toNat_le _

end Tally

namespace BusRun

variable {m : Block} {t : List BusEvent} {b : Bus} {w : Nat}

theorem count_eq (count : Cache → Nat) (kind : Cache → BusOp → Bool) (hempty : count .empty = 0)
    (hruns : ∀ {c m op reply c' m'}, Cache.Runs c m op reply c' m' → count c + 1 < UInt32.size →
      count c' = count c + (kind c op).toNat)
    (h : BusRun m t b) (ht : (operationsOf w t).length < UInt32.size) :
    count (b.cache w) = ownTally m w kind t := by
  induction h with
  | start => exact hempty
  | opened h ih =>
    rw [operationsOf_opened] at ht
    rw [Bus.cache_opened, ownTally_snoc]
    exact ih ht
  | @ran t b b' w' op reply h hr ih =>
    obtain ⟨hown, hothers⟩ := h.runs hr
    rw [ownTally_snoc, h.busAfter_eq, BusEvent.operation?]
    by_cases hw : w' = w
    · subst w'
      rw [operationsOf_own, List.length_append, List.length_singleton] at ht
      -- no more is counted than the window did, and so the counter has room for one more
      have hle := ownTally_le m w kind t
      have hcount := ih (by omega)
      rw [if_pos rfl, Option.any_some, ← hcount]
      exact hruns hown (by omega)
    · rw [operationsOf_other hw] at ht
      rw [if_neg hw, hothers w hw]
      exact ih ht

theorem accounted_eq (h : BusRun m t b) (ht : (operationsOf w t).length < UInt32.size) :
    (b.cache w).accounted = ownTally m w Cache.storesFresh t :=
  count_eq _ _ Cache.accounted_empty (fun hr hc => hr.accounted (Nat.lt_of_succ_lt hc)) h ht

theorem accounted_lt (h : BusRun m t b) (ht : (operationsOf w t).length < UInt32.size) :
    (b.cache w).accounted < UInt32.size := by
  rw [h.accounted_eq ht]
  exact Nat.lt_of_le_of_lt (ownTally_le m w _ t) ht

theorem misses_eq (h : BusRun m t b) (ht : (operationsOf w t).length < UInt32.size) :
    (b.cache w).stats.misses.toNat = ownTally m w Cache.loadMisses t :=
  count_eq (fun c => c.stats.misses.toNat) _ rfl Cache.Runs.misses h ht

/-- As long as nothing was dropped, the only writer has or has written the newest values. -/
theorem keeps (h : BusRun m t b) (ht : (operationsOf w t).length < UInt32.size)
    (hwriter : OnlyWriter m w t) (hdropped : (b.cache w).stats.discarded = 0) (i : WordIndex) :
    ((b.cache w).line i).Keeps (latest m w t i) (b.memory.get i) := by
  induction h generalizing i with
  | start =>
    change (Cache.empty.line i).Keeps (m.get i) (m.get i)
    rw [Cache.line_empty]
    exact .invalid
  | opened h ih =>
    rw [operationsOf_opened] at ht
    rw [Bus.cache_opened] at hdropped
    rw [Bus.cache_opened, latest_opened]
    exact ih ht (Throughout.snoc.1 hwriter).1 hdropped i
  | @ran t b b' w' op reply h hr ih =>
    obtain ⟨hpast, hlast⟩ := Throughout.snoc.1 hwriter
    obtain ⟨hown, hothers⟩ := h.runs hr
    by_cases hw : w' = w
    · subst w'
      rw [operationsOf_own, List.length_append, List.length_singleton] at ht
      have ht := Nat.lt_of_succ_lt ht
      have hsize := h.accounted_lt ht
      have hbefore := hown.discarded_eq_zero hsize hdropped
      rw [latest_own]
      exact hown.keeps hsize hdropped (ih ht hpast hbefore) i
    · rw [operationsOf_other hw] at ht
      rw [hothers w hw] at hdropped
      rw [(h.ran hr).busAfter_eq, h.busAfter_eq] at hlast
      rw [hothers w hw, latest_other m t i hw, hlast (if_neg hw)]
      exact ih ht hpast hdropped i

theorem loadsLatest (h : BusRun m t b) (ht : (operationsOf w t).length < UInt32.size) :
    Throughout (LoadsLatest m w) t := by
  induction h with
  | start => exact .nil
  | opened h ih =>
    rw [operationsOf_opened] at ht
    exact Throughout.snoc.2 ⟨ih ht, fun _ _ i v hload => hload.elim⟩
  | @ran t b b' w' op reply h hr ih =>
    rw [operationsOf_snoc, List.length_append] at ht
    have ht := Nat.lt_of_le_of_lt (Nat.le_add_right _ _) ht
    refine Throughout.snoc.2 ⟨ih ht, ?_⟩
    intro hwriter hdropped i v hload
    obtain ⟨hown, -⟩ := h.runs hr
    obtain ⟨rfl, rfl⟩ := hown.loads hload
    rw [h.busAfter_eq] at hdropped
    exact (h.keeps ht hwriter hdropped i).copy

end BusRun

structure Cache.Balances (c : Cache) (m : Block) (t : List BusEvent) (w : Nat) : Prop where
  /-- What a store made dirty was written back, was dropped or is dirty now. -/
  stores : ownTally m w storesFresh t =
    c.stats.writeBacks.toNat + c.stats.discarded.toNat + c.dirtyWords.card
  loads : ownTally m w loadMisses t = c.stats.misses.toNat
  latest : Throughout (LoadsLatest m w) t

/-- Whatever other windows do on the same memory, each value that a window stored is accounted for,
and so is each miss. A load returns what was stored last, as long as nothing else writes to the
memory and nothing was dropped. -/
theorem BusRun.stores_accounted {m : Block} {t : List BusEvent} {b : Bus} (h : BusRun m t b)
    {w : Nat} {x : Window} (hx : b.windows[w]? = some x)
    (ht : (operationsOf w t).length < UInt32.size) :
    ∃ c, x = .cached c ∧ c.Balances m t w := by
  obtain ⟨c, rfl, -⟩ := h.undergoes hx
  rw [← Bus.cache_of_getElem? hx]
  exact ⟨_, rfl, (h.accounted_eq ht).symm, (h.misses_eq ht).symm, h.loadsLatest ht⟩

/-- Of three words that the window makes dirty one is written back, one is dropped and one is dirty
at the end. Until the drop its loads return what it stored, while another window reads the block
and stores without a flush. -/
theorem stores_accounted_dropped :
    let t : List BusEvent := [.opened 0, .opened 1, .ran 0 (.store 20 5) .done,
      .ran 1 (.load 20) (.word 0), .ran 0 (.store 22 6) .done, .ran 1 (.store 20 7) .done,
      .ran 0 (.flush 0 24) .done, .ran 0 (.invalidate 20 4) .done, .ran 0 (.load 20) (.word 6)]
    let t' : List BusEvent := t ++ [.ran 0 (.store 16 9) .done, .ran 0 (.invalidate 19 1) .done,
      .ran 0 (.store 0 1) .done]
    ∃ b c, BusRun .zero t' b ∧ b.windows[0]? = some (.cached c) ∧
      (operationsOf 0 t').length < UInt32.size ∧ c.Balances .zero t' 0 ∧
      ownTally .zero 0 Cache.storesFresh t' = 3 ∧ ownTally .zero 0 Cache.loadMisses t' = 1 ∧
      OnlyWriter .zero 0 t ∧ ((busAfter .zero t).cache 0).stats.discarded = 0 := by
  intro t t'
  have h₀ := BusRun.start (m := .zero)
  have h₁ := h₀.opened.opened
  have h₂ := h₁.ran (w := 0) (o := .store 20 5) rfl
  have h₃ := h₂.ran (w := 1) (o := .load 20) rfl
  have h₄ := h₃.ran (w := 0) (o := .store 22 6) rfl
  have h₅ := h₄.ran (w := 1) (o := .store 20 7) rfl
  have h₆ := h₅.ran (w := 0) (o := .flush 0 24) rfl
  have h₇ := h₆.ran (w := 0) (o := .invalidate 20 4) rfl
  have h₈ := h₇.ran (w := 0) (o := .load 20) rfl
  have h₉ := h₈.ran (w := 0) (o := .store 16 9) rfl
  have h₁₀ := h₉.ran (w := 0) (o := .invalidate 19 1) rfl
  have h := h₁₀.ran (w := 0) (o := .store 0 1) rfl
  have hlen : (operationsOf 0 t').length < UInt32.size := by decide
  obtain ⟨c, hx, hbalances⟩ := h.stores_accounted rfl hlen
  exact ⟨_, c, h, congrArg some hx, hlen, hbalances, by decide, by decide, by decide, by decide⟩

end Handoff
