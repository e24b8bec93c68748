import Handoff.Proofs.CacheHistory
import Handoff.Proofs.Ownership

namespace Handoff

/-- What a side may do to a field through its link. -/
inductive Access (side : Side)
  | write (f : Field) (value : UInt32) (owned : f.owner = side)
  | read (f : Field) (peer : f.owner = side.peer)

namespace Access

variable {side : Side}

def perform (l : Link side) : Access side → Link side
  | write f v h => l.write f v h
  | read f h => (l.read f h).2

def operations : Access side → List BusOp
  | write f v _ => [.store f.offset v, .flush f.offset 4]
  | read f _ => [.invalidate f.offset 4, .fence, .load f.offset]

def isWrite : Access side → Bool
  | write _ _ _ => true
  | read _ _ => false

end Access

/-- Operations in a row, with nothing of other windows between them. -/
def Window.runAll? (w : Window) (m : Block) : List BusOp → Option (Window × Block)
  | [] => some (w, m)
  | op :: ops => do
    let (_, w, m) ← w.run? m op
    runAll? w m ops

theorem Window.takesRange_offset (w : Window) (f : Field) : w.takesRange f.offset 4 = true := by
  cases w with
  | direct o => rfl
  | cached c => cases f <;> rfl

/-- In a row, the operations of an access are what the link does. -/
theorem Access.runAll?_operations {side : Side} (a : Access side) (l : Link side) :
    l.window.runAll? l.memory a.operations = some ((a.perform l).window, (a.perform l).memory) := by
  cases a with
  | write f v h =>
    simp [operations, perform, Window.runAll?, Window.run?, f.wordIndex?_offset,
      Window.takesRange_offset, Link.write]
  | read f h =>
    simp [operations, perform, Window.runAll?, Window.run?, f.wordIndex?_offset,
      Window.takesRange_offset, Link.read]

/-- What becomes of an empty cache through its operations. Memory may hold anything at each. -/
inductive Cache.Undergoes : List BusOp → Cache → Prop
  | opened : Undergoes [] .empty
  | ran {ops : List BusOp} {op : BusOp} {c c' : Cache} {m m' : Block} {reply : BusReply}
      (h : Undergoes ops c) (hr : c.Runs m op reply c' m') : Undergoes (ops ++ [op]) c'

theorem Cache.Undergoes.cases_nil {c : Cache} (h : Undergoes [] c) : c = .empty := by
  generalize hl : [] = l at h
  cases h with
  | opened => rfl
  | ran h hr => simp at hl

theorem Cache.Undergoes.cases_snoc {ops : List BusOp} {op : BusOp} {c' : Cache}
    (h : Undergoes (ops ++ [op]) c') :
    ∃ c m reply m', Undergoes ops c ∧ c.Runs m op reply c' m' := by
  generalize hl : ops ++ [op] = l at h
  cases h with
  | opened => simp at hl
  | ran h hr =>
    obtain ⟨rfl, hop⟩ := List.append_inj' hl rfl
    cases hop
    exact ⟨_, _, _, _, h, hr⟩

theorem Cache.Undergoes.runAll? {before ops : List BusOp} {c : Cache} {m m' : Block} {x : Window}
    (h : c.Undergoes before) (hr : (Window.cached c).runAll? m ops = some (x, m')) :
    ∃ c', x = .cached c' ∧ c'.Undergoes (before ++ ops) := by
  induction ops generalizing before c m with
  | nil =>
    cases hr
    rw [List.append_nil]
    exact ⟨c, rfl, h⟩
  | cons op ops ih =>
    obtain ⟨⟨reply, y, m''⟩, hop, hrest⟩ := Option.bind_eq_some_iff.1 hr
    obtain ⟨d, rfl, hd⟩ := Cache.runs_of_run? hop
    obtain ⟨c', hx, hc'⟩ := ih (h.ran hd) hrest
    rw [List.append_assoc] at hc'
    exact ⟨c', hx, hc'⟩

/-- A link over a cache of its own, after some accesses. Between any two of them other windows may
leave anything in memory. -/
inductive Link.Performed {side : Side} : List (Access side) → Link side → Prop
  | opened (m : Block) : Performed [] ⟨.cached .empty, m⟩
  | access {as : List (Access side)} {l : Link side} (h : Performed as l) (a : Access side) :
      Performed (as ++ [a]) (a.perform l)
  | others {as : List (Access side)} {l : Link side} (h : Performed as l) (m : Block) :
      Performed as ⟨l.window, m⟩

theorem Link.Performed.undergoes {side : Side} {as : List (Access side)} {l : Link side}
    (h : Performed as l) :
    ∃ c, l.window = .cached c ∧ c.Undergoes (as.flatMap Access.operations) := by
  induction h with
  | opened m => exact ⟨.empty, rfl, .opened⟩
  | @access as l h a ih =>
    obtain ⟨c, hl, hc⟩ := ih
    have hrun := a.runAll?_operations l
    rw [hl] at hrun
    rw [List.flatMap_append, List.flatMap_singleton]
    exact hc.runAll? hrun
  | others h m ih => exact ih

def BusEvent.operation? (w : Nat) : BusEvent → Option BusOp
  | opened _ => none
  | ran w' op _ => if w' = w then some op else none

def operationsOf (w : Nat) (t : List BusEvent) : List BusOp := t.filterMap (BusEvent.operation? w)

theorem operationsOf_snoc (w : Nat) (t : List BusEvent) (e : BusEvent) :
    operationsOf w (t ++ [e]) = operationsOf w t ++ (e.operation? w).toList := filterMap_snoc _ t e

theorem operationsOf_own (w : Nat) (t : List BusEvent) (op : BusOp) (reply : BusReply) :
    operationsOf w (t ++ [.ran w op reply]) = operationsOf w t ++ [op] := by
  rw [operationsOf_snoc, BusEvent.operation?, if_pos rfl]
  rfl

theorem operationsOf_other {w w' : Nat} (h : w' ≠ w) (t : List BusEvent) (op : BusOp)
    (reply : BusReply) : operationsOf w (t ++ [.ran w' op reply]) = operationsOf w t := by
  rw [operationsOf_snoc, BusEvent.operation?, if_neg h]
  exact List.append_nil _

theorem operationsOf_opened (w w' : Nat) (t : List BusEvent) :
    operationsOf w (t ++ [.opened w']) = operationsOf w t := by
  rw [operationsOf_snoc]
  exact List.append_nil _

namespace BusRun

variable {m : Block} {t : List BusEvent} {b : Bus} {w : Nat}

theorem operationsOf_eq_nil (h : BusRun m t b) (hw : b.windows.length ≤ w) :
    operationsOf w t = [] := by
  induction h with
  | start => rfl
  | opened h ih =>
    rw [List.length_append] at hw
    rw [operationsOf_opened]
    exact ih (Nat.le_of_succ_le hw)
  | @ran t b b' w' op reply h hr ih =>
    obtain ⟨x, y, m', hx, -, rfl⟩ := Bus.exists_of_run? hr
    obtain ⟨hlt, -⟩ := List.getElem?_eq_some_iff.1 hx
    rw [List.length_set] at hw
    rw [operationsOf_other (by omega)]
    exact ih hw

theorem undergoes (h : BusRun m t b) {x : Window} (hx : b.windows[w]? = some x) :
    ∃ c, x = .cached c ∧ c.Undergoes (operationsOf w t) := by
  induction h generalizing x with
  | start => cases hx
  | @opened t b h ih =>
    rw [operationsOf_opened]
    rcases Nat.lt_trichotomy w b.windows.length with hw | rfl | hw
    · rw [List.getElem?_append_left hw] at hx
      exact ih hx
    · rw [List.getElem?_concat_length] at hx
      cases hx
      rw [h.operationsOf_eq_nil (Nat.le_refl _)]
      exact ⟨.empty, rfl, .opened⟩
    · rw [List.getElem?_eq_none (by rw [List.length_append]; exact hw)] at hx
      cases hx
  | @ran t b b' w' op reply h hr ih =>
    obtain ⟨y, z, m', hy, hz, rfl⟩ := Bus.exists_of_run? hr
    by_cases hw : w' = w
    · subst w'
      obtain ⟨c, rfl, hc⟩ := ih hy
      obtain ⟨c', rfl, hrun⟩ := Cache.runs_of_run? hz
      obtain ⟨hlt, -⟩ := List.getElem?_eq_some_iff.1 hy
      rw [List.getElem?_set_self hlt] at hx
      cases hx
      rw [operationsOf_own]
      exact ⟨c', rfl, hc.ran hrun⟩
    · rw [List.getElem?_set_ne hw] at hx
      rw [operationsOf_other hw]
      exact ih hx

end BusRun

section Accesses

variable {side : Side}

def writes (as : List (Access side)) : Nat := as.countP (·.isWrite)

def reads (as : List (Access side)) : Nat := as.countP (!·.isWrite)

def CacheStats.after (writes reads : Nat) : CacheStats where
  flushes := .ofNat writes
  writeBacks := .ofNat writes
  invalidates := .ofNat reads
  discarded := 0
  fences := .ofNat reads
  misses := .ofNat reads

namespace Cache.Undergoes

variable {ops : List BusOp} {c' : Cache}

theorem write {f : Field} {v : UInt32} {owned : f.owner = side}
    (h : Undergoes (ops ++ (Access.write f v owned).operations) c') :
    ∃ c, Undergoes ops c ∧ c' = c.written f.index v := by
  have h : Undergoes ((ops ++ [.store f.offset v]) ++ [.flush f.offset 4]) c' := by
    rw [List.append_assoc]
    exact h
  obtain ⟨d, m, _, _, hd, hflush⟩ := h.cases_snoc
  obtain ⟨c, _, _, _, hc, hstore⟩ := hd.cases_snoc
  cases hstore with
  | store hi =>
    cases hi.unique (wordIndex?_eq_some_iff.1 f.wordIndex?_offset)
    cases hflush with
    | flush => exact ⟨c, hc, congrArg Prod.fst (c.flush_store m f v)⟩

/-- The load of a read misses, as the word was dropped before. -/
theorem read {f : Field} {peer : f.owner = side.peer}
    (h : Undergoes (ops ++ (Access.read f peer).operations) c') :
    ∃ c, Undergoes ops c ∧ (c.Tidy → ∃ v, c' = c.refreshed f.index v) := by
  have h : Undergoes (((ops ++ [.invalidate f.offset 4]) ++ [.fence]) ++ [.load f.offset]) c' := by
    rw [List.append_assoc, List.append_assoc]
    exact h
  obtain ⟨e, m, _, _, he, hload⟩ := h.cases_snoc
  obtain ⟨d, _, _, _, hd, hfence⟩ := he.cases_snoc
  obtain ⟨c, _, _, _, hc, hinvalidate⟩ := hd.cases_snoc
  refine ⟨c, hc, fun ht => ⟨m.field f, ?_⟩⟩
  cases hinvalidate with
  | invalidate =>
    cases hfence with
    | fence =>
      cases hload with
      | load hi =>
        cases hi.unique (wordIndex?_eq_some_iff.1 f.wordIndex?_offset)
        exact congrArg Prod.snd (load_invalidate m (ht.clean f.index))

/-- Between accesses no word is dirty, and the counters show how many there have been. -/
theorem accesses {as : List (Access side)} {c : Cache}
    (h : c.Undergoes (as.flatMap Access.operations)) :
    c.Tidy ∧ c.stats = .after (writes as) (reads as) := by
  induction as using List.reverseRecOn generalizing c with
  | nil =>
    cases h.cases_nil
    exact ⟨.empty, rfl⟩
  | append_singleton as a ih =>
    rw [List.flatMap_append, List.flatMap_singleton] at h
    cases a with
    | write f v owned =>
      obtain ⟨d, hd, rfl⟩ := h.write
      obtain ⟨ht, hs⟩ := ih hd
      refine ⟨ht.written f.index v, ?_⟩
      rw [Cache.written, hs]
      simp [CacheStats.after, writes, reads, Access.isWrite, UInt32.ofNat_add]
    | read f peer =>
      obtain ⟨d, hd, hread⟩ := h.read
      obtain ⟨ht, hs⟩ := ih hd
      obtain ⟨v, rfl⟩ := hread ht
      refine ⟨ht.refreshed f.index v, ?_⟩
      rw [Cache.refreshed, hs]
      simp [CacheStats.after, writes, reads, Access.isWrite, UInt32.ofNat_add]

end Cache.Undergoes

structure CacheStats.Counts (s : CacheStats) (writes reads : Nat) : Prop where
  flushes : s.flushes.toNat = writes
  writeBacks : s.writeBacks.toNat = writes
  invalidates : s.invalidates.toNat = reads
  discarded : s.discarded = 0
  fences : s.fences.toNat = reads
  misses : s.misses.toNat = reads

theorem CacheStats.counts_after {writes reads : Nat} (h : writes + reads < UInt32.size) :
    (CacheStats.after writes reads).Counts writes reads := by
  have hw : (UInt32.ofNat writes).toNat = writes := UInt32.toNat_ofNat_of_lt' (by omega)
  have hr : (UInt32.ofNat reads).toNat = reads := UInt32.toNat_ofNat_of_lt' (by omega)
  exact ⟨hw, hw, hr, rfl, hr, hr⟩

theorem Cache.Undergoes.counts {as : List (Access side)} {c : Cache}
    (h : c.Undergoes (as.flatMap Access.operations)) (hlen : writes as + reads as < UInt32.size) :
    c.stats.Counts (writes as) (reads as) ∧ ∀ i, (c.line i).isDirty = false := by
  obtain ⟨ht, hs⟩ := h.accesses
  rw [hs]
  exact ⟨CacheStats.counts_after hlen, ht.clean⟩

/-- The accesses of a link are counted as the cache operations are that they consist of. -/
theorem Link.Performed.counts {as : List (Access side)} {l : Link side} (h : Performed as l)
    (hlen : writes as + reads as < UInt32.size) :
    ∃ c, l.window = .cached c ∧ c.stats.Counts (writes as) (reads as) ∧
      ∀ i, (c.line i).isDirty = false := by
  obtain ⟨c, hl, hc⟩ := h.undergoes
  exact ⟨c, hl, hc.counts hlen⟩

end Accesses

end Handoff
