import Handoff.Proofs.History
import Handoff.Proofs.Ranges

namespace Handoff

/-- Something that happened on a bus. Windows are numbered as they are opened. -/
inductive BusEvent
  | opened (w : Nat)
  | ran (w : Nat) (op : BusOp) (reply : BusReply)
deriving DecidableEq, Repr

/-- What can happen from a memory without windows on. -/
inductive BusRun (m : Block) : List BusEvent → Bus → Prop
  | start : BusRun m [] ⟨m, []⟩
  | opened {t : List BusEvent} {b : Bus} (h : BusRun m t b) :
      BusRun m (t ++ [.opened b.windows.length])
        { b with windows := b.windows ++ [WindowKind.cached.newWindow] }
  | ran {t : List BusEvent} {b b' : Bus} {w : Nat} {o : BusOp} {reply : BusReply}
      (h : BusRun m t b) (hr : b.run? w o = some (reply, b')) :
      BusRun m (t ++ [.ran w o reply]) b'

namespace BusEvent

def Opens (w : Nat) : BusEvent → Prop
  | opened w' => w' = w
  | _ => False

def Loads (w : Nat) (i : WordIndex) (v : UInt32) : BusEvent → Prop
  | ran w' (.load offset) (.word v') => w' = w ∧ Names offset i ∧ v' = v
  | _ => False

def Stores (w : Nat) (i : WordIndex) (v : UInt32) : BusEvent → Prop
  | ran w' (.store offset v') _ => w' = w ∧ Names offset i ∧ v' = v
  | _ => False

def Flushes (w : Nat) (i : WordIndex) : BusEvent → Prop
  | ran w' (.flush offset len) _ => w' = w ∧ Covers offset len i
  | _ => False

def Invalidates (w : Nat) (i : WordIndex) : BusEvent → Prop
  | ran w' (.invalidate offset len) _ => w' = w ∧ Covers offset len i
  | _ => False

end BusEvent

open BusEvent

/-- The window's latest load or store of the word, if it was not opened and has not invalidated the
word since. -/
def LastAccess (t : List BusEvent) (w : Nat) (i : WordIndex) (v : UInt32) : Prop :=
  Since (fun _ e => Loads w i v e ∨ Stores w i v e)
    (fun _ e => Opens w e ∨ Invalidates w i e ∨ ∃ u, Loads w i u e ∨ Stores w i u e) t

/-- The window's latest store of the word, if the window has neither flushed nor invalidated the
word since. -/
def Unsaved (t : List BusEvent) (w : Nat) (i : WordIndex) (v : UInt32) : Prop :=
  Since (fun _ e => Stores w i v e)
    (fun _ e => Opens w e ∨ Flushes w i e ∨ Invalidates w i e ∨ ∃ u, Stores w i u e) t

/-- After this history the event is a flush that finds the word dirty, with this value. -/
def WritesBack (i : WordIndex) (v : UInt32) (t : List BusEvent) (e : BusEvent) : Prop :=
  ∃ w, Flushes w i e ∧ Unsaved t w i v

/-- The value of the latest flush, by any window, that found the word dirty. -/
def LastWriteBack (t : List BusEvent) (i : WordIndex) (v : UInt32) : Prop :=
  Since (WritesBack i v) (fun t e => ∃ u, WritesBack i u t e) t

def Saved (m : Block) (t : List BusEvent) (i : WordIndex) (v : UInt32) : Prop :=
  LastWriteBack t i v ∨ (∀ u, ¬ LastWriteBack t i u) ∧ v = m.get i

structure Line.Recalls (l : Line) (t : List BusEvent) (w : Nat) (i : WordIndex) : Prop where
  copy : ∀ v, LastAccess t w i v ↔ l.copy? = some v
  unsaved : ∀ v, Unsaved t w i v ↔ l.unsaved? = some v

namespace Line.Recalls

variable {l : Line} {t : List BusEvent} {w : Nat} {i : WordIndex} {e : BusEvent}

theorem opened : Line.invalid.Recalls (t ++ [.opened w]) w i := by
  constructor <;> intro v <;>
    simp [LastAccess, Unsaved, Since.snoc, Opens, Loads, Stores, copy?, unsaved?]

/-- A window's line does not heed what others do, nor what it does itself to other words. -/
theorem aside (h : l.Recalls t w i) (ho : ¬ Opens w e) (hl : ∀ v, ¬ Loads w i v e)
    (hs : ∀ v, ¬ Stores w i v e) (hf : ¬ Flushes w i e) (hi : ¬ Invalidates w i e) :
    l.Recalls (t ++ [e]) w i := by
  constructor
  · intro v
    rw [← h.copy]
    simp [LastAccess, Since.snoc, ho, hl, hs, hi]
  · intro v
    rw [← h.unsaved]
    simp [Unsaved, Since.snoc, ho, hs, hf, hi]

theorem other (h : l.Recalls t w i) {w' : Nat} (hw : w' ≠ w) (op : BusOp) (reply : BusReply) :
    l.Recalls (t ++ [.ran w' op reply]) w i := by
  refine h.aside nofun ?_ ?_ ?_ ?_ <;> cases op <;> cases reply <;>
    simp [Loads, Stores, Flushes, Invalidates, hw]

theorem load (h : l.Recalls t w i) {offset : UInt64} {v : UInt32} {l' : Line}
    (ho : Names offset i) (hc : l'.copy? = some v) (hu : l'.unsaved? = l.unsaved?) :
    l'.Recalls (t ++ [.ran w (.load offset) (.word v)]) w i := by
  constructor
  · intro u
    simp [LastAccess, Since.snoc, Loads, Stores, ho, hc]
  · intro u
    rw [hu, ← h.unsaved]
    simp [Unsaved, Since.snoc, Stores, Opens, Flushes, Invalidates]

theorem store {offset : UInt64} {v : UInt32} (ho : Names offset i) :
    (Line.dirty v).Recalls (t ++ [.ran w (.store offset v) .done]) w i := by
  constructor <;> intro u <;>
    simp [LastAccess, Unsaved, Since.snoc, Loads, Stores, ho, copy?, unsaved?]

theorem flush (h : l.Recalls t w i) {offset len : UInt64} (hc : Covers offset len i) :
    l.flushed.Recalls (t ++ [.ran w (.flush offset len) .done]) w i := by
  constructor
  · intro u
    rw [copy?_flushed, ← h.copy]
    simp [LastAccess, Since.snoc, Loads, Stores, Opens, Invalidates]
  · intro u
    simp [Unsaved, Since.snoc, Stores, Flushes, hc]

theorem invalidate {offset len : UInt64} (hc : Covers offset len i) :
    Line.invalid.Recalls (t ++ [.ran w (.invalidate offset len) .done]) w i := by
  constructor <;> intro u <;>
    simp [LastAccess, Unsaved, Since.snoc, Loads, Stores, Invalidates, hc, copy?, unsaved?]

end Line.Recalls

theorem Saved.aside {m : Block} {t : List BusEvent} {e : BusEvent} {i : WordIndex} {v : UInt32}
    (h : Saved m t i v) (he : ∀ u, ¬ WritesBack i u t e) : Saved m (t ++ [e]) i v := by
  simpa [Saved, LastWriteBack, Since.snoc, he] using h

theorem Saved.now {m : Block} {t : List BusEvent} {e : BusEvent} {i : WordIndex} {v : UInt32}
    (h : WritesBack i v t e) : Saved m (t ++ [e]) i v :=
  .inl (Since.now h)

inductive Cache.Runs (c : Cache) (m : Block) : BusOp → BusReply → Cache → Block → Prop
  | load {offset : UInt64} {i : WordIndex} (h : Names offset i) :
      Runs c m (.load offset) (.word (c.load m i).1) (c.load m i).2 m
  | store {offset : UInt64} {i : WordIndex} (h : Names offset i) (v : UInt32) :
      Runs c m (.store offset v) .done (c.store i v) m
  | flush (offset len : UInt64) :
      Runs c m (.flush offset len) .done (c.flush m offset len).1 (c.flush m offset len).2
  | invalidate (offset len : UInt64) :
      Runs c m (.invalidate offset len) .done (c.invalidate offset len) m
  | fence : Runs c m .fence .done c.fence m
  | isCached {offset : UInt64} {i : WordIndex} (h : Names offset i) :
      Runs c m (.isCached offset) (.flag (c.isCached i)) c m

namespace Cache

variable {c c' : Cache} {m m' : Block} {op : BusOp} {reply : BusReply}

theorem runs_of_run? {x : Window}
    (h : Window.run? (.cached c) m op = some (reply, x, m')) :
    ∃ c', x = .cached c' ∧ c.Runs m op reply c' m' := by
  cases op with
  | load offset =>
    obtain ⟨i, hi, h⟩ := Option.bind_eq_some_iff.1 h
    cases h
    exact ⟨_, rfl, .load (wordIndex?_eq_some_iff.1 hi)⟩
  | store offset v =>
    obtain ⟨i, hi, h⟩ := Option.bind_eq_some_iff.1 h
    cases h
    exact ⟨_, rfl, .store (wordIndex?_eq_some_iff.1 hi) v⟩
  | flush offset len =>
    simp only [Window.run?, Option.ite_none_right_eq_some] at h
    cases h.2
    exact ⟨_, rfl, .flush offset len⟩
  | invalidate offset len =>
    simp only [Window.run?, Option.ite_none_right_eq_some] at h
    cases h.2
    exact ⟨_, rfl, .invalidate offset len⟩
  | fence =>
    cases h
    exact ⟨_, rfl, .fence⟩
  | isCached offset =>
    obtain ⟨i, hi, h⟩ := Option.bind_eq_some_iff.1 h
    cases h
    exact ⟨_, rfl, .isCached (wordIndex?_eq_some_iff.1 hi)⟩

variable {t : List BusEvent} {w : Nat}

theorem Runs.recalls (h : c.Runs m op reply c' m') (hc : ∀ i, (c.line i).Recalls t w i)
    (i : WordIndex) : (c'.line i).Recalls (t ++ [.ran w op reply]) w i := by
  cases h with
  | @load offset j hj =>
    by_cases hji : j = i
    · subst j
      exact (hc i).load hj (c.copy?_load m i) (c.unsaved?_load m i i)
    · have hi : ¬ Names offset i := fun hi => hji (hj.unique hi)
      rw [line_load, if_neg fun h => hji h.1]
      refine (hc i).aside nofun ?_ ?_ ?_ ?_ <;>
        simp [Loads, Stores, Flushes, Invalidates, hi]
  | @store offset j hj v =>
    rw [line_store_eq]
    split
    · subst j
      exact .store hj
    · rename_i hji
      have hi : ¬ Names offset i := fun hi => hji (hj.unique hi)
      refine (hc i).aside nofun ?_ ?_ ?_ ?_ <;>
        simp [Loads, Stores, Flushes, Invalidates, hi]
  | flush offset len =>
    rw [line_flush]
    split
    · exact (hc i).flush ‹_›
    · refine (hc i).aside nofun ?_ ?_ ?_ ?_ <;>
        simp [Loads, Stores, Flushes, Invalidates, *]
  | invalidate offset len =>
    rw [line_invalidate_range]
    split
    · exact .invalidate ‹_›
    · refine (hc i).aside nofun ?_ ?_ ?_ ?_ <;>
        simp [Loads, Stores, Flushes, Invalidates, *]
  | fence =>
    refine (hc i).aside nofun ?_ ?_ ?_ ?_ <;> simp [Loads, Stores, Flushes, Invalidates]
  | isCached h =>
    refine (hc i).aside nofun ?_ ?_ ?_ ?_ <;> simp [Loads, Stores, Flushes, Invalidates]

/-- Memory changes only where a flush finds a dirty word, which it then holds. -/
theorem Runs.saved {m₀ : Block} (h : c.Runs m op reply c' m')
    (hc : ∀ i, (c.line i).Recalls t w i) (hm : ∀ i, Saved m₀ t i (m.get i)) (i : WordIndex) :
    Saved m₀ (t ++ [.ran w op reply]) i (m'.get i) := by
  cases h with
  | flush offset len =>
    rw [get_flush]
    have hu := (hc i).unsaved
    split
    · rename_i hi
      cases hl : (c.line i).unsaved? with
      | some v => exact .now ⟨w, ⟨rfl, hi⟩, (hu v).2 hl⟩
      | none =>
        refine (hm i).aside ?_
        rintro u ⟨w', ⟨rfl, _⟩, h⟩
        rw [hu, hl] at h
        cases h
    · rename_i hi
      refine (hm i).aside ?_
      rintro u ⟨w', ⟨_, h⟩, _⟩
      exact hi h
  | _ =>
    refine (hm i).aside ?_
    rintro u ⟨w', h, _⟩
    exact h

end Cache

def Window.Recalls (x : Window) (t : List BusEvent) (w : Nat) : Prop :=
  ∃ c, x = .cached c ∧ ∀ i, (c.line i).Recalls t w i

theorem Window.Recalls.opened (t : List BusEvent) (w : Nat) :
    WindowKind.cached.newWindow.Recalls (t ++ [.opened w]) w := by
  refine ⟨.empty, rfl, fun i => ?_⟩
  have h : Cache.empty.line i = .invalid := Vector.getElem_replicate i.isLt
  rw [h]
  exact .opened

structure Bus.Recalls (m : Block) (t : List BusEvent) (b : Bus) : Prop where
  windows : ∀ (w : Nat) (x : Window), b.windows[w]? = some x → x.Recalls t w
  memory : ∀ i, Saved m t i (b.memory.get i)

theorem Bus.exists_of_run? {b b' : Bus} {w : Nat} {op : BusOp} {reply : BusReply}
    (h : b.run? w op = some (reply, b')) :
    ∃ x y m', b.windows[w]? = some x ∧ x.run? b.memory op = some (reply, y, m') ∧
      b' = ⟨m', b.windows.set w y⟩ := by
  obtain ⟨x, hx, h⟩ := Option.bind_eq_some_iff.1 h
  obtain ⟨⟨reply, y, m'⟩, hy, h⟩ := Option.bind_eq_some_iff.1 h
  cases h
  exact ⟨x, y, m', hx, hy, rfl⟩

namespace Bus.Recalls

variable {m : Block} {t : List BusEvent} {b b' : Bus}

theorem start (m : Block) : Bus.Recalls m [] ⟨m, []⟩ where
  windows _ _ h := by cases h
  memory _ := .inr ⟨fun _ => Since.not_nil, rfl⟩

theorem opened (h : b.Recalls m t) :
    Bus.Recalls m (t ++ [.opened b.windows.length])
      { b with windows := b.windows ++ [WindowKind.cached.newWindow] } where
  windows w x hx := by
    change (b.windows ++ _)[w]? = some x at hx
    rcases Nat.lt_trichotomy w b.windows.length with hw | rfl | hw
    · rw [List.getElem?_append_left hw] at hx
      obtain ⟨c, rfl, hc⟩ := h.windows w x hx
      exact ⟨c, rfl, fun i => (hc i).aside (Nat.ne_of_gt hw) nofun nofun nofun nofun⟩
    · rw [List.getElem?_concat_length] at hx
      cases hx
      exact .opened t _
    · rw [List.getElem?_eq_none (by rw [List.length_append]; exact hw)] at hx
      cases hx
  memory i := (h.memory i).aside (by
    rintro u ⟨w, h, _⟩
    exact h)

theorem ran (h : b.Recalls m t) {w : Nat} {op : BusOp} {reply : BusReply}
    (hr : b.run? w op = some (reply, b')) : b'.Recalls m (t ++ [.ran w op reply]) := by
  obtain ⟨x, y, m', hx, hy, rfl⟩ := exists_of_run? hr
  obtain ⟨c, rfl, hc⟩ := h.windows w x hx
  obtain ⟨c', rfl, hrun⟩ := Cache.runs_of_run? hy
  refine ⟨?_, hrun.saved hc h.memory⟩
  intro w' z hz
  by_cases hw : w = w'
  · subst w'
    obtain ⟨hlt, _⟩ := List.getElem?_eq_some_iff.1 hx
    rw [List.getElem?_set_self hlt] at hz
    cases hz
    exact ⟨c', rfl, hrun.recalls hc⟩
  · rw [List.getElem?_set_ne hw] at hz
    obtain ⟨d, rfl, hd⟩ := h.windows w' z hz
    exact ⟨d, rfl, fun i => (hd i).other hw op reply⟩

end Bus.Recalls

theorem BusRun.recalls {m : Block} {t : List BusEvent} {b : Bus} (h : BusRun m t b) :
    b.Recalls m t := by
  induction h with
  | start => exact .start m
  | opened h ih => exact ih.opened
  | ran h hr ih => exact ih.ran hr

/-- What a bus answers, as a function of its history alone. -/
structure Bus.Exact (m : Block) (t : List BusEvent) (b : Bus) : Prop where
  /-- A load returns what its window last loaded or stored there, if that is still cached, and
  otherwise the word in memory. -/
  load : ∀ w < b.windows.length, ∀ offset i, Names offset i →
    ∃ v b', b.run? w (.load offset) = some (.word v, b') ∧
      (LastAccess t w i v ∨ (∀ u, ¬ LastAccess t w i u) ∧ v = b.memory.get i)
  memory : ∀ i, LastWriteBack t i (b.memory.get i) ∨
    (∀ u, ¬ LastWriteBack t i u) ∧ b.memory.get i = m.get i
  isCached : ∀ w < b.windows.length, ∀ offset i, Names offset i →
    ∃ cached b', b.run? w (.isCached offset) = some (.flag cached, b') ∧
      (cached = true ↔ ∃ v, LastAccess t w i v)

/-- However the operations of the windows on one memory interleave, and whenever windows are opened,
the history tells what every load returns, what memory holds and what is cached. -/
theorem BusRun.words_follow_history {m : Block} {t : List BusEvent} {b : Bus}
    (h : BusRun m t b) : b.Exact m t where
  load w hw offset i hi := by
    obtain ⟨c, hx, hc⟩ := h.recalls.windows w _ (List.getElem?_eq_getElem hw)
    have hrun : b.run? w (.load offset) = some (.word (c.load b.memory i).1,
        ⟨b.memory, b.windows.set w (.cached (c.load b.memory i).2)⟩) := by
      simp [Bus.run?, Window.run?, Window.load, List.getElem?_eq_getElem hw, hx,
        wordIndex?_eq_some_iff.2 hi]
    refine ⟨_, _, hrun, ?_⟩
    rw [Cache.load_fst]
    cases hl : (c.line i).copy? with
    | some v => exact .inl (((hc i).copy v).2 hl)
    | none =>
      refine .inr ⟨?_, rfl⟩
      intro u hu
      rw [(hc i).copy, hl] at hu
      cases hu
  memory := h.recalls.memory
  isCached w hw offset i hi := by
    obtain ⟨c, hx, hc⟩ := h.recalls.windows w _ (List.getElem?_eq_getElem hw)
    have hrun : b.run? w (.isCached offset) = some (.flag (c.isCached i),
        ⟨b.memory, b.windows.set w (.cached c)⟩) := by
      simp [Bus.run?, Window.run?, Window.cache?, List.getElem?_eq_getElem hw, hx,
        wordIndex?_eq_some_iff.2 hi]
    refine ⟨_, _, hrun, ?_⟩
    rw [Cache.isCached, Option.isSome_iff_exists]
    exact exists_congr fun v => ((hc i).copy v).symm

/-- A reader that does not invalidate keeps the value that it read first. The second flush and the
invalidate take ranges that begin or end within the word. -/
theorem words_follow_history_stale :
    let t := [.opened 0, .opened 1, .ran 0 (.store 20 1) .done, .ran 0 (.flush 20 4) .done,
      .ran 1 (.load 20) (.word 1), .ran 0 (.store 20 2) .done, .ran 0 (.flush 17 4) .done,
      .ran 1 (.load 22) (.word 1), .ran 1 (.isCached 20) (.flag true),
      .ran 1 (.invalidate 23 99) .done, .ran 1 (.load 20) (.word 2)]
    ∃ b, BusRun .zero t b ∧ b.Exact .zero t := by
  have h₀ := BusRun.start (m := .zero)
  have h₁ := h₀.opened.opened
  have h₂ := h₁.ran (w := 0) (o := .store 20 1) rfl
  have h₃ := h₂.ran (w := 0) (o := .flush 20 4) rfl
  have h₄ := h₃.ran (w := 1) (o := .load 20) rfl
  have h₅ := h₄.ran (w := 0) (o := .store 20 2) rfl
  have h₆ := h₅.ran (w := 0) (o := .flush 17 4) rfl
  have h₇ := h₆.ran (w := 1) (o := .load 22) rfl
  have h₈ := h₇.ran (w := 1) (o := .isCached 20) rfl
  have h₉ := h₈.ran (w := 1) (o := .invalidate 23 99) rfl
  have h := h₉.ran (w := 1) (o := .load 20) rfl
  exact ⟨_, h, h.words_follow_history⟩

end Handoff
