import Mathlib.Logic.Function.Basic
import Handoff.Proofs.Link

/-!
Freshness. The two sides share memory through caches, and their operations interleave at the
granularity of single cache operations: a write is a store and a flush, a read is an invalidate,
a fence and a load. Every read returns what the latest flush of its field wrote.
-/

namespace Handoff

/-- Where a side stands within its operation on a field. -/
inductive Phase
  | ready
  | flushing (f : Field) (value : UInt32)
  | fencing (f : Field)
  | loading (f : Field)
deriving DecidableEq, Repr

structure Party where
  window : Window
  phase : Phase
deriving DecidableEq, Repr

def Party.attached : Party := ⟨WindowKind.cached.newWindow, .ready⟩

structure Sharing where
  memory : Block
  party : Side → Party

/-- One cache operation. The field tells the side: its owner writes it and the peer reads it. Only
the renderer is ever replaced. -/
inductive CacheEvent
  | stored (f : Field) (value : UInt32)
  | flushed (f : Field) (value : UInt32)
  | invalidated (f : Field)
  | fenced (f : Field)
  | loaded (f : Field) (value : UInt32)
  | attached
deriving DecidableEq, Repr

namespace Sharing

def attach (m : Block) : Sharing := ⟨m, fun _ => .attached⟩

def window (x : Sharing) (s : Side) : Window := (x.party s).window

def phase (x : Sharing) (s : Side) : Phase := (x.party s).phase

def put (x : Sharing) (s : Side) (r : Window × Block) (p : Phase) : Sharing :=
  ⟨r.2, Function.update x.party s ⟨r.1, p⟩⟩

inductive Step (x : Sharing) : CacheEvent → Sharing → Prop
  | store {f : Field} (v : UInt32) (h : x.phase f.owner = .ready) :
      Step x (.stored f v)
        (x.put f.owner ((x.window f.owner).store x.memory f.index v) (.flushing f v))
  | flush {f : Field} {v : UInt32} (h : x.phase f.owner = .flushing f v) :
      Step x (.flushed f v)
        (x.put f.owner ((x.window f.owner).flush x.memory f.offset 4) .ready)
  | invalidate {f : Field} (h : x.phase f.owner.peer = .ready) :
      Step x (.invalidated f)
        (x.put f.owner.peer ((x.window f.owner.peer).invalidate f.offset 4, x.memory) (.fencing f))
  | fence {f : Field} (h : x.phase f.owner.peer = .fencing f) :
      Step x (.fenced f)
        (x.put f.owner.peer ((x.window f.owner.peer).fence, x.memory) (.loading f))
  | load {f : Field} (h : x.phase f.owner.peer = .loading f) :
      Step x (.loaded f ((x.window f.owner.peer).load x.memory f.index).1)
        (x.put f.owner.peer (((x.window f.owner.peer).load x.memory f.index).2, x.memory) .ready)
  | attach (h : x.phase .renderer = .ready) :
      Step x .attached (x.put .renderer (Party.attached.window, x.memory) .ready)

/-- A store and a flush with nothing of the same side between them are the write of a link. -/
theorem Step.write {x y z : Sharing} {f : Field} {v : UInt32} (hs : x.Step (.stored f v) y)
    (hf : y.Step (.flushed f v) z) :
    let l := Link.write ⟨x.window f.owner, x.memory⟩ f v
    z = x.put f.owner (l.window, l.memory) .ready := by
  cases hs with
  | store v h =>
    cases hf with
    | flush h' => simp only [put, window, Function.update_self, Function.update_idem, Link.write]

/-- An invalidate, a fence and a load in a row are the read of a link. -/
theorem Step.read {x y z u : Sharing} {f : Field} {v : UInt32} (hi : x.Step (.invalidated f) y)
    (hf : y.Step (.fenced f) z) (hl : z.Step (.loaded f v) u) :
    let r := Link.read ⟨x.window f.owner.peer, x.memory⟩ f f.owner.peer_peer.symm
    v = r.1 ∧ u = x.put f.owner.peer (r.2.window, r.2.memory) .ready := by
  cases hi with
  | invalidate h =>
    cases hf with
    | fence h' =>
      cases hl with
      | load h'' => simp only [put, window, Function.update_self, Function.update_idem, Link.read,
          and_self]

end Sharing

/-- What happened from the moment both sides opened their windows over a memory. -/
inductive Interleaving (m : Block) : List CacheEvent → Sharing → Prop
  | start : Interleaving m [] (.attach m)
  | step {t : List CacheEvent} {x y : Sharing} {e : CacheEvent} (h : Interleaving m t x)
      (hs : x.Step e y) : Interleaving m (t ++ [e]) y

/-- The flush of `f` at position `k` wrote `v` and no later one followed. -/
def LastFlush (t : List CacheEvent) (f : Field) (k : Nat) (v : UInt32) : Prop :=
  t[k]? = some (.flushed f v) ∧ ∀ i w, t[i]? = some (.flushed f w) → i ≤ k

def Latest (m : Block) (t : List CacheEvent) (f : Field) (v : UInt32) : Prop :=
  (∃ k, LastFlush t f k v) ∨ (∀ w, .flushed f w ∉ t) ∧ v = m.field f

theorem LastFlush.snoc (t : List CacheEvent) (f : Field) (v : UInt32) :
    LastFlush (t ++ [.flushed f v]) f t.length v := by
  refine ⟨List.getElem?_concat_length, ?_⟩
  intro i w hi
  obtain ⟨h, _⟩ := List.getElem?_eq_some_iff.1 hi
  simp only [List.length_append, List.length_singleton] at h
  omega

theorem Latest.snoc {m : Block} {t : List CacheEvent} {f : Field} {v : UInt32} {e : CacheEvent}
    (h : Latest m t f v) (he : ∀ w, e ≠ .flushed f w) : Latest m (t ++ [e]) f v := by
  rcases h with ⟨k, hk, hlast⟩ | ⟨hnone, hv⟩
  · have hlt : k < t.length := (List.getElem?_eq_some_iff.1 hk).1
    refine .inl ⟨k, by rw [List.getElem?_append_left hlt, hk], ?_⟩
    intro i w hi
    by_cases hit : i < t.length
    · rw [List.getElem?_append_left hit] at hi
      exact hlast i w hi
    · rw [List.getElem?_append_right (Nat.le_of_not_lt hit)] at hi
      have hmem := List.mem_of_getElem? hi
      exact (he w (List.mem_singleton.1 hmem).symm).elim
  · refine .inr ⟨?_, hv⟩
    intro w hw
    rcases List.mem_append.1 hw with hw | hw
    · exact hnone w hw
    · exact he w (List.mem_singleton.1 hw).symm

/-- The cached copy that a side's next cache operation relies on. -/
def Phase.Fits (c : Cache) : Phase → Prop
  | .ready => True
  | .flushing f v => c.line f.index = .dirty v
  | .fencing f => c.line f.index = .invalid
  | .loading f => c.line f.index = .invalid

def Party.Sound (p : Party) : Prop := ∃ c, p.window = .cached c ∧ p.phase.Fits c

structure Sharing.Sound (m : Block) (t : List CacheEvent) (x : Sharing) : Prop where
  party : ∀ s, (x.party s).Sound
  memory : ∀ f, Latest m t f (x.memory.field f)

theorem Sharing.party_put {x : Sharing} {s : Side} {r : Window × Block} {p : Phase}
    (hx : ∀ s, (x.party s).Sound) (hp : Party.Sound ⟨r.1, p⟩) :
    ∀ s', ((x.put s r p).party s').Sound := by
  intro s'
  by_cases h : s' = s
  · have he : (x.put s r p).party s' = ⟨r.1, p⟩ := h ▸ Function.update_self s _ x.party
    rw [he]
    exact hp
  · have he : (x.put s r p).party s' = x.party s' := Function.update_of_ne h _ x.party
    rw [he]
    exact hx s'

theorem Sharing.Sound.attach (m : Block) : Sound m [] (.attach m) := by
  refine ⟨fun s => ⟨.empty, rfl, trivial⟩, fun f => .inr ⟨?_, rfl⟩⟩
  intro w hw
  cases hw

theorem Sharing.Sound.cache {m : Block} {t : List CacheEvent} {x : Sharing} (h : x.Sound m t)
    (s : Side) : ∃ c, x.window s = .cached c ∧ (x.phase s).Fits c :=
  h.party s

theorem Sharing.Sound.load {m : Block} {t : List CacheEvent} {x : Sharing} {f : Field}
    (h : x.Sound m t) (hp : x.phase f.owner.peer = .loading f) :
    ((x.window f.owner.peer).load x.memory f.index).1 = x.memory.field f := by
  obtain ⟨c, hw, hfit⟩ := h.cache f.owner.peer
  rw [hp] at hfit
  rw [hw]
  exact Cache.load_of_invalid x.memory hfit

theorem Sharing.Sound.put {m : Block} {t : List CacheEvent} {x : Sharing} {e : CacheEvent}
    {s : Side} {w : Window} {p : Phase} (h : x.Sound m t) (hp : Party.Sound ⟨w, p⟩)
    (he : ∀ f v, e ≠ .flushed f v) : (x.put s (w, x.memory) p).Sound m (t ++ [e]) :=
  ⟨party_put h.party hp, fun f => (h.memory f).snoc (he f)⟩

theorem Sharing.Step.sound {m : Block} {t : List CacheEvent} {x y : Sharing} {e : CacheEvent}
    (hs : x.Step e y) (h : x.Sound m t) : y.Sound m (t ++ [e]) := by
  cases hs with
  | @store f v hp =>
    obtain ⟨c, hw, _⟩ := h.cache f.owner
    rw [hw]
    exact h.put ⟨c.store f.index v, rfl, c.line_store f.index v⟩ (by simp)
  | @flush f v hp =>
    obtain ⟨c, hw, hfit⟩ := h.cache f.owner
    rw [hp] at hfit
    rw [hw]
    refine ⟨party_put h.party ⟨_, rfl, trivial⟩, fun g => ?_⟩
    change Latest m _ g ((c.flush x.memory f.offset 4).2.field g)
    rw [Cache.flush_of_dirty x.memory f hfit]
    by_cases hg : f = g
    · subst hg
      rw [Block.field_set_self]
      exact .inl ⟨_, .snoc t f v⟩
    · rw [Block.field_set_of_ne _ v hg]
      refine (h.memory g).snoc ?_
      intro w he
      cases he
      exact hg rfl
  | @invalidate f hp =>
    obtain ⟨c, hw, _⟩ := h.cache f.owner.peer
    rw [hw]
    exact h.put ⟨c.invalidate f.offset 4, rfl, c.line_invalidate f⟩ (by simp)
  | @fence f hp =>
    obtain ⟨c, hw, hfit⟩ := h.cache f.owner.peer
    rw [hp] at hfit
    rw [hw]
    exact h.put ⟨c.fence, rfl, hfit⟩ (by simp)
  | @load f hp =>
    obtain ⟨c, hw, _⟩ := h.cache f.owner.peer
    rw [hw]
    exact h.put ⟨(c.load x.memory f.index).2, rfl, trivial⟩ (by simp)
  | attach hp => exact h.put ⟨.empty, rfl, trivial⟩ (by simp)

theorem Interleaving.sound {m : Block} {t : List CacheEvent} {x : Sharing}
    (h : Interleaving m t x) : x.Sound m t := by
  induction h with
  | start => exact .attach m
  | step h hs ih => exact hs.sound ih

/-- What a history says about its reads. The position of a flush names the write it completes. -/
structure FreshReads (m : Block) (t : List CacheEvent) : Prop where
  /-- A read returns what the latest flush before its load wrote, or the initial word. -/
  latest : ∀ before f v after, t = before ++ .loaded f v :: after → Latest m before f v
  /-- A read does not miss a write that was flushed before its load, let alone one that was
  complete before the read began. -/
  complete : ∀ before f v after k w, t = before ++ .loaded f v :: after →
    before[k]? = some (.flushed f w) → ∃ k', k ≤ k' ∧ LastFlush before f k' v
  ordered : ∀ before f v between v' after k,
    t = before ++ .loaded f v :: (between ++ .loaded f v' :: after) → LastFlush before f k v →
    ∃ k', k ≤ k' ∧ LastFlush (before ++ .loaded f v :: between) f k' v'

theorem Latest.lastFlush {m : Block} {t : List CacheEvent} {f : Field} {v w : UInt32} {k : Nat}
    (h : Latest m t f v) (hk : t[k]? = some (.flushed f w)) : ∃ k', k ≤ k' ∧ LastFlush t f k' v := by
  rcases h with ⟨k', hlast⟩ | ⟨hnone, _⟩
  · exact ⟨k', hlast.2 k w hk, hlast⟩
  · exact (hnone w (List.mem_of_getElem? hk)).elim

theorem Interleaving.latest {m : Block} {t : List CacheEvent} {x : Sharing}
    (h : Interleaving m t x) {before after : List CacheEvent} {f : Field} {v : UInt32}
    (ht : t = before ++ .loaded f v :: after) : Latest m before f v := by
  induction h generalizing after with
  | start => simp at ht
  | @step t x y e h hs ih =>
    rcases List.eq_nil_or_concat after with he | ⟨after', e', he⟩
    · subst he
      obtain ⟨ht, he⟩ := List.append_inj' ht rfl
      cases ht
      cases he
      cases hs with
      | load hp =>
        rw [h.sound.load hp]
        exact h.sound.memory f
    · subst he
      rw [List.concat_eq_append, ← List.cons_append, ← List.append_assoc] at ht
      exact ih (List.append_inj' ht rfl).1

/-- However the cache operations of the two sides interleave, and however often the renderer is
replaced in between, reads are fresh. -/
theorem Interleaving.reads_fresh {m : Block} {t : List CacheEvent} {x : Sharing}
    (h : Interleaving m t x) : FreshReads m t where
  latest _ _ _ _ ht := h.latest ht
  complete _ _ _ _ _ _ ht hk := (h.latest ht).lastFlush hk
  ordered before f v between v' after k ht hk := by
    have hlt : k < before.length := (List.getElem?_eq_some_iff.1 hk.1).1
    have hread : t = (before ++ .loaded f v :: between) ++ .loaded f v' :: after := by
      rw [ht, List.append_assoc, List.cons_append]
    refine (h.latest hread).lastFlush (w := v) ?_
    rw [List.getElem?_append_left hlt]
    exact hk.1

/-- A flush comes while the peer's read is on its way; then the renderer is replaced, and reads
again while a second store is not yet flushed. -/
theorem reads_fresh_interleaved :
    let t := [.stored .inputActions 5, .invalidated .inputActions, .flushed .inputActions 5,
      .fenced .inputActions, .loaded .inputActions 5, .attached, .stored .inputActions 9,
      .invalidated .inputActions, .fenced .inputActions, .loaded .inputActions 5]
    (∃ x, Interleaving .zero t x) ∧ FreshReads .zero t := by
  have h₀ := Interleaving.start (m := .zero)
  have h₁ := h₀.step (.store (f := .inputActions) 5 rfl)
  have h₂ := h₁.step (.invalidate (f := .inputActions) rfl)
  have h₃ := h₂.step (.flush (f := .inputActions) (v := 5) rfl)
  have h₄ := h₃.step (.fence (f := .inputActions) rfl)
  have h₅ := h₄.step (.load (f := .inputActions) rfl)
  have h₆ := h₅.step (.attach rfl)
  have h₇ := h₆.step (.store (f := .inputActions) 9 rfl)
  have h₈ := h₇.step (.invalidate (f := .inputActions) rfl)
  have h₉ := h₈.step (.fence (f := .inputActions) rfl)
  have h := h₉.step (.load (f := .inputActions) rfl)
  exact ⟨⟨_, h⟩, h.reads_fresh⟩

end Handoff
