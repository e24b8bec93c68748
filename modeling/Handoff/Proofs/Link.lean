import Handoff.Link
import Handoff.Proofs.Words

namespace Handoff

theorem touched_field (f : Field) : touched f.offset 4 = [f.index] := by
  cases f <;> decide

@[simp] theorem Side.peer_peer (s : Side) : s.peer.peer = s := by
  cases s <;> rfl

namespace Cache

variable (c : Cache) (m : Block) (f : Field)

theorem flush_field :
    c.flush m f.offset 4 = flushWord ({ c with stats.flushes := c.stats.flushes + 1 }, m) f.index := by
  simp only [flush, touched_field, List.foldl_cons, List.foldl_nil]

theorem invalidate_field :
    c.invalidate f.offset 4 =
      dropWord { c with stats.invalidates := c.stats.invalidates + 1 } f.index := by
  simp only [invalidate, touched_field, List.foldl_cons, List.foldl_nil]

theorem flush_of_dirty {c : Cache} {v : UInt32} (h : c.line f.index = .dirty v) :
    (c.flush m f.offset 4).2 = m.set f.index v := by
  have hd : Cache.line { c with stats.flushes := c.stats.flushes + 1 } f.index = .dirty v := h
  rw [flush_field, flushWord, hd]

theorem line_store (i : WordIndex) (v : UInt32) : (c.store i v).line i = .dirty v :=
  c.line_setLine_self i (.dirty v)

theorem line_dropWord (i : WordIndex) : (c.dropWord i).line i = .invalid := by
  have h := c.line_setLine_self i .invalid
  unfold dropWord
  split
  · exact h
  · exact h

theorem line_invalidate : (c.invalidate f.offset 4).line f.index = .invalid := by
  rw [invalidate_field]
  exact line_dropWord _ _

theorem load_of_invalid {c : Cache} {i : WordIndex} (h : c.line i = .invalid) :
    (c.load m i).1 = m.get i := by
  simp only [load, h, Line.copy?]

end Cache

/-- The order in which a window's words sit in memory; a cache keeps them as they are. -/
def Window.order : Window → ByteOrder
  | .cached _ => .little
  | .direct o => o

def WindowKind.order : WindowKind → ByteOrder
  | .cached => .little
  | .coherent => .little
  | .mapped o => o

namespace Window

variable (w : Window) (m : Block) (i : WordIndex) (offset len : UInt64)

@[simp] theorem order_load : (w.load m i).2.order = w.order := by
  cases w <;> rfl

@[simp] theorem order_store (v : UInt32) : (w.store m i v).1.order = w.order := by
  cases w <;> rfl

@[simp] theorem order_flush : (w.flush m offset len).1.order = w.order := by
  cases w <;> rfl

@[simp] theorem order_invalidate : (w.invalidate offset len).order = w.order := by
  cases w <;> rfl

@[simp] theorem order_fence : w.fence.order = w.order := by
  cases w <;> rfl

end Window

@[simp] theorem WindowKind.order_newWindow (k : WindowKind) : k.newWindow.order = k.order := by
  cases k <;> rfl

namespace Link

variable {side : Side} (l : Link side) (f : Field)

@[simp] theorem memory_write (v : UInt32) (h : f.owner = side) :
    (l.write f v h).memory = l.memory.set f.index (l.window.order.toRaw v) := by
  obtain ⟨w, m⟩ := l
  cases w with
  | cached c => exact Cache.flush_of_dirty m f (c.line_store f.index v)
  | direct o => rfl

@[simp] theorem order_write (v : UInt32) (h : f.owner = side) :
    (l.write f v h).window.order = l.window.order :=
  (Window.order_flush _ _ _ _).trans (Window.order_store _ _ _ _)

@[simp] theorem read_fst (h : f.owner = side.peer) :
    (l.read f h).1 = l.window.order.ofRaw (l.memory.field f) := by
  obtain ⟨w, m⟩ := l
  cases w with
  | cached c => exact Cache.load_of_invalid m (c.line_invalidate f)
  | direct o => rfl

@[simp] theorem memory_read (h : f.owner = side.peer) : (l.read f h).2.memory = l.memory := rfl

@[simp] theorem order_read (h : f.owner = side.peer) :
    (l.read f h).2.window.order = l.window.order := by
  simp only [read, Window.order_load, Window.order_fence, Window.order_invalidate]

end Link

section Operations

variable (l : Link .controller) (r : Link .renderer)

theorem Link.publishProgram_eq (p : Region) :
    l.publishProgram p =
      (l.write .programLocation p.location (by decide)).write .programSize p.size (by decide) := rfl

theorem Link.publishResource_eq (p : Region) :
    l.publishResource p =
      (l.write .resourceLocation p.location (by decide)).write .resourceSize p.size (by decide) :=
  rfl

theorem Link.publishActions_eq (a : ActionWord) :
    l.publishActions a = l.write .inputActions a.bits (by decide) := rfl

theorem Link.sampleLatency_eq : l.sampleLatency = l.read .frameLatency (by decide) := rfl

theorem Link.reportLatency_eq (v : UInt32) :
    r.reportLatency v = r.write .frameLatency v (by decide) := rfl

theorem Link.actions_eq :
    r.actions =
      (⟨(r.read .inputActions (by decide)).1⟩, (r.read .inputActions (by decide)).2) := rfl

theorem Link.program_eq :
    r.program =
      let a := r.read .programLocation (by decide)
      let b := a.2.read .programSize (by decide)
      (⟨a.1, b.1⟩, b.2) := rfl

theorem Link.resource_eq :
    r.resource =
      let a := r.read .resourceLocation (by decide)
      let b := a.2.read .resourceSize (by decide)
      (⟨a.1, b.1⟩, b.2) := rfl

end Operations

end Handoff
