import Handoff.Proofs.View

/-!
Portability. Behind every window lies a plain block, the memory as it reads in the window's order.
Links, and with them both loops, act on a window as they would directly on that block.
-/

namespace Handoff

namespace Link

variable {side : Side} {α β : Type}

def plain (l : Link side) : Link side := ⟨.direct .little, l.memory.map l.window.order.ofRaw⟩

/-- An action that does the same to the plain block whatever the window, and that writes no field
but its own side's. -/
structure Portable (act : Link side → α × Link side) : Prop where
  plain : ∀ l, act l.plain = ((act l).1, (act l).2.plain)
  order : ∀ l, (act l).2.window.order = l.window.order
  confined : ∀ l f, f.owner ≠ side → (act l).2.memory.field f = l.memory.field f

namespace Portable

theorem write (f : Field) (v : UInt32) (h : f.owner = side) :
    Portable fun l : Link side => ((), l.write f v h) := by
  refine ⟨fun l => ?_, fun l => l.order_write f v h, fun l g hg => ?_⟩
  · have hm : (l.plain.write f v h).memory = (l.write f v h).plain.memory := by
      rw [memory_write, Link.plain, Link.plain, order_write, memory_write, Block.map_set,
        ByteOrder.ofRaw_toRaw]
      rfl
    exact congrArg (fun m => ((), Link.mk (.direct .little) m)) hm
  · have hne : f ≠ g := fun e => hg (e ▸ h)
    exact (congrArg (·.field g) (l.memory_write f v h)).trans (l.memory.field_set_of_ne _ hne)

theorem read (f : Field) (h : f.owner = side.peer) :
    Portable fun l : Link side => l.read f h := by
  refine ⟨fun l => ?_, fun l => l.order_read f h, fun _ _ _ => rfl⟩
  have hv : (l.plain.read f h).1 = (l.read f h).1 := by
    rw [read_fst, read_fst, Link.plain, Block.field_map]
    rfl
  have hl : (l.read f h).2.plain = l.plain := by
    rw [Link.plain, order_read, memory_read]
    rfl
  rw [hl, ← hv]
  rfl

theorem bind {act : Link side → α × Link side} {next : α → Link side → β × Link side}
    (h : Portable act) (hn : ∀ a, Portable (next a)) :
    Portable fun l => next (act l).1 (act l).2 := by
  refine ⟨fun l => ?_, fun l => ((hn _).order _).trans (h.order l), fun l f hf => ?_⟩
  · rw [h.plain l]
    exact (hn _).plain _
  · exact ((hn _).confined _ f hf).trans (h.confined l f hf)

theorem map {act : Link side → α × Link side} (g : α → β) (h : Portable act) :
    Portable fun l => (g (act l).1, (act l).2) := by
  refine ⟨fun l => ?_, h.order, h.confined⟩
  rw [h.plain l]

theorem direct {act : Link side → α × Link side} {w : Window} {o : ByteOrder} (h : Portable act)
    (hw : w.order = o) (m : Block) :
    act ⟨.direct .little, m.map o.ofRaw⟩ =
      ((act ⟨w, m⟩).1, ⟨.direct .little, (act ⟨w, m⟩).2.memory.map o.ofRaw⟩) := by
  subst hw
  have hp := h.plain ⟨w, m⟩
  rw [Link.plain, Link.plain, h.order] at hp
  exact hp

theorem publishProgram (r : Region) :
    Portable fun l : Link .controller => ((), l.publishProgram r) :=
  (write .programLocation r.location rfl).bind fun _ => write .programSize r.size rfl

theorem publishResource (r : Region) :
    Portable fun l : Link .controller => ((), l.publishResource r) :=
  (write .resourceLocation r.location rfl).bind fun _ => write .resourceSize r.size rfl

theorem publishActions (a : ActionWord) :
    Portable fun l : Link .controller => ((), l.publishActions a) :=
  write .inputActions a.bits rfl

theorem program : Portable fun l : Link .renderer => l.program :=
  (read .programLocation rfl).bind fun location => (read .programSize rfl).map (Region.mk location)

theorem resource : Portable fun l : Link .renderer => l.resource :=
  (read .resourceLocation rfl).bind fun location =>
    (read .resourceSize rfl).map (Region.mk location)

theorem sampleLatency : Portable fun l : Link .controller => l.sampleLatency :=
  read .frameLatency rfl

theorem resourceSize : Portable fun l : Link .renderer => l.resourceSize :=
  read .resourceSize rfl

theorem writeProgramSize (v : UInt32) :
    Portable fun l : Link .controller => ((), l.writeProgramSize v) := write .programSize v rfl

theorem reportLatency (v : UInt32) :
    Portable fun l : Link .renderer => ((), l.reportLatency v) := write .frameLatency v rfl

theorem actions : Portable fun l : Link .renderer => l.actions :=
  (read .inputActions rfl).map ActionWord.mk

end Portable

end Link

def View.plain (o : ByteOrder) : View := ⟨fun _ => .direct .little, (·.map o.ofRaw), id⟩

namespace View

@[simp] theorem word_plain (o : ByteOrder) (f : Field) (v : UInt32) : (plain o).word f v = v :=
  ite_self v

@[simp] theorem outcome_plain (o : ByteOrder) (out : Outcome) : (plain o).outcome out = out :=
  congrArg (Outcome.mk out.transition out.published · out.startRefused) Option.map_id_apply

theorem faithful_plain (o : ByteOrder) : (plain o).Faithful (·.order = o) where
  write l f v h hl := by
    rw [word_plain]
    exact congrArg Prod.snd ((Link.Portable.write f v h).direct hl l.memory)
  read l f h hl := by
    rw [word_plain]
    exact (Link.Portable.read f h).direct hl l.memory
  covers_write l f v h hl := (l.order_write f v h).trans hl
  covers_read l f h hl := (l.order_read f h).trans hl

end View

def ResetLine.plain (o : ByteOrder) (l : ResetLine) : ResetLine :=
  ⟨l.high, l.releasedWith.map fun m => m.map o.ofRaw⟩

def Controller.plain (o : ByteOrder) (c : Controller) : Controller :=
  { c with window := .direct .little, line := c.line.plain o }

def Renderer.plain (r : Renderer) : Renderer := { r with window := .direct .little }

theorem Controller.order_tick (c : Controller) (m : Block) (buttons : Buttons)
    (switch : Option Bool) : (c.tick m buttons switch).2.1.window.order = c.window.order :=
  ((View.faithful_plain c.window.order).tick m rfl buttons switch).2

end Handoff
