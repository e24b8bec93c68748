import Handoff.Proofs.Run

namespace Handoff

namespace Cache

/-- A cache after a write: the word is flushed, and a clean copy of it is kept. -/
def written (c : Cache) (i : WordIndex) (v : UInt32) : Cache where
  lines := (c.setLine i (.clean v)).lines
  stats := { c.stats with
    flushes := c.stats.flushes + 1
    writeBacks := c.stats.writeBacks + 1 }

/-- A cache after a read that dropped no dirty word: a clean copy of what memory holds is kept. -/
def refreshed (c : Cache) (i : WordIndex) (v : UInt32) : Cache where
  lines := (c.setLine i (.clean v)).lines
  stats := { c.stats with
    invalidates := c.stats.invalidates + 1
    fences := c.stats.fences + 1
    misses := c.stats.misses + 1 }

theorem lines_setLine_setLine (c : Cache) (i : WordIndex) (l l' : Line) :
    ((c.setLine i l).setLine i l').lines = (c.setLine i l').lines :=
  Vector.set_set l i.isLt

section Words

variable {c : Cache} {i : WordIndex}

theorem flushWord_of_dirty {v : UInt32} (m : Block) (h : c.line i = .dirty v) :
    flushWord (c, m) i =
      ({ c.setLine i (.clean v) with stats.writeBacks := c.stats.writeBacks + 1 }, m.set i v) := by
  simp only [flushWord, h, stats_setLine]

theorem dropWord_of_not_dirty (h : (c.line i).isDirty = false) :
    c.dropWord i = c.setLine i .invalid :=
  if_neg (by rw [h]; decide)

theorem load_miss (m : Block) (h : c.line i = .invalid) :
    c.load m i =
      (m.get i, { c.setLine i (.clean (m.get i)) with stats.misses := c.stats.misses + 1 }) := by
  simp only [load, h, Line.copy?, stats_setLine]

end Words

theorem flush_store (c : Cache) (m : Block) (f : Field) (v : UInt32) :
    (c.store f.index v).flush m f.offset 4 = (c.written f.index v, m.set f.index v) := by
  have hd : Cache.line { c.store f.index v with stats.flushes := c.stats.flushes + 1 } f.index =
      .dirty v := c.line_store f.index v
  rw [flush_field]
  refine (flushWord_of_dirty m hd).trans ?_
  exact congrArg (fun l => (Cache.mk l _, _)) (c.lines_setLine_setLine f.index _ _)

theorem load_invalidate {c : Cache} (m : Block) {f : Field}
    (h : (c.line f.index).isDirty = false) :
    (c.invalidate f.offset 4).fence.load m f.index =
      (m.field f, c.refreshed f.index (m.field f)) := by
  have hd : c.invalidate f.offset 4 =
      { c.setLine f.index .invalid with stats.invalidates := c.stats.invalidates + 1 } :=
    (c.invalidate_field f).trans
      (dropWord_of_not_dirty (c := { c with stats.invalidates := c.stats.invalidates + 1 }) h)
  have hi : (c.invalidate f.offset 4).fence.line f.index = .invalid := c.line_invalidate f
  rw [load_miss m hi, hd]
  exact congrArg (fun l => (_, Cache.mk l _)) (c.lines_setLine_setLine f.index _ _)

structure Tidy (c : Cache) : Prop where
  clean : ∀ i, (c.line i).isDirty = false
  discarded : c.stats.discarded = 0

theorem Tidy.empty : Cache.empty.Tidy := by
  refine ⟨fun i => ?_, rfl⟩
  have h : Cache.empty.line i = .invalid := Vector.getElem_replicate i.isLt
  rw [h]
  rfl

theorem Tidy.setLine {c : Cache} (h : c.Tidy) (i j : WordIndex) (v : UInt32) :
    ((c.setLine i (.clean v)).line j).isDirty = false := by
  by_cases hij : i = j
  · rw [hij, line_setLine_self]
    rfl
  · rw [line_setLine_of_ne c _ hij]
    exact h.clean j

theorem Tidy.written {c : Cache} (h : c.Tidy) (i : WordIndex) (v : UInt32) : (c.written i v).Tidy :=
  ⟨fun j => h.setLine i j v, h.discarded⟩

theorem Tidy.refreshed {c : Cache} (h : c.Tidy) (i : WordIndex) (v : UInt32) :
    (c.refreshed i v).Tidy :=
  ⟨fun j => h.setLine i j v, h.discarded⟩

end Cache

namespace Link

variable {side : Side}

theorem write_cached (c : Cache) (m : Block) (f : Field) (v : UInt32) (h : f.owner = side) :
    Link.write ⟨.cached c, m⟩ f v h = ⟨.cached (c.written f.index v), m.set f.index v⟩ :=
  congrArg (fun r => Link.mk (.cached r.1) r.2) (c.flush_store m f v)

theorem read_cached {c : Cache} (m : Block) {f : Field} (hc : (c.line f.index).isDirty = false)
    (h : f.owner = side.peer) :
    Link.read ⟨.cached c, m⟩ f h =
      (m.field f, ⟨.cached (c.refreshed f.index (m.field f)), m⟩) :=
  congrArg (fun r => (r.1, Link.mk (.cached r.2) m)) (Cache.load_invalidate m hc)

inductive Becomes (l : Link side) : Link side → Prop
  | refl : Becomes l l
  | write {l' : Link side} (h : Becomes l l') (f : Field) (v : UInt32) (hf : f.owner = side) :
      Becomes l (l'.write f v hf)
  | read {l' : Link side} (h : Becomes l l') (f : Field) (hf : f.owner = side.peer) :
      Becomes l (l'.read f hf).2

namespace Becomes

variable {l l' l'' : Link side}

theorem trans (h : l.Becomes l') (h' : l'.Becomes l'') : l.Becomes l'' := by
  induction h' with
  | refl => exact h
  | write _ f v hf ih => exact ih.write f v hf
  | read _ f hf ih => exact ih.read f hf

/-- A side changes no word of its peer. -/
theorem field (h : l.Becomes l') {f : Field} (hf : f.owner ≠ side) :
    l'.memory.field f = l.memory.field f := by
  induction h with
  | refl => rfl
  | write _ g v hg ih => exact ((Portable.write g v hg).confined _ f hf).trans ih
  | read _ g hg ih => exact ih

end Becomes

end Link

def Window.Tidy (w : Window) : Prop := ∃ c, w = .cached c ∧ c.Tidy

theorem Link.Becomes.tidy {side : Side} {l l' : Link side} (h : l.Becomes l')
    (ht : l.window.Tidy) : l'.window.Tidy := by
  induction h with
  | refl => exact ht
  | @write l' _ f v hf ih =>
    obtain ⟨w, m⟩ := l'
    obtain ⟨c, rfl, hc⟩ := ih
    rw [Link.write_cached]
    exact ⟨_, rfl, hc.written f.index v⟩
  | @read l' _ f hf ih =>
    obtain ⟨w, m⟩ := l'
    obtain ⟨c, rfl, hc⟩ := ih
    rw [Link.read_cached m (hc.clean f.index)]
    exact ⟨_, rfl, hc.refreshed f.index _⟩

section Operations

open Link

variable (l : Link .controller) (r : Link .renderer)

theorem Link.becomes_publishProgram (p : Region) : l.Becomes (l.publishProgram p) :=
  (Becomes.refl.write .programLocation p.location rfl).write .programSize p.size rfl

theorem Link.becomes_publishResource (p : Region) : l.Becomes (l.publishResource p) :=
  (Becomes.refl.write .resourceLocation p.location rfl).write .resourceSize p.size rfl

theorem Link.becomes_publishActions (a : ActionWord) : l.Becomes (l.publishActions a) :=
  Becomes.refl.write .inputActions a.bits rfl

theorem Link.becomes_sampleLatency : l.Becomes l.sampleLatency.2 :=
  Becomes.refl.read .frameLatency rfl

theorem Link.becomes_program : r.Becomes r.program.2 :=
  (Becomes.refl.read .programLocation rfl).read .programSize rfl

theorem Link.becomes_resource : r.Becomes r.resource.2 :=
  (Becomes.refl.read .resourceLocation rfl).read .resourceSize rfl

theorem Link.becomes_actions : r.Becomes r.actions.2 := Becomes.refl.read .inputActions rfl

theorem Link.becomes_reportLatency (v : UInt32) : r.Becomes (r.reportLatency v) :=
  Becomes.refl.write .frameLatency v rfl

theorem Link.becomes_publishWorkload (w : Workload) : l.Becomes (l.publishWorkload w) := by
  have hp := l.becomes_publishProgram w.program
  obtain ⟨p, x⟩ := w
  cases x with
  | none => exact hp.trans (becomes_publishActions _ .empty)
  | some x =>
    exact (hp.trans (becomes_publishResource _ x)).trans (becomes_publishActions _ .empty)

end Operations

namespace Controller

variable (c : Controller) (m : Block) (edges : Buttons) (switch : Option Bool)

theorem becomes_editActions :
    (c.link m).Becomes
      ((c.editActions m edges switch).2.1.link (c.editActions m edges switch).2.2) := by
  unfold editActions
  dsimp only
  split
  · exact (c.link m).becomes_publishActions _
  · exact .refl

theorem becomes_countTick : (c.link m).Becomes ((c.countTick m).2.link m) := by
  unfold countTick
  dsimp only
  split
  · exact Link.becomes_sampleLatency _
  · exact .refl

theorem becomes_serve (out : Outcome) :
    (c.link m).Becomes
      ((c.serve m edges switch out).2.1.link (c.serve m edges switch out).2.2) :=
  (c.becomes_editActions m edges switch).trans (becomes_countTick _ _)

theorem becomes_tick (buttons : Buttons) :
    (c.link m).Becomes ((c.tick m buttons switch).2.1.link (c.tick m buttons switch).2.2) := by
  have ht := c.ticked m buttons switch
  generalize c.tick m buttons switch = r at ht ⊢
  cases ht with
  | idle => exact .refl
  | refused => exact .refl
  | stopped => exact .refl
  | @started w =>
    have hs : (c.link m).Becomes (((c.sample buttons).start m w).1.link
        ((c.sample buttons).start m w).2) := (c.link m).becomes_publishWorkload w
    exact hs.trans (becomes_serve _ _ _ _ _)
  | served => exact (c.sample buttons).becomes_serve m _ switch _

end Controller

theorem Renderer.becomes_start (w : Window) (m : Block) (rotator : Rotator)
    (camera : CameraSettings) :
    (⟨w, m⟩ : Link .renderer).Becomes ⟨(start w m rotator camera).window, m⟩ :=
  (Link.becomes_program _).trans (Link.becomes_resource _)

theorem Renderer.becomes_frame (r : Renderer) (m : Block) (started finished : Nat) :
    (r.link m).Becomes
      ((r.frame m started finished).2.1.link (r.frame m started finished).2.2) :=
  (Link.becomes_actions _).trans (Link.becomes_reportLatency _ _)

def Participant.side? : Participant → Option Side
  | controllerLoop => some .controller
  | controllerLink => some .controller
  | rendererLoop => some .renderer
  | rendererLink => some .renderer
  | rawWindow => none

@[simp] theorem Participant.side?_bareLink (side : Side) : (bareLink side).side? = some side := by
  cases side <;> rfl

namespace System

def windows (y : System) : Side → List Window
  | .controller => [y.controller.window, y.controllerWindow]
  | .renderer => y.rendererWindow :: y.renderers.map (·.renderer.window)

/-- One link of a side writes and reads, over a window that may be new. All other windows stay as
they are. -/
def Uses (s : SystemSetup) (side : Side) (y y' : System) : Prop :=
  ∃ (w : Window) (l : Link side), (w ∈ y.windows side ∨ w = s.kind.newWindow) ∧
    Link.Becomes ⟨w, y.memory⟩ l ∧ y'.memory = l.memory ∧
    (∀ v ∈ y'.windows side, v ∈ y.windows side ∨ v = l.window) ∧
    y'.windows side.peer = y.windows side.peer

variable {s : SystemSetup} {y y' : System} {op : SystemOp} {reply : SystemReply} {side : Side}

namespace Uses

theorem onControllerLink {act : Link .controller → SystemReply × Link .controller}
    (hr : some (y.onControllerLink act) = some (reply, y')) (h : ∀ l, Link.Becomes l (act l).2) :
    Uses s .controller y y' := by
  cases hr
  refine ⟨y.controllerWindow, _, .inl ?_, h _, rfl, ?_, rfl⟩
  · exact List.mem_cons_of_mem _ (List.mem_singleton_self _)
  · intro v hv
    rcases List.mem_cons.1 hv with rfl | hv
    · exact .inl List.mem_cons_self
    · exact .inr (List.mem_singleton.1 hv)

theorem onRendererLink {act : Link .renderer → SystemReply × Link .renderer}
    (hr : some (y.onRendererLink act) = some (reply, y')) (h : ∀ l, Link.Becomes l (act l).2) :
    Uses s .renderer y y' := by
  cases hr
  refine ⟨y.rendererWindow, _, .inl List.mem_cons_self, h _, rfl, ?_, rfl⟩
  intro v hv
  rcases List.mem_cons.1 hv with rfl | hv
  · exact .inr rfl
  · exact .inl (List.mem_cons_of_mem _ hv)

theorem tick (buttons : Buttons) (switch : Option Bool) :
    let r := y.controller.tick y.memory buttons switch
    Uses s .controller y { y with controller := r.2.1, memory := r.2.2 } := by
  refine ⟨y.controller.window, _, .inl List.mem_cons_self,
    y.controller.becomes_tick y.memory switch buttons, rfl, ?_, rfl⟩
  intro v hv
  rcases List.mem_cons.1 hv with rfl | hv
  · exact .inr rfl
  · exact .inl (List.mem_cons_of_mem _ hv)

theorem startRenderer : Uses s .renderer y (y.startRenderer s).2 := by
  refine ⟨s.kind.newWindow, _, .inr rfl,
    Renderer.becomes_start _ y.memory (.new s.frameBuffers) s.camera, rfl, ?_, rfl⟩
  intro v hv
  rcases List.mem_cons.1 hv with rfl | hv
  · exact .inl List.mem_cons_self
  · rcases List.mem_cons.1 hv with rfl | hv
    · exact .inr rfl
    · exact .inl (List.mem_cons_of_mem _ hv)

theorem frame {k : Nat} (hr : y.frame? s k = some (reply, y')) : Uses s .renderer y y' := by
  obtain ⟨r, f, r', m', hk, hf, _, rfl⟩ := exists_of_frame? hr
  have hb := r.renderer.becomes_frame y.memory (s.clock r.readings) (s.clock (r.readings + 1))
  rw [hf] at hb
  have hmem := List.mem_map_of_mem (f := (·.renderer.window)) (List.mem_of_getElem? hk)
  refine ⟨r.renderer.window, _, .inl (List.mem_cons_of_mem _ hmem), hb, rfl, ?_, rfl⟩
  intro v hv
  rcases List.mem_cons.1 hv with rfl | hv
  · exact .inl List.mem_cons_self
  · obtain ⟨x, hx, rfl⟩ := List.mem_map.1 hv
    rcases List.mem_or_eq_of_mem_set hx with hx | rfl
    · exact .inl (List.mem_cons_of_mem _ (List.mem_map_of_mem hx))
    · exact .inr rfl

theorem writeField {f : Field} {v : UInt32} (hr : some (y.writeField f v) = some (reply, y')) :
    Uses s f.owner y y' := by
  cases h : f.owner with
  | controller =>
    rw [writeField_controller y v h] at hr
    exact .onControllerLink hr fun l => Link.Becomes.refl.write f v h
  | renderer =>
    rw [writeField_renderer y v h] at hr
    exact .onRendererLink hr fun l => Link.Becomes.refl.write f v h

theorem readField {f : Field} (hr : some (y.readField f) = some (reply, y')) :
    Uses s f.owner.peer y y' := by
  cases h : f.owner with
  | controller =>
    rw [readField_controller y h] at hr
    exact .onRendererLink hr fun l => (Link.Becomes.refl (l := l)).read f h
  | renderer =>
    rw [readField_renderer y h] at hr
    exact .onControllerLink hr fun l => (Link.Becomes.refl (l := l)).read f h

end Uses

theorem uses_run? (hs : op.participant.side? = some side) (hr : y.run? s op = some (reply, y')) :
    Uses s side y y' := by
  cases op with
  | write f v =>
    rw [SystemOp.participant, Participant.side?_bareLink] at hs
    cases hs
    exact .writeField hr
  | read f =>
    rw [SystemOp.participant, Participant.side?_bareLink] at hs
    cases hs
    exact .readField hr
  | rawLoad => cases hs
  | rawInvalidate => cases hs
  | frameOf k =>
    cases hs
    exact .frame hr
  | select w =>
    cases hs
    cases hr
    exact ⟨y.controller.window, _, .inl List.mem_cons_self, .refl, rfl, fun v hv => .inl hv, rfl⟩
  | tick buttons switch =>
    cases hs
    cases hr
    exact .tick buttons switch
  | startRenderer =>
    cases hs
    cases hr
    exact .startRenderer
  | publishProgram r =>
    cases hs
    exact .onControllerLink hr fun l => l.becomes_publishProgram r
  | publishResource r =>
    cases hs
    exact .onControllerLink hr fun l => l.becomes_publishResource r
  | publishActions a =>
    cases hs
    exact .onControllerLink hr fun l => l.becomes_publishActions a
  | writeProgramSize v =>
    cases hs
    exact .onControllerLink hr fun l => Link.Becomes.refl.write .programSize v rfl
  | sampleLatency =>
    cases hs
    exact .onControllerLink hr fun l => l.becomes_sampleLatency
  | readProgram =>
    cases hs
    exact .onRendererLink hr fun l => l.becomes_program
  | readResource =>
    cases hs
    exact .onRendererLink hr fun l => l.becomes_resource
  | readActions =>
    cases hs
    exact .onRendererLink hr fun l => l.becomes_actions
  | readResourceSize =>
    cases hs
    exact .onRendererLink hr fun l => Link.Becomes.refl.read .resourceSize rfl
  | reportLatency v =>
    cases hs
    exact .onRendererLink hr fun l => l.becomes_reportLatency v

def Tidy (y : System) : Prop := ∀ side, ∀ w ∈ y.windows side, w.Tidy

theorem Tidy.attach (s : SystemSetup) (m : Block) : (System.attach (s.over .cached) m).Tidy := by
  have he : Window.Tidy (.cached .empty) := ⟨.empty, rfl, .empty⟩
  intro side w hw
  cases side with
  | controller =>
    rcases List.mem_cons.1 hw with rfl | hw
    · exact he
    · rcases List.mem_singleton.1 hw with rfl
      exact he
  | renderer =>
    rcases List.mem_singleton.1 hw with rfl
    exact he

theorem Uses.tidy (h : Uses (s.over .cached) side y y') (ht : y.Tidy) : y'.Tidy := by
  obtain ⟨w, l, hw, hb, _, hv, hp⟩ := h
  have hl : l.window.Tidy := by
    refine hb.tidy ?_
    rcases hw with hw | rfl
    · exact ht side w hw
    · exact ⟨.empty, rfl, .empty⟩
  intro i v hi
  by_cases h : i = side
  · subst h
    rcases hv v hi with hv | rfl
    · exact ht i v hv
    · exact hl
  · have hi' : i = side.peer := by
      cases i <;> cases side <;> first | rfl | exact (h rfl).elim
    subst hi'
    exact ht side.peer v (hp ▸ hi)

theorem Tidy.run? (ht : y.Tidy) (hr : y.run? (s.over .cached) op = some (reply, y')) : y'.Tidy := by
  cases hs : op.participant.side? with
  | some side => exact (uses_run? hs hr).tidy ht
  | none =>
    cases op.shape with
    | rawWindow _ he =>
      obtain ⟨_, w, _, rfl⟩ := he _ _ _ _ hr
      exact ht
    | controllerLink hp => rw [hp] at hs; cases hs
    | rendererLink hp => rw [hp] at hs; cases hs
    | select => cases hs
    | tick => cases hs
    | startRenderer => cases hs
    | frameOf => cases hs

end System

/-- The states that a system can be in. Between two of its operations anything may have been left
in memory, so any number of other participants may be at work on the same block. -/
inductive Reachable (s : SystemSetup) : System → Prop
  | attach (m : Block) : Reachable s (.attach s m)
  | step {y y' : System} {o : SystemOp} {reply : SystemReply} (h : Reachable s y)
      (hr : y.run? s o = some (reply, y')) : Reachable s y'
  | disturbed {y : System} (h : Reachable s y) (m : Block) : Reachable s { y with memory := m }

section Reachable

variable {s : SystemSetup} {y y' : System} {op : SystemOp} {reply : SystemReply}

theorem Reachable.uniform (h : Reachable s y) : y.Uniform s.kind.order := by
  induction h with
  | attach m => exact .attach s m
  | step _ hr ih => exact ih.run? hr
  | disturbed _ m ih => exact { ih with controller := ih.controller }

theorem Reachable.tidy (h : Reachable (s.over .cached) y) : y.Tidy := by
  induction h with
  | attach m => exact .attach s m
  | step _ hr ih => exact ih.run? hr
  | disturbed _ m ih => exact ih

end Reachable

end Handoff
