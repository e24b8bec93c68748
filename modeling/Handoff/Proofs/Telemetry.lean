import Mathlib.Algebra.Order.Ring.Nat
import Handoff.Proofs.Ownership
import Handoff.Proofs.SystemView

namespace Handoff

def Line.map (g : UInt32 → UInt32) : Line → Line
  | .invalid => .invalid
  | .clean v => .clean (g v)
  | .dirty v => .dirty (g v)

@[simp] theorem Line.isDirty_map (g : UInt32 → UInt32) (l : Line) :
    (l.map g).isDirty = l.isDirty := by
  cases l <;> rfl

theorem Line.map_id (l : Line) : l.map id = l := by
  cases l <;> rfl

def Block.untimed (m : Block) : Block := m.set Field.frameLatency.index 0

def Cache.untimed (c : Cache) : Cache :=
  c.setLine Field.frameLatency.index ((c.line Field.frameLatency.index).map fun _ => 0)

def Window.untimed : Window → Window
  | .cached c => .cached c.untimed
  | .direct o => .direct o

/-- Every latency is struck out: the word in the block, its copies in the caches, and what is
reported of it. -/
def View.untimed : View := ⟨Window.untimed, Block.untimed, fun _ => 0⟩

namespace View

theorem word_untimed_of_ne {f : Field} (h : f ≠ .frameLatency) : untimed.word f = id :=
  funext fun v => untimed.word_of_ne h v

theorem word_untimed_toRaw (o : ByteOrder) (f : Field) (v : UInt32) :
    untimed.word f (o.toRaw v) = o.toRaw (untimed.word f v) := by
  by_cases h : f = .frameLatency
  · subst h
    have hz : o.toRaw 0 = 0 := by cases o <;> decide
    exact hz.symm
  · rw [word_untimed_of_ne h]
    rfl

end View

theorem Block.set_set (m : Block) (i : WordIndex) (v v' : UInt32) :
    (m.set i v).set i v' = m.set i v' :=
  Block.ext (Vector.set_set v i.isLt)

theorem Block.set_comm (m : Block) {i j : WordIndex} (v v' : UInt32) (h : i ≠ j) :
    (m.set i v).set j v' = (m.set j v').set i v :=
  Block.ext (@Vector.set_comm _ _ i j v v' m.words i.isLt j.isLt fun e => h (Fin.ext e))

theorem Block.get_untimed (m : Block) (f : Field) :
    m.untimed.get f.index = View.untimed.word f (m.get f.index) := by
  by_cases h : f = .frameLatency
  · subst h
    exact m.get_set_self _ 0
  · rw [View.word_untimed_of_ne h]
    exact m.get_set_of_ne 0 fun e => h (Field.index_injective e).symm

theorem Block.untimed_set (m : Block) (f : Field) (v : UInt32) :
    (m.set f.index v).untimed = m.untimed.set f.index (View.untimed.word f v) := by
  by_cases h : f = .frameLatency
  · subst h
    rw [untimed, untimed, set_set, set_set]
    rfl
  · rw [View.word_untimed_of_ne h]
    exact m.set_comm v 0 fun e => h (Field.index_injective e)

namespace Cache

variable (c : Cache) (f : Field)

theorem setLine_comm {i j : WordIndex} (l l' : Line) (h : i ≠ j) :
    (c.setLine i l).setLine j l' = (c.setLine j l').setLine i l :=
  Cache.ext (@Vector.set_comm _ _ i j l l' c.lines i.isLt j.isLt fun e => h (Fin.ext e)) rfl

theorem line_untimed : c.untimed.line f.index = (c.line f.index).map (View.untimed.word f) := by
  by_cases h : f = .frameLatency
  · subst h
    exact c.line_setLine_self _ _
  · rw [View.word_untimed_of_ne h, Line.map_id]
    exact c.line_setLine_of_ne _ fun e => h (Field.index_injective e).symm

theorem untimed_setLine (l : Line) :
    (c.setLine f.index l).untimed =
      c.untimed.setLine f.index (l.map (View.untimed.word f)) := by
  by_cases h : f = .frameLatency
  · subst h
    rw [untimed, line_setLine_self]
    refine Cache.ext ?_ rfl
    exact (lines_setLine_setLine c _ _ _).trans (lines_setLine_setLine c _ _ _).symm
  · rw [View.word_untimed_of_ne h, Line.map_id]
    have hne : f.index ≠ Field.frameLatency.index := fun e => h (Field.index_injective e)
    rw [untimed, line_setLine_of_ne c l hne]
    exact c.setLine_comm l _ hne

theorem untimed_dropWord : (c.dropWord f.index).untimed = c.untimed.dropWord f.index := by
  have hl := c.untimed_setLine f .invalid
  unfold dropWord
  rw [line_untimed, Line.isDirty_map]
  dsimp only
  split
  · exact congrArg (fun d : Cache => { d with stats.discarded := d.stats.discarded + 1 }) hl
  · exact hl

theorem untimed_written (v : UInt32) :
    (c.written f.index v).untimed = c.untimed.written f.index (View.untimed.word f v) := by
  have hl := congrArg lines (c.untimed_setLine f (.clean v))
  exact Cache.ext hl rfl

theorem untimed_invalidate :
    (c.invalidate f.offset 4).untimed = c.untimed.invalidate f.offset 4 := by
  rw [invalidate_field, invalidate_field, untimed_dropWord]
  rfl

theorem untimed_load (m : Block) (h : c.line f.index = .invalid) :
    c.untimed.load m.untimed f.index =
      (View.untimed.word f (c.load m f.index).1, (c.load m f.index).2.untimed) := by
  have hi : c.untimed.line f.index = .invalid := by rw [line_untimed, h]; rfl
  rw [load_miss _ h, load_miss _ hi, m.get_untimed]
  exact congrArg (fun d : Cache => (_, { d with stats.misses := c.stats.misses + 1 }))
    (c.untimed_setLine f (.clean (m.get f.index))).symm

end Cache

namespace Link

variable {side : Side} (l : Link side) (f : Field)

theorem untimed_write (v : UInt32) (h : f.owner = side) :
    (View.untimed.link l).write f (View.untimed.word f v) h =
      View.untimed.link (l.write f v h) := by
  obtain ⟨w, m⟩ := l
  cases w with
  | cached c =>
    have hw := write_cached c.untimed m.untimed f (View.untimed.word f v) h
    rw [← c.untimed_written, ← m.untimed_set] at hw
    rw [write_cached]
    exact hw
  | direct o =>
    have hm := m.untimed_set f (o.toRaw v)
    rw [View.word_untimed_toRaw] at hm
    exact congrArg (Link.mk (.direct o)) hm.symm

theorem untimed_read (h : f.owner = side.peer) :
    (View.untimed.link l).read f h =
      (View.untimed.word f (l.read f h).1, View.untimed.link (l.read f h).2) := by
  obtain ⟨w, m⟩ := l
  cases w with
  | cached c =>
    -- the copy is dropped before the load, which therefore goes to memory
    have hl := (c.invalidate f.offset 4).fence.untimed_load f m (c.line_invalidate f)
    have hf : (c.invalidate f.offset 4).fence.untimed = (c.untimed.invalidate f.offset 4).fence :=
      congrArg Cache.fence (c.untimed_invalidate f)
    rw [hf] at hl
    exact congrArg (fun r => (r.1, Link.mk (.cached r.2) m.untimed)) hl
  | direct o =>
    have hm := m.get_untimed f
    have hv := View.word_untimed_toRaw o f (m.get f.index)
    rw [← hm] at hv
    exact congrArg (·, Link.mk (.direct o) m.untimed) hv.symm

end Link

namespace View

theorem faithful_untimed : untimed.Faithful fun _ => True where
  write l f v h _ := l.untimed_write f v h
  read l f h _ := l.untimed_read f h
  covers_write _ _ _ _ _ := trivial
  covers_read _ _ _ _ := trivial

theorem window_untimed_newWindow (k : WindowKind) : untimed.window k.newWindow = k.newWindow := by
  cases k with
  | cached => decide
  | coherent => rfl
  | mapped o => rfl

theorem sets_untimed (s : SystemSetup) (clock : Nat → Nat) :
    untimed.Sets (s.clocked clock) (s.clocked fun _ => 0) where
  window := (window_untimed_newWindow s.kind).symm
  camera := rfl
  frameBuffers := rfl
  clock _ := rfl

theorem system_untimed_attach (s : SystemSetup) (m : Block) (clock : Nat → Nat) :
    untimed.system (.attach s m) = .attach (s.clocked clock) m.untimed := by
  have hw := window_untimed_newWindow s.kind
  have hc : untimed.controller (.new s.controller s.kind.newWindow) =
      .new s.controller s.kind.newWindow := congrArg (Controller.new s.controller) hw
  rw [System.attach, system]
  dsimp only [System.new]
  rw [hc, hw]
  rfl

def entry (k : View) (e : Entry) : Entry := ⟨k.op e.op, k.reply e.op e.reply, k.system e.after⟩

end View

variable {s : SystemSetup} {clocks : Nat → Nat → Nat} {m : Block} {es : List Entry} {y : System}

theorem System.untimed_run? (y : System) (clock : Nat → Nat) {op : SystemOp}
    (hop : op.participant ≠ .rawWindow) :
    (View.untimed.system y).run? (s.clocked fun _ => 0) (View.untimed.op op) =
      (y.run? (s.clocked clock) op).map fun r =>
        (View.untimed.reply op r.1, View.untimed.system r.2) :=
  View.faithful_untimed.run? (View.sets_untimed s clock) trivial
    ⟨trivial, trivial, trivial, fun _ _ => trivial⟩ hop

namespace ClockedRun

/-- With every latency struck out, a run is one whose clocks stand still. -/
theorem untimed (h : ClockedRun s clocks m es y)
    (hraw : ∀ op ∈ es.map (·.op), op.participant ≠ .rawWindow) :
    Run (s.clocked fun _ => 0) m.untimed (es.map View.untimed.entry) (View.untimed.system y) := by
  induction h with
  | start =>
    rw [View.system_untimed_attach s m fun _ => 0]
    exact .start
  | @step es y y' op reply h hop ih =>
    obtain ⟨hraw, ho⟩ := forall_op_snoc.1 hraw
    have hrun := ih hraw
    have hstep := System.untimed_run? (s := s) y (clocks es.length) ho
    rw [hop] at hstep
    rw [List.map_append]
    exact hrun.step hstep

theorem split (h : ClockedRun s clocks m es y) {before later : List Entry} {e : Entry}
    (he : es = before ++ e :: later) :
    ∃ y₀, ClockedRun s clocks m before y₀ ∧
      y₀.run? (s.clocked (clocks before.length)) e.op = some (e.reply, e.after) := by
  induction h generalizing later with
  | start => simp at he
  | @step es y y' op reply h hop ih =>
    rcases List.eq_nil_or_concat later with rfl | ⟨later, e', rfl⟩
    · obtain ⟨rfl, hl⟩ := List.append_inj' he rfl
      cases hl
      exact ⟨y, h, hop⟩
    · rw [List.concat_eq_append, ← List.cons_append, ← List.append_assoc] at he
      exact ih (List.append_inj' he rfl).1

section Agree

variable {clocks' : Nat → Nat → Nat} (h : ClockedRun s clocks m es y)
  (hraw : ∀ op ∈ es.map (·.op), op.participant ≠ .rawWindow)
include h hraw

theorem agree {es' : List Entry} {y' : System} (h' : ClockedRun s clocks' m es' y')
    (ho : es'.map (·.op) = es.map (·.op)) :
    es'.map View.untimed.entry = es.map View.untimed.entry ∧
      View.untimed.system y' = View.untimed.system y := by
  refine (h'.untimed (ho ▸ hraw)).clockedRun.unique (h.untimed hraw).clockedRun ?_
  have hop := congrArg (List.map View.untimed.op) ho
  rw [List.map_map, List.map_map] at hop ⊢
  exact hop

theorem exists_run : ∃ es' y', ClockedRun s clocks' m es' y' ∧ es'.map (·.op) = es.map (·.op) := by
  induction h with
  | start => exact ⟨[], _, .start, rfl⟩
  | @step es y y₁ op reply h hop ih =>
    obtain ⟨hraw, hop₀⟩ := forall_op_snoc.1 hraw
    obtain ⟨es', y', h', ho⟩ := ih hraw
    -- both systems look the same, so the operation fails for both or for neither
    have hstep := System.untimed_run? (s := s) y (clocks es.length) hop₀
    have hstep' := System.untimed_run? (s := s) y' (clocks' es'.length) hop₀
    rw [(h.agree hraw h' ho).2, hstep, hop] at hstep'
    obtain ⟨⟨reply', y₁'⟩, hr, _⟩ := Option.map_eq_some_iff.1 hstep'.symm
    refine ⟨_, y₁', h'.step hr, ?_⟩
    rw [List.map_append, List.map_append, ho]
    rfl

end Agree

end ClockedRun

theorem toNat_elapsed (started finished : Nat) :
    (elapsed started finished).toNat = min (finished - started) (2 ^ 32 - 1) :=
  UInt32.toNat_ofNat_of_lt' (Nat.lt_of_le_of_lt (Nat.min_le_right _ _) (by decide))

/-- Each frame reports, and leaves in the block, the time between the two readings it took. -/
def FramesTimed (s : SystemSetup) (clocks : Nat → Nat → Nat) (m : Block) (es : List Entry) : Prop :=
  ∀ before e later j, es = before ++ e :: later → e.op = .frameOf j →
    ∃ y r f, ClockedRun s clocks m before y ∧ y.renderers[j]? = some r ∧ e.reply = .framed f ∧
      let started := clocks before.length r.readings
      let finished := clocks before.length (r.readings + 1)
      f.report.latency.toNat = min (finished - started) (2 ^ 32 - 1) ∧
        e.after.memory.field .frameLatency = s.kind.order.toRaw f.report.latency

theorem ClockedRun.framesTimed (h : ClockedRun s clocks m es y) : FramesTimed s clocks m es := by
  intro before e later j he hj
  obtain ⟨y₀, h₀, hop⟩ := h.split he
  rw [hj] at hop
  obtain ⟨r, f, r', m', hr, hf, hreply, hafter⟩ := System.exists_of_frame? hop
  have hf : r.renderer.frame y₀.memory (clocks before.length r.readings)
      (clocks before.length (r.readings + 1)) = (f, r', m') := hf
  have hlatency : f.report.latency = elapsed (clocks before.length r.readings)
      (clocks before.length (r.readings + 1)) := congrArg (·.1.report.latency) hf.symm
  have hm := r.renderer.memory_frame y₀.memory (clocks before.length r.readings)
    (clocks before.length (r.readings + 1))
  rw [hf, h₀.uniform.renderers r (List.mem_of_getElem? hr)] at hm
  refine ⟨y₀, r, f, h₀, hr, hreply, ?_, ?_⟩
  · rw [hlatency]
    exact toNat_elapsed _ _
  · rw [hafter]
    exact (congrArg (·.field .frameLatency) hm).trans (Block.field_set_self _ .frameLatency _)

/-- Nothing but latencies depends on the clocks: whatever they read, the same operations can be
run, with the same answers and through the same states once the latencies are struck out. A frame
always tells how long it took, as far as a word can. -/
theorem telemetry_without_influence (h : ClockedRun s clocks m es y)
    (hraw : ∀ op ∈ es.map (·.op), op.participant ≠ .rawWindow) (clocks' : Nat → Nat → Nat) :
    FramesTimed s clocks m es ∧
      (∃ es' y', ClockedRun s clocks' m es' y' ∧ es'.map (·.op) = es.map (·.op)) ∧
      ∀ es' y', ClockedRun s clocks' m es' y' → es'.map (·.op) = es.map (·.op) →
        es'.map View.untimed.entry = es.map View.untimed.entry :=
  ⟨h.framesTimed, h.exists_run hraw, fun _ _ h' ho => (h.agree hraw h' ho).1⟩

/-- By one clock a frame takes 40 units of time, by the other one 3. -/
theorem telemetry_without_influence_one_frame :
    let s : SystemSetup := ⟨.cached, .shipped, .shipped, MemoryMap.frameBuffers, fun n => 40 * n⟩
    let ops : List SystemOp := [.select ⟨⟨0x1000, 64⟩, none⟩, .tick ⟨1⟩ none, .startRenderer,
      .frame, .tick ⟨0⟩ none, .sampleLatency]
    ∃ es y, ClockedRun s (fun _ n => 40 * n) .zero es y ∧ es.map (·.op) = ops ∧
      (∀ op ∈ ops, op.participant ≠ .rawWindow) ∧ FramesTimed s (fun _ n => 40 * n) .zero es ∧
      (∃ es' y', ClockedRun s (fun _ n => 3 * n) .zero es' y' ∧ es'.map (·.op) = ops) ∧
      ∀ es' y', ClockedRun s (fun _ n => 3 * n) .zero es' y' → es'.map (·.op) = ops →
        es'.map View.untimed.entry = es.map View.untimed.entry := by
  intro s ops
  have hops : Playable ops := by
    refine ⟨by decide, fun i k hi => ?_⟩
    obtain _ | _ | _ | _ | _ | _ | i := i <;> cases hi
    decide
  obtain ⟨es, y, hrun, ho⟩ := hops.exists_clockedRun s (fun _ n => 40 * n) .zero
  have h := telemetry_without_influence hrun (ho ▸ hops.noRaw) fun _ n => 3 * n
  rw [ho] at h
  exact ⟨es, y, hrun, ho, hops.noRaw, h⟩

end Handoff
