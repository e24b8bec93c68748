import Handoff.Proofs.Frame
import Handoff.Proofs.Tick

/-!
Views. A view puts another window and another block in place of those that are there. If the
fields are written and read through it as they were, then links, and with them both loops, do the
same under the view. Latencies may look changed; nothing that a loop does depends on them.
-/

namespace Handoff

theorem Controller.latency_turn (c : Controller) (m : Block) (buttons : Buttons) :
    (c.turn m buttons).1.latency = none := by
  unfold turn
  split
  · unfold toggleSession
    split <;> rfl
  · rfl

structure View where
  window : Window → Window
  block : Block → Block
  latency : UInt32 → UInt32

namespace View

variable (k : View) {side : Side} {α β : Type}

/-- How a word of a field looks under the view. -/
def word (f : Field) (v : UInt32) : UInt32 := if f = .frameLatency then k.latency v else v

theorem word_of_ne {f : Field} (h : f ≠ .frameLatency) (v : UInt32) : k.word f v = v := if_neg h

def link (l : Link side) : Link side := ⟨k.window l.window, k.block l.memory⟩

def line (l : ResetLine) : ResetLine := ⟨l.high, l.releasedWith.map k.block⟩

def controller (c : Controller) : Controller :=
  { c with window := k.window c.window, line := k.line c.line }

def outcome (o : Outcome) : Outcome := { o with latency := o.latency.map k.latency }

theorem outcome_of_none {o : Outcome} (h : o.latency = none) : k.outcome o = o := by
  rw [outcome, h]
  cases o
  cases h
  rfl

def renderer (r : Renderer) : Renderer := { r with window := k.window r.window }

def frame (f : Frame) : Frame := { f with report.latency := k.latency f.report.latency }

/-- On the windows that it covers, a view keeps up with the writes and reads of fields. -/
structure Faithful (Covers : Window → Prop) : Prop where
  write {side : Side} (l : Link side) (f : Field) (v : UInt32) (h : f.owner = side) :
    Covers l.window → (k.link l).write f (k.word f v) h = k.link (l.write f v h)
  read {side : Side} (l : Link side) (f : Field) (h : f.owner = side.peer) :
    Covers l.window → (k.link l).read f h = (k.word f (l.read f h).1, k.link (l.read f h).2)
  covers_write {side : Side} (l : Link side) (f : Field) (v : UInt32) (h : f.owner = side) :
    Covers l.window → Covers (l.write f v h).window
  covers_read {side : Side} (l : Link side) (f : Field) (h : f.owner = side.peer) :
    Covers l.window → Covers (l.read f h).2.window

/-- An action that comes to the same under the view. -/
def Keeps (Covers : Window → Prop) (act : Link side → α × Link side) : Prop :=
  ∀ l, Covers l.window → act (k.link l) = ((act l).1, k.link (act l).2) ∧ Covers (act l).2.window

namespace Keeps

variable {k} {Covers : Window → Prop} {act : Link side → α × Link side}

theorem bind {next : α → Link side → β × Link side} (h : k.Keeps Covers act)
    (hn : ∀ a, k.Keeps Covers (next a)) : k.Keeps Covers fun l => next (act l).1 (act l).2 := by
  intro l hl
  obtain ⟨he, hc⟩ := h l hl
  dsimp only
  rw [he]
  exact hn _ _ hc

theorem map (g : α → β) (h : k.Keeps Covers act) :
    k.Keeps Covers fun l => (g (act l).1, (act l).2) := by
  intro l hl
  obtain ⟨he, hc⟩ := h l hl
  dsimp only
  rw [he]
  exact ⟨rfl, hc⟩

end Keeps

namespace Faithful

variable {k} {Covers : Window → Prop} (h : k.Faithful Covers)
include h

section Links

theorem keeps_write {f : Field} (hf : f ≠ .frameLatency) (v : UInt32) (ho : f.owner = side) :
    k.Keeps Covers fun l : Link side => ((), l.write f v ho) := by
  intro l hl
  have hw := h.write l f v ho hl
  rw [k.word_of_ne hf] at hw
  exact ⟨congrArg (Prod.mk ()) hw, h.covers_write l f v ho hl⟩

theorem keeps_read {f : Field} (hf : f ≠ .frameLatency) (ho : f.owner = side.peer) :
    k.Keeps Covers fun l : Link side => l.read f ho := by
  intro l hl
  have hr := h.read l f ho hl
  rw [k.word_of_ne hf] at hr
  exact ⟨hr, h.covers_read l f ho hl⟩

theorem keeps_publishProgram (r : Region) :
    k.Keeps Covers fun l : Link .controller => ((), l.publishProgram r) :=
  (h.keeps_write (f := .programLocation) (by decide) r.location rfl).bind fun _ =>
    h.keeps_write (f := .programSize) (by decide) r.size rfl

theorem keeps_publishResource (r : Region) :
    k.Keeps Covers fun l : Link .controller => ((), l.publishResource r) :=
  (h.keeps_write (f := .resourceLocation) (by decide) r.location rfl).bind fun _ =>
    h.keeps_write (f := .resourceSize) (by decide) r.size rfl

theorem keeps_publishActions (a : ActionWord) :
    k.Keeps Covers fun l : Link .controller => ((), l.publishActions a) :=
  h.keeps_write (f := .inputActions) (by decide) a.bits rfl

theorem keeps_publishWorkload (w : Workload) :
    k.Keeps Covers fun l : Link .controller => ((), l.publishWorkload w) := by
  have hp := h.keeps_publishProgram w.program
  have ha := h.keeps_publishActions .empty
  obtain ⟨p, r⟩ := w
  cases r with
  | none => exact hp.bind fun _ => ha
  | some r => exact (hp.bind fun _ => h.keeps_publishResource r).bind fun _ => ha

theorem keeps_program : k.Keeps Covers fun l : Link .renderer => l.program :=
  (h.keeps_read (f := .programLocation) (by decide) rfl).bind fun location =>
    (h.keeps_read (f := .programSize) (by decide) rfl).map (Region.mk location)

theorem keeps_resourceSize : k.Keeps Covers fun l : Link .renderer => l.resourceSize :=
  h.keeps_read (f := .resourceSize) (by decide) rfl

theorem keeps_resource : k.Keeps Covers fun l : Link .renderer => l.resource :=
  (h.keeps_read (f := .resourceLocation) (by decide) rfl).bind fun location =>
    h.keeps_resourceSize.map (Region.mk location)

theorem keeps_actions : k.Keeps Covers fun l : Link .renderer => l.actions :=
  (h.keeps_read (f := .inputActions) (by decide) rfl).map ActionWord.mk

theorem keeps_regions : k.Keeps Covers Renderer.regions :=
  h.keeps_program.bind fun p => h.keeps_resource.map (p, ·)

theorem sampleLatency (l : Link .controller) (hl : Covers l.window) :
    (k.link l).sampleLatency = (k.latency l.sampleLatency.1, k.link l.sampleLatency.2) :=
  h.read l .frameLatency rfl hl

theorem reportLatency (l : Link .renderer) (v : UInt32) (hl : Covers l.window) :
    (k.link l).reportLatency (k.latency v) = k.link (l.reportLatency v) :=
  h.write l .frameLatency v rfl hl

end Links

section Controller

variable {c : Controller} (m : Block) (hc : Covers c.window)
include hc

theorem start (w : Workload) :
    (k.controller c).start (k.block m) w =
        (k.controller (c.start m w).1, k.block (c.start m w).2) ∧
      Covers (c.start m w).1.window := by
  obtain ⟨hl, hcovers⟩ := h.keeps_publishWorkload w (c.link m) hc
  refine ⟨?_, hcovers⟩
  rw [Controller.start_eq, Controller.start_eq]
  exact congrArg (fun l : Unit × Link .controller => ({ k.controller c with
    window := l.2.window
    line := (k.controller c).line.release l.2.memory
    state := c.state.next .start
    encoder := c.encoder.reset
    ticks := 0 }, l.2.memory)) hl

theorem toggleSession :
    let r := c.toggleSession m
    (k.controller c).toggleSession (k.block m) = (r.1, k.controller r.2.1, k.block r.2.2) ∧
      Covers r.2.1.window := by
  dsimp only
  cases hs : c.state with
  | running =>
    rw [c.toggleSession_running m hs, (k.controller c).toggleSession_running _ hs]
    exact ⟨rfl, hc⟩
  | idle =>
    cases hw : c.workload with
    | none =>
      rw [c.toggleSession_refused m hs hw, (k.controller c).toggleSession_refused _ hs hw]
      exact ⟨rfl, hc⟩
    | some w =>
      obtain ⟨hstart, hcovers⟩ := h.start m hc w
      rw [c.toggleSession_start m hs hw, (k.controller c).toggleSession_start _ hs hw, hstart]
      exact ⟨rfl, hcovers⟩

theorem turn (buttons : Buttons) :
    let r := c.turn m buttons
    (k.controller c).turn (k.block m) buttons = (r.1, k.controller r.2.1, k.block r.2.2) ∧
      Covers r.2.1.window := by
  dsimp only
  have hs : (k.controller c).sample buttons = k.controller (c.sample buttons) := rfl
  have hp : (k.controller c).previous = c.previous := rfl
  unfold Controller.turn
  rw [hs, hp]
  split
  · exact h.toggleSession (c := c.sample buttons) m hc
  · exact ⟨rfl, hc⟩

theorem editActions (edges : Buttons) (switch : Option Bool) :
    let r := c.editActions m edges switch
    (k.controller c).editActions (k.block m) edges switch =
        (r.1, k.controller r.2.1, k.block r.2.2) ∧
      Covers r.2.1.window := by
  dsimp only
  have he : (k.controller c).encoder = c.encoder := rfl
  have ha : (k.controller c).actions = c.actions := rfl
  have hl : (k.controller c).link (k.block m) = k.link (c.link m) := rfl
  unfold Controller.editActions
  dsimp only
  rw [he, ha]
  split
  · obtain ⟨hk, hcovers⟩ := h.keeps_publishActions
      ((c.encoder.applyEdges edges).syncSwitch switch).actions (c.link m) hc
    rw [hl, (Prod.mk.inj hk).2]
    exact ⟨rfl, hcovers⟩
  · exact ⟨rfl, hc⟩

theorem countTick :
    (k.controller c).countTick (k.block m) =
        ((c.countTick m).1.map k.latency, k.controller (c.countTick m).2) ∧
      Covers (c.countTick m).2.window := by
  have hs : (k.controller c).settings = c.settings := rfl
  have ht : (k.controller c).ticks = c.ticks := rfl
  unfold Controller.countTick
  dsimp only
  rw [hs, ht]
  split
  · have hl : Link.sampleLatency ⟨k.window c.window, k.block m⟩ = _ :=
      h.sampleLatency (c.link m) hc
    rw [Controller.link, controller, hl]
    exact ⟨rfl, h.covers_read (c.link m) .frameLatency rfl hc⟩
  · exact ⟨rfl, hc⟩

theorem serve (edges : Buttons) (switch : Option Bool) (out : Outcome) :
    let r := c.serve m edges switch out
    (k.controller c).serve (k.block m) edges switch out =
        (k.outcome r.1, k.controller r.2.1, k.block r.2.2) ∧
      Covers r.2.1.window := by
  dsimp only
  obtain ⟨hedit, hcovers⟩ := h.editActions m hc edges switch
  obtain ⟨hcount, hcovers⟩ := h.countTick (c.editActions m edges switch).2.2 hcovers
  refine ⟨?_, hcovers⟩
  rw [Controller.serve, hedit]
  dsimp only
  rw [hcount]
  rfl

theorem tick (buttons : Buttons) (switch : Option Bool) :
    let r := c.tick m buttons switch
    (k.controller c).tick (k.block m) buttons switch =
        (k.outcome r.1, k.controller r.2.1, k.block r.2.2) ∧
      Covers r.2.1.window := by
  dsimp only
  obtain ⟨hturn, hcovers⟩ := h.turn m hc buttons
  cases hs : (c.turn m buttons).2.1.state with
  | running =>
    rw [Controller.tick_of_running switch rfl hs, Controller.tick_of_running switch hturn hs]
    exact h.serve _ hcovers _ switch _
  | idle =>
    rw [Controller.tick_of_idle switch rfl hs, Controller.tick_of_idle switch hturn hs,
      k.outcome_of_none (c.latency_turn m buttons)]
    exact ⟨rfl, hcovers⟩

end Controller

section Renderer

variable (m : Block)

theorem start_renderer {w : Window} (hw : Covers w) (rotator : Rotator) (camera : CameraSettings) :
    Renderer.start (k.window w) (k.block m) rotator camera =
        k.renderer (Renderer.start w m rotator camera) ∧
      Covers (Renderer.start w m rotator camera).window := by
  obtain ⟨hr, hcovers⟩ := h.keeps_regions ⟨w, m⟩ hw
  refine ⟨?_, hcovers⟩
  rw [Renderer.start_eq, Renderer.start_eq]
  exact congrArg (fun r : (Region × Region) × Link .renderer =>
    Renderer.mk r.2.window (.new camera) rotator r.1.1 r.1.2 0) hr

theorem exchange (l : Link .renderer) (latency : UInt32) (hl : Covers l.window) :
    Renderer.exchange (k.latency latency) (k.link l) =
        ((Renderer.exchange latency l).1, k.link (Renderer.exchange latency l).2) ∧
      Covers (Renderer.exchange latency l).2.window := by
  obtain ⟨ha, hcovers⟩ := h.keeps_actions l hl
  dsimp only at ha hcovers
  unfold Renderer.exchange
  rw [ha]
  dsimp only
  rw [h.reportLatency _ latency hcovers]
  exact ⟨rfl, h.covers_write _ .frameLatency latency rfl hcovers⟩

theorem frame_renderer {r : Renderer} (hr : Covers r.window)
    {started finished started' finished' : Nat}
    (he : elapsed started' finished' = k.latency (elapsed started finished)) :
    let f := r.frame m started finished
    (k.renderer r).frame (k.block m) started' finished' =
        (k.frame f.1, k.renderer f.2.1, k.block f.2.2) ∧
      Covers f.2.1.window := by
  dsimp only
  obtain ⟨hex, hcovers⟩ := h.exchange (r.link m) (elapsed started finished) hr
  have hl : (k.renderer r).link (k.block m) = k.link (r.link m) := rfl
  refine ⟨?_, hcovers⟩
  rw [Renderer.frame_eq, Renderer.frame_eq, he, hl, hex]
  rfl

end Renderer

end Faithful

end View

end Handoff
