import Mathlib.Algebra.Order.Ring.Canonical
import Mathlib.Algebra.Order.Ring.Nat
import Mathlib.Algebra.Ring.Parity
import Handoff.Proofs.Presses

/-!
The shadow word as a function of the inputs. While a session runs, the word follows from the
presses and the switch levels since the tick that started it: a direction is set where an odd number
of its own presses end the presses on its axis, and the rotate bit counts presses or mirrors the
last level.
-/

namespace Handoff

def ActionBit.button : ActionBit → Button
  | left => .left
  | right => .right
  | up => .up
  | down => .down
  | rotateMode => .mode

namespace ActionWord

/-- What the presses of a session and the levels of its switch say about a bit. -/
def Due (source : RotateSource) (ps : List Button) (ls : List Bool) : ActionBit → Prop
  | .left => Odd (trailingRun [.left, .right] .left ps)
  | .right => Odd (trailingRun [.left, .right] .right ps)
  | .up => Odd (trailingRun [.up, .down] .up ps)
  | .down => Odd (trailingRun [.up, .down] .down ps)
  | .rotateMode =>
    match source with
    | .modeButton => Odd (ps.count .mode)
    | .switch => ls.getLast? = some true
    | .switchActiveLow => ls.getLast? = some false

structure Follows (source : RotateSource) (ps : List Button) (ls : List Bool)
    (w : ActionWord) : Prop where
  bits : ∀ bit, w.isSet bit ↔ Due source ps ls bit
  reserved : w.reserved = 0

theorem Follows.eq {source : RotateSource} {ps : List Button} {ls : List Bool} {w v : ActionWord}
    (hw : w.Follows source ps ls) (hv : v.Follows source ps ls) : w = v :=
  ext_isSet (fun bit => Bool.eq_iff_iff.2 ((hw.bits bit).trans (hv.bits bit).symm))
    (hw.reserved.trans hv.reserved.symm)

end ActionWord

namespace Encoder

variable {e : Encoder} {b c : Button} {x z : ActionBit} {ps : List Button} {ls : List Bool}

theorem eq_button (h : e.bitFor? b = some x) : b = x.button := by
  cases b with
  | mode =>
    by_cases hs : e.source = .modeButton
    · rw [bitFor?, if_pos hs] at h
      cases h
      rfl
    · rw [bitFor?, if_neg hs] at h
      cases h
  | _ => cases h <;> rfl

theorem bitFor?_mode (hs : e.source ≠ .modeButton) : e.bitFor? .mode = none := if_neg hs

theorem ne_rotateMode (hs : e.source ≠ .modeButton) (h : e.bitFor? b = some x) :
    x ≠ .rotateMode := by
  rintro rfl
  rw [eq_button h, ActionBit.button, bitFor?_mode hs] at h
  cases h

theorem opposite_iff (hb : e.bitFor? b = some x) (hc : e.bitFor? c = some z) (hne : c ≠ b) :
    x.opposite = some z ↔ b ∈ c.axis := by
  rw [eq_button hb, eq_button hc] at *
  cases x <;> cases z <;> first | exact absurd rfl hne | decide

theorem not_mem_axis_of_none (hb : e.bitFor? b = none) (hc : e.bitFor? c = some z) :
    b ∉ c.axis := by
  have hz := eq_button hc
  rw [hz]
  intro hm
  cases b with
  | center => cases z <;> exact absurd hm (by decide)
  | mode =>
    cases z with
    | rotateMode =>
      rw [hz] at hc
      cases hb.symm.trans hc
    | _ => exact absurd hm (by decide)
  | _ => cases hb

theorem press_of_some (hb : e.bitFor? b = some x) :
    e.press b = { e with actions := e.actions.toggle x } := by
  rw [press, hb]

theorem press_of_none (hb : e.bitFor? b = none) : e.press b = e := by
  rw [press, hb]

@[simp] theorem source_press (e : Encoder) (b : Button) : (e.press b).source = e.source := by
  unfold press
  split
  · rfl
  · rfl

@[simp] theorem source_applyEdges (e : Encoder) (edges : Buttons) :
    (e.applyEdges edges).source = e.source := by
  unfold applyEdges
  induction edges.pressed generalizing e with
  | nil => rfl
  | cons b bs ih => exact (ih (e.press b)).trans (e.source_press b)

@[simp] theorem source_syncSwitch (e : Encoder) (level : Option Bool) :
    (e.syncSwitch level).source = e.source := by
  unfold syncSwitch
  split
  · rfl
  · rfl

theorem syncSwitch_of_some {level : Option Bool} {r : Bool} (h : e.rotateFor? level = some r) :
    e.syncSwitch level = { e with actions := e.actions.put .rotateMode r } := by
  rw [syncSwitch, h]

theorem syncSwitch_of_none {level : Option Bool} (h : e.rotateFor? level = none) :
    e.syncSwitch level = e := by
  rw [syncSwitch, h]

theorem eq_none_of_rotateFor? {level : Option Bool} (hs : e.source ≠ .modeButton)
    (h : e.rotateFor? level = none) : level = none := by
  unfold rotateFor? at h
  cases hsrc : e.source with
  | switch => rwa [hsrc] at h
  | switchActiveLow =>
    rw [hsrc] at h
    exact Option.map_eq_none_iff.1 h
  | modeButton => exact absurd hsrc hs

theorem exists_of_rotateFor? {level : Option Bool} {r : Bool} (h : e.rotateFor? level = some r) :
    e.source ≠ .modeButton ∧ ∃ l, level = some l := by
  unfold rotateFor? at h
  cases hs : e.source with
  | switch =>
    rw [hs] at h
    exact ⟨by decide, r, h⟩
  | switchActiveLow =>
    rw [hs] at h
    obtain ⟨l, hl, _⟩ := Option.map_eq_some_iff.1 h
    exact ⟨by decide, l, hl⟩
  | modeButton =>
    rw [hs] at h
    cases h

/-- The shadow word stands for the presses and the levels since it was reset. -/
structure Tracks (e : Encoder) (ps : List Button) (ls : List Bool) : Prop where
  runs : ∀ b x, e.bitFor? b = some x → (e.actions.isSet x ↔ Odd (trailingRun b.axis b ps))
  level : e.source ≠ .modeButton →
    e.actions.isSet .rotateMode = (e.rotateFor? ls.getLast?).getD false
  reserved : e.actions.reserved = 0

namespace Tracks

theorem reset (e : Encoder) : e.reset.Tracks [] [] where
  runs b x _ := by simp [Encoder.reset]
  level _ := by
    have hn : e.reset.rotateFor? none = none := by
      unfold rotateFor?
      cases e.reset.source <;> rfl
    rw [List.getLast?_nil, hn]
    exact ActionWord.isSet_empty _
  reserved := show ActionWord.empty.reserved = 0 by decide

theorem press (h : e.Tracks ps ls) (p : Button) : (e.press p).Tracks (ps ++ [p]) ls := by
  cases hp : e.bitFor? p with
  | none =>
    rw [press_of_none hp]
    refine ⟨fun b x hb => ?_, h.level, h.reserved⟩
    rw [trailingRun_snoc_of_not_mem ps (not_mem_axis_of_none hp hb)]
    exact h.runs b x hb
  | some x =>
    rw [press_of_some hp]
    refine ⟨fun b z hb => ?_, fun hs => ?_, ?_⟩
    · have hb' : e.bitFor? b = some z := hb
      dsimp only
      rw [ActionWord.isSet_toggle]
      by_cases hbp : b = p
      · subst hbp
        have hzx : z = x := Option.some.inj (hb'.symm.trans hp)
        rw [if_pos hzx, trailingRun_snoc_self ps b.mem_axis_self, Nat.odd_add_one, ← h.runs b x hp]
        simp
      · have hzx : z ≠ x := by
          rintro rfl
          exact hbp ((eq_button hb').trans (eq_button hp).symm)
        rw [if_neg hzx]
        by_cases hax : p ∈ b.axis
        · -- The opposite bit ends up clear: both cannot have been set before the press.
          rw [if_pos ((opposite_iff hp hb' hbp).2 hax), trailingRun_snoc_of_ne ps hax (Ne.symm hbp)]
          refine iff_of_false (fun hset => ?_) (by decide)
          obtain ⟨hz, hx⟩ := Bool.and_eq_true_iff.1 hset
          have hpos := Odd.pos ((h.runs p x hp).1 hx)
          rw [Button.axis_eq_of_mem hax] at hpos
          have hodd := (h.runs b z hb').1 hz
          rw [trailingRun_eq_zero ps hbp hpos] at hodd
          exact absurd hodd (by decide)
        · rw [if_neg fun ho => hax ((opposite_iff hp hb' hbp).1 ho),
            trailingRun_snoc_of_not_mem ps hax]
          exact h.runs b z hb'
    · have hx := ne_rotateMode hs hp
      dsimp only
      rw [ActionWord.isSet_toggle, if_neg hx.symm, if_neg (by cases x <;> decide)]
      exact h.level hs
    · exact (e.actions.reserved_toggle x).trans h.reserved

theorem applyEdges (h : e.Tracks ps ls) (edges : Buttons) :
    (e.applyEdges edges).Tracks (ps ++ edges.pressed) ls := by
  unfold Encoder.applyEdges
  induction edges.pressed generalizing e ps with
  | nil =>
    rw [List.append_nil]
    exact h
  | cons b bs ih =>
    have hb := ih (h.press b)
    rw [List.append_assoc] at hb
    exact hb

theorem syncSwitch (h : e.Tracks ps ls) (level : Option Bool) :
    (e.syncSwitch level).Tracks ps (ls ++ level.toList) := by
  cases hr : e.rotateFor? level with
  | none =>
    rw [syncSwitch_of_none hr]
    refine ⟨h.runs, fun hs => ?_, h.reserved⟩
    rw [eq_none_of_rotateFor? hs hr, Option.toList_none, List.append_nil]
    exact h.level hs
  | some r =>
    obtain ⟨hs, l, rfl⟩ := exists_of_rotateFor? hr
    rw [syncSwitch_of_some hr]
    refine ⟨fun b x hb => ?_, fun _ => ?_, ?_⟩
    · have hx : x ≠ .rotateMode := ne_rotateMode hs hb
      dsimp only
      rw [ActionWord.isSet_put, if_neg hx]
      exact h.runs b x hb
    · dsimp only
      rw [ActionWord.isSet_put, if_pos rfl, Option.toList_some, List.getLast?_concat]
      exact (congrArg (Option.getD · false) hr).symm
    · exact (e.actions.reserved_put .rotateMode r).trans h.reserved

theorem tick {before : Buttons} {is : List Input} (h : e.Tracks (presses before is) (levels is))
    (i : Input) :
    ((e.applyEdges (i.buttons.risingEdges (lastSample before is))).syncSwitch i.switch).Tracks
      (presses before (is ++ [i])) (levels (is ++ [i])) := by
  rw [presses_snoc, levels_snoc, ← pressed_risingEdges]
  exact (h.applyEdges _).syncSwitch i.switch

theorem follows (h : e.Tracks ps ls) : e.actions.Follows e.source ps ls := by
  refine ⟨fun bit => ?_, h.reserved⟩
  cases bit with
  | left => exact h.runs .left .left rfl
  | right => exact h.runs .right .right rfl
  | up => exact h.runs .up .up rfl
  | down => exact h.runs .down .down rfl
  | rotateMode =>
    have hl := h.level
    unfold rotateFor? at hl
    cases hs : e.source with
    | modeButton =>
      rw [h.runs .mode .rotateMode (if_pos hs)]
      exact iff_of_eq (congrArg Odd (trailingRun_singleton ps))
    | switch =>
      rw [hl (by simp [hs]), hs]
      cases hg : ls.getLast? <;> simp [ActionWord.Due, hg]
    | switchActiveLow =>
      rw [hl (by simp [hs]), hs]
      cases hg : ls.getLast? <;> simp [ActionWord.Due, hg]

end Tracks

end Encoder

namespace Controller

section Serve

variable (c : Controller) (m : Block) (edges : Buttons) (switch : Option Bool) (out : Outcome)

theorem encoder_editActions :
    (c.editActions m edges switch).2.1.encoder =
      (c.encoder.applyEdges edges).syncSwitch switch := by
  unfold editActions
  dsimp only
  split
  · rfl
  · rfl

theorem encoder_serve :
    (c.serve m edges switch out).2.1.encoder =
      (c.encoder.applyEdges edges).syncSwitch switch := by
  obtain ⟨w, ht⟩ := (c.editActions m edges switch).2.1.countTick_frame
    (c.editActions m edges switch).2.2
  rw [serve, ht]
  exact c.encoder_editActions m edges switch

end Serve

variable (c : Controller) (m : Block) (buttons : Buttons) (switch : Option Bool)

theorem source_tick : (c.tick m buttons switch).2.1.encoder.source = c.encoder.source := by
  have ht := c.ticked m buttons switch
  generalize c.tick m buttons switch = r at ht ⊢
  cases ht with
  | idle => rfl
  | refused => rfl
  | stopped => rfl
  | started =>
    rw [encoder_serve, Encoder.source_syncSwitch, Encoder.source_applyEdges]
    rfl
  | served =>
    rw [encoder_serve, Encoder.source_syncSwitch, Encoder.source_applyEdges]
    rfl

/-- A tick that a session survives edits the shadow word, from scratch if it starts the session. -/
theorem encoder_tick :
    let r := c.tick m buttons switch
    r.2.1.state = .running →
      (r.1.transition = some .running ∧
        r.2.1.encoder = (c.encoder.reset.applyEdges (buttons.risingEdges c.previous)).syncSwitch
          switch) ∨
      (r.1.transition = none ∧ c.state = .running ∧
        r.2.1.encoder = (c.encoder.applyEdges (buttons.risingEdges c.previous)).syncSwitch
          switch) := by
  have ht := c.ticked m buttons switch
  generalize c.tick m buttons switch = r at ht ⊢
  intro r hr
  cases ht with
  | idle hs => cases hs.symm.trans hr
  | refused hs => cases hs.symm.trans hr
  | stopped hs => cases (congrArg (·.next .stop) hs).symm.trans hr
  | started => exact .inl ⟨rfl, encoder_serve _ _ _ _ _⟩
  | served hs => exact .inr ⟨rfl, hs, encoder_serve _ _ _ _ _⟩

end Controller

section Run

variable {s : SystemSetup} {m : Block} {es : List Entry} {y y' : System}

structure Controller.Shadows (source : RotateSource) (is : List Input) (c : Controller) :
    Prop where
  previous : c.previous = lastSample .released is
  source : c.encoder.source = source
  tracks : c.state = .running → ∃ earlier session, LastSession earlier session is ∧
    c.encoder.Tracks (presses (lastSample .released earlier) session) (levels session)

namespace Controller.Shadows

variable {source : RotateSource} {is : List Input} {c : Controller}

theorem new (s : ControllerSettings) (w : Window) :
    (Controller.new s w).Shadows s.rotateSource [] where
  previous := rfl
  source := rfl
  tracks h := by cases h

theorem tick (h : c.Shadows source is) (m : Block) (buttons : Buttons) (switch : Option Bool) :
    let r := c.tick m buttons switch
    r.2.1.Shadows source (is ++ [⟨buttons, switch, (SystemReply.ticked r.1).starts⟩]) := by
  intro r
  refine ⟨?_, (c.source_tick m buttons switch).trans h.source, fun hr => ?_⟩
  · rw [lastSample_append]
    exact c.previous_tick m buttons switch
  have hp := h.previous
  rcases c.encoder_tick m buttons switch hr with ⟨ht, he⟩ | ⟨ht, hc, he⟩
  · have hs : (SystemReply.ticked r.1).starts := SystemReply.starts_iff.2 ⟨r.1, rfl, ht⟩
    have h₀ : c.encoder.reset.Tracks (presses (lastSample .released is) []) (levels []) :=
      .reset c.encoder
    refine ⟨is, _, .started is hs, ?_⟩
    rw [he, hp]
    exact h₀.tick ⟨buttons, switch, _⟩
  · have hs : (SystemReply.ticked r.1).starts = false := by
      rw [SystemReply.starts, ht]
      rfl
    obtain ⟨earlier, session, hl, htr⟩ := h.tracks hc
    refine ⟨earlier, _, hl.snoc hs, ?_⟩
    rw [he, hp, hl.split, lastSample_append]
    exact htr.tick ⟨buttons, switch, _⟩

end Controller.Shadows

theorem Entry.input?_of_ne {op : SystemOp} (reply : SystemReply) (y : System)
    (h : op.participant ≠ .controllerLoop) : input? ⟨op, reply, y⟩ = none := by
  cases op with
  | tick => exact absurd rfl h
  | _ => rfl

theorem Controller.Shadows.of_no_input {source : RotateSource} {is : List Input} {c : Controller}
    {e : Entry} (h : c.Shadows source is) (he : e.input? = none) :
    c.Shadows source (is ++ e.input?.toList) := by
  rw [he, Option.toList_none, List.append_nil]
  exact h

theorem Controller.Shadows.run? {source : RotateSource} {is : List Input} {op : SystemOp}
    {reply : SystemReply} (h : y.controller.Shadows source is)
    (hr : y.run? s op = some (reply, y')) :
    y'.controller.Shadows source (is ++ (Entry.input? ⟨op, reply, y'⟩).toList) := by
  cases System.handled hr with
  | ticked buttons switch => exact h.tick y.memory buttons switch
  | selected w => exact of_no_input ⟨h.previous, h.source, h.tracks⟩ rfl
  | aside hop _ hc =>
    rw [hc]
    exact of_no_input h (Entry.input?_of_ne _ _ hop)

theorem Run.shadows (h : Run s m es y) :
    y.controller.Shadows s.controller.rotateSource (inputs es) := by
  induction h with
  | start => exact .new s.controller s.kind.newWindow
  | step _ hop ih =>
    rw [inputs_snoc]
    exact ih.run? hop

/-- While a session runs, the shadow word is the one word that follows the session's ticks. Of the
ticks before, only the last sample counts: over any stretch of the session a button that stays held
is pressed at most once, and not at all if it was held when the stretch began. -/
theorem actions_follow_session (h : Run s m es y) (hr : y.controller.state = .running) :
    ∃ earlier session, LastSession earlier session (inputs es) ∧
      let before := lastSample .released earlier
      (∀ w : ActionWord, w = y.controller.actions ↔
        w.Follows s.controller.rotateSource (presses before session) (levels session)) ∧
      ∀ xs held zs b, session = xs ++ held ++ zs → (∀ i ∈ held, i.buttons.isPressed b) →
        (presses (lastSample before xs) held).count b ≤
          if (lastSample before xs).isPressed b then 0 else 1 := by
  have hsh := h.shadows
  obtain ⟨earlier, session, hl, ht⟩ := hsh.tracks hr
  have hf := ht.follows
  rw [hsh.source] at hf
  refine ⟨earlier, session, hl, fun w => ⟨fun hw => ?_, fun hw => hw.eq hf⟩, ?_⟩
  · rw [hw]
    exact hf
  · intro xs held zs b _ hb
    exact count_presses_of_held hb (lastSample (lastSample .released earlier) xs)

end Run

/-- The second session starts with left still held. Down and up are pressed at once, so up stays. -/
theorem actions_follow_session_restart :
    let s : SystemSetup :=
      ⟨.cached, ⟨10, 100, .modeButton⟩, .shipped, MemoryMap.frameBuffers, id⟩
    let ops : List SystemOp := [.select ⟨⟨0x1000, 64⟩, none⟩, .tick ⟨1⟩ none, .tick ⟨16⟩ none,
      .tick ⟨17⟩ none, .tick ⟨16⟩ none, .tick ⟨17⟩ none, .tick ⟨58⟩ (some true)]
    ∃ es y, Run s .zero es y ∧ es.map (·.op) = ops ∧ y.controller.state = .running ∧
      y.controller.actions = ⟨9⟩ ∧ ∃ earlier session, LastSession earlier session (inputs es) ∧
        y.controller.actions.Follows .modeButton
          (presses (lastSample .released earlier) session) (levels session) := by
  intro s ops
  have h₀ := Run.start (s := s) (m := .zero)
  have h₁ := h₀.step (o := .select ⟨⟨0x1000, 64⟩, none⟩) rfl
  have h₂ := h₁.step (o := .tick ⟨1⟩ none) rfl
  have h₃ := h₂.step (o := .tick ⟨16⟩ none) rfl
  have h₄ := h₃.step (o := .tick ⟨17⟩ none) rfl
  have h₅ := h₄.step (o := .tick ⟨16⟩ none) rfl
  have h₆ := h₅.step (o := .tick ⟨17⟩ none) rfl
  have h₇ := h₆.step (o := .tick ⟨58⟩ (some true)) rfl
  obtain ⟨es, y, h, he, hr, ha⟩ : ∃ es y, Run s .zero es y ∧ es.map (·.op) = ops ∧
      y.controller.state = .running ∧ y.controller.actions = ⟨9⟩ :=
    ⟨_, _, h₇, rfl, by decide +kernel, by decide +kernel⟩
  obtain ⟨earlier, session, hl, hf, _⟩ := actions_follow_session h hr
  exact ⟨es, y, h, he, hr, ha, earlier, session, hl, (hf y.controller.actions).1 rfl⟩

end Handoff
