import Handoff.Proofs.Writes

namespace Handoff

def Horizontal.bit? : Horizontal → Option ActionBit
  | none => .none
  | left => some .left
  | right => some .right

def Vertical.bit? : Vertical → Option ActionBit
  | none => .none
  | up => some .up
  | down => some .down

namespace Actions

/-- The bits that are named: the rotate bit, and for each axis one direction at most. -/
def bits (a : Actions) : List ActionBit :=
  (if a.rotateMode then [.rotateMode] else []) ++ a.horizontal.bit?.toList ++
    a.vertical.bit?.toList

def word (a : Actions) : ActionWord := a.bits.foldl ActionWord.set .empty

theorem mem_bits (a : Actions) (b : ActionBit) :
    b ∈ a.bits ↔
      match b with
      | .rotateMode => a.rotateMode
      | .left => a.horizontal = .left
      | .right => a.horizontal = .right
      | .up => a.vertical = .up
      | .down => a.vertical = .down := by
  obtain ⟨r, h, v⟩ := a
  cases b <;> cases r <;> cases h <;> cases v <;> decide

end Actions

namespace ActionWord

structure WellFormed (w : ActionWord) : Prop where
  reserved : w.reserved = 0
  horizontal : ¬(w.isSet .left ∧ w.isSet .right)
  vertical : ¬(w.isSet .up ∧ w.isSet .down)

variable {w v : ActionWord}

theorem isSet_foldl_set (bs : List ActionBit) (w : ActionWord) (b : ActionBit) :
    (bs.foldl set w).isSet b ↔ w.isSet b ∨ b ∈ bs := by
  induction bs generalizing w with
  | nil => simp
  | cons c bs ih => simp [ih, or_assoc]

theorem reserved_foldl_set (bs : List ActionBit) (w : ActionWord) :
    (bs.foldl set w).reserved = w.reserved := by
  induction bs generalizing w with
  | nil => rfl
  | cons c bs ih => exact (ih (w.set c)).trans (w.reserved_set c)

namespace WellFormed

theorem empty : ActionWord.empty.WellFormed where
  reserved := by decide
  horizontal := by decide
  vertical := by decide

/-- A press sets a direction only where it clears the opposite one. -/
theorem toggle (h : w.WellFormed) (b : ActionBit) : (w.toggle b).WellFormed := by
  obtain ⟨hr, hh, hv⟩ := h
  refine ⟨(w.reserved_toggle b).trans hr, ?_, ?_⟩
  · rintro ⟨hl, hr⟩
    rw [isSet_toggle] at hl hr
    cases b <;> simp_all [ActionBit.opposite]
  · rintro ⟨hu, hd⟩
    rw [isSet_toggle] at hu hd
    cases b <;> simp_all [ActionBit.opposite]

theorem put_rotateMode (h : w.WellFormed) (value : Bool) :
    (w.put .rotateMode value).WellFormed := by
  obtain ⟨hr, hh, hv⟩ := h
  refine ⟨(w.reserved_put .rotateMode value).trans hr, ?_, ?_⟩
  · rwa [isSet_put, isSet_put]
  · rwa [isSet_put, isSet_put]

theorem mem_bits_decode (h : w.WellFormed) (b : ActionBit) : b ∈ w.decode.bits ↔ w.isSet b := by
  obtain ⟨-, hh, hv⟩ := h
  rw [Actions.mem_bits]
  cases b with
  | rotateMode => rfl
  | left => cases hl : w.isSet .left <;> cases hr : w.isSet .right <;> simp_all [decode]
  | right => cases hl : w.isSet .left <;> cases hr : w.isSet .right <;> simp_all [decode]
  | up => cases hu : w.isSet .up <;> cases hd : w.isSet .down <;> simp_all [decode]
  | down => cases hu : w.isSet .up <;> cases hd : w.isSet .down <;> simp_all [decode]

theorem word_decode (h : w.WellFormed) : w.decode.word = w := by
  apply ext_isSet
  · intro b
    rw [Bool.eq_iff_iff, Actions.word, isSet_foldl_set, h.mem_bits_decode]
    simp
  · exact (reserved_foldl_set _ _).trans h.reserved.symm

theorem eq_of_decode (hw : w.WellFormed) (hv : v.WellFormed) (h : v.decode = w.decode) : v = w := by
  rw [← hv.word_decode, h, hw.word_decode]

end WellFormed

end ActionWord

namespace Encoder

variable {e : Encoder}

theorem wellFormed_press (h : e.actions.WellFormed) (b : Button) :
    (e.press b).actions.WellFormed := by
  cases hb : e.bitFor? b with
  | none => rwa [press_of_none hb]
  | some x =>
    rw [press_of_some hb]
    exact h.toggle x

theorem wellFormed_applyEdges (h : e.actions.WellFormed) (edges : Buttons) :
    (e.applyEdges edges).actions.WellFormed := by
  unfold applyEdges
  induction edges.pressed generalizing e with
  | nil => exact h
  | cons b bs ih => exact ih (wellFormed_press h b)

theorem wellFormed_syncSwitch (h : e.actions.WellFormed) (level : Option Bool) :
    (e.syncSwitch level).actions.WellFormed := by
  cases hr : e.rotateFor? level with
  | none => rwa [syncSwitch_of_none hr]
  | some r =>
    rw [syncSwitch_of_some hr]
    exact h.put_rotateMode r

end Encoder

theorem LinkOp.mem_written_inputActions {ops : List LinkOp} {v : UInt32}
    (h : (.inputActions, v) ∈ ops.flatMap written) : ∃ a, publishActions a ∈ ops ∧ a.bits = v := by
  obtain ⟨op, hop, hv⟩ := List.mem_flatMap.1 h
  cases op with
  | publishActions a =>
    cases List.mem_singleton.1 hv
    exact ⟨a, hop, rfl⟩
  | publishProgram r => simp [written] at hv
  | publishResource r => simp [written] at hv
  | sampleLatency => cases hv

theorem Workload.publishes_empty {w : Workload} {a : ActionWord}
    (h : .publishActions a ∈ w.publishing) : a = .empty := by
  simpa [publishing] using h

namespace Controller

variable {c : Controller} {m : Block} {edges : Buttons} {switch : Option Bool} {a : ActionWord}

theorem wellFormed_serve (h : c.actions.WellFormed) (out : Outcome) :
    (c.serve m edges switch out).2.1.actions.WellFormed := by
  rw [actions, encoder_serve]
  exact Encoder.wellFormed_syncSwitch (Encoder.wellFormed_applyEdges h edges) switch

theorem wellFormed_tick (h : c.actions.WellFormed) (m : Block) (buttons : Buttons)
    (switch : Option Bool) : (c.tick m buttons switch).2.1.actions.WellFormed := by
  have ht := c.ticked m buttons switch
  generalize c.tick m buttons switch = r at ht ⊢
  cases ht with
  | idle => exact h
  | refused => exact h
  | stopped => exact h
  | @started w =>
    have hs : ((c.sample buttons).start m w).1.actions.WellFormed := .empty
    exact wellFormed_serve hs _
  | served =>
    have hs : (c.sample buttons).actions.WellFormed := h
    exact wellFormed_serve hs _

theorem publishes_serve {out : Outcome} {latency : Option UInt32}
    (h : .publishActions a ∈ (c.editActions m edges switch).1.toList.map LinkOp.publishActions ++
      latency.toList.map fun _ => LinkOp.sampleLatency) :
    a = (c.serve m edges switch out).2.1.actions := by
  rw [published_editActions] at h
  rw [actions_serve]
  rcases List.mem_append.1 h with h | h
  · split at h
    · cases h
    · cases List.mem_singleton.1 h
      rfl
  · simp at h

/-- A tick publishes the shadow word that it leaves behind, and a start the empty word before. -/
theorem publishes_tick (c : Controller) (m : Block) (buttons : Buttons) (switch : Option Bool) :
    let r := c.tick m buttons switch
    .publishActions a ∈ r.1.operations c.workload → a = .empty ∨ a = r.2.1.actions := by
  have ht := c.ticked m buttons switch
  generalize c.tick m buttons switch = r at ht ⊢
  intro r ha
  cases ht with
  | idle => cases ha
  | refused => cases ha
  | stopped => cases ha
  | @started w hs hw =>
    have ho := (c.sample buttons).operations_started m (buttons.risingEdges c.previous) switch w
    rw [hw, ho.2] at ha
    exact (List.mem_append.1 ha).imp Workload.publishes_empty publishes_serve
  | served hs =>
    have ho := (c.sample buttons).operations_served m (buttons.risingEdges c.previous) switch
      c.workload
    rw [ho.2] at ha
    exact .inr (publishes_serve ha)

end Controller

section Run

variable {s : SystemSetup} {m : Block} {es : List Entry} {y : System}

theorem Run.wellFormed (h : Run s m es y) :
    y.controller.actions.WellFormed ∧
      ∀ w : ActionWord, (.inputActions, w.bits) ∈ written es → w.WellFormed := by
  induction h with
  | start => exact ⟨.empty, fun w hw => (List.not_mem_nil hw).elim⟩
  | @step es y y' op reply h hop ih =>
    obtain ⟨ha, hes⟩ := ih
    cases System.handled hop with
    | ticked buttons switch =>
      have ha' := Controller.wellFormed_tick ha y.memory buttons switch
      refine ⟨ha', fun w hw => ?_⟩
      rw [written_snoc, Entry.written, SystemReply.outcome?,
        y.controller.workload_tick y.memory buttons switch] at hw
      rcases List.mem_append.1 hw with hw | hw
      · exact hes w hw
      obtain ⟨a, hop, hb⟩ := LinkOp.mem_written_inputActions hw
      have hwa : a = w := by
        cases a
        cases hb
        rfl
      subst hwa
      rcases y.controller.publishes_tick y.memory buttons switch hop with rfl | rfl
      · exact .empty
      · exact ha'
    | selected w =>
      refine ⟨ha, fun w hw => hes w ?_⟩
      rwa [written_snoc, Entry.written_of_none rfl, List.append_nil] at hw
    | aside _ hreply hc =>
      refine ⟨hc ▸ ha, fun w hw => hes w ?_⟩
      rwa [written_snoc, Entry.written_of_none hreply, List.append_nil] at hw

/-- Over any window, the action words that a run writes are well formed, and each is put together
again from what is decoded from it. So no two of them, in this run or in any other, are decoded
alike. What is written is what the ticks do to their link, and what memory then holds. -/
theorem written_words_well_formed (h : Run s m es y) :
    (∀ w : ActionWord, (.inputActions, w.bits) ∈ written es →
      w.WellFormed ∧ w.decode.word = w) ∧
    (∀ {s' m' es' y'}, Run s' m' es' y' → ∀ w v : ActionWord,
      (.inputActions, w.bits) ∈ written es → (.inputActions, v.bits) ∈ written es' →
        v.decode = w.decode → v = w) ∧
    (∀ buttons switch,
      let r := y.controller.tick y.memory buttons switch
      r.2.1.link r.2.2 =
        (y.controller.link y.memory).perform (r.1.operations y.controller.workload)) ∧
    ((∀ op ∈ es.map (·.op), op.participant ≠ .controllerLink) → ∀ f, f.owner = .controller →
      y.memory.field f = (m.writeAll s.kind.order (written es)).field f) := by
  refine ⟨fun w hw => ?_, fun h' w v hw hv he => ?_, fun buttons switch => ?_, fun hes f hf => ?_⟩
  · have hwf := h.wellFormed.2 w hw
    exact ⟨hwf, hwf.word_decode⟩
  · exact (h.wellFormed.2 w hw).eq_of_decode (h'.wellFormed.2 v hv) he
  · exact y.controller.link_tick y.memory switch buttons
  · exact h.field_written hes hf

end Run

/-- Down and up are pressed at once and up stays, next to a rotate bit that follows the switch. -/
theorem written_words_well_formed_switch :
    let s : SystemSetup :=
      ⟨.mapped .big, ⟨10, 100, .switch⟩, .shipped, MemoryMap.frameBuffers, id⟩
    let ops : List SystemOp :=
      [.select ⟨⟨0x1000, 64⟩, none⟩, .tick ⟨1⟩ (some false), .tick ⟨10⟩ (some true)]
    ∃ es y, Run s .zero es y ∧ es.map (·.op) = ops ∧
      written es = [(.programLocation, 0x1000), (.programSize, 64), (.inputActions, 0),
        (.inputActions, 9)] ∧
      (ActionWord.mk 9).decode = ⟨true, .none, .up⟩ ∧
      (∀ w : ActionWord, (.inputActions, w.bits) ∈ written es →
        w.WellFormed ∧ w.decode.word = w) ∧
      y.memory.field .inputActions = swapBytes 9 := by
  intro s ops
  have h₀ := Run.start (s := s) (m := .zero)
  have h₁ := h₀.step (o := .select ⟨⟨0x1000, 64⟩, none⟩) rfl
  have h₂ := h₁.step (o := .tick ⟨1⟩ (some false)) rfl
  have h₃ := h₂.step (o := .tick ⟨10⟩ (some true)) rfl
  obtain ⟨es, y, h, he, hw⟩ : ∃ es y, Run s .zero es y ∧ es.map (·.op) = ops ∧
      written es = [(.programLocation, 0x1000), (.programSize, 64), (.inputActions, 0),
        (.inputActions, 9)] := ⟨_, _, h₃, rfl, by decide +kernel⟩
  obtain ⟨hwf, -, -, hm⟩ := written_words_well_formed h
  have hops : ∀ op ∈ es.map (·.op), op.participant ≠ .controllerLink := by
    rw [he]
    decide
  refine ⟨es, y, h, he, hw, by decide, hwf, ?_⟩
  rw [hm hops .inputActions rfl, hw]
  decide +kernel

end Handoff
