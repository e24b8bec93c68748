import Handoff.Proofs.History
import Handoff.Proofs.Punctual

namespace Handoff

def InputQueue.offer (q : InputQueue) (s : Sample) : InputQueue := (q.send? s).getD q

theorem InputQueue.samples_offer {q : InputQueue} {s : Sample}
    (h : q.samples.length < queueCapacity) : (q.offer s).samples = q.samples ++ [s] := by
  rw [offer, send?, dif_pos h]
  rfl

theorem InputQueue.offer_of_full {q : InputQueue} {s : Sample}
    (h : ¬q.samples.length < queueCapacity) : q.offer s = q := by
  rw [offer, send?, dif_neg h]
  rfl

/-- These events are left, and the first of them is waited for. -/
inductive InputPhase.Awaits : List InputEvent → InputPhase → Prop
  | next {due : Nat} {e : InputEvent} {later : List InputEvent} :
      Awaits (e :: later) (.waiting due e later)
  | done : Awaits [] .finished

def Moment.event? (m : Moment) : Option InputEvent :=
  match m.turn, m.before.input.phase with
  | .poll .input, .waiting _ e _ => some e
  | _, _ => none

/-- The press of an event is sent, and next its release. -/
structure Played (e : InputEvent) (p : Moment) (between : List Moment) (r : Moment) : Prop where
  sends : p.turn = .poll .input
  event : ∃ due rest, p.before.input.phase = .waiting due e rest
  quiet : ∀ m ∈ between, m.turn ≠ .poll .input
  releases : r.turn = .poll .input

def PlayedIn (ms : List Moment) (e : InputEvent) : Prop :=
  ∃ past p between r rest, ms = past ++ p :: (between ++ r :: rest) ∧ Played e p between r

/-- What is sent in a turn is released again in the turns after it. -/
def ReleasedIn (e : InputEvent) (p : Moment) (rest : List Moment) : Prop :=
  ∃ between r later, rest = between ++ r :: later ∧ Played e p between r

theorem ReleasedIn.append {e : InputEvent} {p : Moment} {rest : List Moment}
    (h : ReleasedIn e p rest) (ns : List Moment) : ReleasedIn e p (rest ++ ns) := by
  obtain ⟨between, r, later, rfl, hplayed⟩ := h
  exact ⟨between, r, later ++ ns, by simp, hplayed⟩

theorem Moment.event?_eq_some_iff {m : Moment} {e : InputEvent} :
    m.event? = some e ↔
      m.turn = .poll .input ∧ ∃ due rest, m.before.input.phase = .waiting due e rest := by
  unfold event?
  constructor
  · intro h
    split at h
    · next hturn hphase =>
      cases h
      exact ⟨hturn, _, _, hphase⟩
    · cases h
  · rintro ⟨hturn, due, rest, hphase⟩
    rw [hturn, hphase]

theorem Moment.event?_of_aside {m : Moment} (h : m.turn ≠ .poll .input) : m.event? = none := by
  cases he : m.event? with
  | none => rfl
  | some e => exact (h (event?_eq_some_iff.1 he).1).elim

def events (ms : List Moment) : List InputEvent := ms.filterMap Moment.event?

theorem events_snoc (ms : List Moment) (m : Moment) :
    events (ms ++ [m]) = events ms ++ m.event?.toList := filterMap_snoc Moment.event? ms m

def lastLevel (es : List InputEvent) : Option Bool := (es.filterMap (·.switch)).getLast?

theorem lastLevel_append (es : List InputEvent) (e? : Option InputEvent) :
    lastLevel (es ++ e?.toList) = ((e?.bind (·.switch)) <|> lastLevel es) := by
  cases e? with
  | none => rw [Option.toList_none, List.append_nil]; rfl
  | some e => exact getLast?_filterMap_snoc InputEvent.switch es e

def InputPhase.remaining (script : List InputEvent) : InputPhase → List InputEvent
  | .fresh => script
  | .waiting _ e rest => e :: rest
  | .holding _ rest => rest
  | .finished => []

namespace World

variable {t : Turn} {w : World}

theorem take_same (hw : w.Punctual) (hi : t ≠ .poll .input) (hc : t ≠ .poll .controller) :
    (w.take t).controller = w.controller ∧ (w.take t).inputs = w.inputs ∧
      (w.take t).input = w.input := by
  cases t with
  | clock time => exact ⟨rfl, rfl, rfl⟩
  | poll t =>
    cases t with
    | input => exact (hi rfl).elim
    | controller => exact (hc rfl).elim
    | main =>
      obtain ⟨_, _, _, _, heq⟩ := w.pollMain_frame
      change w.pollMain.controller = _ ∧ w.pollMain.inputs = _ ∧ w.pollMain.input = _
      rw [heq]
      exact ⟨rfl, rfl, rfl⟩
    | renderer =>
      obtain ⟨_, _, _, _, _, _, heq⟩ := hw.rendererTurn.frame hw.still
      change w.pollRenderer.controller = _ ∧ w.pollRenderer.inputs = _ ∧ w.pollRenderer.input = _
      rw [heq]
      exact ⟨rfl, rfl, rfl⟩

theorem input_take (hw : w.Punctual) (ht : w.Allows t) (hi : t ≠ .poll .input) :
    (w.take t).input = w.input := by
  by_cases hc : t = .poll .controller
  · subst hc
    obtain ⟨_, _, _, _, _, _, heq⟩ := (hw.controllerTurn ht).frame
    change w.pollController.input = _
    rw [heq]
  · exact (take_same hw hi hc).2.2

theorem holding_over {due : Nat} {rest : List InputEvent} (hr : w.ready .input = true)
    (h : w.input.phase = .holding due rest) : due ≤ w.now := by
  rcases ready_input hr with hp | ⟨_, _, _, hp, _⟩ | ⟨due', _, hp, hle⟩
  · cases hp.symm.trans h
  · cases hp.symm.trans h
  · cases hp.symm.trans h
    exact hle

theorem awaits_awaitEvent {rest : List InputEvent} (he : (w.awaitEvent rest).ending = none) :
    (w.awaitEvent rest).input.phase.Awaits rest := by
  cases rest with
  | nil => exact .done
  | cons e later =>
    unfold awaitEvent at he ⊢
    dsimp only at he ⊢
    revert he
    refine withAfter_cases (fun he => ?_) fun due _ _ => ?_
    · cases he
    · exact .next

theorem awaitEvent_same (w : World) (rest : List InputEvent) :
    (w.awaitEvent rest).inputs = w.inputs ∧ (w.awaitEvent rest).input.current = w.input.current ∧
      (w.awaitEvent rest).input.script = w.input.script := by
  cases rest with
  | nil => exact ⟨rfl, rfl, rfl⟩
  | cons e later =>
    unfold awaitEvent
    dsimp only
    exact withAfter_cases ⟨rfl, rfl, rfl⟩ fun _ _ => ⟨rfl, rfl, rfl⟩

theorem sendSample_same (w : World) :
    w.sendSample.inputs = w.inputs.offer w.input.current ∧ w.sendSample.input = w.input := by
  unfold sendSample InputQueue.offer
  cases w.inputs.send? w.input.current with
  | none => exact ⟨rfl, rfl⟩
  | some inputs => exact ⟨rfl, rfl⟩

inductive InputTurn (w v : World) : Prop
  | started (hp : w.input.phase = .fresh) (hs : v.input.current = w.input.current)
      (hq : v.inputs = w.inputs) (hv : v.input.phase.Awaits w.input.script)
  | passed {due : Nat} {e : InputEvent} {rest : List InputEvent}
      (hp : w.input.phase = .waiting due e rest) (hr : e.press = .released)
      (hs : v.input.current =
        ⟨w.input.current.buttons, e.switch <|> w.input.current.switch⟩)
      (hq : v.inputs = w.inputs.offer v.input.current) (hv : v.input.phase.Awaits rest)
  | pressed {due : Nat} {e : InputEvent} {rest : List InputEvent}
      (hp : w.input.phase = .waiting due e rest) (hr : e.press ≠ .released)
      (hs : v.input.current = ⟨e.press, e.switch <|> w.input.current.switch⟩)
      (hq : v.inputs = w.inputs.offer v.input.current)
      (hv : v.input.phase = .holding (w.now + e.holdMs.toNat * 1000) rest)
  | released {due : Nat} {rest : List InputEvent} (hp : w.input.phase = .holding due rest)
      (hs : v.input.current = ⟨.released, w.input.current.switch⟩)
      (hq : v.inputs = w.inputs.offer v.input.current) (hv : v.input.phase.Awaits rest)

theorem inputTurn (hr : w.ready .input = true) (he : w.pollInput.ending = none) :
    w.InputTurn w.pollInput := by
  rcases ready_input hr with hp | ⟨due, e, rest, hp, _⟩ | ⟨due, rest, hp, _⟩
  · rw [pollInput_fresh hp] at he ⊢
    obtain ⟨hq, hs, _⟩ := awaitEvent_same
      { w.post (.inputStarted w.input.script.length) with
        input := { w.input with startedAt := w.now } } w.input.script
    exact .started hp hs hq (awaits_awaitEvent he)
  · rw [pollInput_waiting hp, playEvent_eq] at he ⊢
    split at he
    · next hpress =>
      rw [if_pos hpress]
      obtain ⟨hq, hs, _⟩ := awaitEvent_same (w.switched e).sendSample rest
      obtain ⟨hq', hi⟩ := (w.switched e).sendSample_same
      have hs' := hs.trans (congrArg (·.current) hi)
      refine .passed hp hpress hs' ?_ (awaits_awaitEvent he)
      rw [hs', hq]
      exact hq'
    · next hpress =>
      rw [if_neg hpress]
      obtain ⟨hq, hi⟩ := sendSample_same
        ((w.switched e).setSample ⟨e.press, (w.switched e).input.current.switch⟩)
      have hs := congrArg (·.current) hi
      revert he
      refine withAfter_cases (fun he => ?_) fun time htime _ => ?_
      · cases he
      · rw [eq_of_after? htime]
        refine .pressed hp hpress hs ?_ rfl
        change (w.pressed e).inputs = w.inputs.offer (w.pressed e).input.current
        rw [pressed, hs]
        exact hq
  · rw [pollInput_holding hp] at he ⊢
    obtain ⟨hq, hs, _⟩ := awaitEvent_same
      (w.setSample { w.input.current with buttons := .released }).sendSample rest
    obtain ⟨hq', hi⟩ := sendSample_same (w.setSample { w.input.current with buttons := .released })
    have hs' := hs.trans (congrArg (·.current) hi)
    refine .released hp hs' ?_ (awaits_awaitEvent he)
    rw [hs', hq]
    exact hq'

theorem script_sendSample (w : World) : w.sendSample.input.script = w.input.script :=
  congrArg (·.script) w.sendSample_same.2

theorem script_awaitEvent (w : World) (rest : List InputEvent) :
    (w.awaitEvent rest).input.script = w.input.script :=
  (w.awaitEvent_same rest).2.2

theorem script_pollInput (w : World) : w.pollInput.input.script = w.input.script := by
  unfold pollInput
  split
  · exact script_awaitEvent _ _
  · next e rest _ =>
    rw [playEvent_eq]
    split
    · exact (script_awaitEvent _ _).trans (script_sendSample _)
    · have h : (w.pressed e).input.script = w.input.script := script_sendSample _
      exact withAfter_cases h fun _ _ => h
  · exact (script_awaitEvent _ _).trans (script_sendSample _)
  · rfl

end World

namespace InputPhase.Awaits

variable {rest script : List InputEvent} {phase : InputPhase}

theorem remaining (h : phase.Awaits rest) : phase.remaining script = rest := by
  cases h with
  | next => rfl
  | done => rfl

theorem not_fresh (h : phase.Awaits rest) : phase ≠ .fresh := by
  rintro rfl
  cases h

end InputPhase.Awaits

namespace World.InputTurn

variable {w v : World} (h : w.InputTurn v)
include h

theorem not_fresh : v.input.phase ≠ .fresh := by
  cases h with
  | started hp hs hq hv => exact hv.not_fresh
  | passed hp hr hs hq hv => exact hv.not_fresh
  | pressed hp hr hs hq hv =>
    rw [hv]
    exact nofun
  | released hp hs hq hv => exact hv.not_fresh

theorem remaining {script : List InputEvent} (hscript : w.input.script = script) :
    (Moment.event? ⟨.poll .input, w⟩).toList ++ v.input.phase.remaining script =
      w.input.phase.remaining script := by
  cases h with
  | started hp hs hq hv =>
    rw [Moment.event?, hp, hv.remaining, hscript]
    rfl
  | passed hp hr hs hq hv =>
    rw [Moment.event?, hp, hv.remaining]
    rfl
  | pressed hp hr hs hq hv =>
    rw [Moment.event?, hp, hv]
    rfl
  | released hp hs hq hv =>
    rw [Moment.event?, hp, hv.remaining]
    rfl

theorem switch :
    v.input.current.switch =
      (((Moment.event? ⟨.poll .input, w⟩).bind (·.switch)) <|> w.input.current.switch) := by
  cases h with
  | started hp hs hq hv =>
    rw [Moment.event?, hp, hs]
    rfl
  | passed hp hr hs hq hv => rw [Moment.event?, hp, hs, Option.bind_some]
  | pressed hp hr hs hq hv => rw [Moment.event?, hp, hs, Option.bind_some]
  | released hp hs hq hv =>
    rw [Moment.event?, hp, hs]
    rfl

/-- Only while a press is held are there buttons in the sample. -/
theorem buttons
    (hw : (∀ due rest, w.input.phase ≠ .holding due rest) → w.input.current.buttons = .released)
    (hv : ∀ due rest, v.input.phase ≠ .holding due rest) :
    v.input.current.buttons = .released := by
  cases h with
  | started hp hs hq _ =>
    rw [hs]
    apply hw
    rw [hp]
    exact nofun
  | passed hp hr hs hq _ =>
    rw [hs]
    apply hw
    rw [hp]
    exact nofun
  | pressed hp hr hs hq hphase => exact (hv _ _ hphase).elim
  | released hp hs hq _ => rw [hs]

theorem holding {e : InputEvent} (he : Moment.event? ⟨.poll .input, w⟩ = some e)
    (hpress : e.press ≠ .released) : ∃ due rest, v.input.phase = .holding due rest := by
  cases h with
  | started hp hs hq hv =>
    rw [Moment.event?, hp] at he
    cases he
  | passed hp hr hs hq hv =>
    rw [Moment.event?, hp] at he
    cases he
    exact (hpress hr).elim
  | pressed hp hr hs hq hv => exact ⟨_, _, hv⟩
  | released hp hs hq hv =>
    rw [Moment.event?, hp] at he
    cases he

end World.InputTurn

/-- Every press that was sent is released again, except for one that is held still. -/
def PressesEnd (ms : List Moment) (phase : InputPhase) : Prop :=
  ∀ past p rest e, ms = past ++ p :: rest → p.event? = some e → e.press ≠ .released →
    ReleasedIn e p rest ∨
      (∃ due later, phase = .holding due later) ∧ ∀ m ∈ rest, m.turn ≠ .poll .input

namespace PressesEnd

variable {ms : List Moment} {phase phase' : InputPhase} {m : Moment}

theorem nil : PressesEnd [] phase := by
  intro past p rest e hms
  simp at hms

theorem aside (h : PressesEnd ms phase) (hi : m.turn ≠ .poll .input) :
    PressesEnd (ms ++ [m]) phase := by
  intro past p rest e hms he hpress
  rcases List.eq_nil_or_concat rest with rfl | ⟨rest, x, rfl⟩
  · obtain ⟨-, hp⟩ := List.append_inj' hms rfl
    cases hp
    rw [Moment.event?_of_aside hi] at he
    cases he
  · rw [List.concat_eq_append, ← List.cons_append, ← List.append_assoc] at hms
    obtain ⟨rfl, hx⟩ := List.append_inj' hms rfl
    cases hx
    rw [List.concat_eq_append]
    rcases h past p rest e rfl he hpress with hreleased | ⟨hheld, hquiet⟩
    · exact .inl (hreleased.append _)
    · exact .inr ⟨hheld, forall_mem_snoc.2 ⟨hquiet, hi⟩⟩

theorem input (h : PressesEnd ms phase) (hi : m.turn = .poll .input)
    (hm : ∀ e, m.event? = some e → e.press ≠ .released → ∃ due rest, phase' = .holding due rest) :
    PressesEnd (ms ++ [m]) phase' := by
  intro past p rest e hms he hpress
  rcases List.eq_nil_or_concat rest with rfl | ⟨rest, x, rfl⟩
  · obtain ⟨-, hp⟩ := List.append_inj' hms rfl
    cases hp
    exact .inr ⟨hm e he hpress, by simp⟩
  · rw [List.concat_eq_append, ← List.cons_append, ← List.append_assoc] at hms
    obtain ⟨rfl, hx⟩ := List.append_inj' hms rfl
    cases hx
    rw [List.concat_eq_append]
    rcases h past p rest e rfl he hpress with hreleased | ⟨-, hquiet⟩
    · exact .inl (hreleased.append _)
    · obtain ⟨hsends, hevent⟩ := Moment.event?_eq_some_iff.1 he
      exact .inl ⟨rest, _, [], rfl, hsends, hevent, hquiet, hi⟩

end PressesEnd

/-- What an input task has done in the turns of a run, and what it has still to do. -/
structure Replayed (script : List InputEvent) (ms : List Moment) (i : InputTask) : Prop where
  kept : i.script = script
  fresh : i.phase = .fresh → ∀ m ∈ ms, m.turn ≠ .poll .input
  played : events ms ++ i.phase.remaining script = script
  switch : i.current.switch = lastLevel (events ms)
  buttons : (∀ due rest, i.phase ≠ .holding due rest) → i.current.buttons = .released
  presses : PressesEnd ms i.phase

namespace Replayed

variable {script : List InputEvent} {ms : List Moment} {i : InputTask} {m : Moment} {w : World}

theorem start (script : List InputEvent) : Replayed script [] (.new script) where
  kept := rfl
  fresh _ m hm := by cases hm
  played := rfl
  switch := rfl
  buttons _ := rfl
  presses := .nil

theorem aside (h : Replayed script ms i) (hi : m.turn ≠ .poll .input) :
    Replayed script (ms ++ [m]) i where
  kept := h.kept
  fresh hp := forall_mem_snoc.2 ⟨h.fresh hp, hi⟩
  played := by
    rw [events_snoc, Moment.event?_of_aside hi, Option.toList_none, List.append_nil]
    exact h.played
  switch := by
    rw [events_snoc, Moment.event?_of_aside hi, Option.toList_none, List.append_nil]
    exact h.switch
  buttons := h.buttons
  presses := h.presses.aside hi

theorem input (h : Replayed script ms w.input) (ht : w.InputTurn w.pollInput) :
    Replayed script (ms ++ [⟨.poll .input, w⟩]) w.pollInput.input where
  kept := w.script_pollInput.trans h.kept
  fresh hf := (ht.not_fresh hf).elim
  played := by
    rw [events_snoc, List.append_assoc, ht.remaining h.kept]
    exact h.played
  switch := by rw [events_snoc, lastLevel_append, ht.switch, h.switch]
  buttons := ht.buttons h.buttons
  presses := h.presses.input rfl fun _ he hpress => ht.holding he hpress

end Replayed

theorem Unfolds.replayed {u w : World} {ms : List Moment} {script : List InputEvent}
    (h : Unfolds u ms w) (hp : u.Punctual) (hu : u.input = .new script) (he : w.ending = none) :
    Replayed script ms w.input := by
  induction h with
  | start =>
    rw [hu]
    exact .start script
  | @turn ms w t h ht ih =>
    have hreplayed := ih ht.running
    by_cases hi : t = .poll .input
    · subst hi
      exact hreplayed.input (World.inputTurn ht he)
    · rw [World.input_take (h.punctual hp) ht hi]
      exact hreplayed.aside hi

/-- The events of a script are played in their order, and every press is released. -/
structure PlaysAll (script : List InputEvent) (ms : List Moment) : Prop where
  inOrder : events ms = script
  released : ∀ past p rest e, ms = past ++ p :: rest → p.event? = some e → e.press ≠ .released →
    ReleasedIn e p rest

theorem Replayed.playsAll {script : List InputEvent} {ms : List Moment} {i : InputTask}
    (h : Replayed script ms i) (hi : i.phase = .finished) : PlaysAll script ms := by
  constructor
  · have hplayed := h.played
    rw [hi] at hplayed
    exact (List.append_nil _).symm.trans hplayed
  · intro past p rest e hms he hpress
    rcases h.presses past p rest e hms he hpress with hreleased | ⟨⟨due, later, hheld⟩, -⟩
    · exact hreleased
    · cases hi.symm.trans hheld

theorem PlaysAll.playedIn {script : List InputEvent} {ms : List Moment} (h : PlaysAll script ms)
    {e : InputEvent} (he : e ∈ script) (hpress : e.press ≠ .released) : PlayedIn ms e := by
  rw [← h.inOrder, events] at he
  obtain ⟨p, hp, hevent⟩ := List.mem_filterMap.1 he
  obtain ⟨past, rest, rfl⟩ := List.append_of_mem hp
  obtain ⟨between, r, later, rfl, hplayed⟩ := h.released past p rest e rfl hevent hpress
  exact ⟨past, p, between, r, later, rfl, hplayed⟩

/-- In a run that goes through the script every press is sent and released. -/
theorem Unfolds.plays {u w : World} {ms : List Moment} {script : List InputEvent}
    (h : Unfolds u ms w) (hp : u.Punctual) (hu : u.input = .new script) (he : w.ending = none)
    (hw : w.input.phase = .finished) {e : InputEvent} (hm : e ∈ script)
    (hpress : e.press ≠ .released) : PlayedIn ms e :=
  ((h.replayed hp hu he).playsAll hw).playedIn hm hpress

end Handoff
