import Handoff.Proofs.Ownership
import Handoff.Proofs.Shadow

namespace Handoff

inductive LinkOp
  | publishProgram (r : Region)
  | publishResource (r : Region)
  | publishActions (a : ActionWord)
  | sampleLatency
deriving DecidableEq, Repr

namespace LinkOp

def run (l : Link .controller) : LinkOp → Link .controller
  | publishProgram r => l.publishProgram r
  | publishResource r => l.publishResource r
  | publishActions a => l.publishActions a
  | sampleLatency => l.sampleLatency.2

def written : LinkOp → List (Field × UInt32)
  | publishProgram r => [(.programLocation, r.location), (.programSize, r.size)]
  | publishResource r => [(.resourceLocation, r.location), (.resourceSize, r.size)]
  | publishActions a => [(.inputActions, a.bits)]
  | sampleLatency => []

end LinkOp

namespace Link

def perform (l : Link .controller) (ops : List LinkOp) : Link .controller := ops.foldl LinkOp.run l

theorem perform_append (l : Link .controller) (ops ops' : List LinkOp) :
    l.perform (ops ++ ops') = (l.perform ops).perform ops' := List.foldl_append

end Link

def Workload.publishing (w : Workload) : List LinkOp :=
  .publishProgram w.program :: w.resource.toList.map .publishResource ++ [.publishActions .empty]

theorem Link.publishWorkload_eq (l : Link .controller) (w : Workload) :
    l.publishWorkload w = l.perform w.publishing := by
  obtain ⟨p, r⟩ := w
  cases r <;> rfl

/-- What an outcome says about the window, given the workload that is selected. A start publishes
no actions with its workload, so these are not written again. -/
def Outcome.operations (o : Outcome) (selected : Option Workload) : List LinkOp :=
  let published := match o.transition, selected with
    | some .running, some w =>
      w.publishing ++ (o.published.filter (· ≠ .empty)).toList.map .publishActions
    | _, _ => o.published.toList.map .publishActions
  published ++ o.latency.toList.map fun _ => .sampleLatency

namespace Encoder

variable {e : Encoder}

theorem rotateMode_press (hs : e.source ≠ .modeButton) (b : Button) :
    (e.press b).actions.isSet .rotateMode = e.actions.isSet .rotateMode := by
  cases hb : e.bitFor? b with
  | none => rw [press_of_none hb]
  | some x =>
    have hx : x ≠ .rotateMode := ne_rotateMode hs hb
    rw [press_of_some hb, ActionWord.isSet_toggle, if_neg hx.symm, if_neg (by cases x <;> decide)]

theorem rotateMode_applyEdges (hs : e.source ≠ .modeButton) (edges : Buttons) :
    (e.applyEdges edges).actions.isSet .rotateMode = e.actions.isSet .rotateMode := by
  unfold applyEdges
  induction edges.pressed generalizing e with
  | nil => rfl
  | cons b bs ih =>
    exact (ih (by rwa [source_press])).trans (rotateMode_press hs b)

/-- The switch cannot undo what the buttons did: with a switch no button has the rotate bit. -/
theorem applyEdges_of_syncSwitch (edges : Buttons) (level : Option Bool)
    (h : ((e.applyEdges edges).syncSwitch level).actions = e.actions) :
    (e.applyEdges edges).actions = e.actions := by
  cases hr : (e.applyEdges edges).rotateFor? level with
  | none => rwa [syncSwitch_of_none hr] at h
  | some r =>
    obtain ⟨hs, -⟩ := exists_of_rotateFor? hr
    rw [source_applyEdges] at hs
    rw [syncSwitch_of_some hr] at h
    refine ActionWord.ext_isSet (fun x => ?_) ?_
    · by_cases hx : x = .rotateMode
      · rw [hx, rotateMode_applyEdges hs]
      · rw [← h]
        dsimp only
        rw [ActionWord.isSet_put, if_neg hx]
    · rw [← h]
      exact (ActionWord.reserved_put _ .rotateMode r).symm

/-- One of the two edits changes the word just where both together do. -/
theorem edits_change_iff (e : Encoder) (edges : Buttons) (level : Option Bool) :
    ((e.applyEdges edges).actions ≠ e.actions ∨
      ((e.applyEdges edges).syncSwitch level).actions ≠ (e.applyEdges edges).actions) ↔
    ((e.applyEdges edges).syncSwitch level).actions ≠ e.actions := by
  constructor
  · intro h he
    have hedit := applyEdges_of_syncSwitch edges level he
    rw [hedit] at h
    exact h.elim (· rfl) (· he)
  · intro h
    by_cases he : (e.applyEdges edges).actions = e.actions
    · rw [he]
      exact .inr h
    · exact .inl he

end Encoder

namespace Controller

section Parts

variable (c : Controller) (m : Block) (edges : Buttons) (switch : Option Bool) (out : Outcome)

theorem published_editActions :
    let r := c.editActions m edges switch
    r.1 = if r.2.1.actions = c.actions then none else some r.2.1.actions := by
  have hi := c.encoder.edits_change_iff edges switch
  unfold editActions
  dsimp only
  split
  · next h => exact (if_neg (hi.1 h)).symm
  · next h => exact (if_pos (not_not.1 fun he => h (hi.2 he))).symm

theorem link_editActions :
    let r := c.editActions m edges switch
    r.2.1.link r.2.2 = (c.link m).perform (r.1.toList.map .publishActions) := by
  unfold editActions
  dsimp only
  split
  · rfl
  · rfl

theorem link_countTick :
    (c.countTick m).2.link m =
      (c.link m).perform ((c.countTick m).1.toList.map fun _ => .sampleLatency) := by
  unfold countTick
  dsimp only
  split
  · rfl
  · rfl

theorem link_serve :
    let r := c.serve m edges switch out
    r.2.1.link r.2.2 = (c.link m).perform
      ((c.editActions m edges switch).1.toList.map .publishActions ++
        r.1.latency.toList.map fun _ => .sampleLatency) := by
  intro r
  rw [Link.perform_append, ← link_editActions]
  exact link_countTick _ _

theorem published_serve :
    (c.serve m edges switch out).1.published =
      (c.editActions m edges switch).1.or out.published := by
  rw [serve]
  cases (c.editActions m edges switch).1 <;> rfl

theorem actions_serve :
    (c.serve m edges switch out).2.1.actions = (c.editActions m edges switch).2.1.actions :=
  congrArg Encoder.actions
    ((c.encoder_serve m edges switch out).trans (c.encoder_editActions m edges switch).symm)

end Parts

end Controller

/-- From one state to the next, a tick does what its outcome says. -/
structure Outcome.Accounts (o : Outcome) (c : Controller) (m : Block) (c' : Controller)
    (m' : Block) : Prop where
  performed : c'.link m' = (c.link m).perform (o.operations c.workload)
  idle : c'.state = .idle → o.operations c.workload = [] ∧ o.published = none ∧
    c'.link m' = c.link m ∧ c'.actions = c.actions ∧ c'.workload = c.workload
  refused : o.startRefused = true → o.transition = none ∧ c.state = .idle ∧ c'.state = .idle ∧
    c'.line = c.line
  stays : c.state = .running → c'.state = .running →
    o.published = (if c'.actions = c.actions then none else some c'.actions) ∧
    (o.operations c.workload).flatMap LinkOp.written =
      o.published.toList.map fun a => (.inputActions, a.bits)
  starts : c.state = .idle → c'.state = .running →
    o.published = some c'.actions ∧ m'.field .inputActions = c'.actions.bits

namespace Outcome

variable {o : Outcome} {selected : Option Workload}

theorem operations_of_not_start (h : o.transition ≠ some .running) :
    o.operations selected =
      o.published.toList.map .publishActions ++ o.latency.toList.map fun _ => .sampleLatency := by
  unfold operations
  split
  · next ht => exact absurd ht h
  · rfl

theorem operations_of_start {w : Workload} (h : o.transition = some .running)
    (hw : selected = some w) :
    o.operations selected =
      w.publishing ++ (o.published.filter (· ≠ .empty)).toList.map .publishActions ++
        o.latency.toList.map fun _ => .sampleLatency := by
  simp only [operations, h, hw]

theorem Accounts.of_idle {c c' : Controller} {m : Block} (ht : o.transition ≠ some .running)
    (hp : o.published = none) (hl : o.latency = none) (hs : c'.state = .idle)
    (hlink : c'.link m = c.link m) (ha : c'.actions = c.actions)
    (hw : c'.workload = c.workload)
    (hr : o.startRefused = true → o.transition = none ∧ c.state = .idle ∧ c'.line = c.line) :
    o.Accounts c m c' m := by
  have ho : o.operations c.workload = [] := by
    rw [operations_of_not_start ht, hp, hl]
    rfl
  have hn : c'.state ≠ .running := by
    rw [hs]
    decide
  refine ⟨?_, fun _ => ⟨ho, hp, hlink, ha, hw⟩, fun h => ?_, fun _ h => absurd h hn,
    fun _ h => absurd h hn⟩
  · rw [ho]
    exact hlink
  · obtain ⟨ht, hc, hline⟩ := hr h
    exact ⟨ht, hc, hs, hline⟩

end Outcome

namespace Controller

variable (c : Controller) (m : Block) (edges : Buttons) (switch : Option Bool)

theorem operations_served (selected : Option Workload) :
    let r := c.serve m edges switch .quiet
    r.1.published = (c.editActions m edges switch).1 ∧
      r.1.operations selected =
        (c.editActions m edges switch).1.toList.map .publishActions ++
          r.1.latency.toList.map fun _ => .sampleLatency := by
  intro r
  have hpub : r.1.published = (c.editActions m edges switch).1 :=
    (c.published_serve m edges switch .quiet).trans Option.or_none
  refine ⟨hpub, ?_⟩
  rw [← hpub]
  exact Outcome.operations_of_not_start nofun

/-- What a start publishes last is the shadow word: the empty one, unless the same tick edits it. -/
theorem operations_started (w : Workload) :
    let s := c.start m w
    let r := s.1.serve s.2 edges switch
      { Outcome.quiet with transition := some .running, published := some .empty }
    r.1.published = some r.2.1.actions ∧
      r.1.operations (some w) = w.publishing ++
        ((s.1.editActions s.2 edges switch).1.toList.map .publishActions ++
          r.1.latency.toList.map fun _ => .sampleLatency) := by
  intro s r
  have hedit : (s.1.editActions s.2 edges switch).1 =
      if r.2.1.actions = .empty then none else some r.2.1.actions := by
    rw [s.1.published_editActions, actions_serve]
    rfl
  have hpub : r.1.published = some r.2.1.actions := by
    rw [published_serve, hedit]
    split
    · next he => rw [he]; rfl
    · rfl
  refine ⟨hpub, ?_⟩
  rw [Outcome.operations_of_start rfl rfl, hpub, hedit, List.append_assoc]
  by_cases he : r.2.1.actions = .empty <;> simp [he, Option.filter]

/-- A tick does to its link what its outcome says, over any window. -/
theorem link_tick (buttons : Buttons) :
    let r := c.tick m buttons switch
    r.2.1.link r.2.2 = (c.link m).perform (r.1.operations c.workload) := by
  have ht := c.ticked m buttons switch
  generalize c.tick m buttons switch = r at ht ⊢
  cases ht with
  | idle => rfl
  | refused => rfl
  | stopped => rfl
  | @started w hs hw =>
    have ho := (c.sample buttons).operations_started m (buttons.risingEdges c.previous) switch w
    dsimp only at ho ⊢
    rw [hw, ho.2, Link.perform_append, ← Link.publishWorkload_eq]
    exact link_serve _ _ _ switch _
  | served hs =>
    have ho := (c.sample buttons).operations_served m (buttons.risingEdges c.previous) switch
      c.workload
    dsimp only at ho ⊢
    rw [ho.2]
    exact link_serve _ _ _ switch _

theorem accounts_served (buttons : Buttons) (hs : c.state = .running)
    (hlink : let r := (c.sample buttons).serve m edges switch .quiet
      r.2.1.link r.2.2 = (c.link m).perform (r.1.operations c.workload)) :
    let r := (c.sample buttons).serve m edges switch .quiet
    r.1.Accounts c m r.2.1 r.2.2 := by
  intro r
  obtain ⟨w, e, hr⟩ := (c.sample buttons).serve_frame m edges switch .quiet
  obtain ⟨hpub, ho⟩ := (c.sample buttons).operations_served m edges switch c.workload
  have hn : r.2.1.state ≠ .idle := by
    rw [hr]
    exact fun h => nomatch hs.symm.trans h
  refine ⟨hlink, fun h => absurd h hn, nofun, fun _ _ => ⟨?_, ?_⟩, fun h => ?_⟩
  · rw [hpub, (c.sample buttons).published_editActions, actions_serve]
    rfl
  · rw [ho, ← hpub]
    cases r.1.published <;> cases r.1.latency <;> rfl
  · cases hs.symm.trans h

theorem accounts_started (h : c.window.order = .little) (buttons : Buttons) {w : Workload}
    (hs : c.state = .idle)
    (hlink : let s := (c.sample buttons).start m w
      let r := s.1.serve s.2 edges switch
        { Outcome.quiet with transition := some .running, published := some .empty }
      r.2.1.link r.2.2 = (c.link m).perform (r.1.operations c.workload)) :
    let s := (c.sample buttons).start m w
    let r := s.1.serve s.2 edges switch
      { Outcome.quiet with transition := some .running, published := some .empty }
    r.1.Accounts c m r.2.1 r.2.2 := by
  intro s r
  obtain ⟨win, e, hr⟩ := s.1.serve_frame s.2 edges switch
    { Outcome.quiet with transition := some .running, published := some .empty }
  obtain ⟨hpub, -⟩ := (c.sample buttons).operations_started m edges switch w
  have hn : r.2.1.state = .running := by
    rw [hr]
    exact congrArg (·.next .start) hs
  have hmem : r.2.1.Published r.2.2 := (published_start _ m w).serve edges switch _
  have hlittle : r.2.1.window.order = .little := by
    rw [order_serve, order_start]
    exact h
  refine ⟨hlink, fun hi => ?_, nofun, fun hrun => ?_, fun _ _ => ⟨hpub, ?_⟩⟩
  · cases hn.symm.trans hi
  · cases hs.symm.trans hrun
  · rw [hmem, hlittle]
    rfl

theorem accounts (h : c.window.order = .little) (buttons : Buttons) :
    let r := c.tick m buttons switch
    r.1.Accounts c m r.2.1 r.2.2 := by
  have ht := c.ticked m buttons switch
  have hlink := c.link_tick m switch buttons
  generalize c.tick m buttons switch = r at ht hlink ⊢
  cases ht with
  | idle hs => exact .of_idle nofun rfl rfl hs rfl rfl rfl nofun
  | refused hs => exact .of_idle nofun rfl rfl hs rfl rfl rfl fun _ => ⟨rfl, hs, rfl⟩
  | stopped hs => exact .of_idle nofun rfl rfl (congrArg (·.next .stop) hs) rfl rfl rfl nofun
  | started hs hw => exact c.accounts_started m _ switch h buttons hs hlink
  | served hs => exact c.accounts_served m _ switch buttons hs hlink

end Controller

namespace Cache

variable (c : Cache) (m : Block)

theorem flushes_invalidate (f : Field) :
    (c.invalidate f.offset 4).stats.flushes = c.stats.flushes := by
  rw [invalidate_field, dropWord]
  split
  · rfl
  · rfl

theorem flushes_load (i : WordIndex) : (c.load m i).2.stats.flushes = c.stats.flushes := by
  unfold load
  split
  · rfl
  · rfl

end Cache

def Window.flushes? (w : Window) : Option UInt32 := w.stats?.map (·.flushes)

theorem Link.flushes_write {side : Side} (l : Link side) (f : Field) (v : UInt32)
    (h : f.owner = side) : (l.write f v h).window.flushes? = l.window.flushes?.map (· + 1) := by
  obtain ⟨w, m⟩ := l
  cases w with
  | direct o => rfl
  | cached c =>
    rw [write_cached]
    rfl

theorem Link.flushes_read {side : Side} (l : Link side) (f : Field) (h : f.owner = side.peer) :
    (l.read f h).2.window.flushes? = l.window.flushes? := by
  obtain ⟨w, m⟩ := l
  cases w with
  | direct o => rfl
  | cached c =>
    exact congrArg some ((Cache.flushes_load _ m f.index).trans (c.flushes_invalidate f))

theorem LinkOp.flushes_run (l : Link .controller) (op : LinkOp) :
    (op.run l).window.flushes? = l.window.flushes?.map (· + .ofNat op.written.length) := by
  cases op with
  | publishProgram r =>
    rw [run, Link.publishProgram_eq, Link.flushes_write, Link.flushes_write, Option.map_map]
    exact congrArg (Option.map · _) (funext fun n => UInt32.add_assoc n 1 1)
  | publishResource r =>
    rw [run, Link.publishResource_eq, Link.flushes_write, Link.flushes_write, Option.map_map]
    exact congrArg (Option.map · _) (funext fun n => UInt32.add_assoc n 1 1)
  | publishActions a => exact l.flushes_write .inputActions a.bits rfl
  | sampleLatency =>
    rw [run, Link.sampleLatency_eq, Link.flushes_read]
    cases h : l.window.flushes? <;> simp [written]

theorem Link.flushes_perform (l : Link .controller) (ops : List LinkOp) :
    (l.perform ops).window.flushes? =
      l.window.flushes?.map (· + .ofNat (ops.flatMap LinkOp.written).length) := by
  induction ops using List.reverseRecOn with
  | nil => cases h : l.window.flushes? <;> simp [perform, h]
  | append_singleton ops op ih =>
    rw [perform_append]
    refine (op.flushes_run (l.perform ops)).trans ?_
    rw [ih, Option.map_map, List.flatMap_append, List.flatMap_singleton, List.length_append,
      UInt32.ofNat_add]
    exact congrArg (Option.map · _) (funext fun n => UInt32.add_assoc n _ _)

def Block.writeAll (o : ByteOrder) (m : Block) (ws : List (Field × UInt32)) : Block :=
  ws.foldl (fun m w => m.set w.1.index (o.toRaw w.2)) m

namespace Block

theorem writeAll_append (o : ByteOrder) (m : Block) (ws ws' : List (Field × UInt32)) :
    m.writeAll o (ws ++ ws') = (m.writeAll o ws).writeAll o ws' := List.foldl_append

/-- What else memory holds has no part in what is written to a field. -/
theorem field_writeAll_congr {m m' : Block} {f : Field} (h : m.field f = m'.field f)
    (o : ByteOrder) (ws : List (Field × UInt32)) :
    (m.writeAll o ws).field f = (m'.writeAll o ws).field f := by
  induction ws generalizing m m' with
  | nil => exact h
  | cons w ws ih =>
    refine ih ?_
    by_cases hw : w.1 = f
    · subst hw
      rw [field_set_self, field_set_self]
    · rw [field_set_of_ne _ _ hw, field_set_of_ne _ _ hw, h]

end Block

theorem LinkOp.memory_run (l : Link .controller) (op : LinkOp) :
    (op.run l).memory = l.memory.writeAll l.window.order op.written := by
  cases op with
  | publishProgram r => simp [run, written, Link.publishProgram_eq, Block.writeAll]
  | publishResource r => simp [run, written, Link.publishResource_eq, Block.writeAll]
  | publishActions a => simp [run, written, Link.publishActions_eq, Block.writeAll]
  | sampleLatency => rfl

theorem LinkOp.order_run (l : Link .controller) (op : LinkOp) :
    (op.run l).window.order = l.window.order := by
  cases op with
  | publishProgram r => simp [run, Link.publishProgram_eq]
  | publishResource r => simp [run, Link.publishResource_eq]
  | publishActions a => exact l.order_write .inputActions a.bits rfl
  | sampleLatency => exact l.order_read .frameLatency rfl

theorem Link.memory_perform (l : Link .controller) (ops : List LinkOp) :
    (l.perform ops).memory = l.memory.writeAll l.window.order (ops.flatMap LinkOp.written) := by
  induction ops generalizing l with
  | nil => rfl
  | cons op ops ih =>
    rw [List.flatMap_cons, Block.writeAll_append, ← op.memory_run, ← op.order_run]
    exact ih (op.run l)

/-- The words that the controller loop writes in an operation. No tick selects a workload. -/
def Entry.written (e : Entry) : List (Field × UInt32) :=
  match e.reply.outcome? with
  | some o => (o.operations e.after.controller.workload).flatMap LinkOp.written
  | none => []

theorem Entry.written_of_none {e : Entry} (h : e.reply.outcome? = none) : e.written = [] := by
  rw [written, h]

def written (es : List Entry) : List (Field × UInt32) := es.flatMap Entry.written

theorem written_snoc (es : List Entry) (e : Entry) :
    written (es ++ [e]) = written es ++ e.written := by
  rw [written, List.flatMap_append, List.flatMap_singleton]
  rfl

section Run

variable {s : SystemSetup} {m : Block} {es : List Entry} {y : System}

theorem Run.flushes (h : Run (s.over .cached) m es y) :
    y.controller.window.flushes? = some (.ofNat (written es).length) := by
  induction h with
  | start => rfl
  | @step es y y' op reply h hop ih =>
    rw [written_snoc, List.length_append, UInt32.ofNat_add]
    cases System.handled hop with
    | ticked buttons switch =>
      have ha := y.controller.accounts y.memory switch h.uniform.controller buttons
      have hw := congrArg (·.window.flushes?) ha.performed
      refine hw.trans ((Link.flushes_perform _ _).trans ?_)
      rw [Entry.written, SystemReply.outcome?, y.controller.workload_tick y.memory buttons switch]
      exact congrArg (Option.map _) ih
    | selected w => exact ih.trans (congrArg some (UInt32.add_zero _).symm)
    | aside _ hreply hc =>
      rw [Entry.written, hreply, hc]
      exact ih.trans (congrArg some (UInt32.add_zero _).symm)

theorem System.field_run? {y' : System} {op : SystemOp} {reply : SystemReply}
    (hr : y.run? s op = some (reply, y')) (hloop : op.participant ≠ .controllerLoop)
    (hlink : op.participant ≠ .controllerLink) {f : Field} (hf : f.owner = .controller) :
    y'.memory.field f = y.memory.field f := by
  cases hs : op.participant.side? with
  | some side =>
    obtain ⟨w, l, _, hb, hm, _, _⟩ := System.uses_run? hs hr
    rw [hm]
    refine hb.field ?_
    rintro rfl
    rw [hf] at hs
    generalize op.participant = p at hs hloop hlink
    cases p with
    | controllerLoop => exact hloop rfl
    | controllerLink => exact hlink rfl
    | _ => cases hs
  | none =>
    cases op.shape with
    | rawWindow _ he =>
      obtain ⟨_, w, _, rfl⟩ := he _ _ _ _ hr
      rfl
    | controllerLink hp => exact absurd hp hlink
    | rendererLink hp => rw [hp] at hs; cases hs
    | select => exact absurd rfl hloop
    | tick => exact absurd rfl hloop
    | startRenderer => cases hs
    | frameOf => cases hs

/-- The controller's fields hold what its loop has written, as long as no bare link writes too. -/
theorem Run.field_written (h : Run s m es y)
    (hes : ∀ op ∈ es.map (·.op), op.participant ≠ .controllerLink) {f : Field}
    (hf : f.owner = .controller) :
    y.memory.field f = (m.writeAll s.kind.order (written es)).field f := by
  induction h with
  | start => rfl
  | @step es y y' op reply h hop ih =>
    obtain ⟨hes, hlink⟩ := forall_op_snoc.1 hes
    have ih := ih hes
    rw [written_snoc, Block.writeAll_append]
    have ho : y.controller.window.order = s.kind.order := h.uniform.controller
    cases System.handled hop with
    | ticked buttons switch =>
      have hm := congrArg Link.memory (y.controller.link_tick y.memory switch buttons)
      rw [Link.memory_perform] at hm
      rw [Entry.written, SystemReply.outcome?, y.controller.workload_tick y.memory buttons switch]
      refine (congrArg (·.field f) hm).trans ?_
      change (y.memory.writeAll y.controller.window.order _).field f = _
      rw [ho]
      exact Block.field_writeAll_congr ih _ _
    | selected w => exact ih
    | aside hloop hreply hc =>
      rw [System.field_run? hop hloop hlink hf, Entry.written_of_none hreply]
      exact ih

/-- In every state that a run comes to, a tick does to its window what its outcome says, and the
flush counter tells how many words it wrote. -/
theorem writes_as_reported (h : Run (s.over .cached) m es y) (buttons : Buttons)
    (switch : Option Bool) :
    let r := y.controller.tick y.memory buttons switch
    let n := ((r.1.operations y.controller.workload).flatMap LinkOp.written).length
    r.1.Accounts y.controller y.memory r.2.1 r.2.2 ∧
      ∃ k k', y.controller.window.flushes? = some k ∧ r.2.1.window.flushes? = some k' ∧
        k' = k + .ofNat n ∧ ((written es).length + n < 2 ^ 32 → k'.toNat = k.toNat + n) := by
  intro r n
  have ha : r.1.Accounts y.controller y.memory r.2.1 r.2.2 :=
    y.controller.accounts y.memory switch h.uniform.controller buttons
  have hw : r.2.1.window.flushes? = some (.ofNat (written es).length + .ofNat n) := by
    have hp := congrArg (·.window.flushes?) ha.performed
    refine hp.trans ((Link.flushes_perform _ _).trans ?_)
    exact congrArg (Option.map _) h.flushes
  refine ⟨ha, _, _, h.flushes, hw, rfl, fun hn => ?_⟩
  have hle : (written es).length < 2 ^ 32 := Nat.lt_of_le_of_lt (Nat.le_add_right _ _) hn
  rw [← UInt32.ofNat_add, UInt32.toNat_ofNat_of_lt' hn, UInt32.toNat_ofNat_of_lt' hle]

end Run

/-- The tick that starts the session writes three words, and a press during the session one. -/
theorem writes_as_reported_press :
    let s : SystemSetup := ⟨.cached, .shipped, .shipped, MemoryMap.frameBuffers, id⟩
    let ops : List SystemOp := [.select ⟨⟨0x1000, 64⟩, none⟩, .tick ⟨1⟩ none]
    ∃ es y, Run (s.over .cached) .zero es y ∧ es.map (·.op) = ops ∧
      written es = [(.programLocation, 0x1000), (.programSize, 64), (.inputActions, 0)] ∧
      let r := y.controller.tick y.memory ⟨16⟩ none
      r.1.operations y.controller.workload = [.publishActions ⟨2⟩] ∧
      r.1.Accounts y.controller y.memory r.2.1 r.2.2 ∧
      ∃ k k', y.controller.window.flushes? = some k ∧ r.2.1.window.flushes? = some k' ∧
        k'.toNat = k.toNat + 1 := by
  intro s ops
  have h₀ := Run.start (s := s.over .cached) (m := .zero)
  have h₁ := h₀.step (o := .select ⟨⟨0x1000, 64⟩, none⟩) rfl
  have h₂ := h₁.step (o := .tick ⟨1⟩ none) rfl
  obtain ⟨es, y, h, he, hw, ho⟩ : ∃ es y, Run (s.over .cached) .zero es y ∧
      es.map (·.op) = ops ∧
      written es = [(.programLocation, 0x1000), (.programSize, 64), (.inputActions, 0)] ∧
      (y.controller.tick y.memory ⟨16⟩ none).1.operations y.controller.workload =
        [.publishActions ⟨2⟩] := ⟨_, _, h₂, rfl, by decide +kernel, by decide +kernel⟩
  obtain ⟨ha, k, k', hk, hk', -, hn⟩ := writes_as_reported h ⟨16⟩ none
  rw [ho, hw] at hn
  exact ⟨es, y, h, he, hw, ho, ha, k, k', hk, hk', hn (by decide)⟩

end Handoff
