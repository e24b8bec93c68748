import Mathlib.Data.List.Nodup
import Handoff.Renderer

/-!
Scan-out. A display scans one address out and goes over to a queued one at its next vertical blank.
Blanks fall at any time, also while a frame is drawn. As long as there is one between any two swaps,
a renderer keeps off the buffers of the display, but for its second frame until the first blank
after its first swap: slot one is still on screen then.
-/

namespace Handoff

structure Screen where
  scanned : UInt32
  /-- What is scanned from the next vertical blank on, if that changes. -/
  queued : Option UInt32
deriving DecidableEq, Repr

namespace Screen

def swapTo (d : Screen) (address : UInt32) : Screen := { d with queued := some address }

def blank (d : Screen) : Screen := ⟨d.queued.getD d.scanned, none⟩

/-- An address that is on screen, or about to be. -/
def Shows (d : Screen) (address : UInt32) : Prop := address = d.scanned ∨ d.queued = some address

end Screen

structure Stage where
  renderer : Renderer
  screen : Screen
  /-- The frame that is being drawn, and the renderer after it. -/
  drawing : Option (Frame × Renderer)

inductive ScreenEvent
  | began
  | swapped
  | blanked
deriving DecidableEq, Repr

namespace Stage

/-- At first the display scans the slot that the rotator says is displayed. -/
def start (w : Window) (m : Block) (addresses : Vector UInt32 3) (camera : CameraSettings) : Stage :=
  let r := Renderer.start w m (.new addresses) camera
  ⟨r, ⟨r.rotator.address r.rotator.displayed, none⟩, none⟩

/-- A frame is drawn, whatever it reads, and is then swapped to. -/
inductive Step (x : Stage) : ScreenEvent → Stage → Prop
  | draw (m : Block) (started finished : Nat) (h : x.drawing = none) :
      Step x .began { x with
        drawing := some ((x.renderer.frame m started finished).1,
          (x.renderer.frame m started finished).2.1) }
  | swap {f : Frame} {r : Renderer} (h : x.drawing = some (f, r)) :
      Step x .swapped ⟨r, x.screen.swapTo f.swap, none⟩
  | blank : Step x .blanked { x with screen := x.screen.blank }

end Stage

inductive Showing (x₀ : Stage) : List ScreenEvent → Stage → Prop
  | start : Showing x₀ [] x₀
  | step {t : List ScreenEvent} {x y : Stage} {e : ScreenEvent} (h : Showing x₀ t x)
      (hs : x.Step e y) : Showing x₀ (t ++ [e]) y

/-- Any two swaps have a blank between them. -/
def Spaced (t : List ScreenEvent) : Prop :=
  ∀ j < t.length, ∀ i < j, t[i]? = some .swapped ∧ t[j]? = some .swapped →
    .blanked ∈ (t.take j).drop (i + 1)

instance (t : List ScreenEvent) : Decidable (Spaced t) :=
  inferInstanceAs (Decidable (∀ j < t.length, ∀ i < j,
    t[i]? = some .swapped ∧ t[j]? = some .swapped → .blanked ∈ (t.take j).drop (i + 1)))

/-- The latest swap has not been followed by a blank. -/
def AwaitsBlank (t : List ScreenEvent) : Prop :=
  ∃ i, t[i]? = some .swapped ∧ .blanked ∉ t.drop (i + 1)

section Spaced

variable {t : List ScreenEvent}

theorem Spaced.init {e : ScreenEvent} (h : Spaced (t ++ [e])) : Spaced t := by
  intro j hj i hi hij
  have hs := h j (by rw [List.length_append]; exact Nat.lt_add_right 1 hj) i hi
  rw [List.getElem?_append_left hj, List.getElem?_append_left (Nat.lt_trans hi hj),
    List.take_append_of_le_length (Nat.le_of_lt hj)] at hs
  exact hs hij

theorem Spaced.not_awaitsBlank (h : Spaced (t ++ [.swapped])) : ¬AwaitsBlank t := by
  rintro ⟨i, hi, hlast⟩
  have hlt : i < t.length := (List.getElem?_eq_some_iff.1 hi).1
  have hs := h t.length (by rw [List.length_append]; exact Nat.lt_add_one _) i hlt
  rw [List.getElem?_append_left hlt, List.getElem?_concat_length, List.take_left] at hs
  exact hlast (hs ⟨hi, rfl⟩)

theorem AwaitsBlank.swapped (t : List ScreenEvent) : AwaitsBlank (t ++ [.swapped]) := by
  refine ⟨t.length, List.getElem?_concat_length, ?_⟩
  have hd : (t ++ [ScreenEvent.swapped]).drop (t.length + 1) = [] := by simp
  rw [hd]
  exact List.not_mem_nil

theorem AwaitsBlank.began (h : AwaitsBlank t) : AwaitsBlank (t ++ [.began]) := by
  obtain ⟨i, hi, hlast⟩ := h
  have hlt : i < t.length := (List.getElem?_eq_some_iff.1 hi).1
  refine ⟨i, (List.getElem?_append_left hlt).trans hi, ?_⟩
  rw [List.drop_append_of_le_length hlt]
  simpa using hlast

end Spaced

theorem Showing.awaitsBlank {x₀ x : Stage} {t : List ScreenEvent} (h : Showing x₀ t x)
    (h₀ : x₀.screen.queued = none) (hq : x.screen.queued.isSome) : AwaitsBlank t := by
  induction h with
  | start =>
    rw [h₀] at hq
    cases hq
  | step h hs ih =>
    cases hs with
    | draw => exact (ih hq).began
    | swap => exact .swapped _
    | blank => cases hq

@[simp] theorem FrameSlot.next_next_next (s : FrameSlot) : s.next.next.next = s := by
  cases s <;> rfl

theorem FrameSlot.next_ne (s : FrameSlot) : s.next ≠ s := by
  cases s <;> decide

theorem FrameSlot.next_next_ne (s : FrameSlot) : s.next.next ≠ s := by
  cases s <;> decide

theorem FrameSlot.index_injective {s t : FrameSlot} (h : s.index = t.index) : s = t := by
  cases s <;> cases t <;> first | rfl | cases h

namespace Rotator

variable {o : Rotator}

theorem address_injective (h : o.addresses.toList.Nodup) {s t : FrameSlot}
    (hst : o.address s = o.address t) : s = t := by
  have hl : o.addresses.toList[s.index.val] = o.addresses.toList[t.index.val] :=
    (Vector.getElem_toList _).trans (hst.trans (Vector.getElem_toList _).symm)
  exact FrameSlot.index_injective (Fin.ext (h.getElem_inj_iff.1 hl))

/-- What the display shows after so many swaps, if a blank fell between any two of them. -/
inductive Shown (o : Rotator) : Nat → Screen → Prop
  | fresh : Shown o 0 ⟨o.address o.displayed, none⟩
  /-- The roles have moved on although the first swap has not been taken up. -/
  | first : Shown o 1 ⟨o.buildingAddress, some (o.address o.displayed.next)⟩
  | queued (n : Nat) : Shown o (n + 2) ⟨o.address o.displayed, some (o.address o.displayed.next)⟩
  | taken (n : Nat) : Shown o (n + 1) ⟨o.address o.displayed.next, none⟩

namespace Shown

variable {n : Nat} {d : Screen}

theorem blank (h : o.Shown n d) : o.Shown n d.blank := by
  cases h with
  | fresh => exact .fresh
  | first => exact .taken 0
  | queued n => exact .taken (n + 1)
  | taken n => exact .taken n

theorem complete (h : o.Shown n d) (hq : d.queued = none) :
    o.complete.2.2.Shown (n + 1) (d.swapTo o.complete.2.1) := by
  cases h with
  | fresh =>
    have hb : o.complete.2.2.buildingAddress = o.address o.displayed :=
      congrArg o.address o.displayed.next_next_next
    have hf : o.complete.2.2.Shown 1 _ := .first
    rw [hb] at hf
    exact hf
  | first => cases hq
  | queued n => cases hq
  | taken n => exact .queued n

/-- The buffer being built is on screen, or about to be, only before the first swap is taken up. -/
theorem shows_building_iff (h : o.Shown n d) (ha : o.addresses.toList.Nodup) :
    d.Shows o.buildingAddress ↔ n = 1 ∧ d.queued.isSome := by
  have hd : o.buildingAddress ≠ o.address o.displayed :=
    fun e => o.displayed.next_next_ne (address_injective ha e)
  have hp : o.buildingAddress ≠ o.address o.displayed.next :=
    fun e => o.displayed.next.next_ne (address_injective ha e)
  cases h with
  | fresh => simp [Screen.Shows, hd]
  | first => simp [Screen.Shows]
  | queued n => simp [Screen.Shows, hd, hp.symm]
  | taken n => simp [Screen.Shows, hp]

end Shown

end Rotator

structure Stage.Kept (addresses : Vector UInt32 3) (n : Nat) (x : Stage) : Prop where
  addresses : x.renderer.rotator.addresses = addresses
  shown : x.renderer.rotator.Shown n x.screen
  drawing : ∀ f r, x.drawing = some (f, r) → f.target = x.renderer.rotator.buildingAddress ∧
    x.renderer.rotator.complete.2 = (f.swap, r.rotator)

namespace Stage.Kept

variable {addresses : Vector UInt32 3} {n : Nat} {x : Stage}

theorem start (w : Window) (m : Block) (addresses : Vector UInt32 3) (camera : CameraSettings) :
    (Stage.start w m addresses camera).Kept addresses 0 where
  addresses := rfl
  shown := .fresh
  drawing _ _ h := by cases h

theorem draw (h : x.Kept addresses n) (m : Block) (started finished : Nat) :
    Kept addresses n { x with
      drawing := some ((x.renderer.frame m started finished).1,
        (x.renderer.frame m started finished).2.1) } where
  addresses := h.addresses
  shown := h.shown
  drawing f r hf := by
    cases hf
    exact ⟨rfl, rfl⟩

theorem swap (h : x.Kept addresses n) {f : Frame} {r : Renderer} (hf : x.drawing = some (f, r))
    (hq : x.screen.queued = none) :
    Kept addresses (n + 1) ⟨r, x.screen.swapTo f.swap, none⟩ := by
  obtain ⟨_, hc⟩ := h.drawing f r hf
  have hs := h.shown.complete hq
  rw [hc] at hs
  have ha : r.rotator.addresses = x.renderer.rotator.addresses :=
    congrArg (·.2.addresses) hc.symm
  refine ⟨ha.trans h.addresses, hs, ?_⟩
  intro f' r' hf'
  cases hf'

theorem blank (h : x.Kept addresses n) : Kept addresses n { x with screen := x.screen.blank } :=
  { h with shown := h.shown.blank }

end Stage.Kept

section Showing

variable {w : Window} {m : Block} {addresses : Vector UInt32 3} {camera : CameraSettings}
  {t : List ScreenEvent} {x : Stage}

theorem Showing.kept (h : Showing (.start w m addresses camera) t x) (ht : Spaced t) :
    x.Kept addresses (t.count .swapped) := by
  induction h with
  | start => exact .start w m addresses camera
  | @step t x y e h hs ih =>
    have hk := ih ht.init
    rw [List.count_append]
    cases hs with
    | draw m started finished => exact hk.draw m started finished
    | swap hf =>
      refine hk.swap hf ?_
      cases hq : x.screen.queued with
      | none => rfl
      | some a => exact (ht.not_awaitsBlank (h.awaitsBlank rfl (by rw [hq]; rfl))).elim
    | blank => exact hk.blank

/-- With a blank between any two swaps, what is being drawn into is on screen, or about to be, just
in one case: one frame was swapped to, and no blank has fallen since. -/
theorem target_shown_iff (h : Showing (.start w m addresses camera) t x)
    (ha : addresses.toList.Nodup) (ht : Spaced t) {f : Frame} {r : Renderer}
    (hf : x.drawing = some (f, r)) :
    x.screen.Shows f.target ↔ t.count .swapped = 1 ∧ x.screen.queued.isSome := by
  have hk := h.kept ht
  rw [(hk.drawing f r hf).1]
  exact hk.shown.shows_building_iff (hk.addresses ▸ ha)

end Showing

/-- A blank takes up the first swap before the second frame is drawn. -/
theorem target_shown_iff_taken :
    let addresses : Vector UInt32 3 := #v[0x10, 0x20, 0x30]
    let t : List ScreenEvent := [.blanked, .began, .swapped, .blanked, .began]
    ∃ x f r, Showing (.start (.cached .empty) .zero addresses .shipped) t x ∧
      addresses.toList.Nodup ∧ Spaced t ∧ x.drawing = some (f, r) ∧ f.target = 0x10 ∧
      ¬x.screen.Shows f.target := by
  intro addresses t
  have h₀ : Showing (.start (.cached .empty) .zero addresses .shipped) [] _ := .start
  have h₁ := h₀.step .blank
  have h₂ := h₁.step (.draw .zero 0 1 rfl)
  have h₃ := h₂.step (.swap rfl)
  have h₄ := h₃.step .blank
  have h := h₄.step (.draw .zero 2 3 rfl)
  have ha : addresses.toList.Nodup := by decide
  have ht : Spaced t := by decide
  refine ⟨_, _, _, h, ha, ht, rfl, rfl, ?_⟩
  rw [target_shown_iff h ha ht rfl]
  decide

/-- Although a blank falls before the second swap, the second frame is begun in the buffer that is
still on screen. -/
theorem target_on_screen :
    let addresses : Vector UInt32 3 := #v[0x10, 0x20, 0x30]
    let t : List ScreenEvent := [.began, .swapped, .began]
    ∃ x f r y z, Showing (.start (.cached .empty) .zero addresses .shipped) t x ∧
      addresses.toList.Nodup ∧ x.drawing = some (f, r) ∧ f.target = 0x10 ∧
      x.screen.scanned = 0x10 ∧ x.Step .blanked y ∧ y.Step .swapped z ∧
      Spaced (t ++ [.blanked] ++ [.swapped]) := by
  intro addresses t
  have h₀ : Showing (.start (.cached .empty) .zero addresses .shipped) [] _ := .start
  have h₁ := h₀.step (.draw .zero 0 1 rfl)
  have h₂ := h₁.step (.swap rfl)
  have h := h₂.step (.draw .zero 2 3 rfl)
  exact ⟨_, _, _, _, _, h, by decide, rfl, rfl, rfl, .blank, .swap rfl, by decide⟩

end Handoff
