import Handoff.Proofs.Scanout

namespace Handoff

/-- What a frame finds in memory, and what its clock reads. -/
structure Occasion where
  memory : Block
  started : Nat
  finished : Nat

namespace Renderer

variable (r : Renderer) (os : Nat → Occasion)

def frameOn (o : Occasion) : Frame × Renderer × Block := r.frame o.memory o.started o.finished

def after : Nat → Renderer
  | 0 => r
  | n + 1 => ((after n).frameOn (os n)).2.1

def nth (n : Nat) : Frame := ((r.after os n).frameOn (os n)).1

end Renderer

namespace FrameSlot

def nth : Nat → FrameSlot
  | 0 => one
  | n + 1 => (nth n).next

theorem index_next (s : FrameSlot) : (s.next.index : Nat) = (s.index + 1) % 3 := by
  cases s <;> rfl

theorem index_nth (n : Nat) : ((nth n).index : Nat) = n % 3 := by
  induction n with
  | zero => rfl
  | succ n ih => rw [nth, index_next, ih, Nat.mod_add_mod]

theorem nth_eq_iff (n k : Nat) : nth n = nth k ↔ n % 3 = k % 3 := by
  rw [← index_nth, ← index_nth]
  exact ⟨fun h => congrArg (fun s : FrameSlot => (s.index : Nat)) h,
    fun h => index_injective (Fin.ext h)⟩

theorem perm_all (s : FrameSlot) : [s, s.next, s.next.next].Perm all := by
  cases s <;> decide

end FrameSlot

namespace Rotator

section Roles

variable (o : Rotator)

theorem perm_roles : [o.roles.displayed, o.roles.pending, o.roles.building].Perm FrameSlot.all :=
  o.displayed.perm_all

theorem address_nth (n : Nat) : o.address (.nth n) = o.addresses[n % 3] :=
  getElem_congr_idx (c := o.addresses) (FrameSlot.index_nth n)

theorem map_address_all : FrameSlot.all.map o.address = o.addresses.toList := by
  obtain ⟨⟨⟨l⟩, hl⟩, d, p⟩ := o
  match l, hl with
  | [a, b, c], _ => rfl

end Roles

def turned (addresses : Vector UInt32 3) (n : Nat) : Rotator := ⟨addresses, .nth n, .ofNat n⟩

variable (addresses : Vector UInt32 3) (n : Nat)

theorem turned_complete : (turned addresses n).complete.2.2 = turned addresses (n + 1) := by
  rw [turned, turned, UInt32.ofNat_add]
  rfl

theorem buildingAddress_turned :
    (turned addresses n).buildingAddress = addresses[(n + 2) % 3] :=
  (turned addresses n).address_nth (n + 2)

end Rotator

/-- Frame `n` with its buffer, and what the rotator says after it. -/
structure TripleBuffered (addresses : Vector UInt32 3) (r : Renderer) (os : Nat → Occasion)
    (n : Nat) : Prop where
  target : (r.nth os n).target = addresses[(n + 2) % 3]
  swap : (r.nth os n).swap = addresses[(n + 2) % 3]
  slot : ((r.nth os n).report.presented.index : Nat) = (n + 2) % 3
  owned : (r.after os n).rotator.address (r.nth os n).report.presented = (r.nth os n).target
  roles :
    let roles := (r.after os (n + 1)).rotator.roles
    [roles.displayed, roles.pending, roles.building].Perm FrameSlot.all
  pending : (r.after os (n + 1)).rotator.roles.pending = (r.nth os n).report.presented
  /-- The frame that was pending is on display once the next one is finished. -/
  displayed : (r.after os (n + 2)).rotator.roles.displayed = (r.nth os n).report.presented
  presented : (r.after os n).rotator.presented.toNat = n % UInt32.size
  /-- A buffer rests for two frames. -/
  rests : addresses.toList.Nodup → ∀ k < n, n ≤ k + 2 → (r.nth os n).target ≠ (r.nth os k).target
  all : addresses.toList.Nodup →
    [(r.nth os n).target, (r.nth os (n + 1)).target, (r.nth os (n + 2)).target].Perm
      addresses.toList

namespace Renderer

variable {r : Renderer} {addresses : Vector UInt32 3} (os : Nat → Occasion) (n : Nat)

/-- Whatever a frame finds, it draws into the buffer whose turn it is, hands that over, and turns
the rotator on. -/
theorem frame_turned (h : r.rotator = .turned addresses n) (m : Block) (started finished : Nat) :
    let f := r.frame m started finished
    (f.1.target = (Rotator.turned addresses n).buildingAddress ∧ f.1.swap = f.1.target) ∧
      f.2.1.rotator = .turned addresses (n + 1) := by
  refine ⟨⟨congrArg Rotator.buildingAddress h, rfl⟩, ?_⟩
  exact (congrArg (·.complete.2.2) h).trans (Rotator.turned_complete addresses n)

theorem rotator_after (h : r.rotator = .new addresses) :
    (r.after os n).rotator = .turned addresses n := by
  induction n with
  | zero => exact h
  | succ n ih => exact (frame_turned n ih _ _ _).2

theorem presented_nth (h : r.rotator = .new addresses) :
    (r.nth os n).report.presented = .nth (n + 2) :=
  congrArg Rotator.building (rotator_after os n h)

theorem target_nth (h : r.rotator = .new addresses) :
    (r.nth os n).target = (Rotator.new addresses).address (.nth (n + 2)) :=
  congrArg Rotator.buildingAddress (rotator_after os n h)

theorem tripleBuffered (h : r.rotator = .new addresses) : TripleBuffered addresses r os n := by
  have ht : (r.nth os n).target = addresses[(n + 2) % 3] :=
    (congrArg Rotator.buildingAddress (rotator_after os n h)).trans
      (Rotator.buildingAddress_turned addresses n)
  refine ⟨ht, ht, ?_, rfl, Rotator.perm_roles _, ?_, ?_, ?_, fun ha k hk hn he => ?_, fun _ => ?_⟩
  · rw [presented_nth os n h, FrameSlot.index_nth]
  · rw [rotator_after os _ h, presented_nth os n h]
    rfl
  · rw [rotator_after os _ h, presented_nth os n h]
    rfl
  · rw [rotator_after os n h]
    exact UInt32.toNat_ofNat
  · rw [target_nth os n h, target_nth os k h] at he
    have hmod := (FrameSlot.nth_eq_iff _ _).1 (Rotator.address_injective ha he)
    omega
  · rw [target_nth os n h, target_nth os (n + 1) h, target_nth os (n + 2) h]
    have hp := (FrameSlot.nth (n + 2)).perm_all.map (Rotator.new addresses).address
    rw [Rotator.map_address_all] at hp
    exact hp

end Renderer

/-- The three buffers of a renderer take turns, over any number of frames and whatever these find. -/
theorem buffers_take_turns (w : Window) (m : Block) (addresses : Vector UInt32 3)
    (camera : CameraSettings) (os : Nat → Occasion) (n : Nat) :
    TripleBuffered addresses (.start w m (.new addresses) camera) os n :=
  Renderer.tripleBuffered os n rfl

/-- The fourth frame is drawn where the first was, and the two between in the other buffers. -/
theorem buffers_take_turns_shipped :
    let os (n : Nat) : Occasion := ⟨.zero, 7 * n, 7 * n + 5⟩
    let r := Renderer.start (.cached .empty) .zero .shipped .shipped
    MemoryMap.frameBuffers.toList.Nodup ∧
      TripleBuffered MemoryMap.frameBuffers r os 3 ∧
      (List.range 4).map (fun n => (r.nth os n).target) =
        [0x458000, 0x200000, 0x32C000, 0x458000] ∧
      (r.nth os 3).target ≠ (r.nth os 2).target := by
  intro os r
  have ha : MemoryMap.frameBuffers.toList.Nodup := by decide +kernel
  have h : TripleBuffered MemoryMap.frameBuffers r os 3 := buffers_take_turns _ _ _ _ os 3
  exact ⟨ha, h, by decide +kernel, h.rests ha 2 (by decide) (by decide)⟩

end Handoff
