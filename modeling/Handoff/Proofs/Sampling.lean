import Handoff.Proofs.Latch

namespace Handoff

/-- From its press to its release every tick samples the buttons of an event. -/
theorem Unfolds.press_sampled {u w : World} {past between rest : List Moment} {p r : Moment}
    {e : InputEvent} (h : Unfolds u (past ++ p :: (between ++ r :: rest)) w) (hp : u.Punctual)
    (hplayed : Played e p between r) (hpress : e.press ≠ .released)
    (hfits : p.before.inputs.samples.length < queueCapacity) {k : Moment} (hk : k ∈ between)
    (hticks : k.Ticks) : k.sample?.map (·.buttons) = some e.press := by
  obtain ⟨hpast, htp, hafter⟩ := h.at_moment
  obtain ⟨hbetween, htr, _⟩ := hafter.at_moment
  obtain ⟨hsends, ⟨due, later, hphase⟩, hquiet, _⟩ := hplayed
  obtain ⟨t, v⟩ := p
  cases hsends
  have hsample := (World.pollInput_press hphase hpress hfits htp (hbetween.running htr.running)).1
  obtain ⟨early, late, rfl⟩ := List.append_of_mem hk
  obtain ⟨hearly, _, _⟩ := hbetween.at_moment
  have hnewest : k.before.newest = v.pollInput.newest := by
    apply hearly.newest (hpast.punctual hp).pollInput
    intro m hm
    exact hquiet m (List.mem_append_left _ hm)
  have hsent : v.pollInput.newest = ⟨e.press, e.switch <|> v.input.current.switch⟩ := by
    rw [World.newest, InputQueue.latest, hsample, Option.getD_some]
  rw [hticks.sample?_eq, hnewest]
  exact congrArg (fun s : Sample => some s.buttons) hsent

/-- The steps of an accepted script are played in the order of their times. Every press that is
played and finds room is sampled before its release; one that is sent at a tick to be released at
the next must not slip between the two. -/
theorem accepted_press_sampled (c : Config) {script : List InputEvent}
    (hc : c.inputEvents = .ok script) (resource : List UInt8) {ms : List Moment} {w : World}
    (h : Unfolds (c.world script resource) ms w) :
    (∃ images, List.Forall₂ ScriptStep.Image c.script images ∧ TimeOrdered images script) ∧
      (w.ending = none → w.input.phase = .finished → PlaysAll script ms) ∧
      ∀ s ∈ c.script, s.press ≠ [] → s.holdMs ≠ 0 → ∀ e, s.Image e →
        ∀ past p between r rest, ms = past ++ p :: (between ++ r :: rest) → Played e p between r →
          p.before.inputs.samples.length < queueCapacity →
          (max c.viewer.controller.tickMs.toNat 1 * 1000 ∣ p.before.now →
            s.holdMs.toNat = max c.viewer.controller.tickMs.toNat 1 →
            ∃ k ∈ between, k.Ticks) →
          ∃ k ∈ between, k.sample?.map (·.buttons) = some e.press := by
  have hp := c.punctual_world script resource
  have hspan := c.tickSpan_world_eq script resource
  obtain ⟨images, hmap, hordered⟩ := resolveScript_eq_ok_iff.1 hc
  obtain ⟨haccepted, himages⟩ := mapM_resolve_eq_ok_iff.1 hmap
  refine ⟨⟨images, himages, hordered⟩, fun he hf => (h.replayed hp rfl he).playsAll hf, ?_⟩
  intro s hs hpress hheld e himage past p between r rest hms hplayed hfits hgrid
  subst hms
  have hdown : e.press ≠ .released := himage.press_ne_released (haccepted s hs) hpress
  have hlong : max c.viewer.controller.tickMs.toNat 1 ≤ s.holdMs.toNat := by
    have htick := (haccepted s hs).1.resolve_left hpress
    have hpos : s.holdMs.toNat ≠ 0 := fun hzero => hheld (UInt64.toNat_inj.1 hzero)
    omega
  have hhold : (c.world script resource).tickSpan ≤ e.holdMs.toNat * 1000 := by
    rw [hspan, himage.holdMs]
    exact Nat.mul_le_mul_right _ hlong
  have hbetween : (c.world script resource).tickSpan ∣ p.before.now →
      e.holdMs.toNat * 1000 = (c.world script resource).tickSpan → ∃ k ∈ between, k.Ticks := by
    rw [hspan, himage.holdMs]
    intro hdvd heq
    exact hgrid hdvd (Nat.eq_of_mul_eq_mul_right (by decide) heq)
  obtain ⟨⟨k, hk, hticks⟩, -⟩ :=
    h.press_taken hp (c.onGrid_world script resource) hplayed hdown hfits hhold hbetween
  exact ⟨k, hk, h.press_sampled hp hplayed hdown hfits hk hticks⟩

/-- The controller is asked for a tick of no length, and takes a millisecond. The press is held for
two of these. -/
def tickless : Config :=
  { Config.shipped with
    viewer.controller.tickMs := 0
    run.frameMs := 1000
    script := [⟨0, ["center"], 2, none⟩] }

def ticklessEvents : List InputEvent := [⟨0, ⟨1⟩, 2, none⟩]

theorem resolve_tickless :
    ScriptStep.resolve 0 ⟨0, ["center"], 2, none⟩ = .ok ⟨0, ⟨1⟩, 2, none⟩ :=
  resolve_center_of_long (Nat.zero_le _) 0

theorem inputEvents_tickless : tickless.inputEvents = .ok ticklessEvents := by
  have hm : tickless.script.mapM (ScriptStep.resolve tickless.viewer.controller.tickMs) =
      .ok ticklessEvents := by
    change List.mapM (ScriptStep.resolve 0) [⟨0, ["center"], 2, none⟩] = _
    rw [List.mapM_cons, resolve_tickless]
    rfl
  exact Config.inputEvents_of_sorted hm (by decide)

def ticklessWorld : World := tickless.world ticklessEvents []

/-- From the press, which is sent at a tick, to its release. The next tick comes in between, and
the one after it is due when the press is released. -/
def ticklessHoldTurns : List Turn :=
  [.clock 1000, .poll .controller, .poll .renderer, .clock 2000]

theorem accepted_press_sampled_tickless :
    ∃ past p between r w, Unfolds ticklessWorld (past ++ p :: (between ++ [r])) w ∧
      Played ⟨0, ⟨1⟩, 2, none⟩ p between r ∧
      ∃ k ∈ between, k.sample?.map (·.buttons) = some ⟨1⟩ := by
  have hturns : ticklessWorld.AllowsAll
      (firstPressTurns ++ .poll .input :: (ticklessHoldTurns ++ [.poll .input])) := by
    decide +kernel
  have h := hturns.unfolds_between
  have hplayed : Played ⟨0, ⟨1⟩, 2, none⟩ ⟨.poll .input, ticklessWorld.takeAll firstPressTurns⟩
      (((ticklessWorld.takeAll firstPressTurns).take (.poll .input)).moments ticklessHoldTurns)
      ⟨.poll .input, ((ticklessWorld.takeAll firstPressTurns).take (.poll .input)).takeAll
        ticklessHoldTurns⟩ := by
    refine ⟨rfl, ⟨0, [], ?_⟩, ?_, rfl⟩
    · decide +kernel
    · decide +kernel
  have hmem : ⟨0, ["center"], 2, none⟩ ∈ tickless.script := List.mem_singleton_self _
  have himage := (ScriptStep.image_of_resolve resolve_tickless).2
  have hsampled := (accepted_press_sampled tickless inputEvents_tickless [] h).2.2 _ hmem
    (by simp) (by decide) _ himage
  exact ⟨_, _, _, _, _, h, hplayed, hsampled _ _ _ _ [] rfl hplayed (by decide +kernel)
    fun _ heq => absurd heq (by decide)⟩

/-- The press finds no room. -/
theorem press_unsampled :
    crowded.inputEvents = .ok crowdedEvents ∧ ⟨0, ["center"], 20, none⟩ ∈ crowded.script ∧
      ScriptStep.Image ⟨0, ["center"], 20, none⟩ ⟨0, ⟨1⟩, 20, none⟩ ∧
      ∃ past p between r w, Unfolds crowdedWorld (past ++ p :: (between ++ [r])) w ∧
        Played ⟨0, ⟨1⟩, 20, none⟩ p between r ∧
        ∀ k ∈ between, k.sample?.map (·.buttons) ≠ some ⟨1⟩ := by
  obtain ⟨past, p, between, r, w, h, hplayed, rfl⟩ := played_crowded
  refine ⟨inputEvents_crowded, ?_, (ScriptStep.image_of_resolve (resolve_center 0)).2,
    past, p, _, r, w, h, hplayed, ?_⟩
  · exact List.mem_append_right _ (List.mem_singleton_self _)
  · decide +kernel

end Handoff
