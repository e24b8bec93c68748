import Mathlib.Data.List.Forall2
import Handoff.Config.Script
import Handoff.Proofs.ActionBits

namespace Handoff

section Traversal

variable {α β ε : Type} {f : α → Except ε β}

theorem mapM_eq_ok_iff {xs : List α} {ys : List β} :
    xs.mapM f = .ok ys ↔ List.Forall₂ (fun x y => f x = .ok y) xs ys := by
  induction xs generalizing ys with
  | nil =>
    rw [List.forall₂_nil_left_iff]
    exact ⟨fun h => (Except.ok.inj h).symm, fun h => congrArg Except.ok h.symm⟩
  | cons x xs ih =>
    rw [List.mapM_cons, List.forall₂_cons_left_iff]
    constructor
    · intro h
      cases hx : f x with
      | error e =>
        rw [hx] at h
        cases h
      | ok y =>
        cases hxs : xs.mapM f with
        | error e =>
          rw [hx, hxs] at h
          cases h
        | ok zs =>
          rw [hx, hxs] at h
          cases h
          exact ⟨y, zs, rfl, ih.1 hxs, rfl⟩
    · rintro ⟨y, zs, hx, hxs, rfl⟩
      rw [hx, ih.2 hxs]
      rfl

/-- The first entry that fails is the one whose error is reported. -/
theorem mapM_eq_error_iff {xs : List α} {e : ε} :
    xs.mapM f = .error e ↔
      ∃ past x rest, xs = past ++ x :: rest ∧ (∀ p ∈ past, ∃ y, f p = .ok y) ∧ f x = .error e := by
  induction xs with
  | nil =>
    constructor
    · intro h
      cases h
    · rintro ⟨past, x, rest, h, -⟩
      simp at h
  | cons x xs ih =>
    rw [List.mapM_cons]
    cases hx : f x with
    | error e' =>
      constructor
      · intro h
        cases h
        exact ⟨[], x, xs, rfl, by simp, hx⟩
      · rintro ⟨past, z, rest, h, hpast, hz⟩
        cases past with
        | nil =>
          cases h
          rw [← hx, hz]
          rfl
        | cons p past =>
          cases h
          obtain ⟨y, hy⟩ := hpast x List.mem_cons_self
          cases hx.symm.trans hy
    | ok y =>
      have hstep : (do let y ← Except.ok y; let ys ← xs.mapM f; pure (y :: ys)) = .error e ↔
          xs.mapM f = .error e := by
        cases xs.mapM f with
        | error e' => exact ⟨id, id⟩
        | ok ys => exact ⟨nofun, nofun⟩
      rw [hstep, ih]
      constructor
      · rintro ⟨past, z, rest, rfl, hpast, hz⟩
        refine ⟨x :: past, z, rest, rfl, fun p hp => ?_, hz⟩
        rcases List.mem_cons.1 hp with rfl | hp
        · exact ⟨y, hx⟩
        · exact hpast p hp
      · rintro ⟨past, z, rest, h, hpast, hz⟩
        cases past with
        | nil =>
          cases h
          cases hx.symm.trans hz
        | cons p past =>
          cases h
          exact ⟨past, z, rest, rfl, fun p hp => hpast p (List.mem_cons_of_mem _ hp), hz⟩

end Traversal

/-- Events by their times, and those of one time as they were listed. -/
structure TimeOrdered (listed events : List InputEvent) : Prop where
  perm : events.Perm listed
  sorted : events.Pairwise (·.atMs ≤ ·.atMs)
  stable : ∀ time, events.filter (·.atMs = time) = listed.filter (·.atMs = time)

theorem head_eq_of_sorted {d e : InputEvent} {ds es : List InputEvent}
    (hds : (d :: ds).Pairwise (·.atMs ≤ ·.atMs)) (hes : (e :: es).Pairwise (·.atMs ≤ ·.atMs))
    (h : ∀ time, (d :: ds).filter (·.atMs = time) = (e :: es).filter (·.atMs = time)) : d = e := by
  have hd : d ∈ e :: es := by
    have hmem : d ∈ (e :: es).filter (·.atMs = d.atMs) := by
      rw [← h]
      simp
    exact List.mem_of_mem_filter hmem
  have he : e ∈ d :: ds := by
    have hmem : e ∈ (d :: ds).filter (·.atMs = e.atMs) := by
      rw [h]
      simp
    exact List.mem_of_mem_filter hmem
  have hle : d.atMs ≤ e.atMs := by
    rcases List.mem_cons.1 he with rfl | he
    · exact UInt64.le_refl _
    · exact List.rel_of_pairwise_cons hds he
  have hge : e.atMs ≤ d.atMs := by
    rcases List.mem_cons.1 hd with rfl | hd
    · exact UInt64.le_refl _
    · exact List.rel_of_pairwise_cons hes hd
  -- both are the first of the events of their time
  have htime := h d.atMs
  rw [List.filter_cons_of_pos (by simp), List.filter_cons_of_pos
    (by simpa using (UInt64.le_antisymm hle hge).symm)] at htime
  exact (List.cons.inj htime).1

/-- The order is determined: sorted lists that agree on each time are equal. -/
theorem eq_of_sorted {ds es : List InputEvent} (hds : ds.Pairwise (·.atMs ≤ ·.atMs))
    (hes : es.Pairwise (·.atMs ≤ ·.atMs))
    (h : ∀ time, ds.filter (·.atMs = time) = es.filter (·.atMs = time)) : ds = es := by
  induction ds generalizing es with
  | nil =>
    cases es with
    | nil => rfl
    | cons e es =>
      have he := h e.atMs
      simp at he
  | cons d ds ih =>
    cases es with
    | nil =>
      have hd := h d.atMs
      simp at hd
    | cons e es =>
      obtain rfl := head_eq_of_sorted hds hes h
      apply congrArg (d :: ·)
      apply ih hds.of_cons hes.of_cons
      intro time
      have htime := h time
      rw [List.filter_cons, List.filter_cons] at htime
      split at htime
      · exact (List.cons.inj htime).2
      · exact htime

theorem TimeOrdered.unique {listed ds es : List InputEvent} (hds : TimeOrdered listed ds)
    (hes : TimeOrdered listed es) : ds = es :=
  eq_of_sorted hds.sorted hes.sorted fun time => (hds.stable time).trans (hes.stable time).symm

theorem TimeOrdered.mergeSort (listed : List InputEvent) :
    TimeOrdered listed (listed.mergeSort fun a b => a.atMs ≤ b.atMs) := by
  have htrans (a b c : InputEvent) (hab : decide (a.atMs ≤ b.atMs) = true)
      (hbc : decide (b.atMs ≤ c.atMs) = true) : decide (a.atMs ≤ c.atMs) = true := by
    rw [decide_eq_true_eq] at hab hbc ⊢
    exact UInt64.le_trans hab hbc
  have htotal (a b : InputEvent) :
      (decide (a.atMs ≤ b.atMs) || decide (b.atMs ≤ a.atMs)) = true := by
    rw [Bool.or_eq_true, decide_eq_true_eq, decide_eq_true_eq]
    exact UInt64.le_total _ _
  have hperm := listed.mergeSort_perm fun a b => a.atMs ≤ b.atMs
  refine ⟨hperm, ?_, fun time => ?_⟩
  · exact (List.pairwise_mergeSort htrans htotal listed).imp of_decide_eq_true
  · -- what is in order already keeps its places among itself
    have hclass : (listed.filter (·.atMs = time)).Pairwise fun a b => decide (a.atMs ≤ b.atMs) := by
      apply List.pairwise_of_forall_mem_list
      intro a ha b hb
      have ha' := of_decide_eq_true (List.mem_filter.1 ha).2
      have hb' := of_decide_eq_true (List.mem_filter.1 hb).2
      rw [decide_eq_true_eq, ha', hb']
      exact UInt64.le_refl _
    have hsub := (List.sublist_mergeSort htrans htotal hclass List.filter_sublist).filter
      (·.atMs = time)
    rw [List.filter_filter] at hsub
    simp only [Bool.and_self] at hsub
    exact (hsub.eq_of_length (hperm.filter _).length_eq.symm).symm

/-- The letters are the same, but the written one may be a capital of the Latin alphabet. -/
def SameLetter (written letter : Char) : Prop :=
  written = letter ∨ 'A' ≤ written ∧ written ≤ 'Z' ∧ written.toNat + 32 = letter.toNat

namespace Button

def IsNamed (b : Button) (name : String) : Prop :=
  List.Forall₂ SameLetter name.toList b.name.toList

theorem ofName?_eq_some_iff {name : String} {b : Button} :
    ofName? name = some b ↔ b.name = name := by
  constructor
  · intro h
    have hname := List.find?_some h
    exact beq_iff_eq.1 hname
  · rintro rfl
    cases b <;> decide +kernel

theorem exists_index {i : Nat} (h : i < 6) : ∃ b : Button, b.index = i := by
  match i, h with
  | 0, _ => exact ⟨center, rfl⟩
  | 1, _ => exact ⟨down, rfl⟩
  | 2, _ => exact ⟨right, rfl⟩
  | 3, _ => exact ⟨up, rfl⟩
  | 4, _ => exact ⟨left, rfl⟩
  | 5, _ => exact ⟨mode, rfl⟩

theorem small_of_mem_name {b : Button} {letter : Char} (h : letter ∈ b.name.toList) :
    ¬('A' ≤ letter ∧ letter ≤ 'Z') := by
  have hall : b.name.toList.all (fun c => !decide ('A' ≤ c ∧ c ≤ 'Z')) = true := by
    cases b <;> decide +kernel
  have hsmall := List.all_eq_true.1 hall letter h
  rw [Bool.not_eq_true'] at hsmall
  exact of_decide_eq_false hsmall

end Button

theorem toNat_toLower {c : Char} (h : 'A' ≤ c ∧ c ≤ 'Z') : c.toLower.toNat = c.toNat + 32 := by
  have hz : c.val.toNat ≤ 90 := UInt32.le_iff_toNat_le.1 h.2
  have hcapital : c.val ≥ 'A'.val ∧ c.val ≤ 'Z'.val := h
  have hlower : c.toLower.val = c.val + 32 := congrArg Char.val (dif_pos hcapital)
  change c.toLower.val.toNat = c.val.toNat + 32
  rw [hlower]
  simp only [UInt32.toNat_add, UInt32.reduceToNat]
  omega

theorem toLower_eq_iff {written letter : Char} (h : ¬('A' ≤ letter ∧ letter ≤ 'Z')) :
    written.toLower = letter ↔ SameLetter written letter := by
  by_cases hw : 'A' ≤ written ∧ written ≤ 'Z'
  · rw [← Char.toNat_inj, toNat_toLower hw, SameLetter]
    constructor
    · intro heq
      exact .inr ⟨hw.1, hw.2, heq⟩
    · rintro (rfl | ⟨-, -, heq⟩)
      · exact (h hw).elim
      · exact heq
  · have hsmall : written.toLower = written := dif_neg hw
    rw [hsmall, SameLetter]
    constructor
    · exact .inl
    · rintro (heq | ⟨ha, hz, -⟩)
      · exact heq
      · exact (hw ⟨ha, hz⟩).elim

theorem map_toLower_eq_iff {written letters : List Char}
    (h : ∀ letter ∈ letters, ¬('A' ≤ letter ∧ letter ≤ 'Z')) :
    written.map Char.toLower = letters ↔ List.Forall₂ SameLetter written letters := by
  induction letters generalizing written with
  | nil => rw [List.map_eq_nil_iff, List.forall₂_nil_right_iff]
  | cons letter letters ih =>
    have hletter := h letter List.mem_cons_self
    have hletters := fun l hl => h l (List.mem_cons_of_mem _ hl)
    rw [List.map_eq_cons_iff, List.forall₂_cons_right_iff]
    constructor
    · rintro ⟨c, cs, rfl, hc, hcs⟩
      exact ⟨c, cs, (toLower_eq_iff hletter).1 hc, (ih hletters).1 hcs, rfl⟩
    · rintro ⟨c, cs, hc, hcs, rfl⟩
      exact ⟨c, cs, rfl, (toLower_eq_iff hletter).2 hc, (ih hletters).2 hcs⟩

/-- Names are looked up without regard to the case of their letters. -/
theorem Button.ofName?_lowercase_eq_some_iff {name : String} {b : Button} :
    ofName? (ScriptStep.lowercase name) = some b ↔ b.IsNamed name := by
  rw [ofName?_eq_some_iff, eq_comm, ← String.toList_inj, ScriptStep.lowercase, String.toList_map]
  exact map_toLower_eq_iff fun _ => small_of_mem_name

namespace Buttons

theorem bits_press_lt {s : Buttons} (h : s.bits < 64) (b : Button) : (s.press b).bits < 64 := by
  have hs : s.bits.toNat < Nat.pow 2 6 := UInt8.lt_iff_toNat_lt.1 h
  have hb : b.mask.toNat < Nat.pow 2 6 := by cases b <;> decide
  apply UInt8.lt_iff_toNat_lt.2
  rw [press, UInt8.toNat_or]
  exact Nat.or_lt_two_pow hs hb

theorem getLsbD_of_bits_lt {s : Buttons} (h : s.bits < 64) {i : Nat} (hi : 6 ≤ i) :
    s.bits.toBitVec.getLsbD i = false := by
  have hlt : s.bits.toNat < Nat.pow 2 6 := UInt8.lt_iff_toNat_lt.1 h
  exact Nat.testBit_lt_two_pow (Nat.lt_of_lt_of_le hlt (Nat.pow_le_pow_right (by decide) hi))

theorem ext_isPressed {s t : Buttons} (hs : s.bits < 64) (ht : t.bits < 64)
    (h : ∀ b, s.isPressed b ↔ t.isPressed b) : s = t := by
  have hbits : s.bits.toBitVec = t.bits.toBitVec := by
    apply BitVec.eq_of_getLsbD_eq
    intro i hi
    by_cases hlow : i < 6
    · obtain ⟨b, rfl⟩ := Button.exists_index hlow
      rw [← isPressed_eq, ← isPressed_eq, Bool.eq_iff_iff]
      exact h b
    · have hhigh : 6 ≤ i := Nat.le_of_not_lt hlow
      rw [getLsbD_of_bits_lt hs hhigh, getLsbD_of_bits_lt ht hhigh]
  exact congrArg Buttons.mk (UInt8.toBitVec_inj.1 hbits)

end Buttons

namespace ScriptStep

def IsButtonName (name : String) : Prop := ∃ b : Button, b.IsNamed name

def FirstUnknown (names : List String) (name : String) : Prop :=
  ∃ known rest, names = known ++ name :: rest ∧ (∀ k ∈ known, IsButtonName k) ∧ ¬IsButtonName name

theorem not_isButtonName {name : String} (h : Button.ofName? (lowercase name) = none) :
    ¬IsButtonName name := by
  rintro ⟨b, hb⟩
  rw [Button.ofName?_lowercase_eq_some_iff.2 hb] at h
  cases h

theorem buttons_eq_error_iff {names : List String} {name : String} :
    buttons names = .error name ↔ FirstUnknown names name := by
  unfold buttons
  generalize Buttons.released = held
  induction names generalizing held with
  | nil =>
    constructor
    · intro h
      cases h
    · rintro ⟨known, rest, h, -⟩
      simp at h
  | cons first names ih =>
    rw [List.foldlM_cons]
    cases hf : Button.ofName? (lowercase first) with
    | none =>
      constructor
      · intro h
        cases h
        exact ⟨[], names, rfl, by simp, not_isButtonName hf⟩
      · rintro ⟨known, rest, h, hknown, -⟩
        cases known with
        | nil =>
          cases h
          rfl
        | cons k known =>
          cases h
          exact (not_isButtonName hf (hknown first List.mem_cons_self)).elim
    | some b =>
      have hb : IsButtonName first := ⟨b, Button.ofName?_lowercase_eq_some_iff.1 hf⟩
      refine (ih (held.press b)).trans ⟨?_, ?_⟩
      · rintro ⟨known, rest, rfl, hknown, hname⟩
        refine ⟨first :: known, rest, rfl, fun k hk => ?_, hname⟩
        rcases List.mem_cons.1 hk with rfl | hk
        · exact hb
        · exact hknown k hk
      · rintro ⟨known, rest, h, hknown, hname⟩
        cases known with
        | nil =>
          cases h
          exact (hname hb).elim
        | cons k known =>
          cases h
          exact ⟨known, rest, rfl, fun k hk => hknown k (List.mem_cons_of_mem _ hk), hname⟩

theorem buttons_ok {names : List String} {press : Buttons} (h : buttons names = .ok press) :
    (∀ name ∈ names, IsButtonName name) ∧
      (∀ b, press.isPressed b ↔ ∃ name ∈ names, b.IsNamed name) ∧ press.bits < 64 := by
  -- what is held stays held while the other names are read
  have hall : (∀ name ∈ names, IsButtonName name) ∧
      (∀ b, press.isPressed b ↔
        Buttons.released.isPressed b ∨ ∃ name ∈ names, b.IsNamed name) ∧
      (Buttons.released.bits < 64 → press.bits < 64) := by
    unfold buttons at h
    generalize Buttons.released = held at h ⊢
    induction names generalizing held with
    | nil =>
      cases h
      simp
    | cons first names ih =>
      rw [List.foldlM_cons] at h
      cases hf : Button.ofName? (lowercase first) with
      | none =>
        rw [hf] at h
        cases h
      | some b =>
        rw [hf] at h
        have hb := Button.ofName?_lowercase_eq_some_iff.1 hf
        obtain ⟨hnames, hpress, hbits⟩ := ih _ h
        refine ⟨?_, fun c => ?_, fun hheld => hbits (Buttons.bits_press_lt hheld b)⟩
        · intro name hname
          rcases List.mem_cons.1 hname with rfl | hname
          · exact ⟨b, hb⟩
          · exact hnames name hname
        · have hc : c.IsNamed first ↔ c = b := by
            rw [← Button.ofName?_lowercase_eq_some_iff, hf, Option.some.injEq]
            exact eq_comm
          rw [hpress, Buttons.isPressed_press, Bool.or_eq_true, decide_eq_true_eq, or_assoc, ← hc]
          simp
  obtain ⟨hnames, hpress, hbits⟩ := hall
  exact ⟨hnames, by simpa using hpress, hbits (by decide)⟩

theorem exists_buttons {names : List String} (h : ∀ name ∈ names, IsButtonName name) :
    ∃ press, buttons names = .ok press := by
  cases hb : buttons names with
  | ok press => exact ⟨press, rfl⟩
  | error name =>
    obtain ⟨known, rest, rfl, -, hname⟩ := buttons_eq_error_iff.1 hb
    exact (hname (h name (by simp))).elim

def LongEnough (tickMs : UInt32) (s : ScriptStep) : Prop :=
  s.press = [] ∨ tickMs.toNat ≤ s.holdMs.toNat

/-- Every press is long enough, and every name is a button's. -/
def Accepted (tickMs : UInt32) (s : ScriptStep) : Prop :=
  s.LongEnough tickMs ∧ ∀ name ∈ s.press, IsButtonName name

/-- What is wrong with a step; that it is too short comes before the names. -/
inductive Refused (tickMs : UInt32) (s : ScriptStep) : ConfigError → Prop
  | short (h : ¬s.LongEnough tickMs) : Refused tickMs s (.holdTooShort s.atMs s.holdMs tickMs)
  | unknown {name : String} (h : s.LongEnough tickMs) (hname : FirstUnknown s.press name) :
      Refused tickMs s (.unknownButton s.atMs name)

/-- The event holds the buttons that the step names, and no others. -/
structure Image (s : ScriptStep) (e : InputEvent) : Prop where
  atMs : e.atMs = s.atMs
  holdMs : e.holdMs = s.holdMs
  switch : e.switch = s.switch
  press : ∀ b, e.press.isPressed b ↔ ∃ name ∈ s.press, b.IsNamed name
  others : e.press.bits < 64

theorem Refused.not_accepted {tickMs : UInt32} {s : ScriptStep} {err : ConfigError}
    (h : s.Refused tickMs err) : ¬s.Accepted tickMs := by
  intro haccepted
  cases h with
  | short hshort => exact hshort haccepted.1
  | unknown _ hname =>
    obtain ⟨known, rest, hpress, -, hunknown⟩ := hname
    apply hunknown
    apply haccepted.2
    rw [hpress]
    simp

theorem Image.unique {s : ScriptStep} {e e' : InputEvent} (h : s.Image e) (h' : s.Image e') :
    e = e' := by
  have hpress : e.press = e'.press :=
    Buttons.ext_isPressed h.others h'.others fun b => (h.press b).trans (h'.press b).symm
  obtain ⟨atMs, press, holdMs, switch⟩ := e
  obtain ⟨hat, hhold, hswitch, -, -⟩ := h
  obtain ⟨hat', hhold', hswitch', -, -⟩ := h'
  cases e'
  cases hat
  cases hhold
  cases hswitch
  cases hat'
  cases hhold'
  cases hswitch'
  cases hpress
  rfl

theorem longEnough_iff {tickMs : UInt32} {s : ScriptStep} :
    s.LongEnough tickMs ↔ ¬(s.press ≠ [] ∧ s.holdMs < tickMs.toUInt64) := by
  rw [not_and_or, not_not, UInt64.not_lt, UInt64.le_iff_toNat_le, UInt32.toNat_toUInt64]
  rfl

theorem resolve_of_short {tickMs : UInt32} {s : ScriptStep} (h : ¬s.LongEnough tickMs) :
    s.resolve tickMs = .error (.holdTooShort s.atMs s.holdMs tickMs) :=
  if_pos (not_not.1 (mt longEnough_iff.2 h))

theorem resolve_of_long {tickMs : UInt32} {s : ScriptStep} (h : s.LongEnough tickMs) :
    s.resolve tickMs = match buttons s.press with
      | .error name => .error (.unknownButton s.atMs name)
      | .ok press => .ok ⟨s.atMs, press, s.holdMs, s.switch⟩ :=
  if_neg (longEnough_iff.1 h)

theorem resolve_eq_error_iff {tickMs : UInt32} {s : ScriptStep} {err : ConfigError} :
    s.resolve tickMs = .error err ↔ s.Refused tickMs err := by
  by_cases hlong : s.LongEnough tickMs
  · rw [resolve_of_long hlong]
    constructor
    · intro h
      cases hb : buttons s.press with
      | error name =>
        rw [hb] at h
        cases h
        exact .unknown hlong (buttons_eq_error_iff.1 hb)
      | ok press =>
        rw [hb] at h
        cases h
    · intro h
      cases h with
      | short hshort => exact (hshort hlong).elim
      | unknown _ hname => rw [buttons_eq_error_iff.2 hname]
  · rw [resolve_of_short hlong]
    constructor
    · intro h
      cases h
      exact .short hlong
    · intro h
      cases h with
      | short => rfl
      | unknown h _ => exact (hlong h).elim

theorem image_of_resolve {tickMs : UInt32} {s : ScriptStep} {e : InputEvent}
    (h : s.resolve tickMs = .ok e) : s.Accepted tickMs ∧ s.Image e := by
  by_cases hlong : s.LongEnough tickMs
  · rw [resolve_of_long hlong] at h
    cases hb : buttons s.press with
    | error name =>
      rw [hb] at h
      cases h
    | ok press =>
      rw [hb] at h
      cases h
      obtain ⟨hnames, hpress, hbits⟩ := buttons_ok hb
      exact ⟨⟨hlong, hnames⟩, rfl, rfl, rfl, hpress, hbits⟩
  · rw [resolve_of_short hlong] at h
    cases h

theorem exists_resolve {tickMs : UInt32} {s : ScriptStep} (h : s.Accepted tickMs) :
    ∃ e, s.resolve tickMs = .ok e := by
  obtain ⟨press, hpress⟩ := exists_buttons h.2
  rw [resolve_of_long h.1, hpress]
  exact ⟨_, rfl⟩

theorem resolve_eq_ok_iff {tickMs : UInt32} {s : ScriptStep} {e : InputEvent} :
    s.resolve tickMs = .ok e ↔ s.Accepted tickMs ∧ s.Image e := by
  constructor
  · exact image_of_resolve
  · rintro ⟨haccepted, himage⟩
    obtain ⟨e', he'⟩ := exists_resolve haccepted
    rw [himage.unique (image_of_resolve he').2]
    exact he'

end ScriptStep

section Script

variable {tickMs : UInt32} {script : List ScriptStep}

theorem mapM_resolve_eq_ok_iff {images : List InputEvent} :
    script.mapM (ScriptStep.resolve tickMs) = .ok images ↔
      (∀ s ∈ script, s.Accepted tickMs) ∧ List.Forall₂ ScriptStep.Image script images := by
  rw [mapM_eq_ok_iff, ← List.forall₂_and_left]
  simp only [ScriptStep.resolve_eq_ok_iff]

theorem resolveScript_eq_ok_iff {events : List InputEvent} :
    resolveScript tickMs script = .ok events ↔
      ∃ images, script.mapM (ScriptStep.resolve tickMs) = .ok images ∧
        TimeOrdered images events := by
  unfold resolveScript
  cases script.mapM (ScriptStep.resolve tickMs) with
  | error err =>
    constructor
    · intro h
      cases h
    · rintro ⟨images, h, -⟩
      cases h
  | ok images =>
    have hsorted := TimeOrdered.mergeSort images
    constructor
    · intro h
      cases h
      exact ⟨images, rfl, hsorted⟩
    · rintro ⟨_, himages, hevents⟩
      cases himages
      exact congrArg Except.ok (hsorted.unique hevents)

theorem resolveScript_eq_error_iff {err : ConfigError} :
    resolveScript tickMs script = .error err ↔
      ∃ past s rest, script = past ++ s :: rest ∧ (∀ p ∈ past, p.Accepted tickMs) ∧
        s.Refused tickMs err := by
  have hmap : resolveScript tickMs script = .error err ↔
      script.mapM (ScriptStep.resolve tickMs) = .error err := by
    unfold resolveScript
    cases script.mapM (ScriptStep.resolve tickMs) with
    | error err' => exact ⟨id, id⟩
    | ok images => exact ⟨nofun, nofun⟩
  have haccepted (p : ScriptStep) : (∃ e, p.resolve tickMs = .ok e) ↔ p.Accepted tickMs :=
    ⟨fun ⟨_, h⟩ => (ScriptStep.image_of_resolve h).1, ScriptStep.exists_resolve⟩
  rw [hmap, mapM_eq_error_iff]
  simp only [haccepted, ScriptStep.resolve_eq_error_iff]

theorem exists_resolveScript_iff :
    (∃ events, resolveScript tickMs script = .ok events) ↔ ∀ s ∈ script, s.Accepted tickMs := by
  constructor
  · rintro ⟨events, h⟩
    obtain ⟨images, himages, -⟩ := resolveScript_eq_ok_iff.1 h
    exact (mapM_resolve_eq_ok_iff.1 himages).1
  · intro haccepted
    cases h : resolveScript tickMs script with
    | ok events => exact ⟨events, rfl⟩
    | error err =>
      obtain ⟨past, s, rest, rfl, -, hrefused⟩ := resolveScript_eq_error_iff.1 h
      exact (hrefused.not_accepted (haccepted s (by simp))).elim

end Script

/-- A configuration is accepted exactly if all steps of its script are. Its events are then the
images of the steps in the order of their times, and of their places in the script for the same
time. Otherwise the error is that of the first step, in the order of the script, that is not
accepted. -/
theorem Config.script_resolved_exactly (c : Config) :
    ((∃ events, c.inputEvents = .ok events) ↔
        ∀ s ∈ c.script, s.Accepted c.viewer.controller.tickMs) ∧
      (∀ events, c.inputEvents = .ok events ↔
        (∀ s ∈ c.script, s.Accepted c.viewer.controller.tickMs) ∧
          ∃ images, List.Forall₂ ScriptStep.Image c.script images ∧ TimeOrdered images events) ∧
      ∀ err, c.inputEvents = .error err ↔
        ∃ past s rest, c.script = past ++ s :: rest ∧
          (∀ p ∈ past, p.Accepted c.viewer.controller.tickMs) ∧
          s.Refused c.viewer.controller.tickMs err := by
  refine ⟨exists_resolveScript_iff, fun events => ?_, fun err => resolveScript_eq_error_iff⟩
  rw [Config.inputEvents, resolveScript_eq_ok_iff]
  constructor
  · rintro ⟨images, himages, hordered⟩
    obtain ⟨haccepted, himages⟩ := mapM_resolve_eq_ok_iff.1 himages
    exact ⟨haccepted, images, himages, hordered⟩
  · rintro ⟨haccepted, images, himages, hordered⟩
    exact ⟨images, mapM_resolve_eq_ok_iff.2 ⟨haccepted, himages⟩, hordered⟩

end Handoff
