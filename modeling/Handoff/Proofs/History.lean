namespace Handoff

theorem filterMap_snoc {α β : Type} (f : α → Option β) (t : List α) (e : α) :
    (t ++ [e]).filterMap f = t.filterMap f ++ (f e).toList := by
  rw [List.filterMap_append]
  cases h : f e <;> simp [h]

theorem getLast?_filterMap_snoc {α β : Type} (f : α → Option β) (t : List α) (e : α) :
    ((t ++ [e]).filterMap f).getLast? = (f e <|> (t.filterMap f).getLast?) := by
  rw [filterMap_snoc, List.getLast?_append]
  cases f e <;> rfl

theorem forall_mem_snoc {α : Type} {p : α → Prop} {t : List α} {e : α} :
    (∀ x ∈ t ++ [e], p x) ↔ (∀ x ∈ t, p x) ∧ p e := by
  rw [List.forall_mem_append, List.forall_mem_singleton]

/-- Some entry of the history starts it, and no later entry ends it. -/
def Since {α : Type} (starts ends : List α → α → Prop) (t : List α) : Prop :=
  ∃ past e rest, t = past ++ e :: rest ∧ starts past e ∧
    ∀ between e' after, rest = between ++ e' :: after → ¬ ends (past ++ e :: between) e'

namespace Since

variable {α : Type} {starts ends : List α → α → Prop} {t : List α} {e : α}

theorem not_nil : ¬ Since starts ends [] := by
  rintro ⟨past, e, rest, ht, _⟩
  simp at ht

theorem now (h : starts t e) : Since starts ends (t ++ [e]) := by
  refine ⟨t, e, [], rfl, h, ?_⟩
  intro between e' after hr
  simp at hr

theorem still (h : Since starts ends t) (he : ¬ ends t e) : Since starts ends (t ++ [e]) := by
  obtain ⟨past, d, rest, rfl, hs, hrest⟩ := h
  refine ⟨past, d, rest ++ [e], by simp, hs, ?_⟩
  intro between e' after hr
  rcases List.eq_nil_or_concat after with rfl | ⟨after, x, rfl⟩
  · obtain ⟨rfl, hx⟩ := List.append_inj' hr rfl
    cases hx
    exact he
  · rw [List.concat_eq_append, ← List.cons_append, ← List.append_assoc] at hr
    exact hrest between e' after (List.append_inj' hr rfl).1

theorem snoc : Since starts ends (t ++ [e]) ↔ starts t e ∨ Since starts ends t ∧ ¬ ends t e := by
  constructor
  · rintro ⟨past, d, rest, ht, hs, hrest⟩
    rcases List.eq_nil_or_concat rest with rfl | ⟨rest, x, rfl⟩
    · obtain ⟨rfl, hd⟩ := List.append_inj' ht rfl
      cases hd
      exact .inl hs
    · rw [List.concat_eq_append, ← List.cons_append, ← List.append_assoc] at ht
      obtain ⟨rfl, hx⟩ := List.append_inj' ht rfl
      cases hx
      refine .inr ⟨⟨past, d, rest, rfl, hs, ?_⟩, hrest rest e [] (by simp)⟩
      rintro between e' after rfl
      exact hrest between e' (after ++ [e]) (by simp)
  · rintro (h | ⟨h, he⟩)
    · exact now h
    · exact h.still he

end Since

def Throughout {α : Type} (p : List α → α → Prop) (t : List α) : Prop :=
  ∀ past e rest, t = past ++ e :: rest → p past e

namespace Throughout

variable {α : Type} {p : List α → α → Prop} {t : List α} {e : α}

theorem nil : Throughout p [] := by
  intro past e rest ht
  simp at ht

theorem snoc : Throughout p (t ++ [e]) ↔ Throughout p t ∧ p t e := by
  constructor
  · intro h
    constructor
    · rintro past d rest rfl
      exact h past d (rest ++ [e]) (by simp)
    · exact h t e [] rfl
  · rintro ⟨ht, he⟩ past d rest hsplit
    rcases List.eq_nil_or_concat rest with rfl | ⟨rest, x, rfl⟩
    · obtain ⟨rfl, hd⟩ := List.append_inj' hsplit rfl
      cases hd
      exact he
    · rw [List.concat_eq_append, ← List.cons_append, ← List.append_assoc] at hsplit
      exact ht past d rest (List.append_inj' hsplit rfl).1

theorem iff_forall_fin : Throughout p t ↔ ∀ n : Fin t.length, p (t.take n) t[n] := by
  constructor
  · intro h n
    apply h (t.take n) t[n] (t.drop (n + 1))
    rw [Fin.getElem_fin, ← List.drop_eq_getElem_cons, List.take_append_drop]
  · rintro h past e rest rfl
    have hlt : past.length < (past ++ e :: rest).length := by simp
    simpa using h ⟨past.length, hlt⟩

instance [∀ past e, Decidable (p past e)] : Decidable (Throughout p t) :=
  decidable_of_iff _ iff_forall_fin.symm

end Throughout

def tallyAfter {α : Type} (p : List α → α → Bool) (past : List α) : List α → Nat
  | [] => 0
  | e :: rest => (p past e).toNat + tallyAfter p (past ++ [e]) rest

/-- How many entries of the history count. -/
def tally {α : Type} (p : List α → α → Bool) (t : List α) : Nat := tallyAfter p [] t

section Tally

variable {α : Type} (p : List α → α → Bool)

theorem tallyAfter_snoc (past t : List α) (e : α) :
    tallyAfter p past (t ++ [e]) = tallyAfter p past t + (p (past ++ t) e).toNat := by
  induction t generalizing past with
  | nil => simp [tallyAfter]
  | cons d t ih =>
    rw [List.cons_append, tallyAfter, tallyAfter, ih, List.append_assoc, Nat.add_assoc]
    rfl

theorem tally_snoc (t : List α) (e : α) : tally p (t ++ [e]) = tally p t + (p t e).toNat :=
  tallyAfter_snoc p [] t e

end Tally

end Handoff
