import Mathlib

/-! # Sums over keyed lists

A quantity added up over the entries of a keyed list, and what inserting and erasing an entry does to
the sum. -/

namespace ZaggCore.Foundations
set_option autoImplicit false
set_option maxHeartbeats 250000

variable {α M : Type} {β : α → Type} [AddCommGroup M]

/-- `f` added up over the entries. -/
def keyedSum (f : (a : α) → β a → M) (m : AList β) : M :=
  (m.entries.map fun p => f p.1 p.2).sum

variable [DecidableEq α]

/-- What the entry at a key adds to the sum. -/
def share (f : (a : α) → β a → M) (m : AList β) (k : α) : M :=
  match m.lookup k with
  | some b => f k b
  | none => 0

theorem keyedSum_kerase (f : (a : α) → β a → M) (l : List (Sigma β)) (hl : l.NodupKeys) (k : α) :
    ((l.kerase k).map fun p => f p.1 p.2).sum
      = (l.map fun p => f p.1 p.2).sum
        - (match l.dlookup k with | some b => f k b | none => 0) := by
  induction l with
  | nil => simp
  | cons p l ih =>
    obtain ⟨a, b⟩ := p
    rw [List.nodupKeys_cons] at hl
    by_cases h : k = a
    · subst h
      simp [List.kerase_cons_eq]
    · rw [List.kerase_cons_ne h, List.dlookup_cons_ne _ _ h]
      simp only [List.map_cons, List.sum_cons, ih hl.2]
      abel

theorem keyedSum_erase (f : (a : α) → β a → M) (m : AList β) (k : α) :
    keyedSum f (m.erase k) = keyedSum f m - share f m k :=
  keyedSum_kerase f m.entries m.nodupKeys k

theorem keyedSum_insert (f : (a : α) → β a → M) (m : AList β) (k : α) (b : β k) :
    keyedSum f (m.insert k b) = keyedSum f m - share f m k + f k b := by
  have h := keyedSum_erase f m k
  unfold keyedSum at h ⊢
  change ((⟨k, b⟩ :: (m.erase k).entries).map fun p => f p.1 p.2).sum = _
  rw [List.map_cons, List.sum_cons, h, add_comm]

/-- Where every other entry counts for nothing, the sum is what one key adds to it. -/
theorem keyedSum_eq_share (f : (a : α) → β a → M) (m : AList β) (k : α)
    (h : ∀ a b, m.lookup a = some b → a ≠ k → f a b = 0) : keyedSum f m = share f m k := by
  have hrest : keyedSum f (m.erase k) = 0 := by
    refine List.sum_eq_zero fun x hx => ?_
    obtain ⟨⟨a, b⟩, hp, rfl⟩ := List.mem_map.mp hx
    have hlookup : (m.erase k).lookup a = some b := AList.mem_lookup_iff.mpr hp
    have hne : a ≠ k := by
      rintro rfl
      rw [AList.lookup_erase] at hlookup
      cases hlookup
    exact h a b ((AList.lookup_erase_ne hne).symm.trans hlookup) hne
  have h := keyedSum_erase f m k
  rw [hrest] at h
  exact (sub_eq_zero.mp h.symm)

end ZaggCore.Foundations
