import Mathlib

/-! # Counters that only climb

Numbers are taken from counters, one for each key: a number is above the counter before, and the counter is
not below it after. The numbers of one key then go up in the order they are taken, over any sequence of
steps. -/

namespace ZaggCore.Foundations
set_option autoImplicit false
set_option maxHeartbeats 250000

section Counters

variable {κ α : Type*} [Preorder α]

/-- From the counters `lo` to the counters `hi` the numbers of the list were taken, in this order. -/
structure Climbs (lo hi : κ → α) (taken : List (κ × α)) : Prop where
  le : ∀ k, lo k ≤ hi k
  above : ∀ t ∈ taken, lo t.1 < t.2
  below : ∀ t ∈ taken, t.2 ≤ hi t.1
  increasing : taken.Pairwise fun t t' => t.1 = t'.1 → t.2 < t'.2

namespace Climbs

variable {lo mid hi : κ → α} {taken taken' : List (κ × α)}

theorem nothing (h : ∀ k, lo k ≤ hi k) : Climbs lo hi [] where
  le := h
  above _ ht := absurd ht List.not_mem_nil
  below _ ht := absurd ht List.not_mem_nil
  increasing := List.Pairwise.nil

theorem one {t : κ × α} (h : ∀ k, lo k ≤ hi k) (habove : lo t.1 < t.2) (hbelow : t.2 ≤ hi t.1) :
    Climbs lo hi [t] where
  le := h
  above t' ht' := by rwa [List.mem_singleton.mp ht']
  below t' ht' := by rwa [List.mem_singleton.mp ht']
  increasing := List.pairwise_singleton _ _

theorem append (h : Climbs lo mid taken) (h' : Climbs mid hi taken') : Climbs lo hi (taken ++ taken') where
  le k := (h.le k).trans (h'.le k)
  above t ht := by
    obtain ht | ht := List.mem_append.mp ht
    · exact h.above t ht
    · exact (h.le t.1).trans_lt (h'.above t ht)
  below t ht := by
    obtain ht | ht := List.mem_append.mp ht
    · exact (h.below t ht).trans (h'.le t.1)
    · exact h'.below t ht
  increasing := by
    refine List.pairwise_append.mpr ⟨h.increasing, h'.increasing, fun t ht t' ht' heq => ?_⟩
    have hmid : mid t.1 < t'.2 := by
      rw [heq]
      exact h'.above t' ht'
    exact (h.below t ht).trans_lt hmid

end Climbs

end Counters

end ZaggCore.Foundations
