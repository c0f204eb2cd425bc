import Mathlib
import ZaggCore.Scp.QuorumSets

/-! # The normal form of a quorum set

Each rewriting of `normalizeQSet` keeps which sets of nodes are slices, and with it which are
v-blocking. -/

namespace ZaggCore.Scp
set_option autoImplicit false
set_option maxHeartbeats 250000

open LocalNode

variable {S : List NodeID} {q : SCPQuorumSet} {t : ℕ} {v : List NodeID} {i : List SCPQuorumSet}
  {x : NodeID} {idToRemove : Option NodeID}

/-! ## The steps -/

/-- "merge singleton inner sets into validator list" -/
def mergeSingletons (t : ℕ) (v : List NodeID) (i : List SCPQuorumSet) : SCPQuorumSet :=
  .mk t (v ++ (i.filter isSingleton).flatMap SCPQuorumSet.validators) (i.filter fun it => !isSingleton it)

/-- The threshold after as many nodes were removed. -/
def thresholdWithout (threshold removed : ℕ) : ℕ := (threshold + (2 ^ 32 - removed % 2 ^ 32)) % 2 ^ 32

theorem normalizeQSet_mk (idToRemove : Option NodeID) (t : ℕ) (v : List NodeID) (i : List SCPQuorumSet) :
    normalizeQSet idToRemove (.mk t v i) =
      let kept := v.filter fun n => some n ≠ idToRemove
      simplifyQSet (mergeSingletons (thresholdWithout t (v.length - kept.length)) kept
        (i.map (normalizeQSet idToRemove))) := by
  have hinner : normalizeInner idToRemove i = i.map (normalizeQSet idToRemove) := by
    induction i with
    | nil => rfl
    | cons it i ih =>
      unfold normalizeInner
      rw [ih]
      rfl
  unfold normalizeQSet
  rw [hinner]
  rfl

theorem eq_of_isSingleton (h : isSingleton q = true) : ∃ n, q = .mk 1 [n] [] := by
  obtain ⟨t, v, i⟩ := q
  simp only [isSingleton, SCPQuorumSet.threshold, SCPQuorumSet.validators, SCPQuorumSet.innerSets,
    Bool.and_eq_true, beq_iff_eq] at h
  obtain ⟨⟨rfl, hv⟩, hi⟩ := h
  obtain ⟨n, rfl⟩ := List.length_eq_one_iff.mp hv
  obtain rfl := List.length_eq_zero_iff.mp hi
  exact ⟨n, rfl⟩

theorem simplifyQSet_cases (q : SCPQuorumSet) :
    (∃ inner, q = .mk 1 [] [inner] ∧ simplifyQSet q = inner) ∨ simplifyQSet q = q := by
  unfold simplifyQSet
  split
  · exact .inl ⟨_, rfl, rfl⟩
  · exact .inr rfl

/-! ## Slices -/

theorem hitsNeeded_mod (t : ℕ) : hitsNeeded (t % 2 ^ 32) = hitsNeeded t := by
  unfold hitsNeeded
  omega

theorem isQuorumSlice_singleton (n : NodeID) :
    isQuorumSlice (.mk 1 [n] []) S = true ↔ n ∈ S := by
  rw [isQuorumSlice_mk]
  by_cases hn : n ∈ S <;> simp [hitsNeeded, sliceHits, hn]

theorem isQuorumSlice_simplifyQSet (q : SCPQuorumSet) :
    isQuorumSlice (simplifyQSet q) S = isQuorumSlice q S := by
  obtain ⟨inner, rfl, h⟩ | h := simplifyQSet_cases q
  · rw [h, Bool.eq_iff_iff, isQuorumSlice_mk]
    cases hslice : isQuorumSlice inner S <;> simp [hitsNeeded, sliceHits, hslice]
  · rw [h]

/-- A singleton is hit where its validator is. -/
theorem countP_singletons {l : List SCPQuorumSet} (h : ∀ q ∈ l, isSingleton q = true) :
    (l.flatMap SCPQuorumSet.validators).countP (fun n => decide (n ∈ S)) =
      l.countP fun q => isQuorumSlice q S := by
  induction l with
  | nil => rfl
  | cons q l ih =>
    obtain ⟨n, rfl⟩ := eq_of_isSingleton (h q List.mem_cons_self)
    have hslice : isQuorumSlice (.mk 1 [n] []) S = decide (n ∈ S) := by
      rw [Bool.eq_iff_iff, isQuorumSlice_singleton, decide_eq_true_eq]
    rw [List.flatMap_cons, List.countP_append, ih fun q hq => h q (List.mem_cons_of_mem _ hq),
      List.countP_cons, hslice, Nat.add_comm]
    simp [SCPQuorumSet.validators, List.countP_cons]

theorem sliceHits_merged (S v : List NodeID) (i : List SCPQuorumSet) :
    sliceHits S (v ++ (i.filter isSingleton).flatMap SCPQuorumSet.validators)
      (i.filter fun it => !isSingleton it) = sliceHits S v i := by
  have hsingletons : ∀ q ∈ i.filter isSingleton, isSingleton q = true := fun q hq => (List.mem_filter.mp hq).2
  have hsplit : (i.filter isSingleton).countP (fun q => isQuorumSlice q S) +
      (i.filter fun it => !isSingleton it).countP (fun q => isQuorumSlice q S) =
      i.countP fun q => isQuorumSlice q S := by
    rw [← List.countP_append]
    exact (List.filter_append_perm isSingleton i).countP_eq _
  unfold sliceHits
  rw [List.countP_append, countP_singletons hsingletons]
  omega

theorem isQuorumSlice_mergeSingletons :
    isQuorumSlice (mergeSingletons t v i) S = isQuorumSlice (.mk t v i) S := by
  unfold mergeSingletons
  rw [Bool.eq_iff_iff, isQuorumSlice_mk, isQuorumSlice_mk, sliceHits_merged]

/-- Normalizing keeps the slices. -/
theorem isQuorumSlice_normalizeQSet (q : SCPQuorumSet) :
    isQuorumSlice (normalizeQSet none q) S = isQuorumSlice q S := by
  induction q using SCPQuorumSet.induction with
  | mk t v i ih =>
    have hkept : (v.filter fun n => some n ≠ none) = v := by simp
    have hthreshold : hitsNeeded (thresholdWithout t (v.length - v.length)) = hitsNeeded t := by
      rw [← hitsNeeded_mod t]
      unfold thresholdWithout
      simp
    have hinner : (i.map (normalizeQSet none)).countP (fun q => isQuorumSlice q S) =
        i.countP fun q => isQuorumSlice q S := by
      rw [List.countP_map]
      apply List.countP_congr
      intro q hq
      rw [Function.comp_apply, ih q hq]
    rw [normalizeQSet_mk, hkept]
    dsimp only
    rw [isQuorumSlice_simplifyQSet, isQuorumSlice_mergeSingletons, Bool.eq_iff_iff, isQuorumSlice_mk,
      isQuorumSlice_mk, hthreshold]
    unfold sliceHits
    rw [hinner]

/-! ## Sanity -/

theorem allNodesInternal_simplifyQSet (q : SCPQuorumSet) :
    allNodesInternal (simplifyQSet q) = allNodesInternal q := by
  obtain ⟨inner, rfl, h⟩ | h := simplifyQSet_cases q
  · rw [h, allNodesInternal_mk]
    simp
  · rw [h]

theorem allNodesInternal_mergeSingletons :
    (allNodesInternal (mergeSingletons t v i)).Perm (allNodesInternal (.mk t v i)) := by
  have hsingletons : (i.filter isSingleton).flatMap SCPQuorumSet.validators =
      (i.filter isSingleton).flatMap allNodesInternal := by
    apply List.flatMap_congr
    intro q hq
    obtain ⟨n, rfl⟩ := eq_of_isSingleton (List.mem_filter.mp hq).2
    rw [allNodesInternal_mk]
    rfl
  unfold mergeSingletons
  rw [allNodesInternal_mk, allNodesInternal_mk, hsingletons, List.append_assoc, ← List.flatMap_append]
  exact ((List.filter_append_perm isSingleton i).flatMap_right _).append_left _

/-- Normalizing keeps the nodes. -/
theorem allNodesInternal_normalizeQSet (q : SCPQuorumSet) :
    (allNodesInternal (normalizeQSet none q)).Perm (allNodesInternal q) := by
  induction q using SCPQuorumSet.induction with
  | mk t v i ih =>
    have hkept : (v.filter fun n => some n ≠ none) = v := by simp
    rw [normalizeQSet_mk, hkept]
    dsimp only
    rw [allNodesInternal_simplifyQSet]
    refine allNodesInternal_mergeSingletons.trans ?_
    rw [allNodesInternal_mk, allNodesInternal_mk, List.flatMap_map]
    exact (List.Perm.flatMap_left i ih).append_left v

theorem LocalNode.Ranged.of_succ {extraChecks : Bool} {depth : ℕ} (h : Ranged extraChecks (depth + 1) q) :
    Ranged extraChecks depth q := by
  induction q using SCPQuorumSet.induction generalizing depth with
  | mk t v i ih =>
    obtain ⟨hdepth, hpos, hle, hmajority, hinner⟩ := ranged_mk.mp h
    exact ranged_mk.mpr ⟨by omega, hpos, hle, hmajority, fun q hq => ih q hq (hinner q hq)⟩

theorem length_merged (v : List NodeID) (i : List SCPQuorumSet) :
    (v ++ (i.filter isSingleton).flatMap SCPQuorumSet.validators).length +
      (i.filter fun it => !isSingleton it).length = v.length + i.length := by
  have hones : ∀ k ∈ (i.filter isSingleton).map fun q => q.validators.length, k = 1 := by
    intro k hk
    obtain ⟨q, hq, rfl⟩ := List.mem_map.mp hk
    obtain ⟨n, rfl⟩ := eq_of_isSingleton (List.mem_filter.mp hq).2
    rfl
  have hsingletons : ((i.filter isSingleton).flatMap SCPQuorumSet.validators).length =
      (i.filter isSingleton).length := by
    rw [List.length_flatMap, List.sum_eq_card_nsmul _ 1 hones, List.length_map, smul_eq_mul, mul_one]
  have hsplit := (List.filter_append_perm isSingleton i).length_eq
  rw [List.length_append] at hsplit ⊢
  omega

theorem ranged_simplifyQSet {extraChecks : Bool} {depth : ℕ} (h : Ranged extraChecks depth q) :
    Ranged extraChecks depth (simplifyQSet q) := by
  obtain ⟨inner, rfl, heq⟩ | heq := simplifyQSet_cases q
  · rw [heq]
    exact ((ranged_mk.mp h).2.2.2.2 inner (List.mem_singleton.mpr rfl)).of_succ
  · rwa [heq]

theorem ranged_normalizeQSet {extraChecks : Bool} {depth : ℕ} (h : Ranged extraChecks depth q)
    (hlen : (allNodesInternal q).length ≤ 1000) :
    Ranged extraChecks depth (normalizeQSet none q) := by
  induction q using SCPQuorumSet.induction generalizing depth with
  | mk t v i ih =>
    have hkept : (v.filter fun n => some n ≠ none) = v := by simp
    obtain ⟨hdepth, hpos, hle, hmajority, hinner⟩ := ranged_mk.mp h
    have hmembers : v.length + i.length ≤ 1000 := h.nodes_pos.2.trans hlen
    have hthreshold : thresholdWithout t (v.length - v.length) = t := by
      unfold thresholdWithout
      omega
    have hlength := length_merged v (i.map (normalizeQSet none))
    rw [List.length_map] at hlength
    rw [normalizeQSet_mk, hkept]
    dsimp only
    rw [hthreshold]
    refine ranged_simplifyQSet (ranged_mk.mpr ⟨hdepth, hpos, ?_, ?_, fun q hq => ?_⟩)
    · rwa [hlength]
    · rwa [hlength]
    · obtain ⟨inner, hmem, rfl⟩ := List.mem_map.mp (List.mem_of_mem_filter hq)
      exact ih inner hmem (hinner inner hmem) ((length_inner_le hmem).trans hlen)

theorem isQuorumSetSane_normalizeQSet {extraChecks : Bool} (h : isQuorumSetSane q extraChecks = true) :
    isQuorumSetSane (normalizeQSet none q) extraChecks = true := by
  obtain ⟨hranged, hnodup, hpos, hlen⟩ := isQuorumSetSane_iff.mp h
  have hperm := allNodesInternal_normalizeQSet q
  rw [isQuorumSetSane_iff, hperm.nodup_iff, hperm.length_eq]
  exact ⟨ranged_normalizeQSet hranged hlen, hnodup, hpos, hlen⟩

/-- By duality the blocking sets are kept too. -/
theorem isVBlockingInternal_normalizeQSet {extraChecks : Bool}
    (h : isQuorumSetSane q extraChecks = true) (S : List NodeID) :
    isVBlockingInternal S (normalizeQSet none q) = isVBlockingInternal S q := by
  obtain ⟨hranged, -, -, hlen⟩ := isQuorumSetSane_iff.mp h
  have hperm := allNodesInternal_normalizeQSet q
  have hT : ∀ n ∈ allNodesInternal q,
      n ∈ (allNodesInternal q).filter (fun n => decide (n ∉ S)) ↔ n ∉ S := by
    intro n hn
    simp [hn]
  have hdual := (ranged_normalizeQSet hranged hlen).dual (hperm.length_eq.trans_le hlen)
    fun n hn => hT n (hperm.mem_iff.mp hn)
  rw [Bool.eq_iff_iff, hdual, hranged.dual hlen hT, isQuorumSlice_normalizeQSet]

/-! ## Idempotence -/

/-- No step of `normalizeQSet` applies. -/
inductive Normal : SCPQuorumSet → Prop
  | mk {t : ℕ} {v : List NodeID} {i : List SCPQuorumSet} (lt : t < 2 ^ 32)
      (simple : simplifyQSet (.mk t v i) = .mk t v i) (merged : ∀ q ∈ i, isSingleton q = false)
      (inner : ∀ q ∈ i, Normal q) : Normal (.mk t v i)

theorem normal_normalizeQSet (idToRemove : Option NodeID) (q : SCPQuorumSet) :
    Normal (normalizeQSet idToRemove q) := by
  induction q using SCPQuorumSet.induction with
  | mk t v i ih =>
    rw [normalizeQSet_mk]
    dsimp only
    generalize (v.filter fun n => some n ≠ idToRemove) = kept
    have hinner : ∀ q ∈ (i.map (normalizeQSet idToRemove)).filter (fun it => !isSingleton it),
        isSingleton q = false ∧ Normal q := by
      intro q hq
      obtain ⟨hmem, hsingleton⟩ := List.mem_filter.mp hq
      obtain ⟨inner, hi, rfl⟩ := List.mem_map.mp hmem
      exact ⟨by simpa using hsingleton, ih inner hi⟩
    have hlt : thresholdWithout t (v.length - kept.length) < 2 ^ 32 := Nat.mod_lt _ (by omega)
    unfold mergeSingletons
    obtain ⟨inner, heq, hsimplify⟩ | hsimplify := simplifyQSet_cases (.mk _ _ _)
    · rw [hsimplify]
      obtain ⟨-, -, hfilter⟩ := SCPQuorumSet.mk.inj heq
      rw [hfilter] at hinner
      exact (hinner inner (List.mem_singleton.mpr rfl)).2
    · rw [hsimplify]
      exact ⟨hlt, hsimplify, fun q hq => (hinner q hq).1, fun q hq => (hinner q hq).2⟩

/-- Normalizing changes nothing of a normal form. -/
theorem Normal.normalizeQSet_eq (h : Normal q) : normalizeQSet none q = q := by
  induction h with
  | @mk t v i hlt hsimple hmerged hinner ih =>
    have hkept : (v.filter fun n => some n ≠ none) = v := by simp
    have hthreshold : thresholdWithout t (v.length - v.length) = t := by
      unfold thresholdWithout
      omega
    have hmap : i.map (normalizeQSet none) = i := (List.map_congr_left (g := id) ih).trans (List.map_id i)
    have hnone : i.filter isSingleton = [] :=
      List.filter_eq_nil_iff.mpr fun q hq => by simp [hmerged q hq]
    have hall : (i.filter fun it => !isSingleton it) = i :=
      List.filter_eq_self.mpr fun q hq => by simp [hmerged q hq]
    rw [normalizeQSet_mk, hkept]
    dsimp only
    unfold mergeSingletons
    rw [hthreshold, hmap, hnone, hall, List.flatMap_nil, List.append_nil]
    exact hsimple

/-! ## Removing a node -/

/-- At every level the threshold asks for more than the node that is removed. -/
inductive KeepsThresholds (x : NodeID) : SCPQuorumSet → Prop
  | mk {t : ℕ} {v : List NodeID} {i : List SCPQuorumSet} (lt : v.count x < t)
      (inner : ∀ q ∈ i, KeepsThresholds x q) : KeepsThresholds x (.mk t v i)

theorem countP_removed (hx : x ∉ S) :
    v.countP (fun n => decide (n ∈ x :: S)) =
      (v.filter fun n => some n ≠ some x).countP (fun n => decide (n ∈ S)) + v.count x := by
  induction v with
  | nil => rfl
  | cons n v ih =>
    rw [List.countP_cons, List.filter_cons, ih, List.count_cons]
    by_cases hn : n = x
    · subst hn
      simp [hx]
      omega
    · simp [hn, List.countP_cons]
      omega

theorem length_removed : v.length - (v.filter fun n => some n ≠ some x).length = v.count x := by
  induction v with
  | nil => rfl
  | cons n v ih =>
    have hle := List.length_filter_le (fun n => decide (some n ≠ some x)) v
    rw [List.filter_cons, List.count_cons, List.length_cons, ← ih]
    by_cases hn : n = x
    · simp [hn] at hle ⊢
      omega
    · simp [hn]

/-- Without the node the rest satisfies what it satisfied together with the node. -/
theorem isQuorumSlice_removed {extraChecks : Bool} {depth : ℕ} (h : Ranged extraChecks depth q)
    (hlen : (allNodesInternal q).length ≤ 1000) (hkeeps : KeepsThresholds x q) (hx : x ∉ S) :
    isQuorumSlice (normalizeQSet (some x) q) S = isQuorumSlice q (x :: S) := by
  induction hkeeps generalizing depth with
  | @mk t v i hlt hinnerKeeps ih =>
    have hinner := (ranged_mk.mp h).2.2.2.2
    have hmembers : v.length + i.length ≤ 1000 := h.nodes_pos.2.trans hlen
    have hle := (ranged_mk.mp h).2.2.1
    have hthreshold : thresholdWithout t (v.count x) = t - v.count x := by
      unfold thresholdWithout
      omega
    have hcount : (i.map (normalizeQSet (some x))).countP (fun q => isQuorumSlice q S) =
        i.countP fun q => isQuorumSlice q (x :: S) := by
      rw [List.countP_map]
      apply List.countP_congr
      intro q hq
      rw [Function.comp_apply, ih q hq (hinner q hq) ((length_inner_le hq).trans hlen)]
    rw [normalizeQSet_mk]
    dsimp only
    rw [isQuorumSlice_simplifyQSet, isQuorumSlice_mergeSingletons, length_removed, hthreshold,
      Bool.eq_iff_iff, h.slice_iff hlen, isQuorumSlice_mk, hitsNeeded_of_pos (by omega) (by omega)]
    unfold sliceHits
    rw [hcount, countP_removed hx]
    omega

/-- **Normalizing keeps the meaning.** -/
theorem normalizeQSet_meaning (q : SCPQuorumSet) (extraChecks : Bool)
    (hsane : isQuorumSetSane q extraChecks = true) :
    (∀ S, isQuorumSlice (normalizeQSet none q) S = isQuorumSlice q S ∧
        isVBlockingInternal S (normalizeQSet none q) = isVBlockingInternal S q) ∧
      isQuorumSetSane (normalizeQSet none q) extraChecks = true ∧
      normalizeQSet none (normalizeQSet none q) = normalizeQSet none q ∧
      ∀ x, KeepsThresholds x q → ∀ S, x ∉ S →
        isQuorumSlice (normalizeQSet (some x) q) S = isQuorumSlice q (x :: S) := by
  obtain ⟨hranged, -, -, hlen⟩ := isQuorumSetSane_iff.mp hsane
  refine ⟨fun S => ⟨isQuorumSlice_normalizeQSet q, ?_⟩, ?_, ?_, fun x hkeeps S hx => ?_⟩
  · exact isVBlockingInternal_normalizeQSet hsane S
  · exact isQuorumSetSane_normalizeQSet hsane
  · exact (normal_normalizeQSet none q).normalizeQSet_eq
  · exact isQuorumSlice_removed hranged hlen hkeeps hx

/-- A node that is wrapped twice beside a set of two of three. -/
def wrappedQSet : SCPQuorumSet := .mk 2 [1] [.mk 1 [] [.mk 1 [2] []], .mk 2 [3, 4, 5] []]

theorem wrappedQSet_keepsThresholds : KeepsThresholds 3 wrappedQSet := by
  refine ⟨by decide, fun q hq => ?_⟩
  obtain rfl | hq := List.mem_cons.mp hq
  · refine ⟨by decide, fun q hq => ?_⟩
    obtain rfl := List.mem_singleton.mp hq
    exact ⟨by decide, fun q hq => absurd hq List.not_mem_nil⟩
  · obtain rfl := List.mem_singleton.mp hq
    exact ⟨by decide, fun q hq => absurd hq List.not_mem_nil⟩

theorem normalizeQSet_meaning_wrapped :
    (isQuorumSlice (normalizeQSet none wrappedQSet) [1, 2] = isQuorumSlice wrappedQSet [1, 2] ∧
        isVBlockingInternal [1, 2] (normalizeQSet none wrappedQSet) =
          isVBlockingInternal [1, 2] wrappedQSet) ∧
      isQuorumSetSane (normalizeQSet none wrappedQSet) false = true ∧
      normalizeQSet none (normalizeQSet none wrappedQSet) = normalizeQSet none wrappedQSet ∧
      isQuorumSlice (normalizeQSet (some 3) wrappedQSet) [1, 4] =
        isQuorumSlice wrappedQSet [3, 1, 4] := by
  obtain ⟨hsame, hsane, hagain, hremoved⟩ :=
    normalizeQSet_meaning wrappedQSet false (by decide +kernel)
  exact ⟨hsame [1, 2], hsane, hagain, hremoved 3 wrappedQSet_keepsThresholds [1, 4] (by decide)⟩

end ZaggCore.Scp
