import Mathlib
import ZaggCore.Scp.LocalNode

/-! # What quorum sets mean

The early exits of `isQuorumSliceInternal` and `isVBlockingInternal` do not change what they count: a set
of nodes is a slice if it hits as many members as the threshold asks for, and it is v-blocking if too few
members are left for that. -/

namespace ZaggCore.Scp
set_option autoImplicit false
set_option maxHeartbeats 250000

/-- Induction over the inner sets. -/
theorem SCPQuorumSet.induction {P : SCPQuorumSet → Prop}
    (mk : ∀ threshold validators innerSets, (∀ q ∈ innerSets, P q) →
      P (.mk threshold validators innerSets)) (q : SCPQuorumSet) : P q := by
  refine @SCPQuorumSet.rec P (fun innerSets => ∀ q ∈ innerSets, P q) mk ?_ ?_ q
  · intro q hq
    exact absurd hq List.not_mem_nil
  · intro inner innerSets hinner hrest q hq
    obtain rfl | hmem := List.mem_cons.mp hq
    · exact hinner
    · exact hrest q hmem

namespace LocalNode

variable {S S' T : List NodeID} {q : SCPQuorumSet} {t : ℕ} {v : List NodeID} {i : List SCPQuorumSet}
  {hits : List Bool}

/-! ## Counting -/

/-- How many hits a threshold takes: `thresholdLeft` wraps at zero. -/
def hitsNeeded (threshold : ℕ) : ℕ := (threshold + (2 ^ 32 - 1)) % 2 ^ 32 + 1

theorem hitsNeeded_of_pos (h : 0 < t) (hlt : t < 2 ^ 32) : hitsNeeded t = t := by
  unfold hitsNeeded
  omega

theorem hitsNeeded_pos (t : ℕ) : 0 < hitsNeeded t := Nat.succ_pos _

theorem reachesThreshold_iff : reachesThreshold t hits = true ↔ hitsNeeded t ≤ hits.count true := by
  induction hits generalizing t with
  | nil => exact iff_of_false Bool.false_ne_true (not_le.mpr (hitsNeeded_pos t))
  | cons hit hits ih =>
    unfold reachesThreshold
    cases hit with
    | false => simp [ih]
    | true =>
      have hneeded : hitsNeeded t = (t + (2 ^ 32 - 1)) % 2 ^ 32 + 1 := rfl
      simp only [if_true, List.count_cons_self]
      split_ifs with h0
      · rw [hneeded, h0]
        exact iff_of_true rfl (by omega)
      · rw [ih, hneeded, hitsNeeded_of_pos (by omega) (Nat.mod_lt _ (by omega))]
        omega

theorem reachesBlock_iff {k : ℤ} : reachesBlock k hits = true ↔ max k 1 ≤ hits.count true := by
  induction hits generalizing k with
  | nil => exact iff_of_false Bool.false_ne_true (by simp)
  | cons hit hits ih =>
    unfold reachesBlock
    cases hit with
    | false => simp [ih]
    | true =>
      simp only [if_true, List.count_cons_self]
      split_ifs with h0
      · exact iff_of_true rfl (by omega)
      · rw [ih]
        omega

theorem innerSlices_eq (S : List NodeID) (i : List SCPQuorumSet) :
    innerSlices S i = i.map fun inner => isQuorumSlice inner S := by
  induction i with
  | nil => rfl
  | cons inner i ih =>
    unfold innerSlices
    rw [ih]
    rfl

theorem innerVBlocking_eq (S : List NodeID) (i : List SCPQuorumSet) :
    innerVBlocking S i = i.map fun inner => isVBlockingInternal S inner := by
  induction i with
  | nil => rfl
  | cons inner i ih =>
    unfold innerVBlocking
    rw [ih]
    rfl

theorem count_true_map {α : Type} (p : α → Bool) (l : List α) : (l.map p).count true = l.countP p := by
  rw [List.count, List.countP_map]
  congr 1
  funext a
  simp

/-- The members that a set of nodes hits. -/
def sliceHits (S v : List NodeID) (i : List SCPQuorumSet) : ℕ :=
  v.countP (fun n => decide (n ∈ S)) + i.countP fun inner => isQuorumSlice inner S

def blockHits (S v : List NodeID) (i : List SCPQuorumSet) : ℕ :=
  v.countP (fun n => decide (n ∈ S)) + i.countP fun inner => isVBlockingInternal S inner

theorem isQuorumSlice_mk :
    isQuorumSlice (.mk t v i) S = true ↔ hitsNeeded t ≤ sliceHits S v i := by
  unfold isQuorumSlice isQuorumSliceInternal
  rw [reachesThreshold_iff, innerSlices_eq, List.count_append, count_true_map, count_true_map]
  rfl

theorem isVBlockingInternal_mk : isVBlockingInternal S (.mk t v i) = true ↔
    t ≠ 0 ∧ max (Numeric.toInt32 ((1 + v.length + i.length : ℤ) - t)) 1 ≤ blockHits S v i := by
  unfold isVBlockingInternal
  split_ifs with h0
  · simp [h0]
  · rw [reachesBlock_iff, innerVBlocking_eq, List.count_append, count_true_map, count_true_map]
    simp [h0, blockHits]

theorem allNodesInternal_mk (t : ℕ) (v : List NodeID) (i : List SCPQuorumSet) :
    allNodesInternal (.mk t v i) = v ++ i.flatMap allNodesInternal := by
  have hinner : innerNodes i = i.flatMap allNodesInternal := by
    induction i with
    | nil => rfl
    | cons inner i ih =>
      unfold innerNodes
      rw [ih, List.flatMap_cons]
  unfold allNodesInternal
  rw [hinner]

theorem mem_of_validator {n : NodeID} (h : n ∈ v) : n ∈ allNodesInternal (.mk t v i) := by
  rw [allNodesInternal_mk]
  exact List.mem_append_left _ h

theorem mem_of_inner {n : NodeID} {inner : SCPQuorumSet} (hinner : inner ∈ i)
    (h : n ∈ allNodesInternal inner) : n ∈ allNodesInternal (.mk t v i) := by
  rw [allNodesInternal_mk]
  exact List.mem_append_right _ (List.mem_flatMap.mpr ⟨inner, hinner, h⟩)

/-- Nodes outside of a quorum set do not block it. -/
theorem not_blocked_of_disjoint (h : ∀ n ∈ allNodesInternal q, n ∉ S) : ¬ isVBlockingInternal S q = true := by
  induction q using SCPQuorumSet.induction with
  | mk t v i ih =>
    have hnone : blockHits S v i = 0 := by
      unfold blockHits
      rw [List.countP_eq_zero.mpr fun n hn => by simpa using h n (mem_of_validator hn),
        List.countP_eq_zero.mpr fun inner hi => ih inner hi fun n hn => h n (mem_of_inner hi hn)]
    rw [isVBlockingInternal_mk, hnone]
    rintro ⟨-, hle⟩
    simp at hle

/-! ## Monotonicity

Only the nodes of the quorum set matter, and more of them hit more. -/

theorem countP_validators_le (h : ∀ n ∈ v, n ∈ S → n ∈ S') :
    v.countP (fun n => decide (n ∈ S)) ≤ v.countP fun n => decide (n ∈ S') :=
  List.countP_mono_left fun n hn hs => decide_eq_true (h n hn (of_decide_eq_true hs))

theorem isQuorumSlice_mono (h : ∀ n ∈ allNodesInternal q, n ∈ S → n ∈ S') :
    isQuorumSlice q S = true → isQuorumSlice q S' = true := by
  induction q using SCPQuorumSet.induction with
  | mk t v i ih =>
    rw [isQuorumSlice_mk, isQuorumSlice_mk]
    intro hle
    apply hle.trans
    apply Nat.add_le_add
    · exact countP_validators_le fun n hn => h n (mem_of_validator hn)
    · apply List.countP_mono_left
      intro inner hinner
      exact ih inner hinner fun n hn => h n (mem_of_inner hinner hn)

theorem isVBlockingInternal_mono (h : ∀ n ∈ allNodesInternal q, n ∈ S → n ∈ S') :
    isVBlockingInternal S q = true → isVBlockingInternal S' q = true := by
  induction q using SCPQuorumSet.induction with
  | mk t v i ih =>
    rw [isVBlockingInternal_mk, isVBlockingInternal_mk]
    rintro ⟨h0, hle⟩
    have hhits : blockHits S v i ≤ blockHits S' v i := by
      apply Nat.add_le_add
      · exact countP_validators_le fun n hn => h n (mem_of_validator hn)
      · apply List.countP_mono_left
        intro inner hinner
        exact ih inner hinner fun n hn => h n (mem_of_inner hinner hn)
    exact ⟨h0, hle.trans (Int.ofNat_le.mpr hhits)⟩

/-! ## Sanity -/

/-- The checks of `checkSanity` at every level, from `depth` on. -/
inductive Ranged (extraChecks : Bool) : ℕ → SCPQuorumSet → Prop
  | mk {depth t : ℕ} {v : List NodeID} {i : List SCPQuorumSet} (depth_le : depth ≤ 2) (pos : 1 ≤ t)
      (le : t ≤ v.length + i.length)
      (majority : extraChecks = true → v.length + i.length - t + 1 ≤ t)
      (inner : ∀ q ∈ i, Ranged extraChecks (depth + 1) q) : Ranged extraChecks depth (.mk t v i)

theorem ranged_mk {extraChecks : Bool} {depth : ℕ} : Ranged extraChecks depth (.mk t v i) ↔
    depth ≤ 2 ∧ 1 ≤ t ∧ t ≤ v.length + i.length ∧
      (extraChecks = true → v.length + i.length - t + 1 ≤ t) ∧
      ∀ q ∈ i, Ranged extraChecks (depth + 1) q := by
  constructor
  · rintro ⟨hdepth, hpos, hle, hmajority, hinner⟩
    exact ⟨hdepth, hpos, hle, hmajority, hinner⟩
  · rintro ⟨hdepth, hpos, hle, hmajority, hinner⟩
    exact ⟨hdepth, hpos, hle, hmajority, hinner⟩

/-- What the checker knows after nodes that are new to it and distinct. -/
def Learns (nodes : List NodeID) (known known' : List NodeID × ℕ) : Prop :=
  nodes.Nodup ∧ (∀ n ∈ nodes, n ∉ known.1) ∧ known' = (known.1 ++ nodes, known.2 + nodes.length)

theorem learns_append {l l' : List NodeID} {known known' : List NodeID × ℕ} :
    Learns (l ++ l') known known' ↔ ∃ known₁, Learns l known known₁ ∧ Learns l' known₁ known' := by
  constructor
  · rintro ⟨hnodup, hnew, rfl⟩
    obtain ⟨hl, hl', hdisjoint⟩ := List.nodup_append.mp hnodup
    refine ⟨_, ⟨hl, fun n hn => hnew n (List.mem_append_left _ hn), rfl⟩, hl', fun n hn hmem => ?_, ?_⟩
    · obtain hk | hk := List.mem_append.mp hmem
      · exact hnew n (List.mem_append_right _ hn) hk
      · exact hdisjoint n hk n hn rfl
    · simp [Nat.add_assoc]
  · rintro ⟨known₁, ⟨hl, hnew, rfl⟩, hl', hnew', rfl⟩
    refine ⟨List.nodup_append.mpr ⟨hl, hl', ?_⟩, fun n hn hk => ?_, ?_⟩
    · rintro n hn m hm rfl
      exact hnew' n hm (List.mem_append_right _ hn)
    · obtain hmem | hmem := List.mem_append.mp hn
      · exact hnew n hmem hk
      · exact hnew' n hmem (List.mem_append_left _ hk)
    · simp [Nat.add_assoc]

theorem checkInner_iff {extraChecks : Bool} {depth : ℕ} {known known' : List NodeID × ℕ}
    (h : ∀ q ∈ i, ∀ known known', checkSanity extraChecks depth known q = some known' ↔
      Ranged extraChecks depth q ∧ Learns (allNodesInternal q) known known') :
    checkInner extraChecks depth known i = some known' ↔
      (∀ q ∈ i, Ranged extraChecks depth q) ∧ Learns (i.flatMap allNodesInternal) known known' := by
  induction i generalizing known with
  | nil =>
    unfold checkInner
    simp [Learns, eq_comm]
  | cons inner i ih =>
    have hinner := h inner List.mem_cons_self known
    have hrest : ∀ known, checkInner extraChecks depth known i = some known' ↔ _ :=
      fun known => ih fun q hq => h q (List.mem_cons_of_mem _ hq)
    rw [List.flatMap_cons, learns_append, List.forall_mem_cons]
    unfold checkInner
    cases hcheck : checkSanity extraChecks depth known inner with
    | none =>
      refine iff_of_false (Option.some_ne_none _).symm ?_
      rintro ⟨⟨hranged, -⟩, known₁, hlearns, -⟩
      rw [(hinner known₁).mpr ⟨hranged, hlearns⟩] at hcheck
      cases hcheck
    | some known₁ =>
      obtain ⟨hranged, hlearns⟩ := (hinner known₁).mp hcheck
      dsimp only
      rw [hrest]
      constructor
      · rintro ⟨hall, hlearns'⟩
        exact ⟨⟨hranged, hall⟩, known₁, hlearns, hlearns'⟩
      · rintro ⟨⟨-, hall⟩, known₂, hlearns₂, hlearns'⟩
        obtain rfl : known₁ = known₂ := hlearns.2.2.trans hlearns₂.2.2.symm
        exact ⟨hall, hlearns'⟩

theorem checkSanity_iff {extraChecks : Bool} {depth : ℕ} {known known' : List NodeID × ℕ} :
    checkSanity extraChecks depth known q = some known' ↔
      Ranged extraChecks depth q ∧ Learns (allNodesInternal q) known known' := by
  induction q using SCPQuorumSet.induction generalizing depth known known' with
  | mk t v i ih =>
    have hinner : checkInner extraChecks (depth + 1) (known.1 ++ v, known.2 + v.length) i = some known' ↔
        _ := checkInner_iff fun q hq _ _ => ih q hq
    rw [ranged_mk, allNodesInternal_mk, learns_append]
    unfold checkSanity
    dsimp only
    split_ifs with hrange hmajority hnodes
    · refine iff_of_false id ?_
      rintro ⟨⟨hdepth, hpos, hle, -⟩, -⟩
      omega
    · refine iff_of_false id ?_
      rintro ⟨⟨-, -, -, hextra, -⟩, -⟩
      have := hextra hmajority.1
      omega
    · refine iff_of_false id ?_
      rintro ⟨-, known₁, ⟨hnodup, hnew, -⟩, -⟩
      obtain hv | hv := hnodes
      · exact hv hnodup
      · obtain ⟨n, hn, hk⟩ := List.any_eq_true.mp hv
        exact hnew n hn (of_decide_eq_true hk)
    · rw [hinner]
      push Not at hrange hnodes
      have hlearns : Learns v known (known.1 ++ v, known.2 + v.length) := by
        refine ⟨hnodes.1, fun n hn hk => hnodes.2 ?_, rfl⟩
        exact List.any_eq_true.mpr ⟨n, hn, decide_eq_true hk⟩
      constructor
      · rintro ⟨hall, hlearns'⟩
        refine ⟨⟨by omega, by omega, by omega, fun hextra => ?_, hall⟩, _, hlearns, hlearns'⟩
        by_contra hlt
        exact hmajority ⟨hextra, by omega⟩
      · rintro ⟨⟨-, -, -, -, hall⟩, known₁, hlearns₁, hlearns'⟩
        obtain rfl := hlearns₁.2.2
        exact ⟨hall, hlearns'⟩

/-- A sane quorum set: thresholds in range at three levels at most, and up to 1000 distinct nodes. -/
theorem isQuorumSetSane_iff {extraChecks : Bool} : isQuorumSetSane q extraChecks = true ↔
    Ranged extraChecks 0 q ∧ (allNodesInternal q).Nodup ∧
      1 ≤ (allNodesInternal q).length ∧ (allNodesInternal q).length ≤ 1000 := by
  unfold isQuorumSetSane
  cases hcheck : checkSanity extraChecks 0 ([], 0) q with
  | none =>
    refine iff_of_false Bool.false_ne_true ?_
    rintro ⟨hranged, hnodup, -⟩
    have hlearns : Learns (allNodesInternal q) ([], 0) _ := ⟨hnodup, fun n _ => List.not_mem_nil, rfl⟩
    rw [checkSanity_iff.mpr ⟨hranged, hlearns⟩] at hcheck
    cases hcheck
  | some known =>
    obtain ⟨hranged, hnodup, -, rfl⟩ := checkSanity_iff.mp hcheck
    simp [hranged, hnodup]

/-- Every inner set has nodes, so that the nodes bound the members at each level. -/
theorem Ranged.nodes_pos {extraChecks : Bool} {depth : ℕ} (h : Ranged extraChecks depth q) :
    1 ≤ (allNodesInternal q).length ∧ q.validators.length + q.innerSets.length ≤
      (allNodesInternal q).length := by
  induction q using SCPQuorumSet.induction generalizing depth with
  | mk t v i ih =>
    obtain ⟨-, hpos, hle, -, hinner⟩ := ranged_mk.mp h
    have hsum : i.length ≤ (i.flatMap allNodesInternal).length := by
      clear hle h
      induction i with
      | nil => exact Nat.zero_le _
      | cons inner i ih' =>
        have hfirst := (ih inner List.mem_cons_self (hinner inner List.mem_cons_self)).1
        have hrest := ih' (fun q hq => ih q (List.mem_cons_of_mem _ hq))
          fun q hq => hinner q (List.mem_cons_of_mem _ hq)
        rw [List.flatMap_cons, List.length_append, List.length_cons]
        omega
    rw [allNodesInternal_mk, List.length_append]
    show 1 ≤ _ ∧ v.length + i.length ≤ _
    omega

theorem length_inner_le {inner : SCPQuorumSet} (h : inner ∈ i) :
    (allNodesInternal inner).length ≤ (allNodesInternal (.mk t v i)).length := by
  have hle := List.single_le_sum (fun _ _ => Nat.zero_le _) _
    (List.mem_map_of_mem (f := fun q => (allNodesInternal q).length) h)
  rw [allNodesInternal_mk, List.length_append, List.length_flatMap]
  exact hle.trans (Nat.le_add_left _ _)

section Sane

variable {extraChecks : Bool} {depth : ℕ}

/-- Within the bounds of a sane quorum set nothing wraps. -/
theorem Ranged.slice_iff (h : Ranged extraChecks depth (.mk t v i))
    (hlen : (allNodesInternal (.mk t v i)).length ≤ 1000) :
    isQuorumSlice (.mk t v i) S = true ↔ t ≤ sliceHits S v i := by
  obtain ⟨-, hpos, hle, -, -⟩ := ranged_mk.mp h
  have hmembers : v.length + i.length ≤ 1000 := h.nodes_pos.2.trans hlen
  rw [isQuorumSlice_mk, hitsNeeded_of_pos hpos (by omega)]

theorem Ranged.blocking_iff (h : Ranged extraChecks depth (.mk t v i))
    (hlen : (allNodesInternal (.mk t v i)).length ≤ 1000) :
    isVBlockingInternal S (.mk t v i) = true ↔ v.length + i.length < t + blockHits S v i := by
  obtain ⟨-, hpos, hle, -, -⟩ := ranged_mk.mp h
  have hmembers : v.length + i.length ≤ 1000 := h.nodes_pos.2.trans hlen
  have hint : Numeric.toInt32 ((1 + v.length + i.length : ℤ) - t) = 1 + v.length + i.length - t := by
    unfold Numeric.toInt32
    rw [Int.bmod_eq_of_le] <;> omega
  rw [isVBlockingInternal_mk, hint]
  omega

/-- What a set does not block, the rest of the nodes satisfies. -/
theorem Ranged.dual (h : Ranged extraChecks depth q) (hlen : (allNodesInternal q).length ≤ 1000)
    (hT : ∀ n ∈ allNodesInternal q, n ∈ T ↔ n ∉ S) :
    isVBlockingInternal S q = true ↔ ¬ isQuorumSlice q T = true := by
  induction q using SCPQuorumSet.induction generalizing depth with
  | mk t v i ih =>
    have hinner := (ranged_mk.mp h).2.2.2.2
    have hnodes : v.countP (fun n => decide (n ∈ S)) + v.countP (fun n => decide (n ∈ T)) = v.length := by
      rw [List.length_eq_countP_add_countP fun n => decide (n ∈ S)]
      congr 1
      apply List.countP_congr
      intro n hn
      simp [hT n (mem_of_validator hn)]
    have hsets : i.countP (fun inner => isVBlockingInternal S inner) +
        i.countP (fun inner => isQuorumSlice inner T) = i.length := by
      rw [List.length_eq_countP_add_countP fun inner => isVBlockingInternal S inner]
      congr 1
      apply List.countP_congr
      intro inner hi
      have hdual := ih inner hi (hinner inner hi) ((length_inner_le hi).trans hlen)
        fun n hn => hT n (mem_of_inner hi hn)
      rw [decide_eq_true_eq, hdual, not_not]
    rw [h.blocking_iff hlen, h.slice_iff hlen]
    unfold blockHits sliceHits
    omega

end Sane

/-- **Blocking sets and slices are dual**, and both grow with the set of nodes. -/
theorem isVBlocking_dual (q : SCPQuorumSet) (extraChecks : Bool)
    (hsane : isQuorumSetSane q extraChecks = true) (S : List NodeID) :
    (isVBlockingInternal S q = true ↔
        ¬ isQuorumSlice q ((allNodes q).filter fun n => decide (n ∉ S)) = true) ∧
      (∀ S', S ⊆ S' → isQuorumSlice q S = true → isQuorumSlice q S' = true) ∧
      ∀ S', S ⊆ S' → isVBlockingInternal S q = true → isVBlockingInternal S' q = true := by
  obtain ⟨hranged, -, -, hlen⟩ := isQuorumSetSane_iff.mp hsane
  refine ⟨hranged.dual hlen fun n hn => ?_, fun S' hsub => ?_, fun S' hsub => ?_⟩
  · simp [allNodes, hn]
  · exact isQuorumSlice_mono fun n _ hs => hsub hs
  · exact isVBlockingInternal_mono fun n _ hs => hsub hs

/-- Two of: node 1, one of nodes 2 and 3, and both of nodes 4 and 5. -/
def nestedQSet : SCPQuorumSet := .mk 2 [1] [.mk 1 [2, 3] [], .mk 2 [4, 5] []]

theorem isVBlocking_dual_nested :
    (isVBlockingInternal [1, 4] nestedQSet = true ↔
        ¬ isQuorumSlice nestedQSet ((allNodes nestedQSet).filter fun n => decide (n ∉ [1, 4])) = true) ∧
      isVBlockingInternal [1, 4, 9] nestedQSet = true := by
  obtain ⟨hdual, -, hmono⟩ := isVBlocking_dual nestedQSet false (by decide +kernel) [1, 4]
  exact ⟨hdual, hmono [1, 4, 9] (by decide) (by decide +kernel)⟩

end LocalNode

end ZaggCore.Scp
