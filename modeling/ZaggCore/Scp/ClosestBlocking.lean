import Mathlib
import ZaggCore.Foundations.Cheapest
import ZaggCore.Scp.QuorumSets

/-! # The closest blocking set

`LocalNode::findClosestVBlocking`. A member whose own result is empty counts as blocked, although it may
also be one that cannot be blocked without the excluded node. -/

namespace ZaggCore.Scp.LocalNode
set_option autoImplicit false
set_option maxHeartbeats 250000

open Foundations

/-! ## The source -/

/-- `leftTillBlock--` of a `size_t`. -/
def decrement (leftTillBlock : ℕ) : ℕ := (leftTillBlock + (2 ^ 64 - 1)) % 2 ^ 64

section Scan

variable (nodes : List NodeID) (excluded : Option NodeID)

/-- "first, compute how many top level items need to be blocked": what is left, and the validators that are
saved for later. No value stands for "already blocked". -/
def scanValidators : List NodeID → ℕ → List NodeID → Option (ℕ × List NodeID)
  | [], leftTillBlock, res => some (leftTillBlock, res)
  | validator :: validators, leftTillBlock, res =>
    if excluded = some validator then scanValidators validators leftTillBlock res
    else if validator ∈ nodes then scanValidators validators leftTillBlock (res ++ [validator])
    else if decrement leftTillBlock = 0 then none
    else scanValidators validators (decrement leftTillBlock) res

/-- The loop over what was found of the inner sets: `resInternals` is a multiset under `orderBySize`. -/
def scanInternals : List (List NodeID) → ℕ → List (List NodeID) → Option (ℕ × List (List NodeID))
  | [], leftTillBlock, resInternals => some (leftTillBlock, resInternals)
  | v :: vs, leftTillBlock, resInternals =>
    if v.length = 0 then
      if decrement leftTillBlock = 0 then none
      else scanInternals vs (decrement leftTillBlock) resInternals
    else scanInternals vs leftTillBlock (emplaceBy List.length v resInternals)

/-- "use the top level validators to get closer", then "subsets to get closer, using the smallest ones
first". -/
def getCloser (leftTillBlock : ℕ) (res : List NodeID) (resInternals : List (List NodeID)) : List NodeID :=
  let res := res.take leftTillBlock
  res ++ (resInternals.take (leftTillBlock - res.length)).flatten

mutual

def findClosestVBlocking : SCPQuorumSet → List NodeID
  | .mk threshold validators innerSets =>
    let leftTillBlock :=
      (1 + validators.length + innerSets.length + (2 ^ 64 - threshold % 2 ^ 64)) % 2 ^ 64
    match scanValidators nodes excluded validators leftTillBlock [] with
    | none => []
    | some (leftTillBlock, res) =>
      match scanInternals (closestOfInner innerSets) leftTillBlock [] with
      | none => []
      | some (leftTillBlock, resInternals) => getCloser leftTillBlock res resInternals

def closestOfInner : List SCPQuorumSet → List (List NodeID)
  | [] => []
  | inner :: innerSets => findClosestVBlocking inner :: closestOfInner innerSets

end

end Scan

/-! ## What the loops find -/

section Loops

variable {nodes : List NodeID} {excluded : Option NodeID} {n : NodeID}

/-- A node that is not excluded and can fail. -/
def canFail (nodes : List NodeID) (excluded : Option NodeID) (n : NodeID) : Bool :=
  decide (excluded ≠ some n) && decide (n ∈ nodes)

/-- A node that is not excluded and has failed. -/
def hasFailed (nodes : List NodeID) (excluded : Option NodeID) (n : NodeID) : Bool :=
  decide (excluded ≠ some n) && decide (n ∉ nodes)

theorem decrement_eq {k : ℕ} (hpos : 0 < k) (hlt : k < 2 ^ 64) : decrement k = k - 1 := by
  unfold decrement
  omega

theorem scanValidators_eq (validators : List NodeID) {k : ℕ} (res : List NodeID) (hpos : 0 < k)
    (hlt : k < 2 ^ 64) :
    scanValidators nodes excluded validators k res =
      if k ≤ validators.countP (hasFailed nodes excluded) then none
      else some (k - validators.countP (hasFailed nodes excluded),
        res ++ validators.filter (canFail nodes excluded)) := by
  induction validators generalizing k res with
  | nil =>
    unfold scanValidators
    simp [hpos.ne']
  | cons validator validators ih =>
    unfold scanValidators
    rw [List.countP_cons, List.filter_cons]
    by_cases hexcluded : excluded = some validator
    · have hc : canFail nodes excluded validator = false := by simp [canFail, hexcluded]
      have hf : hasFailed nodes excluded validator = false := by simp [hasFailed, hexcluded]
      rw [if_pos hexcluded, ih res hpos hlt, hc, hf]
      rfl
    · by_cases hmem : validator ∈ nodes
      · have hc : canFail nodes excluded validator = true := by simp [canFail, hexcluded, hmem]
        have hf : hasFailed nodes excluded validator = false := by simp [hasFailed, hmem]
        rw [if_neg hexcluded, if_pos hmem, ih _ hpos hlt, hc, hf, List.append_assoc]
        rfl
      · have hc : canFail nodes excluded validator = false := by simp [canFail, hmem]
        have hf : hasFailed nodes excluded validator = true := by simp [hasFailed, hexcluded, hmem]
        rw [if_neg hexcluded, if_neg hmem, decrement_eq hpos hlt, hc, hf]
        simp only [if_true, Bool.false_eq_true, if_false]
        by_cases hone : k - 1 = 0
        · have hle : k ≤ validators.countP (hasFailed nodes excluded) + 1 := by omega
          rw [if_pos hone, if_pos hle]
        · rw [if_neg hone, ih res (by omega) (by omega)]
          by_cases hle : k - 1 ≤ validators.countP (hasFailed nodes excluded)
          · rw [if_pos hle, if_pos (by omega)]
          · rw [if_neg hle, if_neg (by omega)]
            congr 2
            omega

theorem scanInternals_eq (vs : List (List NodeID)) {k : ℕ} (l : List (List NodeID)) (hpos : 0 < k)
    (hlt : k < 2 ^ 64) :
    scanInternals vs k l =
      if k ≤ vs.count [] then none
      else some (k - vs.count [], emplaceAll List.length l (vs.filter fun v => decide (v ≠ []))) := by
  induction vs generalizing k l with
  | nil =>
    unfold scanInternals
    simp [hpos.ne', emplaceAll]
  | cons v vs ih =>
    unfold scanInternals
    cases v with
    | nil =>
      rw [List.length_nil, if_pos rfl, decrement_eq hpos hlt, List.count_cons_self,
        List.filter_cons_of_neg (by simp)]
      by_cases hone : k - 1 = 0
      · rw [if_pos hone, if_pos (by omega)]
      · rw [if_neg hone, ih l (by omega) (by omega)]
        by_cases hle : k - 1 ≤ vs.count []
        · rw [if_pos hle, if_pos (by omega)]
        · rw [if_neg hle, if_neg (by omega)]
          congr 2
          omega
    | cons n v =>
      rw [if_neg (by simp), ih _ hpos hlt, List.count_cons_of_ne (by simp),
        List.filter_cons_of_pos (by simp)]
      rfl

theorem closestOfInner_eq (i : List SCPQuorumSet) :
    closestOfInner nodes excluded i = i.map (findClosestVBlocking nodes excluded) := by
  induction i with
  | nil => rfl
  | cons inner i ih =>
    unfold closestOfInner
    rw [ih]
    rfl

end Loops

/-! ## One level -/

section Level

variable {t : ℕ} {v : List NodeID} {i : List SCPQuorumSet}

/-- How many members have to be blocked. -/
def tillBlock (t : ℕ) (v : List NodeID) (i : List SCPQuorumSet) : ℕ := 1 + v.length + i.length - t

/-- The members that count as blocked. -/
def countedBlocked (nodes : List NodeID) (excluded : Option NodeID) (v : List NodeID)
    (i : List SCPQuorumSet) : ℕ :=
  v.countP (hasFailed nodes excluded) + (i.map (findClosestVBlocking nodes excluded)).count []

/-- What is found of the inner sets, the smallest ones first. -/
def smallestFirst (nodes : List NodeID) (excluded : Option NodeID) (i : List SCPQuorumSet) :
    List (List NodeID) :=
  emplaceAll List.length [] ((i.map (findClosestVBlocking nodes excluded)).filter fun v => decide (v ≠ []))

theorem smallestFirst_perm (nodes : List NodeID) (excluded : Option NodeID) (i : List SCPQuorumSet) :
    (smallestFirst nodes excluded i).Perm
      ((i.map (findClosestVBlocking nodes excluded)).filter fun v => decide (v ≠ [])) :=
  emplaceAll_perm List.length [] _

theorem sorted_smallestFirst (nodes : List NodeID) (excluded : Option NodeID) (i : List SCPQuorumSet) :
    (smallestFirst nodes excluded i).Pairwise fun v w : List NodeID => v.length ≤ w.length :=
  sorted_emplaceAll _ List.Pairwise.nil

/-- The result at one level: nothing if enough members count as blocked, else so many of the rest. -/
theorem findClosestVBlocking_mk (nodes : List NodeID) (excluded : Option NodeID) (hpos : 1 ≤ t) (hle : t ≤ v.length + i.length)
    (hlt : v.length + i.length ≤ 1000) :
    findClosestVBlocking nodes excluded (.mk t v i) =
      if tillBlock t v i ≤ countedBlocked nodes excluded v i then []
      else getCloser (tillBlock t v i - countedBlocked nodes excluded v i)
        (v.filter (canFail nodes excluded)) (smallestFirst nodes excluded i) := by
  have hleft : (1 + v.length + i.length + (2 ^ 64 - t % 2 ^ 64)) % 2 ^ 64 = tillBlock t v i := by
    unfold tillBlock
    omega
  have htill : 0 < tillBlock t v i ∧ tillBlock t v i < 2 ^ 64 := by
    unfold tillBlock
    omega
  unfold findClosestVBlocking countedBlocked
  dsimp only
  rw [hleft, scanValidators_eq v [] htill.1 htill.2, closestOfInner_eq]
  by_cases hfailed : tillBlock t v i ≤ v.countP (hasFailed nodes excluded)
  · rw [if_pos hfailed, if_pos (by omega)]
  · rw [if_neg hfailed]
    dsimp only
    rw [scanInternals_eq _ [] (by omega) (by omega)]
    by_cases hblocked : tillBlock t v i - v.countP (hasFailed nodes excluded) ≤
        (i.map (findClosestVBlocking nodes excluded)).count []
    · rw [if_pos hblocked, if_pos (by omega)]
    · rw [if_neg hblocked, if_neg (by omega), Nat.sub_sub]
      rfl

end Level

/-! ## Members that are blocked -/

section Sane

variable {nodes : List NodeID} {excluded : Option NodeID} {extraChecks : Bool} {depth t : ℕ}
  {v S R : List NodeID} {i : List SCPQuorumSet} {q : SCPQuorumSet}

/-- The bounds of a level of a sane quorum set. -/
theorem Ranged.bounds (h : Ranged extraChecks depth (.mk t v i))
    (hlen : (allNodesInternal (.mk t v i)).length ≤ 1000) :
    1 ≤ t ∧ t ≤ v.length + i.length ∧ v.length + i.length ≤ 1000 :=
  ⟨(ranged_mk.mp h).2.1, (ranged_mk.mp h).2.2.1, h.nodes_pos.2.trans hlen⟩

theorem Ranged.blocking_iff_till (h : Ranged extraChecks depth (.mk t v i))
    (hlen : (allNodesInternal (.mk t v i)).length ≤ 1000) :
    isVBlockingInternal S (.mk t v i) = true ↔ tillBlock t v i ≤ blockHits S v i := by
  obtain ⟨hpos, hle, -⟩ := h.bounds hlen
  rw [h.blocking_iff hlen]
  unfold tillBlock
  omega

theorem count_nil_map (f : SCPQuorumSet → List NodeID) (i : List SCPQuorumSet) :
    (i.map f).count [] = i.countP fun inner => decide (f inner = []) := by
  rw [List.count, List.countP_map]
  apply List.countP_congr
  intro inner _
  simp

/-- Where the failed nodes block nothing more is needed. -/
theorem findClosest_of_blocked (h : Ranged extraChecks depth q) (hlen : (allNodesInternal q).length ≤ 1000)
    (hS : ∀ n ∈ allNodesInternal q, n ∈ S → hasFailed nodes excluded n = true)
    (hblocked : isVBlockingInternal S q = true) : findClosestVBlocking nodes excluded q = [] := by
  induction q using SCPQuorumSet.induction generalizing depth with
  | mk t v i ih =>
    obtain ⟨hpos, hle, hlt⟩ := h.bounds hlen
    have hinner := (ranged_mk.mp h).2.2.2.2
    have hvalidators : v.countP (fun n => decide (n ∈ S)) ≤ v.countP (hasFailed nodes excluded) :=
      List.countP_mono_left fun n hn hs => hS n (mem_of_validator hn) (of_decide_eq_true hs)
    have hsets : i.countP (fun inner => isVBlockingInternal S inner) ≤
        (i.map (findClosestVBlocking nodes excluded)).count [] := by
      rw [count_nil_map]
      apply List.countP_mono_left
      intro inner hi hs
      exact decide_eq_true (ih inner hi (hinner inner hi) ((length_inner_le hi).trans hlen)
        (fun n hn => hS n (mem_of_inner hi hn)) hs)
    have hcounted : blockHits S v i ≤ countedBlocked nodes excluded v i := Nat.add_le_add hvalidators hsets
    rw [findClosestVBlocking_mk nodes excluded hpos hle hlt,
      if_pos (((h.blocking_iff_till hlen).mp hblocked).trans hcounted)]

theorem mem_getCloser {k : ℕ} {res : List NodeID} {l : List (List NodeID)} {n : NodeID}
    (hn : n ∈ getCloser k res l) : n ∈ res ∨ ∃ r ∈ l, n ∈ r := by
  obtain hn | hn := List.mem_append.mp hn
  · exact .inl (List.mem_of_mem_take hn)
  · obtain ⟨r, hr, hmem⟩ := List.mem_flatten.mp hn
    exact .inr ⟨r, List.mem_of_mem_take hr, hmem⟩

/-- What is found are nodes of the quorum set that can fail. -/
theorem mem_findClosest (h : Ranged extraChecks depth q) (hlen : (allNodesInternal q).length ≤ 1000)
    {n : NodeID} (hn : n ∈ findClosestVBlocking nodes excluded q) :
    n ∈ allNodesInternal q ∧ canFail nodes excluded n = true := by
  induction q using SCPQuorumSet.induction generalizing depth with
  | mk t v i ih =>
    obtain ⟨hpos, hle, hlt⟩ := h.bounds hlen
    have hinner := (ranged_mk.mp h).2.2.2.2
    have hperm := smallestFirst_perm nodes excluded i
    rw [findClosestVBlocking_mk nodes excluded hpos hle hlt] at hn
    split_ifs at hn
    · exact absurd hn List.not_mem_nil
    · obtain hn | ⟨r, hr, hmem⟩ := mem_getCloser hn
      · obtain ⟨hv, hc⟩ := List.mem_filter.mp hn
        exact ⟨mem_of_validator hv, hc⟩
      · obtain ⟨inner, hi, rfl⟩ := List.mem_map.mp (List.mem_of_mem_filter (hperm.mem_iff.mp hr))
        obtain ⟨hnode, hc⟩ := ih inner hi (hinner inner hi) ((length_inner_le hi).trans hlen) hmem
        exact ⟨mem_of_inner hi hnode, hc⟩

theorem nodup_findClosest (h : Ranged extraChecks depth q) (hlen : (allNodesInternal q).length ≤ 1000)
    (hnodup : (allNodesInternal q).Nodup) : (findClosestVBlocking nodes excluded q).Nodup := by
  induction q using SCPQuorumSet.induction generalizing depth with
  | mk t v i ih =>
    obtain ⟨hpos, hle, hlt⟩ := h.bounds hlen
    have hinner := (ranged_mk.mp h).2.2.2.2
    have hperm := smallestFirst_perm nodes excluded i
    rw [allNodesInternal_mk] at hnodup
    obtain ⟨hv, hi, hdisjoint⟩ := List.nodup_append.mp hnodup
    obtain ⟨hinners, hpairs⟩ := List.nodup_flatMap.mp hi
    have hfound : (i.flatMap (findClosestVBlocking nodes excluded)).Nodup := by
      refine List.nodup_flatMap.mpr ⟨fun inner hi => ?_, ?_⟩
      · exact ih inner hi (hinner inner hi) ((length_inner_le hi).trans hlen) (hinners inner hi)
      · refine List.Pairwise.imp_of_mem (fun ha hb hab => ?_) hpairs
        intro n hna hnb
        exact hab (mem_findClosest (hinner _ ha) ((length_inner_le ha).trans hlen) hna).1
          (mem_findClosest (hinner _ hb) ((length_inner_le hb).trans hlen) hnb).1
    have hl : (smallestFirst nodes excluded i).flatten.Nodup := by
      refine hperm.flatten.nodup_iff.mpr (List.Nodup.sublist ?_ hfound)
      rw [List.flatMap]
      exact List.filter_sublist.flatten
    rw [findClosestVBlocking_mk nodes excluded hpos hle hlt]
    split_ifs
    · exact List.nodup_nil
    · refine List.nodup_append.mpr ⟨(hv.filter _).sublist (List.take_sublist _ _),
        hl.sublist (List.take_sublist _ _).flatten, ?_⟩
      rintro n hn m hm rfl
      have hnv := (List.mem_filter.mp (List.mem_of_mem_take hn)).1
      obtain ⟨r, hr, hmem⟩ := List.mem_flatten.mp hm
      obtain ⟨inner, hi', rfl⟩ :=
        List.mem_map.mp (List.mem_of_mem_filter (hperm.mem_iff.mp (List.mem_of_mem_take hr)))
      have hnode := (mem_findClosest (hinner inner hi') ((length_inner_le hi').trans hlen) hmem).1
      exact hdisjoint n hnv n (List.mem_flatMap.mpr ⟨inner, hi', hnode⟩) rfl

/-! ## What is found is small enough -/

/-- The failed nodes among those of the quorum set. -/
def FailedIn (nodes : List NodeID) (excluded : Option NodeID) (q : SCPQuorumSet) (S : List NodeID) : Prop :=
  ∀ n ∈ allNodesInternal q, n ∈ S ↔ hasFailed nodes excluded n = true

theorem chosen_length {k : ℕ} {res : List NodeID} {l : List (List NodeID)} :
    (getCloser k res l).length =
      ((List.replicate res.length 1 ++ l.map List.length).take k).sum := by
  unfold getCloser
  dsimp only
  rw [List.length_append, List.length_flatten, List.take_append, List.sum_append, List.take_replicate,
    List.sum_replicate, smul_eq_mul, mul_one, List.length_take, List.length_replicate, List.map_take]
  congr 3
  omega

theorem sorted_costs {w : ℕ} {l : List (List NodeID)}
    (hsorted : l.Pairwise fun v w : List NodeID => v.length ≤ w.length) (hpos : ∀ r ∈ l, r ≠ []) :
    (List.replicate w 1 ++ l.map List.length).Pairwise (· ≤ ·) := by
  refine List.pairwise_append.mpr ⟨List.pairwise_replicate.mpr (.inr le_rfl), ?_, ?_⟩
  · exact List.pairwise_map.mpr hsorted
  · intro a ha b hb
    obtain ⟨r, hr, rfl⟩ := List.mem_map.mp hb
    rw [(List.mem_replicate.mp ha).2]
    exact List.length_pos_of_ne_nil (hpos r hr)

/-- Whatever blocks enough members takes as many nodes as what is chosen. -/
theorem chosen_least {R' : List NodeID}
    (hnodup : (allNodesInternal (.mk t v i)).Nodup) (hS : FailedIn nodes excluded (.mk t v i) S)
    (hleast : ∀ inner ∈ i, isVBlockingInternal (S ++ R') inner = true →
      (findClosestVBlocking nodes excluded inner).length ≤
        R'.countP fun n => decide (n ∈ allNodesInternal inner))
    (hR' : ∀ n ∈ R', excluded ≠ some n) (hblocks : tillBlock t v i ≤ blockHits (S ++ R') v i) :
    (getCloser (tillBlock t v i - countedBlocked nodes excluded v i) (v.filter (canFail nodes excluded))
      (smallestFirst nodes excluded i)).length ≤ R'.countP fun n => decide (n ∈ allNodesInternal (.mk t v i)) := by
  rw [allNodesInternal_mk] at hnodup
  obtain ⟨hnodupV, hnodupI, hdisjoint⟩ := List.nodup_append.mp hnodup
  have hperm := smallestFirst_perm nodes excluded i
  have hsorted := sorted_smallestFirst nodes excluded i
  generalize smallestFirst nodes excluded i = l at hperm hsorted ⊢
  have hne : ∀ r ∈ l, r ≠ [] := fun r hr => of_decide_eq_true (List.mem_filter.mp (hperm.mem_iff.mp hr)).2
  -- the validators and the inner sets that are blocked by `R'` only
  generalize hTv : (v.filter fun n => canFail nodes excluded n && decide (n ∈ R')) = Tv
  generalize hTi : (i.filter fun inner => decide (findClosestVBlocking nodes excluded inner ≠ []) &&
    isVBlockingInternal (S ++ R') inner) = Ti
  have hvalidators : v.countP (fun n => decide (n ∈ S ++ R')) ≤
      v.countP (hasFailed nodes excluded) + Tv.length := by
    rw [← hTv, ← List.countP_eq_length_filter]
    apply countP_le_countP_add
    intro n hn hmem
    obtain hs | hr := List.mem_append.mp (of_decide_eq_true hmem)
    · exact .inl ((hS n (mem_of_validator hn)).mp hs)
    · have hx := hR' n hr
      by_cases hnode : n ∈ nodes
      · exact .inr (by simp [canFail, hx, hnode, hr])
      · exact .inl (by simp [hasFailed, hx, hnode])
  have hsets : i.countP (fun inner => isVBlockingInternal (S ++ R') inner) ≤
      (i.map (findClosestVBlocking nodes excluded)).count [] + Ti.length := by
    rw [← hTi, ← List.countP_eq_length_filter, count_nil_map]
    apply countP_le_countP_add
    intro inner _ hblocked
    by_cases hnil : findClosestVBlocking nodes excluded inner = []
    · exact .inl (decide_eq_true hnil)
    · exact .inr (by simp [hnil, hblocked])
  have hTvSub : Tv.Sublist (v.filter (canFail nodes excluded)) := by
    rw [← hTv]
    apply List.monotone_filter_right
    intro n hn
    exact (Bool.and_eq_true_iff.mp hn).1
  have hTiSub : (Ti.map (findClosestVBlocking nodes excluded)).Subperm l := by
    refine List.Subperm.trans (List.Sublist.subperm ?_) hperm.symm.subperm
    rw [← hTi, List.filter_map]
    apply List.Sublist.map
    apply List.monotone_filter_right
    intro inner hinner
    exact (Bool.and_eq_true_iff.mp hinner).1
  have hcosts : (List.replicate Tv.length 1 ++ Ti.map fun inner =>
      (findClosestVBlocking nodes excluded inner).length).Subperm
      (List.replicate (v.filter (canFail nodes excluded)).length 1 ++ l.map List.length) := by
    refine List.Subperm.append ?_ ?_
    · exact ((List.replicate_sublist_replicate 1).mpr hTvSub.length_le).subperm
    · obtain ⟨l', hperm', hsub⟩ := hTiSub
      refine ⟨l'.map List.length, ?_, hsub.map _⟩
      have hmap := hperm'.map List.length
      rwa [List.map_map] at hmap
  have hchosen := sum_take_le (sorted_costs hsorted hne) hcosts
    (show tillBlock t v i - countedBlocked nodes excluded v i ≤ _ by
      rw [List.length_append, List.length_replicate, List.length_map]
      unfold countedBlocked
      unfold blockHits at hblocks
      omega)
  rw [chosen_length]
  refine hchosen.trans ?_
  rw [List.sum_append, List.sum_replicate, smul_eq_mul, mul_one]
  have hTvLe : Tv.length ≤ R'.countP fun n => decide (n ∈ v) := by
    have hsubset : ∀ n ∈ Tv, n ∈ v ∧ n ∈ R' := by
      intro n hn
      rw [← hTv] at hn
      obtain ⟨hnv, hn⟩ := List.mem_filter.mp hn
      exact ⟨hnv, of_decide_eq_true (Bool.and_eq_true_iff.mp hn).2⟩
    have hnodupT : Tv.Nodup := (hnodupV.filter _).sublist hTvSub
    rw [← List.countP_eq_length.mpr fun n hn => decide_eq_true (hsubset n hn).1]
    exact (hnodupT.subperm fun n hn => (hsubset n hn).2).countP_le _
  have hTiMem : ∀ inner ∈ Ti, inner ∈ i ∧ isVBlockingInternal (S ++ R') inner = true := by
    intro inner hinner
    rw [← hTi] at hinner
    obtain ⟨hi, hinner⟩ := List.mem_filter.mp hinner
    exact ⟨hi, (Bool.and_eq_true_iff.mp hinner).2⟩
  have hnodupT : (Ti.flatMap allNodesInternal).Nodup := by
    refine List.Nodup.sublist ?_ hnodupI
    rw [← hTi, List.flatMap, List.flatMap]
    exact (List.filter_sublist.map _).flatten
  have hTiLe : (Ti.map fun inner => (findClosestVBlocking nodes excluded inner).length).sum ≤
      R'.countP fun n => decide (n ∈ Ti.flatMap allNodesInternal) := by
    refine le_trans (List.sum_le_sum fun inner hinner => ?_) (sum_countP_le R' hnodupT)
    obtain ⟨hi, hblocked⟩ := hTiMem inner hinner
    exact hleast inner hi hblocked
  refine (Nat.add_le_add hTvLe hTiLe).trans (countP_add_countP_le ?_ ?_ ?_)
  · intro n _ hnv
    refine decide_eq_false fun hn => ?_
    obtain ⟨inner, hinner, hnode⟩ := List.mem_flatMap.mp hn
    exact hdisjoint n (of_decide_eq_true hnv) n
      (List.mem_flatMap.mpr ⟨inner, (hTiMem inner hinner).1, hnode⟩) rfl
  · intro n _ hnv
    exact decide_eq_true (mem_of_validator (of_decide_eq_true hnv))
  · intro n _ hn
    obtain ⟨inner, hinner, hnode⟩ := List.mem_flatMap.mp (of_decide_eq_true hn)
    exact decide_eq_true (mem_of_inner (hTiMem inner hinner).1 hnode)

/-- No nodes that block the quorum set with the failed ones are fewer than what is found, whether that blocks
it or not. -/
theorem findClosest_least {R' : List NodeID} (h : Ranged extraChecks depth q)
    (hlen : (allNodesInternal q).length ≤ 1000) (hnodup : (allNodesInternal q).Nodup)
    (hS : FailedIn nodes excluded q S) (hR' : ∀ n ∈ R', excluded ≠ some n)
    (hblocks : isVBlockingInternal (S ++ R') q = true) :
    (findClosestVBlocking nodes excluded q).length ≤
      R'.countP fun n => decide (n ∈ allNodesInternal q) := by
  induction q using SCPQuorumSet.induction generalizing depth with
  | mk t v i ih =>
    obtain ⟨hpos, hle, hlt⟩ := h.bounds hlen
    have hinner := (ranged_mk.mp h).2.2.2.2
    rw [findClosestVBlocking_mk nodes excluded hpos hle hlt]
    split_ifs
    · exact Nat.zero_le _
    · refine chosen_least hnodup hS (fun inner hi hblocked => ?_) hR' ((h.blocking_iff_till hlen).mp hblocks)
      rw [allNodesInternal_mk] at hnodup
      have hinnerNodup := (List.nodup_flatMap.mp (List.nodup_append.mp hnodup).2.1).1 inner hi
      exact ih inner hi (hinner inner hi) ((length_inner_le hi).trans hlen) hinnerNodup
        (fun n hn => hS n (mem_of_inner hi hn)) hblocked

/-! ## Prices -/

section Prices

variable (nodes : List NodeID) (excluded : Option NodeID)

/-- A failed validator costs nothing and one that can fail costs one; the excluded node is not for sale. -/
def validatorPrices (v : List NodeID) : List ℕ :=
  v.filterMap fun n => if excluded = some n then none else some (if n ∈ nodes then 1 else 0)

mutual

/-- What the cheapest members cost that it takes to block a quorum set; where too few are for sale, what these
cost. -/
def price : SCPQuorumSet → ℕ
  | .mk t v i => cheapest (tillBlock t v i) (validatorPrices nodes excluded v ++ innerPrices i)

def innerPrices : List SCPQuorumSet → List ℕ
  | [] => []
  | inner :: i => price inner :: innerPrices i

end

/-- The inner sets that cost nothing. -/
def freeInner (i : List SCPQuorumSet) : List SCPQuorumSet :=
  i.filter fun inner => decide (price nodes excluded inner = 0)

/-- The others, the cheapest first. -/
def cheapestFirst (i : List SCPQuorumSet) : List SCPQuorumSet :=
  emplaceAll (price nodes excluded) [] (i.filter fun inner => decide (price nodes excluded inner ≠ 0))

/-- How many inner sets have to be paid for after what is free and the validators. -/
def leftToPay (t : ℕ) (v : List NodeID) (i : List SCPQuorumSet) : ℕ :=
  tillBlock t v i - (v.countP (hasFailed nodes excluded) + (freeInner nodes excluded i).length +
    v.countP (canFail nodes excluded))

/-- The inner sets that the choice by price rests on. -/
def bought (t : ℕ) (v : List NodeID) (i : List SCPQuorumSet) : List SCPQuorumSet :=
  freeInner nodes excluded i ++ (cheapestFirst nodes excluded i).take (leftToPay nodes excluded t v i)

end Prices

theorem innerPrices_eq (i : List SCPQuorumSet) : innerPrices nodes excluded i = i.map (price nodes excluded) := by
  induction i with
  | nil => rfl
  | cons inner i ih =>
    unfold innerPrices
    rw [ih]
    rfl

theorem validatorPrices_perm (v : List NodeID) :
    (List.replicate (v.countP (hasFailed nodes excluded)) 0 ++
      List.replicate (v.countP (canFail nodes excluded)) 1).Perm (validatorPrices nodes excluded v) := by
  induction v with
  | nil => exact List.Perm.refl _
  | cons n v ih =>
    unfold validatorPrices at ih ⊢
    rw [List.filterMap_cons, List.countP_cons, List.countP_cons]
    by_cases hx : excluded = some n
    · have hf : hasFailed nodes excluded n = false := by simp [hasFailed, hx]
      have hc : canFail nodes excluded n = false := by simp [canFail, hx]
      rw [if_pos hx, hf, hc]
      exact ih
    · rw [if_neg hx]
      by_cases hn : n ∈ nodes
      · have hf : hasFailed nodes excluded n = false := by simp [hasFailed, hn]
        have hc : canFail nodes excluded n = true := by simp [canFail, hx, hn]
        rw [hf, hc, if_pos hn]
        exact List.perm_middle.trans (ih.cons 1)
      · have hf : hasFailed nodes excluded n = true := by simp [hasFailed, hx, hn]
        have hc : canFail nodes excluded n = false := by simp [canFail, hn]
        rw [hf, hc, if_neg hn]
        exact ih.cons 0

/-- What is found is as large as its price. -/
theorem length_findClosest (h : Ranged extraChecks depth q) (hlen : (allNodesInternal q).length ≤ 1000) :
    (findClosestVBlocking nodes excluded q).length = price nodes excluded q := by
  induction q using SCPQuorumSet.induction generalizing depth with
  | mk t v i ih =>
    obtain ⟨hpos, hle, hlt⟩ := h.bounds hlen
    have hinner := (ranged_mk.mp h).2.2.2.2
    generalize hcosts : List.replicate (v.filter (canFail nodes excluded)).length 1 ++
      (smallestFirst nodes excluded i).map List.length = costs
    have hne : ∀ r ∈ smallestFirst nodes excluded i, r ≠ [] := fun r hr =>
      of_decide_eq_true (List.mem_filter.mp ((smallestFirst_perm nodes excluded i).mem_iff.mp hr)).2
    have hsorted : (List.replicate (countedBlocked nodes excluded v i) 0 ++ costs).Pairwise (· ≤ ·) := by
      rw [← hcosts]
      refine List.pairwise_append.mpr ⟨List.pairwise_replicate.mpr (.inr le_rfl),
        sorted_costs (sorted_smallestFirst nodes excluded i) hne, fun a ha b _ => ?_⟩
      rw [(List.mem_replicate.mp ha).2]
      exact Nat.zero_le b
    have hperm : (List.replicate (countedBlocked nodes excluded v i) 0 ++ costs).Perm
        (validatorPrices nodes excluded v ++ innerPrices nodes excluded i) := by
      have hlengths : innerPrices nodes excluded i =
          (i.map (findClosestVBlocking nodes excluded)).map List.length := by
        rw [innerPrices_eq, List.map_map]
        exact List.map_congr_left fun inner hi =>
          (ih inner hi (hinner inner hi) ((length_inner_le hi).trans hlen)).symm
      have hinners : (List.replicate ((i.map (findClosestVBlocking nodes excluded)).count []) 0 ++
          (smallestFirst nodes excluded i).map List.length).Perm (innerPrices nodes excluded i) := by
        rw [hlengths]
        refine List.Perm.trans ?_ ((List.filter_append_perm (fun v => decide (v = []))
          (i.map (findClosestVBlocking nodes excluded))).map List.length)
        rw [List.map_append]
        refine List.Perm.append (List.Perm.of_eq ?_) ?_
        · rw [List.filter_eq, List.map_replicate]
          rfl
        · refine ((smallestFirst_perm nodes excluded i).map List.length).trans (List.Perm.of_eq ?_)
          congr 2
          funext r
          simp
      rw [← hcosts]
      unfold countedBlocked
      rw [← List.replicate_append_replicate, List.append_assoc, ← List.countP_eq_length_filter]
      refine List.Perm.trans ?_ ((validatorPrices_perm v).append hinners)
      rw [List.append_assoc]
      exact (List.perm_append_comm_assoc _ _ _).append_left _
    unfold price
    rw [cheapest_eq hperm hsorted, findClosestVBlocking_mk nodes excluded hpos hle hlt, List.take_append,
      List.sum_append, List.take_replicate, List.sum_replicate, List.length_replicate, smul_zero, zero_add]
    split_ifs with hblocked
    · rw [Nat.sub_eq_zero_of_le hblocked]
      rfl
    · rw [chosen_length, hcosts]

theorem mem_allNodes {n : NodeID} : n ∈ allNodes q ↔ n ∈ allNodesInternal q := List.mem_eraseDups

/-! ## What the choice by price rests on -/

/-- The nodes of the quorum set that have failed. -/
def failedNodes (nodes : List NodeID) (excluded : Option NodeID) (q : SCPQuorumSet) : List NodeID :=
  (allNodes q).filter (hasFailed nodes excluded)

theorem failedIn_failedNodes : FailedIn nodes excluded q (failedNodes nodes excluded q) := by
  intro n hn
  unfold failedNodes
  rw [List.mem_filter]
  exact and_iff_right (mem_allNodes.mpr hn)

theorem FailedIn.blocking_iff (hS : FailedIn nodes excluded q S) :
    isVBlockingInternal S q = true ↔ isVBlockingInternal (failedNodes nodes excluded q) q = true := by
  constructor
  · exact isVBlockingInternal_mono fun n hn hs => (failedIn_failedNodes n hn).mpr ((hS n hn).mp hs)
  · exact isVBlockingInternal_mono fun n hn hs => (hS n hn).mpr ((failedIn_failedNodes n hn).mp hs)

/-- The failed nodes block the quorum set; or there are enough members without the excluded node, and the inner
sets that are free and those that are bought are such sets again. -/
inductive BuysBlockable (nodes : List NodeID) (excluded : Option NodeID) : SCPQuorumSet → Prop
  | failed {q : SCPQuorumSet} (blocked : isVBlockingInternal (failedNodes nodes excluded q) q = true) :
      BuysBlockable nodes excluded q
  | bought {t : ℕ} {v : List NodeID} {i : List SCPQuorumSet}
      (enough : tillBlock t v i ≤ v.countP (fun n => decide (excluded ≠ some n)) + i.length)
      (inner : ∀ q ∈ bought nodes excluded t v i, BuysBlockable nodes excluded q) :
      BuysBlockable nodes excluded (.mk t v i)

section Bought

theorem length_freeInner (h : Ranged extraChecks depth (.mk t v i))
    (hlen : (allNodesInternal (.mk t v i)).length ≤ 1000) :
    (freeInner nodes excluded i).length = (i.map (findClosestVBlocking nodes excluded)).count [] := by
  have hinner := (ranged_mk.mp h).2.2.2.2
  unfold freeInner
  rw [count_nil_map, List.countP_eq_length_filter]
  congr 1
  apply List.filter_congr
  intro inner hi
  rw [← length_findClosest (hinner inner hi) ((length_inner_le hi).trans hlen)]
  simp

theorem map_cheapestFirst (h : Ranged extraChecks depth (.mk t v i))
    (hlen : (allNodesInternal (.mk t v i)).length ≤ 1000) :
    (cheapestFirst nodes excluded i).map (findClosestVBlocking nodes excluded) =
      smallestFirst nodes excluded i := by
  have hinner := (ranged_mk.mp h).2.2.2.2
  have hprice : ∀ inner ∈ i, (findClosestVBlocking nodes excluded inner).length = price nodes excluded inner :=
    fun inner hi => length_findClosest (hinner inner hi) ((length_inner_le hi).trans hlen)
  unfold cheapestFirst smallestFirst
  have hmap := @map_emplaceAll _ _ (price nodes excluded) List.length (findClosestVBlocking nodes excluded) []
    (i.filter fun inner => decide (price nodes excluded inner ≠ 0))
    fun w hw => hprice w (List.mem_of_mem_filter hw)
  rw [hmap, List.filter_map]
  congr 2
  apply List.filter_congr
  intro inner hi
  rw [← hprice inner hi]
  simp

theorem bought_perm (nodes : List NodeID) (excluded : Option NodeID) (t : ℕ) (v : List NodeID)
    (i : List SCPQuorumSet) :
    (bought nodes excluded t v i ++
      (cheapestFirst nodes excluded i).drop (leftToPay nodes excluded t v i)).Perm i := by
  unfold bought
  rw [List.append_assoc, List.take_append_drop]
  refine List.Perm.trans ((emplaceAll_perm (price nodes excluded) [] _).append_left _) ?_
  refine List.Perm.trans (List.Perm.of_eq ?_)
    (List.filter_append_perm (fun inner => decide (price nodes excluded inner = 0)) i)
  unfold freeInner
  rw [List.nil_append]
  congr 2
  funext inner
  simp

/-- Where the members that count as blocked are too few, the result is put together from what is bought. -/
theorem findClosest_bought (h : Ranged extraChecks depth (.mk t v i))
    (hlen : (allNodesInternal (.mk t v i)).length ≤ 1000)
    (hcounted : ¬ tillBlock t v i ≤ countedBlocked nodes excluded v i) :
    findClosestVBlocking nodes excluded (.mk t v i) =
      (v.filter (canFail nodes excluded)).take (tillBlock t v i - countedBlocked nodes excluded v i) ++
        (bought nodes excluded t v i).flatMap (findClosestVBlocking nodes excluded) := by
  obtain ⟨hpos, hle, hlt⟩ := h.bounds hlen
  have hinner := (ranged_mk.mp h).2.2.2.2
  have hfree : (freeInner nodes excluded i).flatMap (findClosestVBlocking nodes excluded) = [] := by
    refine List.flatMap_eq_nil_iff.mpr fun inner hfree => ?_
    obtain ⟨hi, hzero⟩ := List.mem_filter.mp hfree
    apply List.length_eq_zero_iff.mp
    rw [length_findClosest (hinner inner hi) ((length_inner_le hi).trans hlen)]
    exact of_decide_eq_true hzero
  have hleft : tillBlock t v i - countedBlocked nodes excluded v i -
      ((v.filter (canFail nodes excluded)).take
        (tillBlock t v i - countedBlocked nodes excluded v i)).length = leftToPay nodes excluded t v i := by
    unfold leftToPay
    rw [length_freeInner h hlen, List.length_take, ← List.countP_eq_length_filter]
    unfold countedBlocked
    omega
  rw [findClosestVBlocking_mk nodes excluded hpos hle hlt, if_neg hcounted]
  unfold getCloser bought
  dsimp only
  rw [hleft, List.flatMap_append, hfree, List.nil_append, ← map_cheapestFirst h hlen, ← List.map_take,
    List.flatMap]

/-- An inner set that is not bought is not blocked, and one that is bought is so by what was found for it. -/
theorem blocked_inner (h : Ranged extraChecks depth (.mk t v i))
    (hlen : (allNodesInternal (.mk t v i)).length ≤ 1000) (hnodup : (allNodesInternal (.mk t v i)).Nodup)
    (hS : FailedIn nodes excluded (.mk t v i) S)
    (hcounted : ¬ tillBlock t v i ≤ countedBlocked nodes excluded v i) :
    i.countP (fun inner => isVBlockingInternal (S ++ findClosestVBlocking nodes excluded (.mk t v i)) inner) =
      (bought nodes excluded t v i).countP fun inner =>
        isVBlockingInternal (S ++ findClosestVBlocking nodes excluded inner) inner := by
  have hinner := (ranged_mk.mp h).2.2.2.2
  have hperm := bought_perm nodes excluded t v i
  have hfound : ∀ inner ∈ i, ∀ n ∈ findClosestVBlocking nodes excluded inner, n ∈ allNodesInternal inner :=
    fun inner hi n hn => (mem_findClosest (hinner inner hi) ((length_inner_le hi).trans hlen) hn).1
  rw [allNodesInternal_mk] at hnodup
  obtain ⟨-, hnodupI, hapart⟩ := List.nodup_append.mp hnodup
  have hpairs : (bought nodes excluded t v i ++ (cheapestFirst nodes excluded i).drop
      (leftToPay nodes excluded t v i)).Pairwise
        fun a b => List.Disjoint (allNodesInternal a) (allNodesInternal b) :=
    (List.nodup_flatMap.mp ((hperm.flatMap_right _).nodup_iff.mpr hnodupI)).2
  rw [findClosest_bought h hlen hcounted, ← hperm.countP_eq, List.countP_append]
  have hmem : ∀ inner ∈ bought nodes excluded t v i ++ (cheapestFirst nodes excluded i).drop
      (leftToPay nodes excluded t v i), inner ∈ i := fun inner => hperm.mem_iff.mp
  have hdropped : ∀ inner ∈ (cheapestFirst nodes excluded i).drop (leftToPay nodes excluded t v i),
      price nodes excluded inner ≠ 0 := by
    intro inner hd
    have hin := (emplaceAll_perm (price nodes excluded) [] _).mem_iff.mp (List.mem_of_mem_drop hd)
    exact of_decide_eq_true (List.mem_filter.mp hin).2
  generalize (cheapestFirst nodes excluded i).drop (leftToPay nodes excluded t v i) = dropped at *
  generalize bought nodes excluded t v i = paid at *
  generalize hres : (v.filter (canFail nodes excluded)).take _ = res
  have hresV : ∀ n ∈ res, n ∈ v := by
    intro n hn
    rw [← hres] at hn
    exact List.mem_of_mem_filter (List.mem_of_mem_take hn)
  obtain ⟨hpaidPairs, -, hcross⟩ := List.pairwise_append.mp hpairs
  have hnone : dropped.countP (fun inner => isVBlockingInternal
      (S ++ (res ++ paid.flatMap (findClosestVBlocking nodes excluded))) inner) = 0 := by
    refine List.countP_eq_zero.mpr fun inner hd hblocked => hdropped inner hd ?_
    have hi := hmem inner (List.mem_append_right _ hd)
    have hranged := hinner inner hi
    have hlenInner := (length_inner_le hi).trans hlen
    rw [← length_findClosest hranged hlenInner]
    refine List.length_eq_zero_iff.mpr (findClosest_of_blocked hranged hlenInner
      (fun n hn => (hS n (mem_of_inner hi hn)).mp) (isVBlockingInternal_mono (fun n hn hm => ?_) hblocked))
    -- no node of it is among those that were found
    obtain hs | hm := List.mem_append.mp hm
    · exact hs
    · exfalso
      obtain hr | hp := List.mem_append.mp hm
      · exact hapart n (hresV n hr) n (List.mem_flatMap.mpr ⟨inner, hi, hn⟩) rfl
      · obtain ⟨other, ho, hno⟩ := List.mem_flatMap.mp hp
        exact hcross other ho inner hd (hfound other (hmem other (List.mem_append_left _ ho)) n hno) hn
  rw [hnone, add_zero]
  apply List.countP_congr
  intro inner hp
  have hi := hmem inner (List.mem_append_left _ hp)
  constructor
  · refine isVBlockingInternal_mono fun n hn hm => ?_
    obtain hs | hm := List.mem_append.mp hm
    · exact List.mem_append_left _ hs
    · obtain hr | hm := List.mem_append.mp hm
      · exact absurd rfl (hapart n (hresV n hr) n (List.mem_flatMap.mpr ⟨inner, hi, hn⟩))
      · obtain ⟨other, ho, hno⟩ := List.mem_flatMap.mp hm
        by_cases heq : other = inner
        · exact List.mem_append_right _ (heq ▸ hno)
        · have : Std.Symm fun a b => List.Disjoint (allNodesInternal a) (allNodesInternal b) :=
            ⟨fun _ _ hab => hab.symm⟩
          exact absurd hn (hpaidPairs.forall ho hp heq
            (hfound other (hmem other (List.mem_append_left _ ho)) n hno))
  · refine isVBlockingInternal_mono fun n _ hm => ?_
    obtain hs | hm := List.mem_append.mp hm
    · exact List.mem_append_left _ hs
    · exact List.mem_append_right _ (List.mem_append_right _ (List.mem_flatMap.mpr ⟨inner, hp, hm⟩))

/-- Of the validators those are blocked that have failed or were taken. -/
theorem blocked_validators (h : Ranged extraChecks depth (.mk t v i))
    (hlen : (allNodesInternal (.mk t v i)).length ≤ 1000) (hnodup : (allNodesInternal (.mk t v i)).Nodup)
    (hS : FailedIn nodes excluded (.mk t v i) S)
    (hcounted : ¬ tillBlock t v i ≤ countedBlocked nodes excluded v i) :
    v.countP (fun n => decide (n ∈ S ++ findClosestVBlocking nodes excluded (.mk t v i))) =
      v.countP (hasFailed nodes excluded) +
        min (tillBlock t v i - countedBlocked nodes excluded v i) (v.countP (canFail nodes excluded)) := by
  have hinner := (ranged_mk.mp h).2.2.2.2
  rw [findClosest_bought h hlen hcounted, List.countP_eq_length_filter (p := canFail nodes excluded),
    ← List.length_take]
  rw [allNodesInternal_mk] at hnodup
  obtain ⟨hnodupV, -, hapart⟩ := List.nodup_append.mp hnodup
  generalize hres : (v.filter (canFail nodes excluded)).take _ = res
  have hresMem : ∀ n ∈ res, n ∈ v ∧ canFail nodes excluded n = true := by
    intro n hn
    rw [← hres] at hn
    exact List.mem_filter.mp (List.mem_of_mem_take hn)
  have hnodupRes : res.Nodup := by
    rw [← hres]
    exact (hnodupV.filter _).sublist (List.take_sublist _ _)
  have htaken : v.countP (fun n => decide (n ∈ res)) = res.length := by
    rw [List.countP_eq_length_filter]
    refine ((List.perm_ext_iff_of_nodup (hnodupV.filter _) hnodupRes).mpr fun n => ?_).length_eq
    rw [List.mem_filter, decide_eq_true_eq]
    exact and_iff_right_of_imp fun hn => (hresMem n hn).1
  rw [← htaken]
  apply le_antisymm
  · apply countP_le_countP_add
    intro n hn hm
    obtain hs | hm := List.mem_append.mp (of_decide_eq_true hm)
    · exact .inl ((hS n (mem_of_validator hn)).mp hs)
    · obtain hr | hp := List.mem_append.mp hm
      · exact .inr (decide_eq_true hr)
      · -- what is found of the inner sets is none of the validators
        obtain ⟨inner, hp, hni⟩ := List.mem_flatMap.mp hp
        have hi := (bought_perm nodes excluded t v i).mem_iff.mp (List.mem_append_left _ hp)
        have hnode := (mem_findClosest (hinner inner hi) ((length_inner_le hi).trans hlen) hni).1
        exact absurd rfl (hapart n hn n (List.mem_flatMap.mpr ⟨inner, hi, hnode⟩))
  · refine countP_add_countP_le ?_ ?_ ?_
    · intro n _ hfailed
      refine decide_eq_false fun hr => ?_
      have hc := (hresMem n hr).2
      simp only [canFail, hasFailed, Bool.and_eq_true, decide_eq_true_eq] at hc hfailed
      exact hfailed.2 hc.2
    · intro n hn hfailed
      exact decide_eq_true (List.mem_append_left _ ((hS n (mem_of_validator hn)).mpr hfailed))
    · intro n _ hr
      exact decide_eq_true (List.mem_append_right _ (List.mem_append_left _ (of_decide_eq_true hr)))

theorem length_bought (nodes : List NodeID) (excluded : Option NodeID) (t : ℕ) (v : List NodeID)
    (i : List SCPQuorumSet) : (bought nodes excluded t v i).length =
      (freeInner nodes excluded i).length +
        min (leftToPay nodes excluded t v i) (i.length - (freeInner nodes excluded i).length) := by
  have hcheapest : (cheapestFirst nodes excluded i).length =
      i.length - (freeInner nodes excluded i).length := by
    have hlength := (bought_perm nodes excluded t v i).length_eq
    unfold bought at hlength
    rw [List.append_assoc, List.take_append_drop, List.length_append] at hlength
    omega
  unfold bought
  rw [List.length_append, List.length_take, hcheapest]

/-- One level: what is found blocks the quorum set just if there are enough members and all that was bought is
blocked by what was found for it. -/
theorem blocks_mk (h : Ranged extraChecks depth (.mk t v i))
    (hlen : (allNodesInternal (.mk t v i)).length ≤ 1000) (hnodup : (allNodesInternal (.mk t v i)).Nodup)
    (hS : FailedIn nodes excluded (.mk t v i) S)
    (hcounted : ¬ tillBlock t v i ≤ countedBlocked nodes excluded v i) :
    isVBlockingInternal (S ++ findClosestVBlocking nodes excluded (.mk t v i)) (.mk t v i) = true ↔
      tillBlock t v i ≤ v.countP (fun n => decide (excluded ≠ some n)) + i.length ∧
        ∀ inner ∈ bought nodes excluded t v i,
          isVBlockingInternal (S ++ findClosestVBlocking nodes excluded inner) inner = true := by
  have hsale : v.countP (fun n => decide (excluded ≠ some n)) =
      v.countP (hasFailed nodes excluded) + v.countP (canFail nodes excluded) := by
    apply le_antisymm
    · apply countP_le_countP_add
      intro n _ hx
      by_cases hn : n ∈ nodes
      · exact .inr (by simp [canFail, of_decide_eq_true hx, hn])
      · exact .inl (by simp [hasFailed, of_decide_eq_true hx, hn])
    · refine countP_add_countP_le ?_ ?_ ?_
      · intro n _ hfailed
        simp only [hasFailed, Bool.and_eq_true, decide_eq_true_eq] at hfailed
        simp [canFail, hfailed.2]
      · exact fun n _ hfailed => (Bool.and_eq_true_iff.mp hfailed).1
      · exact fun n _ hc => (Bool.and_eq_true_iff.mp hc).1
  rw [h.blocking_iff_till hlen, blockHits, blocked_validators h hlen hnodup hS hcounted,
    blocked_inner h hlen hnodup hS hcounted, ← List.countP_eq_length, hsale]
  have hpaid := length_bought nodes excluded t v i
  have hle : (bought nodes excluded t v i).countP (fun inner =>
      isVBlockingInternal (S ++ findClosestVBlocking nodes excluded inner) inner) ≤
        (bought nodes excluded t v i).length := List.countP_le_length
  have hfree : (freeInner nodes excluded i).length ≤ i.length := List.length_filter_le _ _
  unfold leftToPay at hpaid
  unfold countedBlocked at hcounted ⊢
  rw [← length_freeInner h hlen] at hcounted ⊢
  omega

/-- **What is found blocks the quorum set together with the failed nodes just if it was bought of sets that can
be blocked.** -/
theorem blocks_iff (h : Ranged extraChecks depth q) (hlen : (allNodesInternal q).length ≤ 1000)
    (hnodup : (allNodesInternal q).Nodup) (hS : FailedIn nodes excluded q S) :
    isVBlockingInternal (S ++ findClosestVBlocking nodes excluded q) q = true ↔
      BuysBlockable nodes excluded q := by
  induction q using SCPQuorumSet.induction generalizing depth with
  | mk t v i ih =>
    obtain ⟨hpos, hle, hlt⟩ := h.bounds hlen
    have hinner := (ranged_mk.mp h).2.2.2.2
    have hnodup' := hnodup
    rw [allNodesInternal_mk] at hnodup'
    have hih : ∀ inner ∈ i,
        (isVBlockingInternal (S ++ findClosestVBlocking nodes excluded inner) inner = true ↔
          BuysBlockable nodes excluded inner) := fun inner hi =>
      ih inner hi (hinner inner hi) ((length_inner_le hi).trans hlen)
        ((List.nodup_flatMap.mp (List.nodup_append.mp hnodup').2.1).1 inner hi)
        fun n hn => hS n (mem_of_inner hi hn)
    have hmem : ∀ inner ∈ bought nodes excluded t v i, inner ∈ i :=
      fun inner hp => (bought_perm nodes excluded t v i).mem_iff.mp (List.mem_append_left _ hp)
    by_cases hcounted : tillBlock t v i ≤ countedBlocked nodes excluded v i
    · rw [findClosestVBlocking_mk nodes excluded hpos hle hlt, if_pos hcounted, List.append_nil]
      constructor
      · exact fun hblocked => .failed (hS.blocking_iff.mp hblocked)
      · intro hbuys
        cases hbuys with
        | failed hblocked => exact hS.blocking_iff.mpr hblocked
        | bought _ hbought =>
          -- what is free is blocked by the failed nodes alone
          rw [h.blocking_iff_till hlen]
          refine hcounted.trans (Nat.add_le_add ?_ ?_)
          · exact List.countP_mono_left fun n hn hfailed =>
              decide_eq_true ((hS n (mem_of_validator hn)).mpr hfailed)
          · rw [count_nil_map]
            apply List.countP_mono_left
            intro inner hi hnil
            have hnil := of_decide_eq_true hnil
            have hzero : price nodes excluded inner = 0 := by
              rw [← length_findClosest (hinner inner hi) ((length_inner_le hi).trans hlen), hnil]
              rfl
            have hfree : inner ∈ bought nodes excluded t v i :=
              List.mem_append_left _ (List.mem_filter.mpr ⟨hi, decide_eq_true hzero⟩)
            have hblocks := (hih inner hi).mpr (hbought inner hfree)
            rwa [hnil, List.append_nil] at hblocks
    · constructor
      · intro hblocks
        obtain ⟨henough, hall⟩ := (blocks_mk h hlen hnodup hS hcounted).mp hblocks
        exact .bought henough fun inner hp => (hih inner (hmem inner hp)).mp (hall inner hp)
      · intro hbuys
        cases hbuys with
        | failed hblocked =>
          exact isVBlockingInternal_mono (fun n _ hn => List.mem_append_left _ hn)
            (hS.blocking_iff.mpr hblocked)
        | bought henough hbought =>
          exact (blocks_mk h hlen hnodup hS hcounted).mpr
            ⟨henough, fun inner hp => (hih inner (hmem inner hp)).mpr (hbought inner hp)⟩

end Bought

/-- Whether the quorum set can be blocked without the excluded node. -/
def canBlock (excluded : Option NodeID) (q : SCPQuorumSet) : Bool :=
  isVBlockingInternal ((allNodes q).filter fun n => decide (excluded ≠ some n)) q

/-! ## When the closest blocking set is found -/

/-- The nodes block the quorum set together with the failed ones, and can fail. -/
def Completes (nodes : List NodeID) (excluded : Option NodeID) (q : SCPQuorumSet) (R : List NodeID) : Prop :=
  (∀ n ∈ R, canFail nodes excluded n = true) ∧
    isVBlockingInternal (failedNodes nodes excluded q ++ R) q = true

/-- What `findClosestVBlocking` is for. -/
structure FindsClosest (nodes : List NodeID) (excluded : Option NodeID) (q : SCPQuorumSet) : Prop where
  closest : (∃ R, Completes nodes excluded q R) →
    (findClosestVBlocking nodes excluded q).Nodup ∧
      Completes nodes excluded q (findClosestVBlocking nodes excluded q) ∧
      ∀ R, Completes nodes excluded q R → (findClosestVBlocking nodes excluded q).length ≤ R.length
  empty : findClosestVBlocking nodes excluded q = [] →
    isVBlockingInternal (failedNodes nodes excluded q) q = true ∨ ¬ ∃ R, Completes nodes excluded q R

theorem ne_of_canFail {n : NodeID} (h : canFail nodes excluded n = true) : excluded ≠ some n :=
  of_decide_eq_true (Bool.and_eq_true_iff.mp h).1

/-- Some nodes complete the failed ones just if the set can be blocked at all. -/
theorem exists_completes_iff :
    (∃ R, Completes nodes excluded q R) ↔ canBlock excluded q = true := by
  constructor
  · rintro ⟨R, hR, hblocked⟩
    refine isVBlockingInternal_mono (fun n hn hmem => ?_) hblocked
    refine List.mem_filter.mpr ⟨mem_allNodes.mpr hn, decide_eq_true ?_⟩
    obtain hfailed | hr := List.mem_append.mp hmem
    · have hfailed := (failedIn_failedNodes n hn).mp hfailed
      exact of_decide_eq_true (Bool.and_eq_true_iff.mp hfailed).1
    · exact ne_of_canFail (hR n hr)
  · intro hcan
    refine ⟨(allNodes q).filter (canFail nodes excluded), fun n hn => (List.mem_filter.mp hn).2, ?_⟩
    refine isVBlockingInternal_mono (fun n hn hmem => ?_) hcan
    have hx : excluded ≠ some n := of_decide_eq_true (List.mem_filter.mp hmem).2
    apply List.mem_append.mpr
    by_cases hnode : n ∈ nodes
    · refine .inr (List.mem_filter.mpr ⟨mem_allNodes.mpr hn, ?_⟩)
      simp [canFail, hx, hnode]
    · refine .inl ((failedIn_failedNodes n hn).mpr ?_)
      simp [hasFailed, hx, hnode]

/-- **The closest blocking set is found just if the choice by price rests on sets that can be blocked**, or
the quorum set cannot be blocked without the excluded node. -/
theorem findsClosest_iff (q : SCPQuorumSet) (extraChecks : Bool)
    (hsane : isQuorumSetSane q extraChecks = true) (nodes : List NodeID) (excluded : Option NodeID) :
    FindsClosest nodes excluded q ↔ (canBlock excluded q = true → BuysBlockable nodes excluded q) := by
  obtain ⟨hranged, hnodup, -, hlen⟩ := isQuorumSetSane_iff.mp hsane
  have hiff : isVBlockingInternal (failedNodes nodes excluded q ++ findClosestVBlocking nodes excluded q) q = true ↔
      BuysBlockable nodes excluded q := blocks_iff hranged hlen hnodup failedIn_failedNodes
  constructor
  · intro hfinds hcan
    exact hiff.mp (hfinds.closest (exists_completes_iff.mpr hcan)).2.1.2
  · intro himp
    constructor
    · intro hexists
      refine ⟨nodup_findClosest hranged hlen hnodup,
        ⟨fun n hn => (mem_findClosest hranged hlen hn).2, hiff.mpr (himp (exists_completes_iff.mp hexists))⟩, ?_⟩
      rintro R ⟨hR, hblocked⟩
      refine le_trans ?_ (List.countP_le_length (p := fun n => decide (n ∈ allNodesInternal q)))
      exact findClosest_least hranged hlen hnodup failedIn_failedNodes (fun n hn => ne_of_canFail (hR n hn))
        hblocked
    · intro hnil
      by_cases hexists : ∃ R, Completes nodes excluded q R
      · have hblocks := hiff.mpr (himp (exists_completes_iff.mp hexists))
        rw [hnil, List.append_nil] at hblocks
        exact .inl hblocks
      · exact .inr hexists

/-- Two of: node 1, and one of nodes 0 and 2. -/
def excludedQSet : SCPQuorumSet := .mk 2 [1] [.mk 1 [0, 2] []]

/-- Node 0 is excluded. Where node 2 can fail, its set has a price, and node 1 is the cheaper choice. -/
theorem findsClosest_iff_two : FindsClosest [1, 2] (some 0) excludedQSet ∧
    ¬ FindsClosest [1] (some 0) excludedQSet := by
  have hsane : isQuorumSetSane excludedQSet false = true := by decide +kernel
  constructor
  · refine (findsClosest_iff excludedQSet false hsane [1, 2] (some 0)).mpr fun _ => ?_
    refine .bought (by decide +kernel) fun inner hinner => ?_
    have hnone : (bought [1, 2] (some 0) 2 [1] [.mk 1 [0, 2] []]).length = 0 := by decide +kernel
    rw [List.length_eq_zero_iff.mp hnone] at hinner
    exact absurd hinner List.not_mem_nil
  · rw [findsClosest_iff excludedQSet false hsane [1] (some 0)]
    intro himp
    cases himp (by decide +kernel) with
    | failed hblocked => exact absurd hblocked (by decide +kernel)
    | bought _ hbought =>
      -- the inner set is free, and neither failed nor left with enough members
      have hfree : SCPQuorumSet.mk 1 [0, 2] [] ∈ bought [1] (some 0) 2 [1] [.mk 1 [0, 2] []] :=
        List.mem_append_left _ (List.mem_filter.mpr ⟨List.mem_singleton_self _, by decide +kernel⟩)
      cases hbought _ hfree with
      | failed hblocked => exact absurd hblocked (by decide +kernel)
      | bought henough _ => exact absurd henough (by decide +kernel)

/-- Node 2 has failed and node 0 is excluded: nothing is found, although node 1 is missing. -/
theorem findClosestVBlocking_missed : isQuorumSetSane excludedQSet false = true ∧
    findClosestVBlocking [1] (some 0) excludedQSet = [] ∧ Completes [1] (some 0) excludedQSet [1] ∧
      ¬ FindsClosest [1] (some 0) excludedQSet := by
  have hcompletes : Completes [1] (some 0) excludedQSet [1] := ⟨by simp [canFail], by decide +kernel⟩
  have hnil : findClosestVBlocking [1] (some 0) excludedQSet = [] := by decide +kernel
  refine ⟨by decide +kernel, hnil, hcompletes, fun hfinds => ?_⟩
  have hblocks := (hfinds.closest ⟨[1], hcompletes⟩).2.1.2
  rw [hnil] at hblocks
  exact absurd hblocks (by decide +kernel)

end Sane

end ZaggCore.Scp.LocalNode
