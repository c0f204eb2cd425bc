import ZaggCore.Scp.QuorumSets
import ZaggCore.Util.EnumeratorRuns

/-! # Quorum intersection of an inferred quorum

The model of `history/InferredQuorum.cpp`. An unordered map is the list of its entries in the order in
which an iteration goes over them. The loops over an enumerator get fuel. -/

namespace ZaggCore.History
open Foundations Foundations.Checked Util Scp Scp.LocalNode
set_option autoImplicit false
set_option maxHeartbeats 250000

structure InferredQuorum where
  mQsets : List (Hash × SCPQuorumSet)
  mQsetHashes : List (PublicKey × Hash)
  mPubKeys : List (PublicKey × ℕ)

namespace InferredQuorum

/-! ## The check -/

inductive Stop where
  | outOfFuel
  | failed (failure : Foundations.Failure)
  deriving DecidableEq

abbrev Looping (α : Type) := Except Stop α

def checked {α : Type} (x : Checked α) : Looping α := x.mapError .failed

/-- `find`, and the assertion that it finds. -/
def find {κ ν : Type} [BEq κ] (map : List (κ × ν)) (key : κ) (condition : String) : Checked ν :=
  match map.lookup key with
  | some value => .ok value
  | none => .error (.assertion condition)

/-- `ConstantEnumerator::bitNumber`. -/
def bitNumber (n : ℕ) : Checked BitsetEnumerator := do
  assert (n < 64) "n < 64"
  return Util.bitNumber n

mutual

def makeQsetEnumerator (nodeNumbers : List (PublicKey × ℕ)) : SCPQuorumSet → Checked BitsetEnumerator
  | .mk threshold validators innerSets => do
    let constants ← validators.mapM fun v => do
      let i ← find nodeNumbers v "i != nodeNumbers.end()"
      bitNumber i
    let inner ← makeInnerEnumerators nodeNumbers innerSets
    let innerEnums := constants ++ inner
    let index ← PermutationEnumerator.new threshold innerEnums.length
    return newSelection index.toEnumerator innerEnums

def makeInnerEnumerators (nodeNumbers : List (PublicKey × ℕ)) :
    List SCPQuorumSet → Checked (List BitsetEnumerator)
  | [] => .ok []
  | s :: innerSets => do
    let e ← makeQsetEnumerator nodeNumbers s
    let es ← makeInnerEnumerators nodeNumbers innerSets
    return e :: es

end

variable (iq : InferredQuorum)

def makeSliceEnumerator (pk : PublicKey) (nodeNumbers : List (PublicKey × ℕ)) : Checked BitsetEnumerator := do
  let i ← find nodeNumbers pk "i != nodeNumbers.end()"
  let node ← bitNumber i
  let qsh ← find iq.mQsetHashes pk "qsh != iq.mQsetHashes.end()"
  let qs ← find iq.mQsets qsh "qs != iq.mQsets.end()"
  let slices ← makeQsetEnumerator nodeNumbers qs
  return newCartesianProduct [node, slices]

/-- The loop that looks for a slice covered by `q`. -/
def containsSlice (q : Bitset) : ℕ → BitsetEnumerator → Looping Bool
  | 0, _ => .error .outOfFuel
  | fuel + 1, e =>
    if !e.alive then .ok false
    else if q ||| e.deref = q then .ok true
    else containsSlice q fuel e.next

/-- The loop of `isQuorum`, over the bit numbers. -/
def isQuorumFrom (fuel : ℕ) (q : Bitset) (nodeNumbers : List (PublicKey × ℕ))
    (revNodeNumbers : List PublicKey) : List ℕ → Looping Bool
  | [] => .ok true
  | i :: is =>
    if q.getLsbD i then
      match revNodeNumbers[i]? with
      | none => .error (.failed (.exception "vector::at"))
      | some pk => do
        let e ← checked (makeSliceEnumerator iq pk nodeNumbers)
        let containsSliceForE ← containsSlice q fuel e
        if containsSliceForE then isQuorumFrom fuel q nodeNumbers revNodeNumbers is else .ok false
    else isQuorumFrom fuel q nodeNumbers revNodeNumbers is

def isQuorum (fuel : ℕ) (q : Bitset) (nodeNumbers : List (PublicKey × ℕ)) (revNodeNumbers : List PublicKey) :
    Looping Bool :=
  isQuorumFrom iq fuel q nodeNumbers revNodeNumbers (List.range 64)

/-- The loop over the candidates; a set of quorums is a list. -/
def enumerateQuorums (fuel : ℕ) (nodeNumbers : List (PublicKey × ℕ)) (revNodeNumbers : List PublicKey) :
    ℕ → BitsetEnumerator → List Bitset → Looping (List Bitset)
  | 0, _, _ => .error .outOfFuel
  | n + 1, e, allQuorums =>
    if !e.alive then .ok allQuorums
    else do
      let isOne ← isQuorum iq fuel e.deref nodeNumbers revNodeNumbers
      enumerateQuorums fuel nodeNumbers revNodeNumbers n e.next
        (if isOne then allQuorums.insert e.deref else allQuorums)

/-- The loops over the pairs. -/
def allOk (allQuorums : List Bitset) : Bool :=
  allQuorums.all fun q => allQuorums.all fun v => q = v || q &&& v ≠ 0

def nodes : List PublicKey := iq.mPubKeys.map Prod.fst

def nodeNumbers : List (PublicKey × ℕ) := iq.nodes.zipIdx

/-- `order` is the order in which an iteration goes over an unordered set of numbers. -/
def checkQuorumIntersection (order : List ℕ → List ℕ) (fuel : ℕ) : Looping Bool := do
  let numbers ← checked (iq.mQsetHashes.mapM fun n => do
    assert (iq.mQsets.lookup n.2).isSome "mQsets.find(n.second) != mQsets.end()"
    find iq.nodeNumbers n.1 "i != nodeNumbers.end()")
  let nodesWithQsets := order numbers.dedup
  let nodeEnumerators ← checked (nodesWithQsets.mapM bitNumber)
  checked (assert (nodeEnumerators.length < 64) "nBits < 64")
  let quorumCandidateEnumerator := newSelection (newPowerset nodeEnumerators.length) nodeEnumerators
  checked (assert (nodeEnumerators.length < 64) "nodeEnumerators.size() < 64")
  let allQuorums ← iq.enumerateQuorums fuel iq.nodeNumbers iq.nodes fuel quorumCandidateEnumerator []
  return allOk allQuorums

/-! ## Slices -/

mutual

/-- The slices of a quorum set in the order of its enumerator: for each choice of as many members as the
threshold asks for, the tuples of their slices that the odometer visits. -/
def slices : SCPQuorumSet → List (List NodeID)
  | .mk threshold validators innerSets =>
    (words (masks (validators.length + innerSets.length) threshold)).flatMap fun m =>
      (visited (chosen m 0 (validators.map (fun n => [[n]]) ++ slicesOfEach innerSets))).map List.flatten

def slicesOfEach : List SCPQuorumSet → List (List (List NodeID))
  | [] => []
  | q :: innerSets => slices q :: slicesOfEach innerSets

end

/-- Each set has fewer members than a word has bits: `operator bool` shifts by the number of members. -/
inductive Narrow : SCPQuorumSet → Prop where
  | mk {t : ℕ} {v : List NodeID} {i : List SCPQuorumSet} (members_lt : v.length + i.length < 64)
      (inner : ∀ q ∈ i, Narrow q) : Narrow (.mk t v i)

/-- The slices of the members. -/
def memberSlices (v : List NodeID) (i : List SCPQuorumSet) : List (List (List NodeID)) :=
  v.map (fun n => [[n]]) ++ i.map slices

/-- The bits of some nodes. -/
def bitsOf (number : NodeID → ℕ) (s : List NodeID) : Bitset :=
  union (s.map fun n => BitVec.twoPow 64 (number n))

section Slices

variable {t : ℕ} {v : List NodeID} {i : List SCPQuorumSet} {q : SCPQuorumSet} {extraChecks : Bool} {depth : ℕ}
  {number : NodeID → ℕ}

theorem slices_mk : slices (.mk t v i) = (words (masks (v.length + i.length) t)).flatMap fun m =>
    (visited (chosen m 0 (memberSlices v i))).map List.flatten := by
  have heach : slicesOfEach i = i.map slices := by
    induction i with
    | nil => rfl
    | cons q i ih =>
      unfold slicesOfEach
      rw [ih, List.map_cons]
  unfold slices memberSlices
  rw [heach]

theorem length_memberSlices (v : List NodeID) (i : List SCPQuorumSet) :
    (memberSlices v i).length = v.length + i.length := by
  simp [memberSlices]

/-- A mask of the index chooses as many members as the threshold asks for. -/
theorem length_chosen_masks {α : Type} {l : List α} {m : Bitset} (hl : l.length ≤ 64)
    (hm : m ∈ words (masks l.length t)) : (chosen m 0 l).length = t := by
  obtain ⟨k, hk, rfl⟩ := List.mem_map.mp hm
  obtain ⟨hlt, hones⟩ := mem_masks.mp hk
  have hpow : 2 ^ l.length ≤ 2 ^ 64 := Nat.pow_le_pow_right (by decide) hl
  have hnat : (BitVec.ofNat 64 k).toNat = k := by
    rw [BitVec.toNat_ofNat, Nat.mod_eq_of_lt (hlt.trans_le hpow)]
  rw [length_chosen (by rwa [hnat]), hnat, hones]

theorem words_masks_ne_nil {n k : ℕ} (h : k ≤ n) : words (masks n k) ≠ [] := fun hnil =>
  masks_ne_nil h (List.map_eq_nil_iff.mp hnil)

theorem slices_ne_nil (hr : Ranged extraChecks depth q) (hn : Narrow q) : slices q ≠ [] := by
  induction q using SCPQuorumSet.induction generalizing depth with
  | mk t v i ih =>
    obtain ⟨-, hpos, hle, -, hinner⟩ := ranged_mk.mp hr
    obtain ⟨hlt, hnarrow⟩ := hn
    have hmembers : ∀ l ∈ memberSlices v i, l ≠ [] := by
      intro l hl
      obtain hl | hl := List.mem_append.mp hl
      · obtain ⟨n, -, rfl⟩ := List.mem_map.mp hl
        exact List.cons_ne_nil _ _
      · obtain ⟨q, hq, rfl⟩ := List.mem_map.mp hl
        exact ih q hq (hinner q hq) (hnarrow q hq)
    have hlen := length_memberSlices v i
    obtain ⟨m, ms, hms⟩ := List.exists_cons_of_ne_nil (words_masks_ne_nil hle)
    have hm : m ∈ words (masks (memberSlices v i).length t) := by
      rw [hlen, hms]
      exact List.mem_cons_self
    have hchosen : chosen m 0 (memberSlices v i) ≠ [] := by
      intro hnil
      have hlength := length_chosen_masks (by omega) hm
      rw [hnil, List.length_nil] at hlength
      omega
    have hvisited := visited_ne_nil hchosen fun l hl => hmembers l ((chosen_sublist _ _ _).subset hl)
    rw [slices_mk, hms, List.flatMap_cons]
    simp [hvisited]

theorem memberSlices_ne_nil (hr : Ranged extraChecks depth (.mk t v i)) (hn : Narrow (.mk t v i)) :
    ∀ l ∈ memberSlices v i, l ≠ [] := by
  obtain ⟨-, -, -, -, hinner⟩ := ranged_mk.mp hr
  obtain ⟨-, hnarrow⟩ := hn
  intro l hl
  obtain hl | hl := List.mem_append.mp hl
  · obtain ⟨n, -, rfl⟩ := List.mem_map.mp hl
    exact List.cons_ne_nil _ _
  · obtain ⟨q, hq, rfl⟩ := List.mem_map.mp hl
    exact slices_ne_nil (hinner q hq) (hnarrow q hq)

theorem union_append (l l' : List Bitset) : union (l ++ l') = union l ||| union l' := by
  induction l with
  | nil => exact BitVec.zero_or.symm
  | cons b l ih =>
    show b ||| union (l ++ l') = (b ||| union l) ||| union l'
    rw [ih, BitVec.or_assoc]

theorem bitsOf_flatten (number : NodeID → ℕ) (l : List (List NodeID)) :
    bitsOf number l.flatten = union (l.map (bitsOf number)) := by
  induction l with
  | nil => rfl
  | cons s l ih =>
    show _ = bitsOf number s ||| union (l.map (bitsOf number))
    rw [← ih, List.flatten_cons, bitsOf, List.map_append, union_append]
    rfl

/-- The bits of the slices are what the selection gives. -/
theorem selections_memberSlices (hr : Ranged extraChecks depth (.mk t v i)) (hn : Narrow (.mk t v i)) :
    selections ((memberSlices v i).map (List.map (bitsOf number))) (words (masks (v.length + i.length) t)) =
      (slices (.mk t v i)).map (bitsOf number) := by
  unfold selections
  rw [slices_mk, List.map_flatMap]
  congr 1
  funext m
  have hne : ∀ l ∈ chosen m 0 (memberSlices v i), l ≠ [] := fun l hl =>
    memberSlices_ne_nil hr hn l ((chosen_sublist _ _ _).subset hl)
  rw [chosen_map, visited_map _ hne, List.map_map, List.map_map]
  apply List.map_congr_left
  intro tuple _
  exact (bitsOf_flatten number tuple).symm

theorem mapM_ok {ε α β : Type} {f : α → Except ε β} {g : α → β} {l : List α} (h : ∀ a ∈ l, f a = .ok (g a)) :
    l.mapM f = .ok (l.map g) := by
  induction l with
  | nil => rfl
  | cons a l ih =>
    obtain ⟨ha, hl⟩ := List.forall_mem_cons.mp h
    rw [List.mapM_cons, ha, ih hl]
    rfl

/-- The enumerator of a quorum set gives its slices. -/
theorem makeQsetEnumerator_spec {nodeNumbers : List (PublicKey × ℕ)}
    (hnumbers : ∀ n ∈ allNodesInternal q, nodeNumbers.lookup n = some (number n) ∧ number n < 64)
    (hr : Ranged extraChecks depth q) (hn : Narrow q) : ∃ e, makeQsetEnumerator nodeNumbers q = .ok e ∧
      enumerators.Tracks ((slices q).map (bitsOf number)) ((slices q).map (bitsOf number)) e := by
  induction q using SCPQuorumSet.induction generalizing depth with
  | mk t v i ih =>
    obtain ⟨-, hpos, hle, -, hinner⟩ := ranged_mk.mp hr
    have hn' := hn
    obtain ⟨hlt, hnarrow⟩ := hn'
    have hconstants : (v.mapM fun v => do
        let i ← find nodeNumbers v "i != nodeNumbers.end()"
        bitNumber i) = .ok (v.map fun n => Util.bitNumber (number n)) := by
      apply mapM_ok
      intro n hnode
      obtain ⟨hlookup, h64⟩ := hnumbers n (mem_of_validator hnode)
      unfold find bitNumber
      rw [hlookup]
      exact assert_bind h64 _ _
    have hinnerEnums : ∀ i' : List SCPQuorumSet, (∀ q ∈ i', q ∈ i) → ∃ es,
        makeInnerEnumerators nodeNumbers i' = .ok es ∧
          Gives es (i'.map fun q => (slices q).map (bitsOf number)) := by
      intro i' hsub
      induction i' with
      | nil => exact ⟨[], rfl, .nil⟩
      | cons q i' ih' =>
        obtain ⟨hq, hi'⟩ := List.forall_mem_cons.mp hsub
        obtain ⟨e, he, htracks⟩ := ih q hq (fun n hnode => hnumbers n (mem_of_inner hq hnode)) (hinner q hq)
          (hnarrow q hq)
        obtain ⟨es, hes, hgives⟩ := ih' hi'
        refine ⟨e :: es, ?_, .cons htracks hgives⟩
        unfold makeInnerEnumerators
        rw [he, hes]
        rfl
    obtain ⟨es, hes, hgives⟩ := hinnerEnums i fun _ hq => hq
    have hall : Gives (v.map (fun n => Util.bitNumber (number n)) ++ es)
        ((memberSlices v i).map (List.map (bitsOf number))) := by
      unfold memberSlices
      rw [List.map_append, List.map_map, List.map_map]
      refine List.rel_append (List.forall₂_map_left_iff.mpr (List.forall₂_map_right_iff.mpr ?_)) hgives
      refine List.forall₂_same.mpr fun n _ => ?_
      have hone : bitsOf number [n] = BitVec.twoPow 64 (number n) := BitVec.or_zero
      show enumerators.Tracks [bitsOf number [n]] [bitsOf number [n]] _
      rw [hone]
      exact tracks_constant _
    have hlen : (v.map (fun n => Util.bitNumber (number n)) ++ es).length = v.length + i.length := by
      rw [hall.length_eq, List.length_map, length_memberSlices]
    have hls : ∀ l ∈ (memberSlices v i).map (List.map (bitsOf number)), l ≠ [] := by
      intro l hl
      obtain ⟨l', hl', rfl⟩ := List.mem_map.mp hl
      exact fun hnil => memberSlices_ne_nil hr hn l' hl' (List.map_eq_nil_iff.mp hnil)
    have hchosen : ∀ m ∈ words (masks (v.length + i.length) t),
        chosen m 0 ((memberSlices v i).map (List.map (bitsOf number))) ≠ [] := by
      intro m hm hnil
      have hlen' : ((memberSlices v i).map (List.map (bitsOf number))).length = v.length + i.length := by
        rw [List.length_map, length_memberSlices]
      rw [← hlen'] at hm hlt
      have hlength := length_chosen_masks hlt.le hm
      rw [hnil, List.length_nil] at hlength
      omega
    have htracks := tracks_newSelection hls hchosen (words_masks_ne_nil hle)
      (lists_newPermutation hpos hle hlt) hall
    rw [selections_memberSlices hr hn] at htracks
    refine ⟨_, ?_, htracks⟩
    have hindex : PermutationEnumerator.new t (v.length + i.length) =
        .ok ⟨lowBits t, t, v.length + i.length⟩ := by
      unfold PermutationEnumerator.new
      rw [assert_bind hle, assert_bind ⟨hpos, by omega⟩, assert_bind ⟨by omega, by omega⟩]
      rfl
    unfold makeQsetEnumerator
    rw [hconstants, hes]
    show (PermutationEnumerator.new t (v.map (fun n => Util.bitNumber (number n)) ++ es).length >>= _) = _
    rw [hlen, hindex]
    rfl

end Slices

end InferredQuorum

end ZaggCore.History
