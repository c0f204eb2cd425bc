import ZaggCore.Xdr.Scp
import ZaggCore.Util.Numeric
import ZaggCore.Foundations.SortedKeys

/-! # Quorum sets

The model of `scp/LocalNode.cpp`, of `scp/QuorumSetUtils.cpp` and of federated voting in `scp/Slot.cpp`.
What the recursive functions find of the validators and of the inner sets of a quorum set is a list of
hits in the order of the source; the loop over the hits returns early where the source does. A `std::map`
of the latest envelopes is the list of them sorted by node. -/

namespace ZaggCore.Scp
set_option autoImplicit false
set_option maxHeartbeats 250000

open Numeric

def UINT64_MAX : ℕ := 2 ^ 64 - 1

namespace LocalNode

/-! ## Slices and blocking sets -/

/-- `thresholdLeft` is a `uint32` and wraps below zero. -/
def reachesThreshold (thresholdLeft : ℕ) : List Bool → Bool
  | [] => false
  | hit :: hits =>
    if hit then
      let thresholdLeft := (thresholdLeft + (2 ^ 32 - 1)) % 2 ^ 32
      if thresholdLeft = 0 then true else reachesThreshold thresholdLeft hits
    else reachesThreshold thresholdLeft hits

mutual

def isQuorumSliceInternal (nodeSet : List NodeID) : SCPQuorumSet → Bool
  | .mk threshold validators innerSets =>
    reachesThreshold threshold
      (validators.map (fun validator => decide (validator ∈ nodeSet)) ++
        innerSlices nodeSet innerSets)

def innerSlices (nodeSet : List NodeID) : List SCPQuorumSet → List Bool
  | [] => []
  | inner :: innerSets => isQuorumSliceInternal nodeSet inner :: innerSlices nodeSet innerSets

end

def isQuorumSlice (qSet : SCPQuorumSet) (nodeSet : List NodeID) : Bool :=
  isQuorumSliceInternal nodeSet qSet

/-- `leftTillBlock` is an `int`. -/
def reachesBlock (leftTillBlock : ℤ) : List Bool → Bool
  | [] => false
  | hit :: hits =>
    if hit then
      let leftTillBlock := leftTillBlock - 1
      if leftTillBlock ≤ 0 then true else reachesBlock leftTillBlock hits
    else reachesBlock leftTillBlock hits

mutual

def isVBlockingInternal (nodeSet : List NodeID) : SCPQuorumSet → Bool
  | .mk threshold validators innerSets =>
    -- "There is no v-blocking set for {\empty}"
    if threshold = 0 then false
    else
      reachesBlock (toInt32 ((1 + validators.length + innerSets.length : ℤ) - threshold))
        (validators.map (fun validator => decide (validator ∈ nodeSet)) ++
          innerVBlocking nodeSet innerSets)

def innerVBlocking (nodeSet : List NodeID) : List SCPQuorumSet → List Bool
  | [] => []
  | inner :: innerSets => isVBlockingInternal nodeSet inner :: innerVBlocking nodeSet innerSets

end

section Envelopes

variable {Pledges : Type}

/-- The nodes of the map whose statement the filter takes. -/
def filterNodes (map : List (SCPEnvelope Pledges)) (filter : SCPStatement Pledges → Bool) :
    List NodeID :=
  (map.filter fun it => filter it.statement).map fun it => it.statement.nodeID

def isVBlocking (qSet : SCPQuorumSet) (map : List (SCPEnvelope Pledges))
    (filter : SCPStatement Pledges → Bool) : Bool :=
  isVBlockingInternal (filterNodes map filter) qSet

/-- `map.find(nodeID)` -/
def find (map : List (SCPEnvelope Pledges)) (nodeID : NodeID) : Option (SCPEnvelope Pledges) :=
  SortedKeys.lookup (fun it : SCPEnvelope Pledges => it.statement.nodeID) map nodeID

/-- `map[nodeID] = env` at the node of the envelope. -/
def insertOrAssign (map : List (SCPEnvelope Pledges)) (env : SCPEnvelope Pledges) :
    List (SCPEnvelope Pledges) :=
  SortedKeys.insertOrAssign (fun it : SCPEnvelope Pledges => it.statement.nodeID) env map

/-- The nodes that `quorumFilter` keeps. -/
def filterQuorum (map : List (SCPEnvelope Pledges))
    (qfun : SCPStatement Pledges → Option SCPQuorumSet) (pNodes : List NodeID) : List NodeID :=
  pNodes.filter fun nodeID =>
    match (find map nodeID).bind fun it => qfun it.statement with
    | some qSetPtr => isQuorumSlice qSetPtr pNodes
    | none => false

/-- The `do`-`while` loop of `isQuorum`; it takes one node away each time it goes on, so that as many
rounds as there are nodes are enough. -/
def quorumLoop (map : List (SCPEnvelope Pledges))
    (qfun : SCPStatement Pledges → Option SCPQuorumSet) : ℕ → List NodeID → List NodeID
  | 0, pNodes => pNodes
  | rounds + 1, pNodes =>
    let fNodes := filterQuorum map qfun pNodes
    if pNodes.length = fNodes.length then fNodes else quorumLoop map qfun rounds fNodes

def isQuorum (qSet : SCPQuorumSet) (map : List (SCPEnvelope Pledges))
    (qfun : SCPStatement Pledges → Option SCPQuorumSet) (filter : SCPStatement Pledges → Bool) :
    Bool :=
  let pNodes := filterNodes map filter
  isQuorumSlice qSet (quorumLoop map qfun (pNodes.length + 1) pNodes)

/-- The loop ends in a set of nodes that are each satisfied by the set. -/
theorem filterQuorum_quorumLoop (map : List (SCPEnvelope Pledges))
    (qfun : SCPStatement Pledges → Option SCPQuorumSet) {rounds : ℕ} {pNodes : List NodeID}
    (h : pNodes.length < rounds) :
    filterQuorum map qfun (quorumLoop map qfun rounds pNodes) = quorumLoop map qfun rounds pNodes := by
  induction rounds generalizing pNodes with
  | zero => omega
  | succ rounds ih =>
    have hle : (filterQuorum map qfun pNodes).length ≤ pNodes.length := List.length_filter_le ..
    unfold quorumLoop
    dsimp only
    split_ifs with heq
    · have hfix : filterQuorum map qfun pNodes = pNodes :=
        List.filter_eq_self.mpr (List.length_filter_eq_length_iff.mp heq.symm)
      rw [hfix, hfix]
    · exact ih (by omega)

end Envelopes

/-! ## Nodes and their weights -/

mutual

/-- The nodes in the order of `forAllNodesInternal`. -/
def allNodesInternal : SCPQuorumSet → List NodeID
  | .mk _ validators innerSets => validators ++ innerNodes innerSets

def innerNodes : List SCPQuorumSet → List NodeID
  | [] => []
  | q :: innerSets => allNodesInternal q ++ innerNodes innerSets

end

/-- The nodes that `forAllNodes` runs over: each of them once. -/
def allNodes (qset : SCPQuorumSet) : List NodeID := (allNodesInternal qset).eraseDups

/-- `bigDivide` of unsigned numbers, rounded up and cut to 64 bits. -/
def bigDivideUp (a b c : ℕ) : ℕ := (a * b + c - 1) / c % 2 ^ 64

mutual

def getNodeWeight (nodeID : NodeID) : SCPQuorumSet → ℕ
  | .mk threshold validators innerSets =>
    let d := innerSets.length + validators.length
    if nodeID ∈ validators then bigDivideUp UINT64_MAX threshold d
    else
      match innerWeight nodeID innerSets with
      | 0 => 0
      | leafW => bigDivideUp leafW threshold d

/-- The first weight that is not zero. -/
def innerWeight (nodeID : NodeID) : List SCPQuorumSet → ℕ
  | [] => 0
  | q :: innerSets =>
    match getNodeWeight nodeID q with
    | 0 => innerWeight nodeID innerSets
    | leafW => leafW

end

end LocalNode

/-! ## Normal form -/

/-- `{ t: 1, v: { n } }` -/
def isSingleton (it : SCPQuorumSet) : Bool :=
  it.threshold == 1 && it.validators.length == 1 && it.innerSets.length == 0

/-- "simplify quorum set if needed" -/
def simplifyQSet (qSet : SCPQuorumSet) : SCPQuorumSet :=
  match qSet with
  | .mk 1 [] [t] => t
  | _ => qSet

mutual

/-- Removes a node, merges "singleton inner sets into validator list" and simplifies. -/
def normalizeQSet (idToRemove : Option NodeID) : SCPQuorumSet → SCPQuorumSet
  | .mk threshold v i =>
    let kept := v.filter fun n => some n ≠ idToRemove
    let threshold := (threshold + (2 ^ 32 - (v.length - kept.length) % 2 ^ 32)) % 2 ^ 32
    let i := normalizeInner idToRemove i
    simplifyQSet (.mk threshold
      (kept ++ (i.filter isSingleton).flatMap SCPQuorumSet.validators)
      (i.filter fun it => !isSingleton it))

def normalizeInner (idToRemove : Option NodeID) : List SCPQuorumSet → List SCPQuorumSet
  | [] => []
  | it :: i => normalizeQSet idToRemove it :: normalizeInner idToRemove i

end

/-! ## Sanity -/

mutual

/-- `mKnownNodes` and `mCount` are threaded through; no value stands for `false`. -/
def checkSanity (mExtraChecks : Bool) (depth : ℕ) (known : List NodeID × ℕ) :
    SCPQuorumSet → Option (List NodeID × ℕ)
  | .mk threshold v i =>
    let totEntries := v.length + i.length
    if depth > 2 ∨ threshold < 1 ∨ threshold > totEntries then none
    else if mExtraChecks ∧ threshold < totEntries - threshold + 1 then none
    else if ¬ v.Nodup ∨ v.any (fun n => decide (n ∈ known.1)) then none
    else checkInner mExtraChecks (depth + 1) (known.1 ++ v, known.2 + v.length) i

def checkInner (mExtraChecks : Bool) (depth : ℕ) (known : List NodeID × ℕ) :
    List SCPQuorumSet → Option (List NodeID × ℕ)
  | [] => some known
  | iSet :: i =>
    match checkSanity mExtraChecks depth known iSet with
    | none => none
    | some known => checkInner mExtraChecks depth known i

end

def isQuorumSetSane (qSet : SCPQuorumSet) (extraChecks : Bool) : Bool :=
  match checkSanity extraChecks 0 ([], 0) qSet with
  | none => false
  | some known => decide (1 ≤ known.2 ∧ known.2 ≤ 1000)

/-! ## Federated voting -/

namespace Slot

variable {Pledges : Type} (qSet : SCPQuorumSet) (qfun : SCPStatement Pledges → Option SCPQuorumSet)

/-- The nodes that accepted block the local node, or those that voted or accepted are a quorum. -/
def federatedAccept (voted accepted : SCPStatement Pledges → Bool)
    (envs : List (SCPEnvelope Pledges)) : Bool :=
  LocalNode.isVBlocking qSet envs accepted ||
    LocalNode.isQuorum qSet envs qfun fun st => accepted st || voted st

def federatedRatify (voted : SCPStatement Pledges → Bool) (envs : List (SCPEnvelope Pledges)) : Bool :=
  LocalNode.isQuorum qSet envs qfun voted

end Slot

end ZaggCore.Scp
