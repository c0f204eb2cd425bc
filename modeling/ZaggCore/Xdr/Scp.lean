import ZaggCore.Xdr.Types

/-! # SCP messages

The types of `Stellar-SCP.x`. A `Value` is an ordered type whose `default` stands for the empty value.
`Slot::processEnvelope` hands a statement to one of the two protocols by the type of its pledges, so a
statement here carries the pledges of one of them. -/

namespace ZaggCore.Scp
set_option autoImplicit false

structure SCPNomination (Value : Type) where
  quorumSetHash : Hash
  votes : List Value
  accepted : List Value
  deriving DecidableEq

/-- `uint32` -/
abbrev Uint32 := Fin (2 ^ 32)

def UINT32_MAX : Uint32 := ⟨2 ^ 32 - 1, by decide⟩

structure SCPBallot (Value : Type) where
  counter : Uint32
  value : Value
  deriving DecidableEq

/-- The pledges of the ballot protocol. -/
inductive BallotPledges (Value : Type) where
  | prepare (quorumSetHash : Hash) (ballot : SCPBallot Value)
      (prepared preparedPrime : Option (SCPBallot Value)) (nC nH : Uint32)
  | confirm (ballot : SCPBallot Value) (nPrepared nCommit nH : Uint32) (quorumSetHash : Hash)
  | externalize (commit : SCPBallot Value) (nH : Uint32) (commitQuorumSetHash : Hash)
  deriving DecidableEq

/-- The discriminants are in the order PREPARE < CONFIRM < EXTERNALIZE. -/
def BallotPledges.type {Value : Type} : BallotPledges Value → ℕ
  | prepare .. => 0
  | confirm .. => 1
  | externalize .. => 2

structure SCPStatement (Pledges : Type) where
  nodeID : NodeID
  slotIndex : ℕ
  pledges : Pledges
  deriving DecidableEq

structure SCPEnvelope (Pledges : Type) where
  statement : SCPStatement Pledges
  signature : Signature
  deriving DecidableEq

/-- `struct SCPQuorumSet`; the threshold is a `uint32`. -/
inductive SCPQuorumSet where
  | mk (threshold : ℕ) (validators : List NodeID) (innerSets : List SCPQuorumSet)

namespace SCPQuorumSet

def threshold : SCPQuorumSet → ℕ
  | mk threshold _ _ => threshold

def validators : SCPQuorumSet → List NodeID
  | mk _ validators _ => validators

def innerSets : SCPQuorumSet → List SCPQuorumSet
  | mk _ _ innerSets => innerSets

end SCPQuorumSet

end ZaggCore.Scp
