import ZaggCore.Scp.GroundedPositions

/-! # Honest nodes

The nodes that take part in a slot, some of them honest, and which sets of nodes these trust. What federated
voting finds in the latest envelopes of an honest node is what the record of its statements backs. -/

namespace ZaggCore.Scp
open Foundations BallotProtocol SortedKeys
set_option autoImplicit false
set_option maxHeartbeats 250000

variable {X Value : Type}

/-- The honest nodes run the protocol with a driver each. Their quorum sets are sane, and a hash that one of
them stands for is not found under another quorum set. -/
structure SlotNodes (X Value : Type) where
  honest : Set NodeID
  driver : NodeID → BallotDriver X Value
  localNodeID : ∀ n ∈ honest, (driver n).localNodeID = n
  sane : ∀ n ∈ honest, isQuorumSetSane (driver n).quorumSet false = true
  resolves : ∀ n ∈ honest, ∀ m ∈ honest, ∀ x q, (driver n).getQSet x (driver m).quorumSetHash = some q →
    q = (driver m).quorumSet

/-- What was recorded, without slots and signatures. -/
def record (history : List (SCPStatement (BallotPledges Value))) : BallotRecord Value :=
  history.map fun st => (st.nodeID, st.pledges)

theorem mem_record {history : List (SCPStatement (BallotPledges Value))} {st : SCPStatement (BallotPledges Value)}
    (h : st ∈ history) : (st.nodeID, st.pledges) ∈ record history :=
  List.mem_map_of_mem h

/-- A quorum is a set of nodes of the kind that supports itself. -/
theorem LocalNode.exists_of_isQuorum {Pledges : Type} {qSet : SCPQuorumSet} {map : List (SCPEnvelope Pledges)}
    {qfun : SCPStatement Pledges → Option SCPQuorumSet} {filter : SCPStatement Pledges → Bool}
    (h : isQuorum qSet map qfun filter = true) :
    ∃ R, R ⊆ filterNodes map filter ∧ SelfSupporting map qfun R ∧ isQuorumSlice qSet R = true :=
  ⟨_, quorumLoop_subset _, selfSupporting_quorumLoop (Nat.lt_succ_self _), h⟩

namespace SlotNodes

/-- Some list of nodes of the set is a slice. -/
def trust (N : SlotNodes X Value) : Trust NodeID where
  honest := N.honest
  satisfied n U := ∃ l : List NodeID, (∀ m ∈ l, m ∈ U) ∧
    LocalNode.isQuorumSlice (N.driver n).quorumSet l = true
  mono hsub := fun ⟨l, hl, hslice⟩ => ⟨l, fun m hm => hsub (hl m hm), hslice⟩

/-- Statements of honest nodes carry the hash of their quorum set. -/
def Hashed (N : SlotNodes X Value) (history : List (SCPStatement (BallotPledges Value))) : Prop :=
  ∀ st ∈ history, st.nodeID ∈ N.honest →
    getCompanionQuorumSetHashFromStatement st.pledges = (N.driver st.nodeID).quorumSetHash

/-- What the node goes by: the latest envelopes are of recorded statements. -/
structure Recalls (N : SlotNodes X Value) (latest : List (SCPEnvelope (BallotPledges Value)))
    (history : List (SCPStatement (BallotPledges Value))) : Prop where
  sorted : SortedBy (fun it : SCPEnvelope (BallotPledges Value) => it.statement.nodeID) latest
  recorded : ∀ env ∈ latest, env.statement ∈ history
  hashed : N.Hashed history

section Federated

variable {N : SlotNodes X Value} {latest : List (SCPEnvelope (BallotPledges Value))}
  {history : List (SCPStatement (BallotPledges Value))} {n : NodeID} {x : X}
  {filter : BallotPledges Value → Bool}

/-- Before it externalizes, a node is looked up under its own quorum set. -/
theorem quorumSet_of_statement (hn : n ∈ N.honest) {st : SCPStatement (BallotPledges Value)}
    {q : SCPQuorumSet} (hhonest : st.nodeID ∈ N.honest)
    (hhash : getCompanionQuorumSetHashFromStatement st.pledges = (N.driver st.nodeID).quorumSetHash)
    (hq : getQuorumSetFromStatement (N.driver n) x st = some q) (hfinal : ¬ Final st.pledges) :
    q = (N.driver st.nodeID).quorumSet := by
  refine N.resolves n hn _ hhonest x q ?_
  rw [← hhash]
  unfold getQuorumSetFromStatement at hq
  cases hst : st.pledges with
  | prepare => rwa [hst] at hq
  | confirm => rwa [hst] at hq
  | externalize =>
    rw [hst] at hfinal
    exact absurd trivial hfinal

/-- A quorum of nodes that said something of the kind backs it. -/
theorem backs_of_isQuorum (filter : BallotPledges Value → Bool) (hn : n ∈ N.honest)
    (h : N.Recalls latest history)
    (hquorum : LocalNode.isQuorum (N.driver n).quorumSet latest (getQuorumSetFromStatement (N.driver n) x)
      (fun st => filter st.pledges) = true) :
    ∃ U, N.trust.Backs (record history) Final (fun st => filter st = true) n U := by
  obtain ⟨R, hsubset, hsupports, hslice⟩ := LocalNode.exists_of_isQuorum hquorum
  refine ⟨{m | m ∈ R}, ⟨R, fun m hm => hm, hslice⟩, fun m hm hhonest => ?_⟩
  obtain ⟨it, hit, rfl⟩ := List.mem_map.mp (hsubset hm)
  obtain ⟨hmem, hfilter⟩ := List.mem_filter.mp hit
  have hrecorded := h.recorded it hmem
  refine ⟨it.statement.pledges, mem_record hrecorded, hfilter, fun hfinal => ⟨R, fun m hm => hm, ?_⟩⟩
  obtain ⟨it', q, hfind, hq, hslice'⟩ := hsupports _ hm
  obtain ⟨hmem', hid⟩ := mem_of_lookup _ hfind
  obtain rfl := h.sorted.eq_of_key _ hmem' hmem hid
  rwa [quorumSet_of_statement hn hhonest (h.hashed _ hrecorded hhonest) hq hfinal] at hslice'

/-- A blocking set of nodes that said something of the kind meets every slice of the node. -/
theorem blocks_of_isVBlocking (hn : n ∈ N.honest) (h : N.Recalls latest history)
    (hblocking : LocalNode.isVBlocking (N.driver n).quorumSet latest (fun st => filter st.pledges) = true) :
    ∃ U, N.trust.Blocks n U ∧ N.trust.Heard (record history) (fun st => filter st = true) U := by
  refine ⟨{m | m ∈ LocalNode.filterNodes latest fun st => filter st.pledges}, ?_, fun m hm _ => ?_⟩
  · rintro V ⟨l, hl, hslice⟩
    by_contra hdisjoint
    push Not at hdisjoint
    obtain ⟨hranged, -, -, hlen⟩ := LocalNode.isQuorumSetSane_iff.mp (N.sane n hn)
    -- the slice lies in what the blocking set leaves
    refine (hranged.dual hlen (T := (LocalNode.allNodes (N.driver n).quorumSet).filter fun m => decide (m ∉
      LocalNode.filterNodes latest fun st => filter st.pledges)) fun m hm => ?_).mp hblocking ?_
    · simp [LocalNode.allNodes, hm]
    · refine LocalNode.isQuorumSlice_mono (fun m hnode hm => ?_) hslice
      have hout : m ∉ LocalNode.filterNodes latest fun st => filter st.pledges :=
        fun hin => hdisjoint m hin (hl m hm)
      simp [LocalNode.allNodes, hnode, hout]
  · obtain ⟨it, hit, rfl⟩ := List.mem_map.mp hm
    obtain ⟨hmem, hfilter⟩ := List.mem_filter.mp hit
    exact ⟨it.statement.pledges, mem_record (h.recorded it hmem), hfilter⟩

variable {s : BallotProtocol X Value} {voted accepted : BallotPledges Value → Bool}

theorem accepts_of_federatedAccept (hn : n ∈ N.honest) (h : N.Recalls s.mLatestEnvelopes history)
    (haccept : s.federatedAccept (N.driver n) voted accepted = true) :
    N.trust.Accepts (record history) Final (fun st => voted st = true) (fun st => accepted st = true) n := by
  unfold federatedAccept Slot.federatedAccept at haccept
  obtain hblocking | hquorum := (Bool.or_eq_true _ _).mp haccept
  · exact .inl (blocks_of_isVBlocking hn h hblocking)
  · obtain ⟨U, hsatisfied, hheard⟩ := backs_of_isQuorum (fun st => accepted st || voted st) hn h hquorum
    refine .inr ⟨U, hsatisfied, fun m hm hhonest => ?_⟩
    obtain ⟨st, hst, hfilter, hsupport⟩ := hheard m hm hhonest
    exact ⟨st, hst, ((Bool.or_eq_true _ _).mp hfilter).symm, hsupport⟩

theorem ratifies_of_federatedRatify (hn : n ∈ N.honest) (h : N.Recalls s.mLatestEnvelopes history)
    (hratify : s.federatedRatify (N.driver n) voted = true) :
    N.trust.Ratifies (record history) Final (fun st => voted st = true) n :=
  backs_of_isQuorum voted hn h hratify

end Federated

end SlotNodes

end ZaggCore.Scp
