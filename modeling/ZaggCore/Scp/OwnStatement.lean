import ZaggCore.Scp.BallotRuns
import ZaggCore.Scp.CommitIntervals

/-! # What a node says at a position

While a node works through what it received, its own statement is the only one that changes. Federated
voting sees no more than the statements, so that a vote at one position compares with the vote at another
by what the node itself says. -/

namespace ZaggCore.Scp
open SortedKeys
set_option autoImplicit false
set_option maxHeartbeats 250000

/-! ## Maps of the same statements -/

namespace LocalNode

variable {Pledges : Type} {map map' : List (SCPEnvelope Pledges)}
  {qfun : SCPStatement Pledges → Option SCPQuorumSet} {filter : SCPStatement Pledges → Bool}
  {env env' : SCPEnvelope Pledges} {U : List NodeID} {n : NodeID}

theorem filterNodes_eq : filterNodes map filter =
    ((map.map SCPEnvelope.statement).filter filter).map SCPStatement.nodeID := by
  rw [List.filter_map, List.map_map]
  rfl

theorem map_find : (find map n).map SCPEnvelope.statement =
    lookup SCPStatement.nodeID (map.map SCPEnvelope.statement) n := by
  unfold find lookup
  rw [List.find?_map]
  rfl

theorem satisfied_iff : Satisfied map qfun U n ↔ ∃ st q,
    lookup SCPStatement.nodeID (map.map SCPEnvelope.statement) n = some st ∧ qfun st = some q ∧
      isQuorumSlice q U = true := by
  rw [← map_find]
  constructor
  · rintro ⟨it, q, hit, hq, hslice⟩
    exact ⟨it.statement, q, by rw [hit, Option.map_some], hq, hslice⟩
  · rintro ⟨st, q, hst, hq, hslice⟩
    obtain ⟨it, hit, rfl⟩ := Option.map_eq_some_iff.mp hst
    exact ⟨it, q, hit, hq, hslice⟩

/-- A map is enough of a quorum if it takes the nodes of another one and knows as much of them. -/
theorem isQuorum_of_subset {qSet : SCPQuorumSet} {filter' : SCPStatement Pledges → Bool}
    (hsub : filterNodes map filter ⊆ filterNodes map' filter')
    (hsatisfied : ∀ n U, Satisfied map qfun U n → Satisfied map' qfun U n)
    (h : isQuorum qSet map qfun filter = true) : isQuorum qSet map' qfun filter' = true := by
  obtain ⟨U, hU, hself, hslice⟩ := (isQuorum_iff qSet map qfun filter).1.mp h
  exact (isQuorum_iff qSet map' qfun filter').1.mpr
    ⟨U, List.Subset.trans hU hsub, fun n hn => hsatisfied n U (hself n hn), hslice⟩

theorem isQuorum_congr (h : map.map SCPEnvelope.statement = map'.map SCPEnvelope.statement)
    (qSet : SCPQuorumSet) : isQuorum qSet map qfun filter = isQuorum qSet map' qfun filter := by
  have hnodes : filterNodes map filter = filterNodes map' filter := by
    rw [filterNodes_eq, filterNodes_eq, h]
  rw [Bool.eq_iff_iff]
  constructor
  · refine isQuorum_of_subset (fun _ hn => hnodes ▸ hn) fun n U hn => ?_
    rwa [satisfied_iff, ← h, ← satisfied_iff]
  · refine isQuorum_of_subset (fun _ hn => hnodes.symm ▸ hn) fun n U hn => ?_
    rwa [satisfied_iff, h, ← satisfied_iff]

theorem isVBlocking_congr (h : map.map SCPEnvelope.statement = map'.map SCPEnvelope.statement)
    (qSet : SCPQuorumSet) : isVBlocking qSet map filter = isVBlocking qSet map' filter := by
  unfold isVBlocking
  rw [filterNodes_eq, filterNodes_eq, h]

theorem map_insertOrAssign (map : List (SCPEnvelope Pledges)) (env : SCPEnvelope Pledges) :
    (insertOrAssign map env).map SCPEnvelope.statement =
      SortedKeys.insertOrAssign SCPStatement.nodeID env.statement (map.map SCPEnvelope.statement) :=
  SortedKeys.map_insertOrAssign _ (fun _ => rfl) env map

/-! ## One statement in the place of another -/

section Replaced

variable (hsorted : SortedBy (fun it : SCPEnvelope Pledges => it.statement.nodeID) map)
  (hid : env.statement.nodeID = env'.statement.nodeID)

include hsorted hid

theorem filterNodes_insertOrAssign {filter' : SCPStatement Pledges → Bool}
    (hothers : ∀ st, filter st = true → filter' st = true)
    (hown : filter env.statement = true → filter' env'.statement = true) :
    filterNodes (insertOrAssign map env) filter ⊆ filterNodes (insertOrAssign map env') filter' := by
  intro n hn
  obtain ⟨it, hit, rfl⟩ := List.mem_map.mp hn
  obtain ⟨hmem, hfilter⟩ := List.mem_filter.mp hit
  obtain rfl | ⟨hmem, hne⟩ := (mem_insertOrAssign _ hsorted).mp hmem
  · rw [hid]
    exact List.mem_map_of_mem
      (List.mem_filter.mpr ⟨(mem_insertOrAssign _ hsorted).mpr (.inl rfl), hown hfilter⟩)
  · rw [hid] at hne
    exact List.mem_map_of_mem
      (List.mem_filter.mpr ⟨(mem_insertOrAssign _ hsorted).mpr (.inr ⟨hmem, hne⟩), hothers _ hfilter⟩)

theorem Satisfied.insertOrAssign (hqfun : qfun env.statement = qfun env'.statement)
    (h : Satisfied (insertOrAssign map env) qfun U n) :
    Satisfied (LocalNode.insertOrAssign map env') qfun U n := by
  obtain ⟨it, q, hit, hq, hslice⟩ := h
  unfold find LocalNode.insertOrAssign at hit
  rw [lookup_insertOrAssign _ hsorted] at hit
  by_cases hn : env.statement.nodeID = n
  · rw [if_pos hn] at hit
    obtain rfl := Option.some.inj hit
    refine ⟨env', q, ?_, hqfun ▸ hq, hslice⟩
    exact (lookup_insertOrAssign _ hsorted env' n).trans (if_pos (hid ▸ hn))
  · rw [if_neg hn] at hit
    refine ⟨it, q, ?_, hq, hslice⟩
    exact (lookup_insertOrAssign _ hsorted env' n).trans ((if_neg fun h => hn (hid.trans h)).trans hit)

end Replaced

end LocalNode

namespace Slot

variable {Pledges : Type} {qSet : SCPQuorumSet} {qfun : SCPStatement Pledges → Option SCPQuorumSet}
  {voted accepted : SCPStatement Pledges → Bool} {map map' : List (SCPEnvelope Pledges)}

theorem federatedAccept_congr (h : map.map SCPEnvelope.statement = map'.map SCPEnvelope.statement) :
    federatedAccept qSet qfun voted accepted map = federatedAccept qSet qfun voted accepted map' := by
  unfold federatedAccept
  rw [LocalNode.isVBlocking_congr h, LocalNode.isQuorum_congr h]

theorem federatedRatify_congr (h : map.map SCPEnvelope.statement = map'.map SCPEnvelope.statement) :
    federatedRatify qSet qfun voted map = federatedRatify qSet qfun voted map' :=
  LocalNode.isQuorum_congr h qSet

end Slot

/-! ## The statement of a position -/

namespace BallotProtocol

variable {X Value : Type} [Inhabited Value]

/-- What `createPledges` makes of the position. -/
def pledgesAt (d : BallotDriver X Value) (r : Position Value) : BallotPledges Value :=
  match r.phase with
  | .SCP_PHASE_PREPARE =>
    .prepare d.quorumSetHash (r.current.getD ⟨0, default⟩) r.prepared r.preparedPrime
      (r.commit.elim 0 SCPBallot.counter) (r.high.elim 0 SCPBallot.counter)
  | .SCP_PHASE_CONFIRM =>
    .confirm (r.current.getD ⟨0, default⟩) (r.prepared.elim 0 SCPBallot.counter)
      (r.commit.elim 0 SCPBallot.counter) (r.high.elim 0 SCPBallot.counter) d.quorumSetHash
  | .SCP_PHASE_EXTERNALIZE =>
    .externalize (r.commit.getD ⟨0, default⟩) (r.high.elim 0 SCPBallot.counter) d.quorumSetHash

def statementAt (d : BallotDriver X Value) (r : Position Value) : SCPStatement (BallotPledges Value) :=
  ⟨d.localNodeID, d.slotIndex, pledgesAt d r⟩

section StatementAt

variable {d : BallotDriver X Value} {r r' : Position Value}

theorem pledgesAt_prepare (h : r.phase = .SCP_PHASE_PREPARE) : pledgesAt d r =
    .prepare d.quorumSetHash (r.current.getD ⟨0, default⟩) r.prepared r.preparedPrime
      (r.commit.elim 0 SCPBallot.counter) (r.high.elim 0 SCPBallot.counter) := by
  rw [pledgesAt, h]

theorem pledgesAt_confirm (h : r.phase = .SCP_PHASE_CONFIRM) : pledgesAt d r =
    .confirm (r.current.getD ⟨0, default⟩) (r.prepared.elim 0 SCPBallot.counter)
      (r.commit.elim 0 SCPBallot.counter) (r.high.elim 0 SCPBallot.counter) d.quorumSetHash := by
  rw [pledgesAt, h]

omit [Inhabited Value] in
theorem elim_counter {b : Option (SCPBallot Value)} {n : Uint32}
    (h : b.map SCPBallot.counter = some n) : b.elim 0 SCPBallot.counter = n := by
  obtain ⟨b, rfl, rfl⟩ := Option.map_eq_some_iff.mp h
  rfl

/-- A position has one statement. -/
theorem Describes.eq {st : SCPStatement (BallotPledges Value)} (h : Describes d r st) :
    st = statementAt d r := by
  obtain ⟨n, i, pledges⟩ := st
  obtain ⟨rfl, rfl, hhash, hpledges⟩ := h
  unfold statementAt
  congr 1
  cases pledges with
  | prepare hash b p p' nC nH =>
    obtain ⟨hphase, rfl, rfl, rfl, rfl, rfl⟩ := hpledges
    rw [pledgesAt_prepare hphase, ← show hash = d.quorumSetHash from hhash]
  | confirm b nPrepared nC nH hash =>
    obtain ⟨hphase, hb, hp, hc, hh⟩ := hpledges
    rw [pledgesAt_confirm hphase, hb, elim_counter hp, elim_counter hc, elim_counter hh,
      ← show hash = d.quorumSetHash from hhash]
    rfl
  | externalize c nH hash =>
    obtain ⟨hphase, hc, hh⟩ := hpledges
    rw [pledgesAt, hphase]
    dsimp only
    rw [hc, elim_counter hh, ← show hash = d.quorumSetHash from hhash]
    rfl

/-- Before it externalizes a node answers with its own quorum set. -/
theorem getQuorumSetFromStatement_statementAt (x : X) (hr : r.phase ≠ .SCP_PHASE_EXTERNALIZE) :
    getQuorumSetFromStatement d x (statementAt d r) = d.getQSet x d.quorumSetHash := by
  unfold getQuorumSetFromStatement statementAt
  cases hphase : r.phase with
  | SCP_PHASE_PREPARE => rw [pledgesAt_prepare hphase]
  | SCP_PHASE_CONFIRM => rw [pledgesAt_confirm hphase]
  | SCP_PHASE_EXTERNALIZE => exact absurd hphase hr

end StatementAt

/-! ## Voting at a position -/

/-- What a node knows while only its own statement changes: the state outside, and what is recorded. -/
structure Peers (X Value : Type) where
  outside : X
  latest : List (SCPEnvelope (BallotPledges Value))
  sorted : SortedBy (fun it : SCPEnvelope (BallotPledges Value) => it.statement.nodeID) latest

namespace Peers

variable {d : BallotDriver X Value} {w : Peers X Value} {r r' : Position Value}
  {voted accepted : BallotPledges Value → Bool}

/-- What is recorded once the node has said what it says at the position. -/
def heard (d : BallotDriver X Value) (w : Peers X Value) (r : Position Value) :
    List (SCPEnvelope (BallotPledges Value)) :=
  LocalNode.insertOrAssign w.latest ⟨statementAt d r, []⟩

def Accepts (d : BallotDriver X Value) (w : Peers X Value) (r : Position Value)
    (voted accepted : BallotPledges Value → Bool) : Prop :=
  Slot.federatedAccept d.quorumSet (getQuorumSetFromStatement d w.outside) (fun st => voted st.pledges)
    (fun st => accepted st.pledges) (w.heard d r) = true

def Ratifies (d : BallotDriver X Value) (w : Peers X Value) (r : Position Value)
    (voted : BallotPledges Value → Bool) : Prop :=
  Slot.federatedRatify d.quorumSet (getQuorumSetFromStatement d w.outside) (fun st => voted st.pledges)
    (w.heard d r) = true

theorem filterNodes_heard {filter : BallotPledges Value → Bool}
    (hown : filter (pledgesAt d r) = true → filter (pledgesAt d r') = true) :
    LocalNode.filterNodes (w.heard d r) (fun st => filter st.pledges) ⊆
      LocalNode.filterNodes (w.heard d r') fun st => filter st.pledges := by
  refine LocalNode.filterNodes_insertOrAssign w.sorted ?_ (fun _ hst => hst) hown
  rfl

section Own

variable (hr : r.phase ≠ .SCP_PHASE_EXTERNALIZE) (hr' : r'.phase ≠ .SCP_PHASE_EXTERNALIZE)

include hr hr'

theorem isQuorum_heard (filter : BallotPledges Value → Bool)
    (hown : filter (pledgesAt d r) = true → filter (pledgesAt d r') = true)
    (h : LocalNode.isQuorum d.quorumSet (w.heard d r) (getQuorumSetFromStatement d w.outside)
      (fun st => filter st.pledges) = true) :
    LocalNode.isQuorum d.quorumSet (w.heard d r') (getQuorumSetFromStatement d w.outside)
      (fun st => filter st.pledges) = true := by
  refine LocalNode.isQuorum_of_subset (filterNodes_heard hown) (fun n U hn => ?_) h
  refine LocalNode.Satisfied.insertOrAssign w.sorted ?_ ?_ hn
  · rfl
  · exact (getQuorumSetFromStatement_statementAt w.outside hr).trans
      (getQuorumSetFromStatement_statementAt w.outside hr').symm

theorem Ratifies.of_own (hown : voted (pledgesAt d r) = true → voted (pledgesAt d r') = true)
    (h : w.Ratifies d r voted) : w.Ratifies d r' voted :=
  isQuorum_heard hr hr' voted hown h

/-- What is accepted at one position is accepted at another one where the node says as much of it. -/
theorem Accepts.of_own
    (haccepted : accepted (pledgesAt d r) = true → accepted (pledgesAt d r') = true)
    (hvoted : voted (pledgesAt d r) = true → voted (pledgesAt d r') = true)
    (h : w.Accepts d r voted accepted) : w.Accepts d r' voted accepted := by
  unfold Accepts Slot.federatedAccept at h ⊢
  rw [Bool.or_eq_true] at h ⊢
  obtain hblocking | hquorum := h
  · left
    exact LocalNode.isVBlockingInternal_mono (fun n _ hn => filterNodes_heard haccepted hn) hblocking
  · right
    have hown : (accepted (pledgesAt d r) || voted (pledgesAt d r)) = true →
        (accepted (pledgesAt d r') || voted (pledgesAt d r')) = true := by
      rw [Bool.or_eq_true, Bool.or_eq_true]
      exact Or.imp haccepted hvoted
    exact isQuorum_heard hr hr' (fun pledges => accepted pledges || voted pledges) hown hquorum

end Own

end Peers

end BallotProtocol

end ZaggCore.Scp
