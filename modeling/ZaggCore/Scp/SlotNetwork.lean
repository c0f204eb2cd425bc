import ZaggCore.Scp.HonestRuns

/-! # Agreement in a slot

The honest nodes of a slot, each of which handles events in any order; what they are sent in the name of the
other nodes is arbitrary. A node whose call throws stops, but what it sent before stays. All statements of the
honest nodes together are a justified record, so that the nodes agree. -/

namespace ZaggCore.Scp
open Foundations BallotProtocol
set_option autoImplicit false
set_option maxHeartbeats 250000

variable {X Value : Type} [LinearOrder Value]

theorem Grounded.mono {T : Trust NodeID} {log log' : BallotRecord Value} {n : NodeID}
    {st : BallotPledges Value} (h : Grounded T log n st) (hlog : T.Covers log log') : Grounded T log' n st := by
  cases st with
  | prepare => exact ⟨fun q hq => (h.1 q hq).mono hlog, fun h0 => ⟨(h.2 h0).1, (h.2 h0).2.mono hlog⟩⟩
  | confirm => exact ⟨h.1, h.2.mono hlog⟩
  | externalize => exact Trust.Ratifies.mono h hlog

namespace SlotNodes

/-! ## The network -/

/-- The protocol of an honest node, and whether a call of it has thrown. -/
structure Party (X Value : Type) where
  protocol : BallotProtocol X Value
  stopped : Bool

abbrev Parties (X Value : Type) := NodeID → Party X Value

/-- An event at an honest node. -/
structure Occurrence (N : SlotNodes X Value) where
  node : NodeID
  isHonest : node ∈ N.honest
  fuel : ℕ
  event : Event X Value

variable (N : SlotNodes X Value)

def start (outside : NodeID → X) : Parties X Value :=
  fun n => ⟨new (N.driver n) (outside n), false⟩

/-- An envelope in the name of an honest node is of a statement that the node emitted. -/
def Deliverable (net : Parties X Value) : Event X Value → Prop
  | .recvSCPEnvelope env => env.statement.nodeID ∈ N.honest →
    ∃ sent ∈ (net env.statement.nodeID).protocol.emitted, sent.statement = env.statement
  | _ => True

def Allowed (net : Parties X Value) (o : N.Occurrence) : Prop := N.Deliverable net o.event

variable [Inhabited Value]

/-- The node after an event. -/
def handled (o : N.Occurrence) (p : Party X Value) : Party X Value :=
  if p.stopped then p
  else match handle (N.driver o.node) o.fuel o.event p.protocol with
    | .ok _ s => ⟨s, false⟩
    | .error _ s => ⟨s, true⟩

def step (net : Parties X Value) (o : N.Occurrence) : Parties X Value :=
  Function.update net o.node (N.handled o (net o.node))

/-! ## The record of all honest nodes -/

/-- The record is what the honest nodes said, and they know no more of each other. -/
structure Records (net : Parties X Value) (log : BallotRecord Value) : Prop where
  justified : Justified N.trust log
  said : ∀ n ∈ N.honest, saidBy log n = saidBy (record (net n).protocol.mStatementsHistory) n
  hashed : ∀ n st, (n, st) ∈ log → getCompanionQuorumSetHashFromStatement st = (N.driver n).quorumSetHash
  faithful : ∀ n ∈ N.honest,
    N.Faithful n ⟨(net n).protocol.mStatementsHistory, log⟩ (net n).protocol.messages
  correct : ∀ n ∈ N.honest, (net n).stopped = false →
    N.Correct n ⟨(net n).protocol.mStatementsHistory, log⟩ (net n).protocol

variable {N} {net : Parties X Value} {log : BallotRecord Value} {n : NodeID}

omit [Inhabited Value] in
theorem mem_log_iff (h : N.Records net log) (hn : n ∈ N.honest) {st : BallotPledges Value} :
    (n, st) ∈ log ↔ (n, st) ∈ record (net n).protocol.mStatementsHistory := by
  rw [← mem_saidBy, h.said n hn, mem_saidBy]

omit [Inhabited Value] in
/-- What a node newly recorded of itself goes on top of the record. -/
theorem exists_record {w : Past Value} {m : Messages Value} (hm : N.Faithful n w m) (hn : n ∈ N.honest)
    (hjustified : Justified N.trust w.log) (hsaid : saidBy w.log n = saidBy (record w.base) n)
    {history : List (SCPStatement (BallotPledges Value))} (hbase : w.base <:+ history)
    (hsuffix : history <:+ m.history) :
    ∃ log, w.log ⊆ log ∧ Justified N.trust log ∧ saidBy log n = saidBy (record history) n ∧
      (∀ k, k ≠ n → saidBy log k = saidBy w.log k) ∧
      ∀ k st, (k, st) ∈ log → (k, st) ∈ w.log ∨ (k, st) ∈ record history ∧ k = n := by
  obtain ⟨new, rfl⟩ := hbase
  induction new with
  | nil => exact ⟨w.log, List.Subset.refl _, hjustified, hsaid, fun _ _ => rfl, fun _ _ h => .inl h⟩
  | cons st new ih =>
    have hsuffix' : new ++ w.base <:+ m.history := (List.suffix_cons st _).trans hsuffix
    obtain ⟨log, hsub, hlog, hown, hothers, hmem⟩ := ih hsuffix'
    have hmem' : ∀ k e, (k, e) ∈ log → (k, e) ∈ w.log ∨ (k, e) ∈ record (st :: new ++ w.base) ∧ k = n :=
      fun k e he => (hmem k e he).imp id fun h => ⟨List.mem_cons_of_mem _ h.1, h.2⟩
    by_cases hid : st.nodeID = n
    · refine ⟨(n, st.pledges) :: log, List.subset_cons_of_subset _ hsub, ⟨⟨hn, ?_, ?_⟩, hlog⟩, ?_, fun k hk => ?_,
        fun k e he => ?_⟩
      -- what the statement is grounded in is in the record
      · obtain ⟨hgrounded, -⟩ := hm.justified st _ hsuffix hid
        refine hgrounded.mono fun k hk e he => ?_
        by_cases hkn : k = n
        · subst hkn
          rwa [← mem_saidBy, hown, mem_saidBy]
        · obtain ⟨st', hst', heq⟩ := List.mem_map.mp he
          obtain ⟨rfl, rfl⟩ := Prod.mk.inj heq
          exact hsub (hm.heard st' (hsuffix'.subset hst') hk hkn)
      · obtain ⟨-, hfollows⟩ := hm.justified st _ hsuffix hid
        rw [hown]
        exact hfollows
      · rw [List.cons_append, saidBy_record_cons, if_pos hid, ← hown]
        simp [saidBy]
      · rw [← hothers k hk]
        simp [saidBy, Ne.symm hk]
      · obtain heq | he := List.mem_cons.mp he
        · obtain ⟨rfl, rfl⟩ := Prod.mk.inj heq
          refine .inr ⟨?_, rfl⟩
          rw [← hid]
          exact List.mem_cons_self
        · exact hmem' k e he
    · refine ⟨log, hsub, hlog, ?_, hothers, hmem'⟩
      rw [List.cons_append, saidBy_record_cons, if_neg hid]
      exact hown

omit [Inhabited Value] in
theorem records_start (outside : NodeID → X) : N.Records (N.start outside) [] where
  justified := trivial
  said _ _ := rfl
  hashed _ _ h := nomatch h
  faithful _ _ := (correct_new _ _).honest.faithful
  correct _ _ _ := correct_new _ _

omit [Inhabited Value] in
/-- What is deliverable was said. -/
theorem Records.admits (h : N.Records net log) {event : Event X Value} (hdeliverable : N.Deliverable net event)
    {base : List (SCPStatement (BallotPledges Value))} : N.Admits ⟨base, log⟩ event := by
  cases event with
  | recvSCPEnvelope env =>
    intro hhonest
    obtain ⟨sent, hsent, heq⟩ := hdeliverable hhonest
    obtain ⟨hmem, -⟩ := (h.faithful _ hhonest).sent sent (.inr hsent)
    rw [heq] at hmem
    have hlog : (env.statement.nodeID, env.statement.pledges) ∈ log :=
      (mem_log_iff h hhonest).mpr (mem_record hmem)
    exact ⟨hlog, h.hashed _ _ hlog⟩
  | bumpState => trivial
  | ballotProtocolTimerExpired => trivial
  | outside => trivial

theorem handled_spec {w : Past Value} {o : N.Occurrence} {p : Party X Value}
    (hcorrect : N.Correct o.node w p.protocol) (hrunning : p.stopped = false) (hadmits : N.Admits w o.event) :
    N.Faithful o.node w (N.handled o p).protocol.messages ∧
      ((N.handled o p).stopped = false → N.Correct o.node w (N.handled o p).protocol) := by
  have hends := correct_handle o.isHonest o.fuel hadmits p.protocol hcorrect
  unfold handled
  rw [if_neg (by simp [hrunning])]
  cases hresult : handle (N.driver o.node) o.fuel o.event p.protocol with
  | ok _ s =>
    rw [hresult] at hends
    exact ⟨hends.honest.faithful, fun _ => hends⟩
  | error _ s =>
    rw [hresult] at hends
    exact ⟨hends, fun h => nomatch h⟩

/-- Each event at an honest node extends the record. -/
theorem Records.step (h : N.Records net log) {o : N.Occurrence} (ho : N.Allowed net o) :
    ∃ log', N.Records (N.step net o) log' := by
  by_cases hrunning : (net o.node).stopped = false
  · obtain ⟨hfaithful, hcorrect⟩ :=
      handled_spec (h.correct _ o.isHonest hrunning) hrunning (h.admits ho)
    obtain ⟨log', hsub, hjustified, hown, hothers, hmem⟩ := exists_record hfaithful o.isHonest h.justified
      (h.said _ o.isHonest) hfaithful.kept List.suffix_rfl
    have hself : N.step net o o.node = N.handled o (net o.node) := Function.update_self ..
    have hother : ∀ k, k ≠ o.node → N.step net o k = net k := fun k hk => Function.update_of_ne hk ..
    refine ⟨log', hjustified, fun k hk => ?_, fun k st hst => ?_, fun k hk => ?_, fun k hk hrun => ?_⟩
    · by_cases hkn : k = o.node
      · rw [hkn, hself]
        exact hown
      · rw [hother k hkn, hothers k hkn]
        exact h.said k hk
    · obtain hst | ⟨hst, rfl⟩ := hmem k st hst
      · exact h.hashed k st hst
      · obtain ⟨st', hst', heq⟩ := List.mem_map.mp hst
        obtain ⟨hid, rfl⟩ := Prod.mk.inj heq
        rw [← hid]
        exact hfaithful.recalls.hashed st' hst' (hid ▸ o.isHonest)
    · by_cases hkn : k = o.node
      · rw [hkn, hself]
        exact hfaithful.later hsub
      · rw [hother k hkn]
        exact (h.faithful k hk).later hsub
    · by_cases hkn : k = o.node
      · rw [hkn, hself] at hrun ⊢
        exact (hcorrect hrun).later hsub
      · rw [hother k hkn] at hrun ⊢
        exact (h.correct k hk hrun).later hsub
  -- a node that stopped handles nothing
  · have hsame : N.step net o = net := by
      unfold SlotNodes.step handled
      rw [if_pos (by simpa using hrunning), Function.update_eq_self]
    rw [hsame]
    exact ⟨log, h⟩

/-! ## Agreement -/

/-- The node recorded or emitted a commit to the value, or is on it after the PREPARE phase. -/
def Decides (n : NodeID) (p : Party X Value) (v : Value) : Prop :=
  (∃ st ∈ p.protocol.mStatementsHistory, st.nodeID = n ∧ committed st.pledges = some v) ∨
    (∃ env ∈ p.protocol.emitted, committed env.statement.pledges = some v) ∨
    p.stopped = false ∧ p.protocol.mPhase ≠ .SCP_PHASE_PREPARE ∧ p.protocol.mCommit.map SCPBallot.value = some v

/-- Behind each decision there is a quorum whose honest nodes recorded votes to commit a ballot of the value. -/
def Voted (N : SlotNodes X Value) (net : Parties X Value) : Prop :=
  ∀ n ∈ N.honest, ∀ v, Decides n (net n) v → ∃ b : SCPBallot Value, b.value = v ∧
    ∃ U, N.trust.Quorum U ∧ ∀ m ∈ U, m ∈ N.honest →
      ∃ st ∈ (net m).protocol.mStatementsHistory, st.nodeID = m ∧ VotesCommit b st.pledges

/-- No two decisions of honest nodes differ. -/
def Agrees (N : SlotNodes X Value) (net : Parties X Value) : Prop :=
  ∀ n ∈ N.honest, ∀ m ∈ N.honest, ∀ v w, Decides n (net n) v → Decides m (net m) w → v = w

omit [Inhabited Value] in
/-- What a node decides it said. -/
theorem Records.exists_committed (h : N.Records net log) (hn : n ∈ N.honest) {v : Value}
    (hv : Decides n (net n) v) : ∃ st, (n, st) ∈ log ∧ committed st = some v := by
  obtain ⟨st, hst, hid, hc⟩ | ⟨env, henv, hc⟩ | ⟨hrunning, hphase, hc⟩ := hv
  · subst hid
    exact ⟨st.pledges, (mem_log_iff h hn).mpr (mem_record hst), hc⟩
  · obtain ⟨hmem, hid⟩ := (h.faithful n hn).sent env (.inr henv)
    subst hid
    exact ⟨env.statement.pledges, (mem_log_iff h hn).mpr (mem_record hmem), hc⟩
  · obtain hfalse | ⟨e, he, hce⟩ := (h.correct n hn hrunning).honest.continues.decided hphase
    · exact hfalse.elim
    · exact ⟨e, (mem_log_iff h hn).mpr (mem_saidBy.mp he), hce.trans hc⟩

omit [Inhabited Value] in
theorem Records.agrees (h : N.Records net log) (hT : N.trust.Sound) : N.Agrees net := by
  intro n hn m hm v w hv hw
  obtain ⟨st, hst, hc⟩ := h.exists_committed hn hv
  obtain ⟨e, he, hce⟩ := h.exists_committed hm hw
  exact committed_unique hT h.justified hst he hc hce

omit [Inhabited Value] in
theorem Records.voted (h : N.Records net log) (hT : N.trust.Sound) : N.Voted net := by
  intro n hn v hv
  obtain ⟨st, hst, hc⟩ := h.exists_committed hn hv
  obtain ⟨b, ⟨U, hU, hheard⟩, hb⟩ := exists_rooted_of_committed hT h.justified hst hc
  refine ⟨b, hb, U, hU, fun m hm hhonest => ?_⟩
  obtain ⟨e, he, hvote⟩ := hheard m hm hhonest
  obtain ⟨st', hst', heq⟩ := List.mem_map.mp ((mem_log_iff h hhonest).mp he)
  obtain ⟨hid, rfl⟩ := Prod.mk.inj heq
  exact ⟨st', hst', hid, hvote⟩

variable (N)

theorem records_throughout (outside : NodeID → X) (run : List N.Occurrence)
    (hallowed : EachStep N.step N.Allowed (N.start outside) run) :
    Throughout N.step (fun net => ∃ log, N.Records net log) (N.start outside) run := by
  apply throughout_of_eachStep _ ⟨[], records_start outside⟩ hallowed
  rintro net o ⟨log, h⟩ ho
  exact h.step ho

/-- **Agreement.** If any two quorums share an honest node and the honest nodes are enough for each of them,
then in every run, whatever the other nodes send, no two honest nodes decide differently. -/
theorem agrees_throughout (hT : N.trust.Sound) (outside : NodeID → X) (run : List N.Occurrence)
    (hallowed : EachStep N.step N.Allowed (N.start outside) run) :
    Throughout N.step N.Agrees (N.start outside) run := by
  refine Throughout.mono (N.records_throughout outside run hallowed) fun net ⟨log, h⟩ => ?_
  exact h.agrees hT

/-- In every such run no honest node decides on a value without a quorum that voted to commit it. -/
theorem voted_throughout (hT : N.trust.Sound) (outside : NodeID → X) (run : List N.Occurrence)
    (hallowed : EachStep N.step N.Allowed (N.start outside) run) :
    Throughout N.step N.Voted (N.start outside) run := by
  refine Throughout.mono (N.records_throughout outside run hallowed) fun net ⟨log, h⟩ => ?_
  exact h.voted hT

instance [DecidablePred (· ∈ N.honest)] (net : Parties X Value) (o : N.Occurrence) [DecidableEq Value] :
    Decidable (N.Allowed net o) := by
  unfold Allowed Deliverable
  cases o.event with
  | recvSCPEnvelope env => infer_instance
  | bumpState => infer_instance
  | ballotProtocolTimerExpired => infer_instance
  | outside => infer_instance

/-- Any three of four nodes, of which the fourth is not honest. -/
def threeOfFour : SCPQuorumSet := .mk 3 [1, 2, 3, 4] []

def fourNodes : SlotNodes Unit (List (Fin 256)) where
  honest := {n | n = 1 ∨ n = 2 ∨ n = 3}
  driver n := { twoNodes with
    localNodeID := n
    quorumSet := threeOfFour
    getQSet := fun _ hash => if hash = 7 then some threeOfFour else none }
  localNodeID _ _ := rfl
  sane _ _ := show isQuorumSetSane threeOfFour false = true by decide +kernel
  resolves n _ m _ x q h := by
    dsimp only at h ⊢
    split_ifs at h
    exact (Option.some.inj h).symm

instance : DecidablePred (· ∈ fourNodes.honest) := fun n =>
  inferInstanceAs (Decidable (n = 1 ∨ n = 2 ∨ n = 3))

/-- Of the honest nodes a slice has two. -/
theorem honest_of_slice {l : List NodeID} (h : LocalNode.isQuorumSlice threeOfFour l = true) :
    1 ∈ l ∧ 2 ∈ l ∨ 1 ∈ l ∧ 3 ∈ l ∨ 2 ∈ l ∧ 3 ∈ l := by
  unfold LocalNode.isQuorumSlice threeOfFour LocalNode.isQuorumSliceInternal LocalNode.innerSlices at h
  by_cases h1 : (1 : NodeID) ∈ l <;> by_cases h2 : (2 : NodeID) ∈ l <;> by_cases h3 : (3 : NodeID) ∈ l <;>
    by_cases h4 : (4 : NodeID) ∈ l <;> simp_all [LocalNode.reachesThreshold]

theorem sound_fourNodes : fourNodes.trust.Sound where
  intersect U V hU hV := by
    obtain ⟨⟨n, -, l, hl, hslice⟩, -⟩ := hU
    obtain ⟨⟨m, -, l', hl', hslice'⟩, -⟩ := hV
    have hone : (1 : NodeID) ∈ fourNodes.honest := .inl rfl
    have htwo : (2 : NodeID) ∈ fourNodes.honest := .inr (.inl rfl)
    have hthree : (3 : NodeID) ∈ fourNodes.honest := .inr (.inr rfl)
    obtain ⟨h1, h2⟩ | ⟨h1, h3⟩ | ⟨h2, h3⟩ := honest_of_slice hslice <;>
      obtain ⟨h1', h2'⟩ | ⟨h1', h3'⟩ | ⟨h2', h3'⟩ := honest_of_slice hslice'
    · exact ⟨1, hone, hl 1 h1, hl' 1 h1'⟩
    · exact ⟨1, hone, hl 1 h1, hl' 1 h1'⟩
    · exact ⟨2, htwo, hl 2 h2, hl' 2 h2'⟩
    · exact ⟨1, hone, hl 1 h1, hl' 1 h1'⟩
    · exact ⟨1, hone, hl 1 h1, hl' 1 h1'⟩
    · exact ⟨3, hthree, hl 3 h3, hl' 3 h3'⟩
    · exact ⟨2, htwo, hl 2 h2, hl' 2 h2'⟩
    · exact ⟨3, hthree, hl 3 h3, hl' 3 h3'⟩
    · exact ⟨2, htwo, hl 2 h2, hl' 2 h2'⟩
  available n _ := by
    have hslice : LocalNode.isQuorumSlice threeOfFour [1, 2, 3] = true := by decide +kernel
    refine ⟨[1, 2, 3], fun m hm => ?_, hslice⟩
    have hm : m = 1 ∨ m = 2 ∨ m = 3 := by simpa using hm
    exact hm

/-- Nodes 1 and 2 vote for one value, node 3 for another; node 4 tells node 3 to prepare that one and claims
to the others that theirs is committed. -/
def fourNodesRun : List fourNodes.Occurrence :=
  let one := fun event => (⟨1, .inl rfl, 8, event⟩ : fourNodes.Occurrence)
  let two := fun event => (⟨2, .inr (.inl rfl), 8, event⟩ : fourNodes.Occurrence)
  let three := fun event => (⟨3, .inr (.inr rfl), 8, event⟩ : fourNodes.Occurrence)
  let five : SCPBallot (List (Fin 256)) := ⟨1, [5]⟩
  let heard := fun n pledges => Event.recvSCPEnvelope ⟨⟨n, 1, pledges⟩, []⟩
  [one (.bumpState [5] false), two (.bumpState [5] false), three (.bumpState [9] false),
    three (heard 4 (.prepare 7 ⟨1, [9]⟩ none none 0 0)),
    one (heard 4 (.confirm five 1 1 1 7)), two (heard 4 (.confirm five 1 1 1 7)),
    one (heard 2 (.prepare 7 five none none 0 0)), two (heard 1 (.prepare 7 five (some five) none 0 0)),
    one (heard 2 (.prepare 7 five (some five) none 1 1)), two (heard 1 (.confirm five 1 1 1 7)),
    one (heard 2 (.externalize five 1 7))]

/-- In this run the first two nodes externalize. -/
theorem agrees_throughout_fourNodes :
    Throughout fourNodes.step fourNodes.Agrees (fourNodes.start fun _ => ()) fourNodesRun ∧
      ((fourNodesRun.foldl fourNodes.step (fourNodes.start fun _ => ())) 1).protocol.mPhase = .SCP_PHASE_EXTERNALIZE ∧
      ((fourNodesRun.foldl fourNodes.step (fourNodes.start fun _ => ())) 2).protocol.mPhase = .SCP_PHASE_EXTERNALIZE :=
  ⟨agrees_throughout fourNodes sound_fourNodes (fun _ => ()) fourNodesRun (by decide +kernel),
    by decide +kernel, by decide +kernel⟩

theorem voted_throughout_fourNodes :
    Throughout fourNodes.step fourNodes.Voted (fourNodes.start fun _ => ()) fourNodesRun :=
  voted_throughout fourNodes sound_fourNodes (fun _ => ()) fourNodesRun (by decide +kernel)

end SlotNodes

end ZaggCore.Scp
