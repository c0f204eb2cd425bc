import ZaggCore.Scp.HonestNodes
import ZaggCore.Scp.MoveSpecs

/-! # Runs of an honest node

Whatever an honest node works through, each statement that it records for itself is grounded in what it
recorded before and follows what it said before; so is what it leaves behind where a call throws. -/

namespace ZaggCore.Scp
open Foundations BallotProtocol SortedKeys
set_option autoImplicit false
set_option maxHeartbeats 250000

variable {X Value : Type} [LinearOrder Value]

omit [LinearOrder Value] in
theorem saidBy_record_cons {n : NodeID} (st : SCPStatement (BallotPledges Value))
    (history : List (SCPStatement (BallotPledges Value))) :
    saidBy (record (st :: history)) n =
      if st.nodeID = n then st.pledges :: saidBy (record history) n else saidBy (record history) n := by
  unfold saidBy record
  rw [List.map_cons, List.filter_cons]
  split_ifs with h h' h' <;> simp_all

omit [LinearOrder Value] in
theorem hash_pledgesAt [Inhabited Value] (d : BallotDriver X Value) (r : Position Value) :
    getCompanionQuorumSetHashFromStatement (pledgesAt d r) = d.quorumSetHash := by
  unfold pledgesAt
  split <;> rfl

namespace SlotNodes

/-- What the node recorded before, and what the other honest nodes have said so far. -/
structure Past (Value : Type) where
  base : List (SCPStatement (BallotPledges Value))
  log : BallotRecord Value

section Invariants

variable (N : SlotNodes X Value) (n : NodeID) (w : Past Value)

/-- What is known of the messages of an honest node at any time. -/
structure Faithful (m : Messages Value) : Prop where
  recalls : N.Recalls m.latest m.history
  kept : w.base <:+ m.history
  justified : ∀ st earlier, st :: earlier <:+ m.history → st.nodeID = n →
    Grounded N.trust (record earlier) n st.pledges ∧ Follows st.pledges (saidBy (record earlier) n)
  heard : ∀ st ∈ m.history, st.nodeID ∈ N.honest → st.nodeID ≠ n → (st.nodeID, st.pledges) ∈ w.log
  sent : ∀ env, m.last = some env ∨ env ∈ m.emitted → env.statement ∈ m.history ∧ env.statement.nodeID = n

/-- The same with its position. -/
structure Honest (pending : Prop) (s : BallotProtocol X Value) : Prop where
  faithful : N.Faithful n w s.messages
  backed : s.position.Backed N.trust (record s.messages.history) n
  continues : s.position.Continues pending (saidBy (record s.messages.history) n)

/-- A state in which nothing is pending. -/
structure Correct (s : BallotProtocol X Value) : Prop where
  sound : Sound (N.driver n) .start s
  honest : N.Honest n w False s

/-- A state from which the node emits; from a broken position the emission throws. -/
structure Leaves (s : BallotProtocol X Value) : Prop where
  pending : Pending (N.driver n) .start true s
  faithful : N.Faithful n w s.messages
  honest : s.position.Good → N.Honest n w True s

/-- A statement of another honest node was said by it. -/
def Hears (env : SCPEnvelope (BallotPledges Value)) : Prop :=
  env.statement.nodeID ∈ N.honest → (env.statement.nodeID, env.statement.pledges) ∈ w.log ∧
    getCompanionQuorumSetHashFromStatement env.statement.pledges = (N.driver env.statement.nodeID).quorumSetHash

end Invariants

variable {N : SlotNodes X Value} {n : NodeID} {w : Past Value}

section Invariants

variable {pending : Prop} {s s' : BallotProtocol X Value} {m : Messages Value}

theorem Honest.stay (h : N.Honest n w pending s) (hs' : At s.position s.messages s') :
    N.Honest n w pending s' := by
  obtain ⟨hr, hm⟩ := hs'
  exact ⟨hm ▸ h.faithful, hr ▸ hm ▸ h.backed, hr ▸ hm ▸ h.continues⟩

theorem Correct.stay (h : N.Correct n w s) (hs' : At s.position s.messages s') : N.Correct n w s' :=
  ⟨h.sound.stay hs', h.honest.stay hs'⟩

theorem Correct.leaves (h : N.Correct n w s) : N.Leaves n w s :=
  ⟨.inl h.sound, h.honest.faithful, fun _ => ⟨h.honest.faithful, h.honest.backed, h.honest.continues.pend⟩⟩

/-- A move of the position that the node goes on to emit from. -/
theorem Correct.move {r : Position Value} (h : N.Correct n w s)
    (hr : r.Good ∧ s.position.Advances r ∨ r.Broken)
    (hbacked : r.Good → r.Backed N.trust (record s.messages.history) n)
    (hcontinues : r.Good → r.Continues True (saidBy (record s.messages.history) n))
    (hs' : At r s.messages s') : N.Leaves n w s' := by
  have hat := hs'
  obtain ⟨rfl, hm⟩ := hs'
  refine ⟨?_, hm ▸ h.honest.faithful, fun hgood => ⟨hm ▸ h.honest.faithful, ?_, ?_⟩⟩
  · obtain ⟨hgood, hadvances⟩ | hbroken := hr
    · exact .inl (h.sound.move hat hgood hadvances)
    · exact .inr ⟨rfl, hbroken, s.position, hm ▸ h.sound.sent⟩
  · rw [hm]
    exact hbacked hgood
  · rw [hm]
    exact hcontinues hgood

/-- An envelope is recorded that is not the node's own. -/
theorem Faithful.recordEnvelope (h : N.Faithful n w m) {env : SCPEnvelope (BallotPledges Value)}
    (hashed : env.statement.nodeID ∈ N.honest → getCompanionQuorumSetHashFromStatement env.statement.pledges =
      (N.driver env.statement.nodeID).quorumSetHash)
    (hown : env.statement.nodeID = n → Grounded N.trust (record m.history) n env.statement.pledges ∧
      Follows env.statement.pledges (saidBy (record m.history) n))
    (hother : env.statement.nodeID ∈ N.honest → env.statement.nodeID ≠ n →
      (env.statement.nodeID, env.statement.pledges) ∈ w.log) :
    N.Faithful n w { m with
      latest := LocalNode.insertOrAssign m.latest env, history := env.statement :: m.history } where
  recalls := by
    refine ⟨sortedBy_insertOrAssign _ h.recalls.sorted env, fun env' henv' => ?_, fun st hst => ?_⟩
    · obtain rfl | ⟨henv', -⟩ := (mem_insertOrAssign _ h.recalls.sorted).mp henv'
      · exact List.mem_cons_self
      · exact List.mem_cons_of_mem _ (h.recalls.recorded env' henv')
    · obtain rfl | hst := List.mem_cons.mp hst
      · exact hashed
      · exact h.recalls.hashed st hst
  kept := h.kept.trans (List.suffix_cons _ _)
  justified st earlier hsuffix hid := by
    obtain heq | hsuffix := List.suffix_cons_iff.mp hsuffix
    · obtain ⟨rfl, rfl⟩ := List.cons.inj heq
      exact hown hid
    · exact h.justified st earlier hsuffix hid
  heard st hst hhonest hne := by
    obtain rfl | hst := List.mem_cons.mp hst
    · exact hother hhonest hne
    · exact h.heard st hst hhonest hne
  sent env' henv' := by
    obtain ⟨hmem, hid⟩ := h.sent env' henv'
    exact ⟨List.mem_cons_of_mem _ hmem, hid⟩

theorem Honest.recordOther (h : N.Honest n w pending s) {env : SCPEnvelope (BallotPledges Value)}
    (hne : env.statement.nodeID ≠ n) (hhears : N.Hears w env)
    (hs' : At s.position { s.messages with
      latest := LocalNode.insertOrAssign s.messages.latest env
      history := env.statement :: s.messages.history } s') : N.Honest n w pending s' := by
  obtain ⟨hr, hm⟩ := hs'
  refine ⟨hm ▸ h.faithful.recordEnvelope (fun hhonest => (hhears hhonest).2) (fun hid => absurd hid hne)
    fun hhonest _ => (hhears hhonest).1, ?_, ?_⟩
  · rw [hr, hm]
    exact h.backed.mono (Trust.covers_of_subset (List.subset_cons_self _ _))
  · rw [hr, hm]
    show s.position.Continues pending (saidBy (record (env.statement :: s.messages.history)) n)
    rw [saidBy_record_cons, if_neg hne]
    exact h.continues

variable [Inhabited Value]

/-- What the node says of its position is recorded. -/
theorem Honest.recordOwn (hn : n ∈ N.honest) (h : N.Honest n w True s) (hgood : s.position.Good)
    {env : SCPEnvelope (BallotPledges Value)} (hst : env.statement = statementAt (N.driver n) s.position)
    (hs' : At s.position { s.messages with
      latest := LocalNode.insertOrAssign s.messages.latest env
      history := env.statement :: s.messages.history } s') : N.Honest n w False s' := by
  have hid : env.statement.nodeID = n := by
    rw [hst]
    exact N.localNodeID n hn
  have hpledges : env.statement.pledges = pledgesAt (N.driver n) s.position := by rw [hst]; rfl
  obtain ⟨hr, hm⟩ := hs'
  refine ⟨hm ▸ h.faithful.recordEnvelope (fun _ => ?_) (fun _ => ?_)
    fun _ hne => absurd hid hne, ?_, ?_⟩
  · rw [hid, hpledges]
    exact hash_pledgesAt _ _
  · rw [hpledges]
    exact ⟨h.backed.grounded hgood _, h.continues.follows hgood⟩
  · rw [hr, hm]
    exact h.backed.mono (Trust.covers_of_subset (List.subset_cons_self _ _))
  · rw [hr, hm]
    show s.position.Continues False (saidBy (record (env.statement :: s.messages.history)) n)
    rw [saidBy_record_cons, if_pos hid, hpledges]
    exact h.continues.settle hgood List.mem_cons_self (List.subset_cons_self _ _)
      fun e he => (List.mem_cons.mp he).symm

/-- What the node says of its position was recorded already. -/
theorem Honest.settle (hn : n ∈ N.honest) (h : N.Honest n w True s) (hgood : s.position.Good)
    (hst : statementAt (N.driver n) s.position ∈ s.messages.history) : N.Honest n w False s where
  faithful := h.faithful
  backed := h.backed
  continues := by
    refine h.continues.settle (d := N.driver n) hgood (mem_saidBy.mpr ?_) (List.Subset.refl _) fun e he => .inl he
    have hmem := mem_record hst
    rwa [show (statementAt (N.driver n) s.position).nodeID = n from N.localNodeID n hn] at hmem

end Invariants

/-! ## Emission -/

section Emission

variable {pending : Prop}

/-- Where a call throws, the messages are as faithful as before. -/
theorem Honest.throws {s : BallotProtocol X Value} (h : N.Honest n w pending s) :
    ∀ (_ : Failure) (s' : BallotProtocol X Value), s'.messages = s.messages → N.Faithful n w s'.messages :=
  fun _ _ hm => hm ▸ h.faithful

theorem honest_of_neutral {α : Type} {x : Ballot X Value α} (hx : Neutral x) :
    Triple (N.Honest n w pending) x (fun _ => N.Honest n w pending) fun _ s => N.Faithful n w s.messages :=
  fun s hs => (hx s.position s.messages s ⟨rfl, rfl⟩).imp (fun _ _ h => hs.stay h) fun e _ h => hs.throws e _ h.2

theorem honest_sendLatestEnvelope : Triple (N.Honest n w pending) (sendLatestEnvelope (N.driver n))
    (fun _ => N.Honest n w pending) fun _ s => N.Faithful n w s.messages := by
  refine Triple.get_bind fun s hs => ?_
  cases hlast : s.mLastEnvelope with
  | none => exact Triple.pure fun _ h => h ▸ hs
  | some env =>
    refine Triple.onlyIf (fun _ => ?_) fun _ _ h => h ▸ hs
    refine Triple.bind (Q := fun _ => N.Honest n w pending) (Triple.modify fun s' hs' => ?_) fun _ =>
      honest_of_neutral (neutral_call _)
    subst hs'
    refine ⟨⟨hs.faithful.recalls, hs.faithful.kept, hs.faithful.justified, hs.faithful.heard,
      fun env' henv' => ?_⟩, hs.backed, hs.continues⟩
    obtain henv' | henv' := henv'
    · exact hs.faithful.sent env' (.inl henv')
    · obtain rfl | henv' := List.mem_cons.mp henv'
      · exact hs.faithful.sent env' (.inl hlast)
      · exact hs.faithful.sent env' (.inr henv')

theorem honest_updateLastEnvelope (canEmit : Bool) {env : SCPEnvelope (BallotPledges Value)}
    (hid : env.statement.nodeID = n) :
    Triple (fun s => N.Honest n w pending s ∧ env.statement ∈ s.messages.history)
      (updateLastEnvelope (N.driver n) canEmit env) (fun _ => N.Honest n w pending)
      fun _ s => N.Faithful n w s.messages := by
  refine Triple.get_bind fun s hs => Triple.onlyIf (fun _ => ?_) fun _ _ h => h ▸ hs.1
  refine Triple.bind (Q := fun _ => N.Honest n w pending) (Triple.modify fun s' hs' => ?_) fun _ =>
    honest_sendLatestEnvelope
  subst hs'
  obtain ⟨hs, hmem⟩ := hs
  refine ⟨⟨hs.faithful.recalls, hs.faithful.kept, hs.faithful.justified, hs.faithful.heard,
    fun env' henv' => ?_⟩, hs.backed, hs.continues⟩
  obtain henv' | henv' := henv'
  · obtain rfl := Option.some.inj henv'
    exact ⟨hmem, hid⟩
  · exact hs.faithful.sent env' (.inr henv')

variable [Inhabited Value]

/-- What the functions that emit may rely on. -/
structure Processes (N : SlotNodes X Value) (n : NodeID)
    (process : SCPEnvelope (BallotPledges Value) → Bool → Ballot X Value EnvelopeState) : Prop where
  spec : ProcessSpec (N.driver n) process
  other : ∀ w env, env.statement.nodeID ≠ n → N.Hears w env →
    Triple (N.Correct n w) (process env false) (fun _ => N.Honest n w False) fun _ s => N.Faithful n w s.messages
  own : ∀ w env, Triple (fun s => Sound (N.driver n) .start s ∧ N.Honest n w True s ∧
      env.statement = statementAt (N.driver n) s.position) (process env true)
    (fun result s => N.Faithful n w s.messages ∧
      (result = .VALID → N.Honest n w False s ∧ env.statement ∈ s.messages.history))
    fun _ s => N.Faithful n w s.messages
  insane : ∀ env, isPledgesSane true env.statement.pledges = false → ∀ m,
    Triple (fun s => s.messages = m) (process env true) (fun result s => s.messages = m ∧ result = .INVALID)
      fun _ s => s.messages = m

variable {process : SCPEnvelope (BallotPledges Value) → Bool → Ballot X Value EnvelopeState}

theorem honest_emit (hn : n ∈ N.honest) (hprocess : N.Processes n process) :
    Triple (N.Leaves n w) (emitCurrentStateStatement (N.driver n) process) (fun _ => N.Honest n w False)
      fun _ s => N.Faithful n w s.messages := by
  refine Triple.get_bind fun s hs => Triple.pre (P := At s.position s.messages) ?_ fun _ h => h ▸ ⟨rfl, rfl⟩
  have hthrows : ∀ (_ : Failure) (s' : BallotProtocol X Value), s'.messages = s.messages →
      N.Faithful n w s'.messages :=
    fun _ _ hm => hm ▸ hs.faithful
  refine ((silent_createStatement _).at (triple_createStatement (N.driver n) s.position s.messages)
    hthrows).bind fun st => Triple.assume fun hdescribes => ?_
  refine Triple.bind (Q := fun env s' => At s.position s.messages s' ∧ env.statement = st) ?_ fun env => ?_
  · exact ((neutral_call _).silent.at ((neutral_call _).returns _ _) hthrows).bind fun _ =>
      Triple.pure fun _ h => ⟨h, rfl⟩
  refine Triple.assume fun henv => ?_
  subst henv
  have hst := hdescribes.eq
  have hid : env.statement.nodeID = n := hdescribes.nodeID.trans (N.localNodeID n hn)
  obtain hsound | ⟨-, hbroken, r, hsent⟩ := hs.pending
  · have hhonest := hs.honest hsound.good
    refine Triple.onlyIf (fun _ => ?_) fun hfind s' hs' => ?_
    · refine Triple.bind ((hprocess.own w env).pre fun s' hs' => ?_) fun result => ?_
      · exact ⟨hsound.stay hs', hhonest.stay hs', by rw [hs'.1]; exact hst⟩
      · refine Triple.ite (fun hvalid => ?_) fun _ => Triple.throw fun s' hs' => hs'.1
        exact (honest_updateLastEnvelope _ hid).pre fun s' hs' => hs'.2 hvalid
    -- the same envelope is recorded already
    · refine (hhonest.settle hn hsound.good ?_).stay hs'
      rw [← hst]
      exact hs.faithful.recalls.recorded env (mem_of_lookup _ (not_not.mp hfind)).1
  · have hinsane := hdescribes.pledges.insane hbroken
    refine Triple.onlyIf (fun _ => ?_) fun hfind => ?_
    · refine Triple.bind (((hprocess.insane env hinsane s.messages).pre fun s' hs' => hs'.2).error hthrows)
        fun result => Triple.assume fun hinvalid => Triple.ite (fun hvalid => ?_) fun _ => ?_
      · exact nomatch hvalid.symm.trans hinvalid
      · exact Triple.throw fun s' hs' => hthrows .nullDereference s' hs'
    · exact nomatch hinsane.symm.trans (hsent.sane env (not_not.mp hfind))

theorem correct_emit (hn : n ∈ N.honest) (hprocess : N.Processes n process) :
    Triple (N.Leaves n w) (emitCurrentStateStatement (N.driver n) process) (fun _ => N.Correct n w)
      fun _ s => N.Faithful n w s.messages :=
  ((((triple_emit hprocess.spec .start).and (honest_emit hn hprocess)).pre fun _ hs => ⟨hs.pending, hs⟩).post
    fun _ _ hs => ⟨hs.1, hs.2⟩).error fun _ _ hs => hs.2

end Emission

/-! ## Programs that leave an honest node correct -/

/-- Where the program throws the messages are still faithful. -/
def Stays {α : Type} (N : SlotNodes X Value) (n : NodeID) (x : Ballot X Value α) : Prop :=
  ∀ w, Triple (N.Correct n w) x (fun _ => N.Correct n w) fun _ s => N.Faithful n w s.messages

section Stays

variable {α β : Type} {x : Ballot X Value α}

/-- That the state stays sound is known already. -/
theorem Stays.of_honest (hx : Keeps (N.driver n) x) (h : ∀ w, Triple (N.Correct n w) x
    (fun _ => N.Honest n w False) fun _ s => N.Faithful n w s.messages) : N.Stays n x :=
  fun w => ((((hx .start).and (h w)).pre fun _ hs => ⟨hs.sound, hs⟩).post fun _ _ hs => ⟨hs.1, hs.2⟩).error
    fun _ _ hs => hs.2

theorem stays_of_neutral (hx : Neutral x) : N.Stays n x :=
  Stays.of_honest hx.keeps fun _ => (honest_of_neutral hx).pre fun _ hs => hs.honest

theorem stays_pure (a : α) : N.Stays n (pure a : Ballot X Value α) := stays_of_neutral (neutral_pure a)

theorem Stays.bind {f : α → Ballot X Value β} (hx : N.Stays n x) (hf : ∀ a, N.Stays n (f a)) :
    N.Stays n (x >>= f) :=
  fun w => (hx w).bind fun a => hf a w

theorem Stays.onlyIf {c : Prop} [Decidable c] {x : Ballot X Value Unit} (hx : N.Stays n x) :
    N.Stays n (onlyIf c x) :=
  fun w => Triple.onlyIf (fun _ => hx w) fun _ _ h => h

theorem Stays.discard (hx : N.Stays n x) : N.Stays n (discard x) :=
  fun w => Triple.map _ (hx w)

theorem Stays.of_eq {s : BallotProtocol X Value} (hx : N.Stays n x) (hs : N.Correct n w s) :
    Triple (· = s) x (fun _ => N.Correct n w) fun _ s => N.Faithful n w s.messages :=
  (hx w).pre fun _ h => h ▸ hs

theorem stays_get_bind {f : BallotProtocol X Value → Ballot X Value α}
    (hf : ∀ w s, N.Correct n w s → Triple (· = s) (f s) (fun _ => N.Correct n w)
      fun _ s => N.Faithful n w s.messages) : N.Stays n (get >>= f) :=
  fun w => Triple.get_bind fun s hs => hf w s hs

theorem stays_throw (e : Failure) : N.Stays n (throw e : Ballot X Value α) :=
  fun _ => Triple.throw fun _ hs => hs.honest.faithful

theorem stays_sendLatestEnvelope : N.Stays n (sendLatestEnvelope (N.driver n)) :=
  Stays.of_honest (keeps_sendLatestEnvelope _) fun _ => honest_sendLatestEnvelope.pre fun _ hs => hs.honest

end Stays

/-! ## The attempts -/

section Attempts

variable [Inhabited Value] {process : SCPEnvelope (BallotPledges Value) → Bool → Ballot X Value EnvelopeState}
  {s : BallotProtocol X Value} (hn : n ∈ N.honest) (hprocess : N.Processes n process)

include hn hprocess

/-- What holds where the node emits from a move. -/
theorem emit_of_move {r : Position Value} (hs : N.Correct n w s)
    (hr : r.Good ∧ s.position.Advances r ∨ r.Broken)
    (hbacked : r.Good → r.Backed N.trust (record s.messages.history) n)
    (hcontinues : r.Good → r.Continues True (saidBy (record s.messages.history) n)) :
    Triple (At r s.messages) (emitCurrentStateStatement (N.driver n) process) (fun _ => N.Honest n w False)
      fun _ s => N.Faithful n w s.messages :=
  ((correct_emit hn hprocess).pre fun _ hs' => hs.move hr hbacked hcontinues hs').post fun _ _ hs => hs.honest

theorem stays_attemptPreparedAccept (hint : BallotPledges Value) :
    N.Stays n (attemptPreparedAccept (N.driver n) process hint) := by
  refine Stays.of_honest (keeps_attemptPreparedAccept hprocess.spec hint) fun w s hs => ?_
  refine move_attemptPreparedAccept hs.honest.throws hint hs.honest (fun _ q c hq haccept hclear => ?_) s rfl
  obtain ⟨-, -, hhigh⟩ := Position.prepare_phase hq
  have hc : c = s.position.commit ∨ c = none ∧ ∃ high t, s.position.high = some high ∧
      (s.position.accept q c).Top t ∧ Conflicts high t := by
    rw [← Position.prepare_commit s.position q]
    refine hclear.imp id fun ⟨hnone, high, t, hh, ht, hconflicts⟩ => ?_
    exact ⟨hnone, high, t, hhigh.symm.trans hh, ht, hconflicts⟩
  have hc' : c = none ∨ c = s.position.commit := hc.symm.imp And.left id
  refine emit_of_move hn hprocess hs (hs.sound.good.accept hq hc') (fun _ => ?_) fun _ => ?_
  · exact hs.honest.backed.accept hq hc' (accepts_of_federatedAccept hn hs.honest.faithful.recalls haccept)
  · exact hs.honest.continues.accept hq hc

theorem stays_attemptPreparedConfirmed (hint : BallotPledges Value) :
    N.Stays n (attemptPreparedConfirmed (N.driver n) process hint) := by
  refine Stays.of_honest (keeps_attemptPreparedConfirmed hprocess.spec hint) fun w s hs => ?_
  refine move_attemptPreparedConfirmed hs.honest.throws hint (fun o s' hs' => ?_)
    (fun hphase newC newH hraisable => ?_) s rfl
  · obtain ⟨hr, hm⟩ := hs'
    refine ⟨hm ▸ hs.honest.faithful, ?_, ?_⟩
    · rw [hr, hm]
      exact hs.honest.backed.setOverride o
    · rw [hr, hm]
      exact hs.honest.continues.setOverride o
  · refine emit_of_move hn hprocess hs ?_ (fun _ => ?_) fun hgood => ?_
    · obtain hgood | ⟨hbroken, -⟩ := hs.sound.good.confirmPrepared hphase hraisable.above hraisable.le
      · exact .inl ⟨hgood, .confirmPrepared hphase hraisable.above⟩
      · exact .inr hbroken
    · exact hs.honest.backed.confirmPrepared hraisable.above hphase
        (ratifies_of_federatedRatify hn hs.honest.faithful.recalls hraisable.ratified)
    · exact Position.Continues.confirmPrepared hraisable.above hphase hs.honest.continues hs.sound.good
        hraisable.ge hgood

theorem stays_attemptAcceptCommit (hint : BallotPledges Value) :
    N.Stays n (attemptAcceptCommit (N.driver n) process hint) := by
  refine Stays.of_honest (keeps_attemptAcceptCommit hprocess.spec hint) fun w s hs => ?_
  refine move_attemptAcceptCommit hs.honest.throws hint (fun o s' hs' => ?_) (fun hphase c h hacceptable => ?_) s rfl
  · obtain ⟨hr, hm⟩ := hs'
    refine ⟨hm ▸ hs.honest.faithful, ?_, ?_⟩
    · rw [hr, hm]
      exact hs.honest.backed.setOverride o
    · rw [hr, hm]
      exact hs.honest.continues.setOverride o
  · obtain ⟨hc, hch, hcv, haccepted, hhigh⟩ := hacceptable
    refine emit_of_move hn hprocess hs (.inl ⟨?_, ?_⟩) (fun _ => ?_) fun _ => ?_
    · exact hs.sound.good.acceptCommit hc hch hcv hhigh
    · exact .acceptCommit hs.sound.good hcv hhigh
    · exact Position.Backed.acceptCommit hphase
        (accepts_of_federatedAccept hn hs.honest.faithful.recalls haccepted)
    · refine Position.Continues.of_phase ?_
      rw [Position.acceptCommit_phase c h hphase]
      decide

theorem stays_attemptConfirmCommit (hint : BallotPledges Value) :
    N.Stays n (attemptConfirmCommit (N.driver n) process hint) := by
  refine Stays.of_honest (keeps_attemptConfirmCommit hprocess.spec hint) fun w s hs => ?_
  refine move_attemptConfirmCommit hs.honest.throws hs.sound.good hint hs.honest
    (fun x hx => honest_of_neutral hx) (fun hphase c h hconfirmable => ?_) s rfl
  obtain ⟨hc, hch, hcv, hhigh, hratified⟩ := hconfirmable
  have hne : s.position.phase ≠ .SCP_PHASE_PREPARE := by
    rw [show s.position.phase = .SCP_PHASE_CONFIRM from hphase]
    decide
  refine emit_of_move hn hprocess hs (.inl ⟨?_, ?_⟩) (fun _ => ?_) fun _ => ?_
  · exact hs.sound.good.confirmCommit hne hc hch hcv hhigh
  · exact .confirmCommit hs.sound.good hphase hcv hhigh
  · exact Position.Backed.confirmCommit (ratifies_of_federatedRatify hn hs.honest.faithful.recalls hratified)
  · exact Position.Continues.of_phase (by nofun)

/-! ## Bumping -/

theorem correct_bumpStateTo (value : Value) (counter : Uint32) (hs : N.Correct n w s)
    (hcounter : s.mCurrentBallot = none → counter ≠ 0) :
    Triple (· = s) (bumpStateTo (N.driver n) process value counter) (fun _ => N.Correct n w)
      fun _ s => N.Faithful n w s.messages := by
  refine Triple.bind (Q := fun _ => N.Correct n w) ?_ fun updated => ?_
  · have hmove : Triple (· = s) (bumpBallot (N.driver n) value counter) (fun _ => N.Honest n w False)
        fun _ s => N.Faithful n w s.messages := by
      refine move_bumpBallot hs.honest.throws hs.sound.good value counter (fun s' hs' => hs.honest.stay hs')
        fun ballot hlt hvalue s' hs' => ?_
      obtain ⟨hr, hm⟩ := hs'
      refine ⟨hm ▸ hs.honest.faithful, ?_, ?_⟩
      · rw [hr, hm]
        exact hs.honest.backed.bump ballot
      · rw [hr, hm]
        exact hs.honest.continues.bump hs.sound.good hlt hvalue
    refine (((triple_bumpBallot value counter .start).and hmove).pre fun s' hs' => ?_).post
      (fun _ _ hs => ⟨hs.1, hs.2⟩) |>.error fun _ _ hs => hs.2
    subst hs'
    exact ⟨⟨hs.sound, hcounter⟩, rfl⟩
  · refine Stays.bind (Stays.onlyIf (Stays.bind (fun w => ?_) fun _ => ?_)) (fun _ => stays_pure updated) w
    · exact (correct_emit hn hprocess).pre fun _ hs => hs.leaves
    · exact stays_of_neutral (neutral_checkHeardFromQuorum _)

theorem stays_bumpState (value : Value) (force : Bool) :
    N.Stays n (bumpState (N.driver n) process value force) := by
  refine stays_get_bind fun w s hs => ?_
  cases hb : s.mCurrentBallot with
  | none => exact correct_bumpStateTo hn hprocess value 1 hs fun _ => by decide
  | some b =>
    refine Triple.ite (fun _ => ?_) fun _ => (stays_pure false).of_eq hs
    exact correct_bumpStateTo hn hprocess value (b.counter + 1) hs fun hnone => nomatch hb.symm.trans hnone

theorem stays_abandonBallot (counter : Uint32) : N.Stays n (abandonBallot (N.driver n) process counter) := by
  refine stays_get_bind fun w s hs => Triple.ite (fun _ => (stays_pure false).of_eq hs) fun _ => ?_
  refine Triple.ite (fun _ => (stays_bumpState hn hprocess _ true).of_eq hs) fun hne => ?_
  exact correct_bumpStateTo hn hprocess _ counter hs fun _ => hne

theorem stays_attemptBump : N.Stays n (attemptBump (N.driver n) process) := by
  refine stays_get_bind fun w s hs => Triple.ite (fun _ => (stays_pure false).of_eq hs) fun _ => ?_
  dsimp only
  split
  · exact (stays_pure false).of_eq hs
  · exact (stays_abandonBallot hn hprocess _).of_eq hs

theorem stays_bumpAll (fuel : ℕ) : N.Stays n (bumpAll (N.driver n) process fuel) := by
  induction fuel with
  | zero => exact stays_throw _
  | succ fuel ih =>
    refine (stays_attemptBump hn hprocess).bind fun didBump w => ?_
    exact Triple.ite (fun _ => ih.bind (fun _ => stays_pure true) w) fun _ => stays_pure false w

theorem stays_bumpAtTop (fuel : ℕ) : N.Stays n (bumpAtTop (N.driver n) process fuel) := by
  refine stays_get_bind fun w s hs => Triple.ite (fun _ => ?_) fun _ => (stays_pure false).of_eq hs
  refine ((stays_bumpAll hn hprocess fuel).bind fun didBump => ?_).of_eq hs
  exact (stays_of_neutral (neutral_checkHeardFromQuorum _)).bind fun _ => stays_pure didBump

theorem stays_advanceSlot (fuel : ℕ) (hint : BallotPledges Value) :
    N.Stays n (advanceSlot (N.driver n) process fuel hint) := by
  have hlevel : ∀ f : ℕ → ℕ, N.Stays n (modify fun s : BallotProtocol X Value =>
      { s with mCurrentMessageLevel := f s.mCurrentMessageLevel }) :=
    fun f => stays_of_neutral fun _ _ => Triple.modify fun _ h => h
  refine (hlevel (· + 1)).bind fun _ => stays_get_bind fun w s hs => Triple.pre (P := N.Correct n w) ?_
    fun _ h => h ▸ hs
  refine Stays.bind (Stays.onlyIf (stays_throw _)) (fun _ => ?_) w
  refine (stays_attemptPreparedAccept hn hprocess hint).bind fun _ => ?_
  refine (stays_attemptPreparedConfirmed hn hprocess hint).bind fun _ => ?_
  refine (stays_attemptAcceptCommit hn hprocess hint).bind fun _ => ?_
  refine (stays_attemptConfirmCommit hn hprocess hint).bind fun _ => ?_
  refine (stays_bumpAtTop hn hprocess fuel).bind fun _ => ?_
  exact (hlevel (· - 1)).bind fun _ => Stays.onlyIf stays_sendLatestEnvelope

end Attempts

/-! ## Envelopes -/

section Process

variable [Inhabited Value] {s : BallotProtocol X Value} {env : SCPEnvelope (BallotPledges Value)}

omit [Inhabited Value] in
/-- An envelope that is newer than what is recorded of its node. -/
theorem triple_recorded (hsound : Sound (N.driver n) .start s)
    (hrecordable : Recordable (N.driver n).localNodeID s.messages.latest env) :
    Triple (At s.position s.messages) (recordEnvelope env : Ballot X Value Unit)
      (fun _ s' => Sound (N.driver n) .start s' ∧ At s.position { s.messages with
        latest := LocalNode.insertOrAssign s.messages.latest env
        history := env.statement :: s.messages.history } s') fun _ s => N.Faithful n w s.messages := by
  have hrecorded : Triple (At s.position s.messages) (recordEnvelope env : Ballot X Value Unit)
      (fun _ s' => At s.position { s.messages with
        latest := LocalNode.insertOrAssign s.messages.latest env
        history := env.statement :: s.messages.history } s') fun _ s => N.Faithful n w s.messages := by
    refine Triple.modify fun s' hs' => ⟨hs'.1, ?_⟩
    rw [← hs'.2]
    rfl
  exact ((((triple_recordEnvelope hsound hrecordable).and hrecorded).pre fun _ hs => ⟨hs, hs⟩).post
    fun _ _ hs => hs).error fun _ _ hs => hs.2

/-- Once an envelope is recorded the node goes on from a correct state. -/
theorem correct_processValid (hn : n ∈ N.honest)
    {process : SCPEnvelope (BallotPledges Value) → Bool → Ballot X Value EnvelopeState}
    (hprocess : N.Processes n process) (fuel : ℕ) (validationRes : ValidationLevel)
    (hs : N.Honest n w True s) (hsound : Sound (N.driver n) .start s)
    (hrecordable : Recordable (N.driver n).localNodeID s.messages.latest env)
    (hrecorded : ∀ s', At s.position { s.messages with
      latest := LocalNode.insertOrAssign s.messages.latest env
      history := env.statement :: s.messages.history } s' → N.Honest n w False s') :
    Triple (At s.position s.messages) (processValid (N.driver n) process fuel env validationRes)
      (fun _ s' => N.Honest n w False s' ∧ env.statement ∈ s'.messages.history)
      fun _ s => N.Faithful n w s.messages := by
  refine Triple.bind (Q := fun _ => At s.position s.messages) ?_ fun _ => ?_
  · exact Triple.onlyIf (fun _ => Triple.modify fun _ h => h) fun _ _ h => h
  refine (triple_recorded hsound hrecordable).bind fun _ s' hs' => ?_
  -- from here on the envelope counts as recorded before
  have hcorrect : N.Correct n ⟨env.statement :: s.messages.history, w.log⟩ s' := by
    obtain ⟨hfaithful, hbacked, hcontinues⟩ := hrecorded s' hs'.2
    have hm := hs'.2.2
    refine ⟨hs'.1, ⟨hfaithful.recalls, ?_, hfaithful.justified, hfaithful.heard, hfaithful.sent⟩, hbacked, hcontinues⟩
    rw [hm]
  have hkept : ∀ m, N.Faithful n ⟨env.statement :: s.messages.history, w.log⟩ m → N.Faithful n w m ∧
      env.statement ∈ m.history := by
    intro m hm
    have hsuffix := (List.suffix_cons env.statement s.messages.history).trans hm.kept
    exact ⟨⟨hm.recalls, hs.faithful.kept.trans hsuffix, hm.justified, hm.heard, hm.sent⟩,
      hm.kept.subset List.mem_cons_self⟩
  have hadvance := (stays_advanceSlot hn hprocess fuel env.statement.pledges).bind fun _ => stays_pure EnvelopeState.VALID
  refine (hadvance _ s' hcorrect).imp (fun _ s'' hs'' => ?_) fun _ s'' hs'' => (hkept _ hs'').1
  obtain ⟨hfaithful, hmem⟩ := hkept _ hs''.honest.faithful
  exact ⟨⟨hfaithful, hs''.honest.backed, hs''.honest.continues⟩, hmem⟩

omit [Inhabited Value] in
/-- The same where a value is externalized already. -/
theorem correct_processExternalized (hs : N.Honest n w True s) (hsound : Sound (N.driver n) .start s)
    (hrecordable : Recordable (N.driver n).localNodeID s.messages.latest env)
    (hrecorded : ∀ s', At s.position { s.messages with
      latest := LocalNode.insertOrAssign s.messages.latest env
      history := env.statement :: s.messages.history } s' → N.Honest n w False s') :
    Triple (At s.position s.messages) (processExternalized env : Ballot X Value EnvelopeState)
      (fun result s' => (result = .INVALID ∧ At s.position s.messages s') ∨
        (N.Honest n w False s' ∧ env.statement ∈ s'.messages.history))
      fun _ s => N.Faithful n w s.messages := by
  refine Triple.get_bind fun s' hs' => Triple.pre (P := At s.position s.messages) ?_ fun _ h => h ▸ hs'
  refine Triple.bind ((neutral_deref s'.mCommit).silent.at ((neutral_deref s'.mCommit).returns _ _) hs.throws)
    fun c => Triple.ite (fun _ => ?_) fun _ => ?_
  · refine (triple_recorded hsound hrecordable).bind fun _ => Triple.pure fun s'' hs'' => .inr ⟨?_, ?_⟩
    · exact hrecorded s'' hs''.2
    · rw [hs''.2.2]
      exact List.mem_cons_self
  · exact Triple.pure fun _ h => .inl ⟨rfl, h⟩

/-- An envelope is invalid and changes nothing, or it is recorded. -/
theorem honest_processEnvelope (hn : n ∈ N.honest) {fuel : ℕ}
    (hprocess : N.Processes n (processEnvelope (N.driver n) fuel)) {self : Bool}
    (hself : env.statement.nodeID = (N.driver n).localNodeID → self = true)
    (hs : N.Honest n w True s) (hsound : Sound (N.driver n) .start s)
    (hrecorded : ∀ s', At s.position { s.messages with
      latest := LocalNode.insertOrAssign s.messages.latest env
      history := env.statement :: s.messages.history } s' → N.Honest n w False s') :
    Triple (· = s) (processEnvelope (N.driver n) (fuel + 1) env self)
      (fun result s' => (result = .INVALID ∧ At s.position s.messages s') ∨
        (N.Honest n w False s' ∧ env.statement ∈ s'.messages.history))
      fun _ s => N.Faithful n w s.messages := by
  have hinvalid : ∀ P : BallotProtocol X Value → Prop, (∀ s', P s' → At s.position s.messages s') →
      Triple P (pure .INVALID : Ballot X Value EnvelopeState) (fun result s' => (result = .INVALID ∧ At s.position s.messages s') ∨
        (N.Honest n w False s' ∧ env.statement ∈ s'.messages.history)) fun _ s => N.Faithful n w s.messages :=
    fun P hP => Triple.pure fun s' hs' => .inl ⟨rfl, hP s' hs'⟩
  refine Triple.get_bind fun s' hs' => ?_
  subst hs'
  refine Triple.ite (fun hc => ?_) fun _ => hinvalid _ fun s hs => hs ▸ ⟨rfl, rfl⟩
  have hrecordable : Recordable (N.driver n).localNodeID s'.messages.latest env := by
    refine ⟨fun hown => ?_, (Option.all_eq_true _ _).mp hc.2⟩
    have hsane := (Bool.and_eq_true_iff.mp hc.1).2
    rwa [hself hown] at hsane
  refine Triple.pre (P := At s'.position s'.messages) ?_ fun _ h => h ▸ ⟨rfl, rfl⟩
  refine Triple.bind ((neutral_validateValues env.statement.pledges).silent.at
    ((neutral_validateValues _).returns _ _) hs.throws) fun validationRes => ?_
  refine Triple.ite (fun _ => hinvalid _ fun _ h => h) fun _ => Triple.ite (fun _ => ?_) fun _ => ?_
  · exact (correct_processValid hn hprocess fuel validationRes hs hsound hrecordable hrecorded).post
      fun _ _ h => .inr h
  · exact correct_processExternalized hs hsound hrecordable hrecorded

/-- However much fuel there is. -/
theorem processes (hn : n ∈ N.honest) (fuel : ℕ) : N.Processes n (processEnvelope (N.driver n) fuel) := by
  have hlocal := N.localNodeID n hn
  induction fuel with
  | zero =>
    refine ⟨processSpec 0, fun w env _ _ => Triple.throw fun _ hs => hs.honest.faithful,
      fun w env => Triple.throw fun _ hs => hs.2.1.faithful, fun env _ m => Triple.throw fun _ hs => hs⟩
  | succ fuel ih =>
    refine ⟨processSpec (fuel + 1), fun w env hne hhears s hs => ?_, fun w env s hs => ?_, fun env hinsane m => ?_⟩
    · have hpend : N.Honest n w True s := hs.leaves.honest hs.sound.good
      refine (honest_processEnvelope hn ih (fun hown => absurd (hown.trans hlocal) hne) hpend hs.sound
        (fun s' hs' => hs.honest.recordOther hne hhears hs') s rfl).imp (fun _ s' hs' => ?_) fun _ _ h => h
      obtain ⟨-, hs'⟩ | ⟨hs', -⟩ := hs'
      · exact hs.honest.stay hs'
      · exact hs'
    · obtain ⟨hsound, hpend, hst⟩ := hs
      refine (honest_processEnvelope hn ih (fun _ => rfl) hpend hsound
        (fun s' hs' => hpend.recordOwn hn hsound.good hst hs') s rfl).imp (fun result s' hs' => ?_) fun _ _ h => h
      obtain ⟨hinvalid, hs'⟩ | ⟨hhonest, hmem⟩ := hs'
      · exact ⟨(hpend.stay hs').faithful, fun hvalid => nomatch hvalid.symm.trans hinvalid⟩
      · exact ⟨hhonest.faithful, fun _ => ⟨hhonest, hmem⟩⟩
    · refine Triple.get_bind fun s hs => Triple.ite (fun hc => ?_) fun _ => Triple.pure fun _ h => ⟨h ▸ hs, rfl⟩
      have hsane := (Bool.and_eq_true_iff.mp hc.1).2
      exact nomatch hinsane.symm.trans hsane

end Process

/-! ## Events -/

section Events

variable [Inhabited Value]

/-- What the environment may do: envelopes in the name of an honest node are of statements that it made. -/
def Admits (N : SlotNodes X Value) (w : Past Value) : Event X Value → Prop
  | .recvSCPEnvelope env => N.Hears w env
  | _ => True

theorem correct_handle (hn : n ∈ N.honest) (fuel : ℕ) {event : Event X Value} (hadmits : N.Admits w event) :
    Triple (N.Correct n w) (handle (N.driver n) fuel event) (fun _ => N.Correct n w)
      fun _ s => N.Faithful n w s.messages := by
  have hprocess := processes hn fuel
  cases event with
  | bumpState value force => exact (stays_bumpState hn hprocess value force).discard w
  | ballotProtocolTimerExpired => exact (stays_abandonBallot hn hprocess 0).discard w
  | recvSCPEnvelope env =>
    refine Triple.onlyIf (fun hne => ?_) fun _ _ h => h
    rw [N.localNodeID n hn] at hne
    have hkeeps := (processSpec fuel).keeps env false fun hown => absurd (hown.trans (N.localNodeID n hn)) hne
    refine Triple.map _ (((((hkeeps .start).and (hprocess.other w env hne hadmits)).pre
      fun _ hs => ⟨hs.sound, hs⟩).post fun _ _ hs => ⟨hs.1, hs.2⟩).error fun _ _ hs => hs.2)
  | outside x => exact Triple.modify fun s hs => hs.stay ⟨rfl, rfl⟩

omit [Inhabited Value] in
theorem correct_new (outside : X) (log : BallotRecord Value) :
    N.Correct n ⟨[], log⟩ (new (N.driver n) outside) where
  sound := sound_new _ outside
  honest := {
    faithful := {
      recalls := ⟨List.Pairwise.nil, by nofun, by nofun⟩
      kept := List.suffix_rfl
      justified := fun st earlier h => nomatch List.suffix_nil.mp h
      heard := fun _ h => nomatch h
      sent := fun _ h => h.elim nofun nofun }
    backed := ⟨fun _ _ h => h.elim nofun nofun, by nofun, by nofun, by nofun⟩
    continues := Position.continues_start }

omit [Inhabited Value] in
/-- Later on the node recorded more, and the others have said more. -/
theorem Faithful.later {m : Messages Value} (h : N.Faithful n w m) {log : BallotRecord Value}
    (hlog : w.log ⊆ log) : N.Faithful n ⟨m.history, log⟩ m where
  recalls := h.recalls
  kept := List.suffix_rfl
  justified := h.justified
  heard st hst hhonest hne := hlog (h.heard st hst hhonest hne)
  sent := h.sent

omit [Inhabited Value] in
theorem Correct.later {s : BallotProtocol X Value} (h : N.Correct n w s) {log : BallotRecord Value}
    (hlog : w.log ⊆ log) : N.Correct n ⟨s.messages.history, log⟩ s :=
  ⟨h.sound, h.honest.faithful.later hlog, h.honest.backed, h.honest.continues⟩

end Events

end SlotNodes

end ZaggCore.Scp
